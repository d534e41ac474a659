import Webserv.CompleteRequest
import Webserv.ErrorAnswers

/-!
# Requests sent one behind the other

Requests are parsed where bytes are read, and nowhere else: what a read
leaves in the buffer waits for the next one. A client that sends no more
than one request at a time is never left waiting (`notStranded_run`);
two requests in one segment are enough to strand the second.
-/

namespace Webserv

open Bytes Program RequestParser ChunkStream

namespace RequestParser

/-! ## The body that is being read -/

/-- A parser in BODY. -/
inductive InBody (p : RequestParser) : Prop where
  | chunked (h : p.InChunkedBody)
  /-- in a coding that is not decoded -/
  | coded (hstate : p.state = .body) (herr : p.errorCode = 0) (hflag : p.hasTransferEncoding = true)
      {coding : Bytes} (hcoding : p.headers.get? (lit "transfer-encoding") = some coding)
      (hne : coding ≠ lit "chunked")
  | counted (h : Awaiting p) (herr : p.errorCode = 0)
      (hpart : p.body = [] ∨ p.body.length < p.declaredLength)

/-- The rest of the body that is being read is in the buffer. -/
inductive RestOfBody (p : RequestParser) (buffer : Bytes) : Prop where
  | counted (hlength : p.hasContentLength = true) (hcoding : p.hasTransferEncoding = false)
      (hrest : p.declaredLength ≤ p.body.length + buffer.length)
  | chunked (hflag : p.hasTransferEncoding = true)
      (hcoding : p.headers.get? (lit "transfer-encoding") = some (lit "chunked"))
      {part : Bytes} (hpart : part <+: buffer) (hend : feed chunkSize p.posOf part = .finished)

theorem inBody_of_enters {p : RequestParser} (h : EntersBody p) : InBody p := by
  cases hflag : p.hasTransferEncoding with
  | false =>
      have hlength : p.hasContentLength = true := by
        have hframing := h.framing
        rw [hflag] at hframing
        simpa using hframing
      exact .counted (h.awaiting hlength) h.errorCode (Or.inl h.body)
  | true =>
      obtain ⟨coding, hcoding⟩ := Option.isSome_iff_exists.mp (h.fields.coding.symm.trans hflag)
      by_cases hne : coding = lit "chunked"
      · exact .chunked (h.inChunkedBody (hne ▸ hcoding))
      · exact .coded h.state h.errorCode hflag hcoding hne

theorem InBody.state {p : RequestParser} (h : InBody p) : p.state = .body := by
  cases h with
  | chunked h => exact h.state
  | coded hstate => exact hstate
  | counted h => exact h.state

theorem InBody.errorCode {p : RequestParser} (h : InBody p) : p.errorCode = 0 := by
  cases h with
  | chunked h => exact h.errorCode
  | coded _ herr => exact herr
  | counted _ herr => exact herr

/-- Where the decoder stands between two calls, the body is not over. -/
theorem posOf_ne_finished (p : RequestParser) : p.posOf ≠ .finished := by
  unfold posOf
  split
  · split
    · exact fun h => by cases h
    · exact fun h => by cases h
  · exact fun h => by cases h

/-- What the decoder leaves unread does not end the body. -/
def Unfinished (p : RequestParser) (rest : Bytes) : Prop :=
  ∀ part, part <+: rest → feed chunkSize p.posOf part ≠ .finished

theorem unfinished_nil (p : RequestParser) : Unfinished p [] := by
  intro part hpart
  rw [List.prefix_nil.mp hpart, feed_nil]
  exact posOf_ne_finished p

theorem unfinished_of_feed {p : RequestParser} {rest : Bytes}
    (h : feed chunkSize p.posOf rest ≠ .finished) : Unfinished p rest := by
  rintro part ⟨more, rfl⟩ hend
  rw [feed_append, hend, feed_finished] at h
  exact h rfl

theorem unfinished_byte {p : RequestParser} (hr : p.readingChunkData = false) (c : UInt8) :
    Unfinished p [c] := by
  refine unfinished_of_feed ?_
  rw [posOf_idle hr]
  intro h
  simp [ChunkStream.step] at h

/-- A call that leaves the decoder in BODY has read all it can of the
body. -/
theorem InChunkedBody.rests {p : RequestParser} (hp : p.InChunkedBody) {t : Bytes}
    (hstate : (p.parseChunkedBody t).1.state = .body) :
    (p.parseChunkedBody t).1.InChunkedBody
      ∧ Unfinished (p.parseChunkedBody t).1 (p.parseChunkedBody t).2 := by
  induction hn : t.length using Nat.strongRecOn generalizing p t with
  | ind n ih =>
      by_cases hnil : t = []
      · rw [hnil, parseChunkedBody_nil]
        exact ⟨hp, unfinished_nil p⟩
      cases hp.round hnil with
      | more p₁ t₁ hp₁ hne hlt hfeed hiter =>
          have hiter0 := hiter []
          rw [List.append_nil, List.append_nil] at hiter0
          rw [parseChunkedBody_inl hiter0] at hstate ⊢
          exact ih t₁.length (hn ▸ hlt) hp₁ hstate rfl
      | stop p₁ t₁ hover hfeed hiter =>
          have hiter0 := hiter []
          rw [List.append_nil, List.append_nil] at hiter0
          rw [parseChunkedBody_inr hiter0] at hstate
          rcases hover with h | h
          · cases h.symm.trans hstate
          · cases h.symm.trans hstate
      | wait p₁ t₁ hp₁ hunread hcut hfeed hiter hresume =>
          rw [parseChunkedBody_inr hiter]
          refine ⟨hp₁, ?_⟩
          by_cases hleft : t₁ = []
          · rw [hleft]
            exact unfinished_nil p₁
          · refine unfinished_of_feed fun hend => ?_
            have hwaits := hunread.mp hleft
            rw [← hfeed, hend] at hwaits
            exact hwaits
      | unterminated hr hno hlen =>
          obtain ⟨c, ⟨-, hcall⟩ | ⟨-, hcall⟩ | ⟨m, hsize, hcall⟩⟩ :=
            hp.parseChunkedBody_unterminated hr hno hlen
          · rw [hcall] at hstate
            exact absurd ((hp.logError_state 400).symm.trans hstate) (by decide)
          · rw [hcall]
            exact ⟨hp, unfinished_byte hr c⟩
          · have hopen := hp.openChunk (Nat.succ_ne_zero m) (chunkSize_lt hsize)
            rw [hcall]
            refine ⟨hopen.fillChunk rfl ?_, unfinished_nil _⟩
            exact Nat.succ_le_succ (Nat.zero_le m)
      | lastByte _ c hr _ _ _ _ hiter =>
          rw [parseChunkedBody_inr hiter]
          exact ⟨hp, unfinished_byte hr c⟩

/-- A length of zero is refused as soon as the body is parsed. -/
theorem parseBody_zero {p : RequestParser} (herr : p.errorCode = 0)
    (hframing : p.hasTransferEncoding = false) (hlength : p.hasContentLength = true)
    (hnone : p.declaredLength = 0) (rest : Bytes) :
    (p.parseBody rest).1.state = .errorParse := by
  have hmain : p.parseBody rest = p.parseContentLengthBody rest := by
    rw [RequestParser.parseBody, if_neg (by rw [hframing]; decide), if_pos hlength]
  have hsnd := getHeaderValue_snd p (lit "content-length")
  rw [declaredLength, lengthField] at hnone
  rw [hmain]
  simp only [parseContentLengthBody, hsnd, hnone, or_true, if_true]
  refine logError_state ?_ 400
  exact herr

/-- A call that leaves the parser in BODY has read all there is of the
body, and the body is not complete. -/
theorem InBody.parseBody {p : RequestParser} (h : InBody p) {rest : Bytes}
    (hstate : (p.parseBody rest).1.state = .body) :
    InBody (p.parseBody rest).1 ∧ ¬RestOfBody (p.parseBody rest).1 (p.parseBody rest).2 := by
  cases h with
  | chunked h =>
      rw [parseBody_chunked h] at hstate ⊢
      obtain ⟨hq, hrests⟩ := h.rests hstate
      refine ⟨.chunked hq, fun hrest => ?_⟩
      cases hrest with
      | counted _ hcoding => exact absurd (hcoding.symm.trans hq.flag) (by decide)
      | chunked _ _ hpart hend => exact hrests _ hpart hend
  | @coded _ herr hflag coding hcoding hne =>
      have hget : p.getHeaderValue (lit "transfer-encoding") = (p, coding) := by
        simp only [getHeaderValue, OrdMap.getOrInsert, hcoding]
      have hbody : p.parseBody rest = (p.logError 501, rest) := by
        simp only [RequestParser.parseBody, if_pos hflag, hget, if_neg hne]
      rw [hbody, logError_state herr] at hstate
      cases hstate
  | counted h herr hpart =>
      by_cases hlt : p.body.length < p.declaredLength
      · have hframed := framed_parseBody p rest
        have heq := parseBody_part h.coding h.length h.numeric hlt rest
        rw [heq] at hstate hframed ⊢
        have hshort : p.body.length + rest.length < p.declaredLength := by
          by_contra hge
          simp only [withPart, if_neg hge] at hstate
          cases hstate
        have hdrop : rest.drop (p.declaredLength - p.body.length) = [] :=
          List.drop_eq_nil_of_le (by omega)
        have hlength : (p.withPart rest).body.length = p.body.length + rest.length := by
          simp only [withPart, List.length_append, List.length_take]
          omega
        have hdeclared : (p.withPart rest).declaredLength = p.declaredLength := by
          rw [declaredLength, hframed.lengthField, declaredLength]
        have hnumeric : (strtoul 10 (p.withPart rest).lengthField).2 = [] := by
          rw [hframed.lengthField]
          exact h.numeric
        refine ⟨.counted ⟨hstate, h.length, h.coding, hnumeric, Or.inr hdeclared.symm⟩ herr
          (Or.inr ?_), fun hrest => ?_⟩
        · show (p.withPart rest).body.length < (p.withPart rest).declaredLength
          rw [hlength, hdeclared]
          exact hshort
        · cases hrest with
          | counted _ _ hrest =>
              rw [hdrop, List.length_nil, hlength, hdeclared] at hrest
              omega
          | chunked hflag => exact absurd (h.coding.symm.trans hflag) (by decide)
      · have hnone : p.declaredLength = 0 := by
          rcases hpart with hnil | hpart
          · rw [hnil, List.length_nil] at hlt
            omega
          · exact absurd hpart hlt
        cases (parseBody_zero herr h.coding h.length hnone rest).symm.trans hstate

/-! ## A fresh parser -/

/-- Where a fresh parser stands between the rounds of `parse_request`. -/
inductive FreshStage : RequestParser → Prop where
  | line (method : Bytes) : FreshStage { httpMethod := method }
  | headers {p : RequestParser} (method joined : Bytes)
      (hline : p = ({} : RequestParser).withLine method joined) : FreshStage p
  | body {p : RequestParser} (h : InBody p) : FreshStage p
  | ended {p : RequestParser} (hover : p.state = .done ∨ p.state = .errorParse) : FreshStage p

/-- A parser that returns in BODY has read the whole buffer. -/
def BodyDrained : ParseExit → Prop
  | .returned p rest => p.state = .body → InBody p ∧ rest = []
  | .threw => True

theorem stage_next {p : RequestParser} {rest : Bytes} (hbody : p.state = .body → InBody p)
    (hstage : p.state ≠ .errorParse → rest ≠ [] → FreshStage p) :
    (∃ r, nextRound p rest = .inr r ∧ BodyDrained r)
      ∨ ∃ s', nextRound p rest = .inl s' ∧ FreshStage s'.1 := by
  unfold nextRound
  split
  · rename_i hend
    refine Or.inl ⟨_, rfl, fun hstate => ⟨hbody hstate, ?_⟩⟩
    exact hend.resolve_left fun herr => by cases herr.symm.trans hstate
  · rename_i hgo
    exact Or.inr ⟨_, rfl, hstage (fun h => hgo (Or.inl h)) fun h => hgo (Or.inr h)⟩

theorem stage_refused {p : RequestParser} (h : p.errorCode = 0) (code : Nat) (rest : Bytes) :
    (∃ r, nextRound (p.logError code) rest = .inr r ∧ BodyDrained r)
      ∨ ∃ s', nextRound (p.logError code) rest = .inl s' ∧ FreshStage s'.1 := by
  have hstate := logError_state h code
  exact stage_next (fun hbody => by cases hstate.symm.trans hbody) fun herr _ => absurd hstate herr

theorem freshStage_headers {p₀ : RequestParser} {method joined : Bytes}
    (hline : p₀ = ({} : RequestParser).withLine method joined) {p : RequestParser}
    {rest rest' : Bytes} (hexit : p₀.parseHeaders rest = .returned p rest') :
    (∃ r, nextRound p rest' = .inr r ∧ BodyDrained r)
      ∨ ∃ s', nextRound p rest' = .inl s' ∧ FreshStage s'.1 := by
  subst hline
  have hout := parseHeaders_outcome (p := ({} : RequestParser).withLine method joined) rfl
    (fieldsAccepted_withLine method joined) rest
  rw [hexit] at hout
  cases hout with
  | refused q code _ hq _ => exact stage_refused hq code rest'
  | ended p hf _ =>
      have hstate : p.state = .headers := by rw [hf]; rfl
      exact stage_next (fun hbody => by cases hstate.symm.trans hbody)
        fun _ hne => absurd rfl hne
  | done p _ _ _ _ _ =>
      exact stage_next (fun hbody => by cases hbody) fun _ _ => .ended (Or.inl rfl)
  | body p _ hf hp hframing =>
      have henter := inBody_of_enters (entersBody_of_head hf hp hframing)
      exact stage_next (fun _ => henter) fun _ _ => .body henter

theorem freshStage_rounds :
    WhileLoop.Rounds parseRequestIter (fun s => FreshStage s.1) BodyDrained := by
  rintro ⟨p, rest⟩ hp
  change FreshStage p at hp
  by_cases hnil : rest = []
  · rw [parseRequestIter_over (Or.inl hnil)]
    refine Or.inl ⟨_, rfl, fun hstate => ⟨?_, hnil⟩⟩
    cases hp with
    | line => cases hstate
    | headers _ _ hline =>
        rw [hline] at hstate
        cases hstate
    | body h => exact h
    | ended hover =>
        rcases hover with h | h
        · cases h.symm.trans hstate
        · cases h.symm.trans hstate
  cases hp with
  | line method =>
      have hiter : parseRequestIter ({ httpMethod := method }, rest)
          = nextRound (({ httpMethod := method } : RequestParser).parseRequestLine rest).1
            (({ httpMethod := method } : RequestParser).parseRequestLine rest).2 := by
        simp [parseRequestIter, hnil]
      rw [hiter]
      rcases parseRequestLine_cases (p := { httpMethod := method }) rfl rest with
        ⟨-, method', heq⟩ | ⟨-, q, code, hq, -, heq⟩ | ⟨-, method', -, joined, -, -, -, heq⟩
      · rw [heq]
        exact stage_next (fun hbody => by cases hbody) fun _ _ => .line method'
      · rw [heq]
        exact stage_refused hq code rest
      · rw [heq]
        exact stage_next (fun hbody => by cases hbody) fun _ _ => .headers method' joined rfl
  | headers method joined hline =>
      have hstate : p.state = .headers := by rw [hline]; rfl
      cases hexit : p.parseHeaders rest with
      | threw =>
          have hiter : parseRequestIter (p, rest) = .inr .threw := by
            simp [parseRequestIter, hnil, hstate, hexit]
          exact Or.inl ⟨_, hiter, trivial⟩
      | returned q rest' =>
          have hiter : parseRequestIter (p, rest) = nextRound q rest' := by
            simp [parseRequestIter, hnil, hstate, hexit]
          rw [hiter]
          exact freshStage_headers hline hexit
  | body h =>
      rw [parseRequestIter_body h.state hnil]
      have hstate := parseBody_state h.state rest
      refine stage_next (fun hbody => (h.parseBody hbody).1) fun herr _ => ?_
      cases hs : (p.parseBody rest).1.state with
      | requestLine => exact absurd hs hstate.1
      | headers => exact absurd hs hstate.2
      | body => exact .body (h.parseBody hs).1
      | done => exact .ended (Or.inl hs)
      | errorParse => exact absurd hs herr
  | ended hover =>
      rw [parseRequestIter_over (Or.inr hover)]
      refine Or.inl ⟨_, rfl, fun hstate => ?_⟩
      rcases hover with h | h
      · cases h.symm.trans hstate
      · cases h.symm.trans hstate

/-- A fresh parser that is left in BODY has read the whole buffer. -/
theorem parseRequest_drained {request rest : Bytes} {p : RequestParser}
    (h : ({} : RequestParser).parseRequest request = some (.returned p rest))
    (hstate : p.state = .body) : InBody p ∧ rest = [] := by
  have hrun : WhileLoop.run parseRequestIter 4 ({}, request) = some (.returned p rest) := h
  exact freshStage_rounds.run (.line []) hrun hstate

theorem not_restOfBody_nil {p : RequestParser} (h : InBody p)
    (hempty : ¬(p.hasContentLength = true ∧ p.declaredLength = 0)) : ¬RestOfBody p [] := by
  intro hrest
  cases hrest with
  | counted hlength hcoding hle =>
      rw [List.length_nil, Nat.add_zero] at hle
      cases h with
      | chunked h => exact absurd (hcoding.symm.trans h.flag) (by decide)
      | coded _ _ hflag => exact absurd (hcoding.symm.trans hflag) (by decide)
      | counted _ _ hpart =>
          rcases hpart with hnil | hlt
          · rw [hnil, List.length_nil] at hle
            exact hempty ⟨hlength, Nat.le_zero.mp hle⟩
          · exact Nat.not_lt_of_le hle hlt
  | chunked _ _ hpart hend => exact unfinished_nil p _ hpart hend

end RequestParser

/-! ## What a buffer holds -/

/-- There is a complete request in front. -/
inductive HoldsRequest (buffer : Bytes) : Prop where
  | accepted {head body rest : Bytes} {p : RequestParser} (hhead : CompleteHead head p)
      (hbody : CompleteBody p body) (heq : buffer = head ++ body ++ rest)
  /-- what is refused has no body -/
  | refused (hfind : (find doubleCrlf buffer).isSome) {p : RequestParser} {rest : Bytes}
      (hparse : ({} : RequestParser).parseRequest buffer = some (.returned p rest))
      (hstate : p.state = .errorParse)

theorem HoldsRequest.find {buffer : Bytes} (h : HoldsRequest buffer) :
    (Bytes.find doubleCrlf buffer).isSome := by
  cases h with
  | accepted hhead hbody heq =>
      rw [heq, List.append_assoc, hhead.find]
      rfl
  | refused hfind => exact hfind

theorem not_holdsRequest_nil : ¬HoldsRequest [] := fun h => absurd h.find (by decide)

namespace Connection

variable {W : Type} (os : OS W) (env : Env)

/-- A response is pending, or a CGI process is running. -/
def Busy (client : ClientServer) : Prop :=
  client.responseReady = true ∧ client.responseBuffer ≠ [] ∨ client.pendingCgi ≠ none

/-- The buffer holds the next request, or the rest of the one that is
being received. -/
def Held (client : ClientServer) : Prop :=
  (∀ p, client.parser = some p → p.state ≠ .body) ∧ HoldsRequest client.requestBuffer
    ∨ ∃ p, client.parser = some p ∧ p.state = .body ∧ RestOfBody p client.requestBuffer

/-- The connection is closed behind its next response. -/
def Closes (client : ClientServer) : Prop :=
  ∃ p, client.parser = some p ∧ p.isConnectionClose = true

/-- No request waits for bytes of another one: what an idle connection
has received, and what one that is kept alive has, is no complete
request. -/
structure NotStranded (client : ClientServer) : Prop where
  idle : client.isStarted = true → ¬Busy client → ¬Held client
  reached : client.isStarted = true → ¬Closes client → ¬Held client

/-! ## One request at a time -/

/-- The parser and the bytes that are left where a read parses what has
been received by then. -/
inductive ReadParses (client : ClientServer) (bytes : Bytes) : RequestParser → Bytes → Prop where
  | body {p q : RequestParser} {rest : Bytes} (hp : client.parser = some p)
      (hstate : p.state = .body) (hwaits : client.waitingForCgi = false)
      (hparse : p.parseRequest bytes = some (.returned q rest)) : ReadParses client bytes q rest
  | head {q : RequestParser} {rest : Bytes}
      (hhead : ∀ p, client.parser = some p → p.state = .body → client.waitingForCgi = true)
      (hfind : (find doubleCrlf bytes).isSome)
      (hparse : ({} : RequestParser).parseRequest bytes = some (.returned q rest)) :
      ReadParses client bytes (routed client.serverConfigs q) rest

/-- What a read brings, with what was there before, is no more than one
request. -/
structure OneRequest (client : ClientServer) (segment : Bytes) : Prop where
  /-- behind a request that ends here there is no complete one -/
  next : ∀ q rest, ReadParses client (client.requestBuffer ++ segment) q rest →
    q.state ≠ .body → q.isConnectionClose = false → ¬HoldsRequest rest
  /-- no body of no bytes is announced -/
  empty : ∀ q rest, ReadParses client (client.requestBuffer ++ segment) q rest →
    q.state = .body → ¬(q.hasContentLength = true ∧ q.declaredLength = 0)
  /-- no body ends while a CGI process is waited for -/
  running : ∀ p, client.parser = some p → p.state = .body → client.waitingForCgi = true →
    find doubleCrlf (client.requestBuffer ++ segment) = none →
    ¬RestOfBody p (client.requestBuffer ++ segment)

/-- The client does not send ahead. -/
def Unpipelined (c : Connection W) : Event → Prop
  | .client _ (some (some segment)) _ =>
      bodyTooLarge c.client = .ok none → OneRequest c.client segment.val
  | _ => True

/-! ## The invariant -/

/-- Nothing is held, or the response that closes the connection is on its
way. -/
structure Calm (client : ClientServer) : Prop where
  body : ∀ p, client.parser = some p → p.state = .body → InBody p
  held : client.isStarted = true → ¬Held client ∨ Closes client ∧ Busy client

theorem Calm.notStranded {client : ClientServer} (h : Calm client) : NotStranded client where
  idle := fun hs hidle => (h.held hs).resolve_right fun hbusy => hidle hbusy.2
  reached := fun hs hkeep => (h.held hs).resolve_right fun hbusy => hkeep hbusy.1

/-- Only what the response is like has changed. -/
theorem Calm.of_same {client client' : ClientServer} (h : Calm client)
    (hparser : client'.parser = client.parser)
    (hbuffer : client'.requestBuffer = client.requestBuffer)
    (hstarted : client'.isStarted = client.isStarted) (hbusy : Busy client → Busy client') :
    Calm client' := by
  have hheld : Held client' ↔ Held client := by simp only [Held, hparser, hbuffer]
  have hcloses : Closes client' ↔ Closes client := by simp only [Closes, hparser]
  refine ⟨fun p hp => h.body p (hparser ▸ hp), fun hs => ?_⟩
  rw [hheld, hcloses]
  exact (h.held (hstarted ▸ hs)).imp_right fun h' => ⟨h'.1, hbusy h'.2⟩

theorem calm_terminated {c : Connection W} (h : Calm c.client) : Calm c.terminated.client := by
  unfold terminated
  split
  · exact ⟨(fun p hp => by cases hp), (fun hs => by cases hs)⟩
  · exact h

/-- A buffer with no head in it, and no rest of a body. -/
theorem not_held {client : ClientServer}
    (hnext : (∀ p, client.parser = some p → p.state ≠ .body) →
      ¬HoldsRequest client.requestBuffer)
    (hrest : ∀ p, client.parser = some p → p.state = .body →
      ¬RestOfBody p client.requestBuffer) : ¬Held client := by
  rintro (⟨hbody, hholds⟩ | ⟨p, hp, hstate, hheld⟩)
  · exact hnext hbody hholds
  · exact hrest p hp hstate hheld

/-! ## Responses -/

theorem generateResponseOnly_ne_nil (b : ResponseBuilder) :
    (b.generateResponseOnly env).2 ≠ [] := by
  intro h
  have hlength := congrArg List.length h
  simp [ResponseBuilder.generateResponseOnly, ResponseBuilder.generateResponseString,
    ResponseBuilder.statusLine] at hlength

theorem errorResponse_ne_nil (w : W) (b : ResponseBuilder) (code : Int) :
    (errorResponse os env w b code).2 ≠ [] :=
  generateResponseOnly_ne_nil env _

theorem buildResponse_ne_nil {w w' : W} {b b' : ResponseBuilder} {response : Bytes}
    (h : b.buildResponse os env w = some (b', w', response)) : response ≠ [] := by
  unfold ResponseBuilder.buildResponse at h
  split at h
  · obtain ⟨-, -, rfl⟩ := Prod.mk.injEq .. ▸ Prod.mk.injEq .. ▸ Option.some.inj h
    exact generateResponseOnly_ne_nil env _
  · split at h
    · cases h
    · obtain ⟨-, -, rfl⟩ := Prod.mk.injEq .. ▸ Prod.mk.injEq .. ▸ Option.some.inj h
      exact generateResponseOnly_ne_nil env _

/-- A request that has been dispatched keeps the connection busy. -/
theorem processCompletedRequest_busy {c c' : Connection W} {p : RequestParser}
    (hp : c.client.parser = some p) (hok : processCompletedRequest os env c = .ok () c') :
    Busy c'.client := by
  rw [processCompletedRequest_eq os env hp] at hok
  split at hok
  · rename_i hcgi
    have hresult := processCgiRequest_result os env (p := p.setRequestLine) hcgi
      (c.withParser (some p.setRequestLine))
    rw [hok] at hresult
    cases hresult with
    | refuse => exact Or.inl ⟨rfl, generateResponseOnly_ne_nil env _⟩
    | start => exact Or.inr fun h => by cases h
  · have hrun : (processNormalRequest os env p.setRequestLine).run
        (c.withParser (some p.setRequestLine)) = .ok () c' := hok
    simp only [processNormalRequest, EStateM.run_bind, EStateM.run_get] at hrun
    split at hrun
    · cases hrun
    · rename_i hbuild
      cases hrun
      exact Or.inl ⟨rfl, buildResponse_ne_nil os env hbuild⟩

/-- Behind a dispatch the connection is closed, or nothing is held. -/
theorem calm_dispatched {c c' : Connection W} {p : RequestParser} {rest : Bytes}
    (hp : c.client.parser = some p) (hrest : c.client.requestBuffer = rest)
    (hstate : p.state ≠ .body) (hnext : p.isConnectionClose = false → ¬HoldsRequest rest)
    (hok : processCompletedRequest os env c = .ok () c') : Calm c'.client := by
  obtain ⟨hparser, hbuffer, -⟩ := processCompletedRequest_input os env hp
  rw [hok] at hparser hbuffer
  change c'.client.parser = some p.setRequestLine at hparser
  change c'.client.requestBuffer = c.client.requestBuffer at hbuffer
  have hbody : ∀ q, c'.client.parser = some q → q.state ≠ .body := by
    intro q hq
    obtain rfl := Option.some.inj (hparser.symm.trans hq)
    exact hstate
  refine ⟨fun q hq hs => absurd hs (hbody q hq), fun _ => ?_⟩
  cases hclose : p.isConnectionClose with
  | true =>
      exact Or.inr ⟨⟨p.setRequestLine, hparser, hclose⟩,
        processCompletedRequest_busy os env hp hok⟩
  | false =>
      refine Or.inl (not_held (fun _ => ?_) fun q hq hs => absurd hs (hbody q hq))
      rw [hbuffer, hrest]
      exact hnext hclose

/-! ## Reading -/

/-- Routing leaves a parser in BODY as it is, if there is a location. -/
theorem inBody_routed {servers : ServerGroup} {q : RequestParser} (hl : q.locationConfig = none)
    (hq : q.state = .body → InBody q) (hstate : (routed servers q).state = .body) :
    q.state = .body ∧ InBody (routed servers q) := by
  by_cases herr : q.errorCode = 0
  · have hrouted := routed_state servers herr hl
    by_cases hlocated : (q.matchLocation servers).locationConfig.isSome
    · rw [if_pos hlocated, hstate] at hrouted
      obtain ⟨cfg, l, heq⟩ := matchLocation_some hl hlocated
      rw [routed, if_pos herr, heq]
      refine ⟨hrouted.symm, ?_⟩
      cases hq hrouted.symm with
      | chunked h => exact .chunked ⟨h.state, h.errorCode, h.flag, h.coding, h.idle, h.busy⟩
      | coded h₁ h₂ h₃ hcoding hne => exact .coded h₁ h₂ h₃ hcoding hne
      | counted h h₂ hpart =>
          exact .counted ⟨h.state, h.length, h.coding, h.numeric, h.part⟩ h₂ hpart
    · rw [if_neg hlocated, hstate] at hrouted
      cases hrouted
  · have hrouted : routed servers q = q := if_neg herr
    rw [hrouted] at hstate ⊢
    exact ⟨hstate, hq hstate⟩

theorem threw_never {buffer : Bytes} (hfind : (find doubleCrlf buffer).isSome) :
    ({} : RequestParser).parseRequest buffer ≠ some .threw := by
  intro hthrew
  rcases parse_verdict buffer with ⟨-, hd, -⟩ | ⟨-, r, ⟨hl, -⟩, hne⟩
  · rw [(parseRequest_eq_none buffer).mpr hd] at hthrew
    cases hthrew
  · have hrun : WhileLoop.run parseRequestIter 4 ({}, buffer) = some .threw := hthrew
    rw [hl] at hrun
    exact hne (infix_of_find hfind) (Option.some.inj hrun)

theorem parseRequest_inBody {p q : RequestParser} (hstate : p.state = .body)
    {request rest : Bytes} (h : p.parseRequest request = some (.returned q rest)) :
    p.parseBody request = (q, rest) := by
  rw [parseRequest, if_pos hstate, Option.some.injEq, ParseExit.returned.injEq] at h
  exact Prod.ext h.1 h.2

/-- The read path behind the segment, on a parser in BODY. -/
theorem parseReceived_inBody {c c' : Connection W} {p : RequestParser}
    (hp : c.client.parser = some p) (hstate : p.state = .body)
    (hw : c.client.waitingForCgi = false) (hok : parseReceived os env c = .ok () c') :
    ∃ q rest, p.parseRequest c.client.requestBuffer = some (.returned q rest)
      ∧ (q.state = .body ∧ c' = c.parsed p q rest
        ∨ q.state ≠ .body ∧ processCompletedRequest os env (c.parsed p q rest) = .ok () c') := by
  have hgo : ¬(p.state ≠ .body ∨ c.client.waitingForCgi = true) := by
    rw [hstate, hw]
    decide
  have hparse : p.parseRequest c.client.requestBuffer
      = some (.returned (p.parseBody c.client.requestBuffer).1
        (p.parseBody c.client.requestBuffer).2) := by
    rw [parseRequest, if_pos hstate]
  have hnext := parseBody_state hstate c.client.requestBuffer
  generalize (p.parseBody c.client.requestBuffer).1 = q at hparse hnext
  generalize (p.parseBody c.client.requestBuffer).2 = rest at hparse
  have hrun : (parseReceived os env).run c = .ok () c' := hok
  simp only [parseReceived, isParsingRequestBody, parseRequestBody, EStateM.run_bind,
    EStateM.run_get, hp, if_neg hgo, hparse, EStateM.run_set] at hrun
  refine ⟨q, rest, hparse, ?_⟩
  by_cases hq : q.state = .body
  · simp [hq] at hrun
    exact Or.inl ⟨hq, hrun.symm⟩
  · have hover : q.state = .done ∨ q.state = .errorParse := by
      cases hs : q.state with
      | requestLine => exact absurd hs hnext.1
      | headers => exact absurd hs hnext.2
      | body => exact absurd hs hq
      | done => exact Or.inl rfl
      | errorParse => exact Or.inr rfl
    refine Or.inr ⟨hq, ?_⟩
    show (processCompletedRequest os env).run (c.parsed p q rest) = .ok () c'
    simp only [if_pos hover, EStateM.run_bind] at hrun
    cases hdispatch : (processCompletedRequest os env).run (c.parsed p q rest) with
    | error e s =>
        rw [hdispatch] at hrun
        cases hrun
    | ok a s =>
        rw [hdispatch] at hrun
        exact hrun

theorem parseReceived_atHead {c : Connection W}
    (hhead : ∀ p, c.client.parser = some p → p.state = .body → c.client.waitingForCgi = true) :
    parseReceived os env c = processRequestHeaders os env c := by
  show (parseReceived os env).run c = (processRequestHeaders os env).run c
  cases hp : c.client.parser with
  | none => simp [parseReceived, isParsingRequestBody, hp]
  | some p =>
      have hskip : p.state ≠ .body ∨ c.client.waitingForCgi = true := by
        by_cases hstate : p.state = .body
        · exact Or.inr (hhead p hp hstate)
        · exact Or.inl hstate
      simp [parseReceived, isParsingRequestBody, hp, hskip]

/-- The parser `before` makes `q` of the buffer: the one of the request in
BODY, or a new one at a head. -/
inductive Parses (c : Connection W) : RequestParser → RequestParser → Bytes → Prop where
  | body {p q : RequestParser} {rest : Bytes} (hp : c.client.parser = some p)
      (hstate : p.state = .body)
      (hparse : p.parseRequest c.client.requestBuffer = some (.returned q rest)) :
      Parses c p q rest
  | head {p : RequestParser} {rest : Bytes}
      (hatHead : ∀ p, c.client.parser = some p → p.state = .body →
        c.client.waitingForCgi = true)
      (hfound : (find doubleCrlf c.client.requestBuffer).isSome)
      (hparse : ({} : RequestParser).parseRequest c.client.requestBuffer
        = some (.returned p rest)) :
      Parses c {} (routed c.client.serverConfigs p) rest

/-- The read path behind the segment: nothing is complete, or a parser is
run, and a request that it completes is dispatched. -/
theorem parseReceived_cases {c c' : Connection W} (hok : parseReceived os env c = .ok () c') :
    c' = c ∨ ∃ before q rest, Parses c before q rest
      ∧ (q.state = .body ∧ c' = c.parsed before q rest
        ∨ q.state ≠ .body
          ∧ processCompletedRequest os env (c.parsed before q rest) = .ok () c') := by
  by_cases hbody : ∃ p, c.client.parser = some p ∧ p.state = .body
      ∧ c.client.waitingForCgi = false
  · obtain ⟨p, hp, hstate, hw⟩ := hbody
    obtain ⟨q, rest, hparse, hrest⟩ := parseReceived_inBody os env hp hstate hw hok
    exact Or.inr ⟨p, q, rest, .body hp hstate hparse, hrest⟩
  have hatHead : ∀ p, c.client.parser = some p → p.state = .body →
      c.client.waitingForCgi = true := by
    intro p hp hstate
    by_contra hw
    exact hbody ⟨p, hp, hstate, by simpa using hw⟩
  rw [parseReceived_atHead os env hatHead] at hok
  cases hfind : find doubleCrlf c.client.requestBuffer with
  | none =>
      rw [processRequestHeaders_waits os env hfind] at hok
      cases hok
      exact Or.inl rfl
  | some n =>
  have hfound : (find doubleCrlf c.client.requestBuffer).isSome := by rw [hfind]; rfl
  cases hparse : ({} : RequestParser).parseRequest c.client.requestBuffer with
  | none =>
      have hrun : (processRequestHeaders os env).run c = .ok () c' := hok
      simp [processRequestHeaders, EStateM.run_bind, EStateM.run_get, hfind, hparse] at hrun
  | some r =>
      cases r with
      | threw => exact absurd hparse (threw_never hfound)
      | returned p rest =>
          rw [processRequestHeaders_parsed os env hfound hparse] at hok
          refine Or.inr ⟨{}, _, rest, .head hatHead hfound hparse, ?_⟩
          split at hok
          · rename_i hstate
            cases hok
            exact Or.inl ⟨hstate, rfl⟩
          · rename_i hstate
            exact Or.inr ⟨hstate, hok⟩

/-- What is read one request at a time is parsed at once. -/
theorem calm_parseReceived {c₀ c c' : Connection W} {segment : Segment}
    (hbody : ∀ p, c₀.client.parser = some p → p.state = .body → InBody p)
    (hsame : SameInput ((c₀.log c₀.moment .read).received env segment) c)
    (hone : OneRequest c₀.client segment.val)
    (hok : parseReceived os env c = .ok () c') : Calm c'.client := by
  have hparser : c.client.parser = c₀.client.parser := hsame.parser
  have hwaits : c.client.waitingForCgi = c₀.client.waitingForCgi := hsame.waiting
  have hservers : c.client.serverConfigs = c₀.client.serverConfigs := hsame.servers
  have hbuffer : c.client.requestBuffer = c₀.client.requestBuffer ++ segment.val := hsame.buffer
  rw [← hparser] at hbody
  by_cases hreads : ∃ p, c.client.parser = some p ∧ p.state = .body
      ∧ c.client.waitingForCgi = false
  · obtain ⟨p, hp, hstate, hw⟩ := hreads
    obtain ⟨q, rest, hparse, hnext⟩ := parseReceived_inBody os env hp hstate hw hok
    have hreads : ReadParses c₀.client (c₀.client.requestBuffer ++ segment.val) q rest :=
      .body (hparser ▸ hp) hstate (hwaits ▸ hw) (hbuffer ▸ hparse)
    rcases hnext with ⟨hq, rfl⟩ | ⟨hq, hok⟩
    · have heq := parseRequest_inBody hstate hparse
      have hbody' : (p.parseBody c.client.requestBuffer).1.state = .body := by
        rw [heq]
        exact hq
      obtain ⟨hin, hrests⟩ := (hbody p hp hstate).parseBody hbody'
      rw [heq] at hin hrests
      refine ⟨fun q' hq' _ => Option.some.inj hq' ▸ hin, fun _ => Or.inl (not_held ?_ ?_)⟩
      · exact fun hno => absurd hq (hno q rfl)
      · exact fun q' hq' _ => Option.some.inj hq' ▸ hrests
    · exact calm_dispatched os env rfl rfl hq (hone.next q rest hreads hq) hok
  · have hhead : ∀ p, c.client.parser = some p → p.state = .body →
        c.client.waitingForCgi = true := by
      intro p hp hstate
      by_contra hw
      exact hreads ⟨p, hp, hstate, by simpa using hw⟩
    rw [parseReceived_atHead os env hhead] at hok
    cases hfind : find doubleCrlf c.client.requestBuffer with
    | none =>
        rw [processRequestHeaders_waits os env hfind] at hok
        cases hok
        refine ⟨hbody, fun _ => Or.inl (not_held (fun _ hholds => ?_) fun p hp hstate => ?_)⟩
        · have hsome := hholds.find
          rw [hfind] at hsome
          cases hsome
        · have hwaiting := hhead p hp hstate
          rw [hbuffer] at hfind ⊢
          exact hone.running p (hparser ▸ hp) hstate (hwaits ▸ hwaiting) hfind
    | some k =>
        have hsome : (find doubleCrlf c.client.requestBuffer).isSome := by rw [hfind]; rfl
        cases hparse : ({} : RequestParser).parseRequest c.client.requestBuffer with
        | none =>
            have hrun : (processRequestHeaders os env).run c = .ok () c' := hok
            simp only [processRequestHeaders, EStateM.run_bind, EStateM.run_get, hfind, hparse,
              Option.isNone_some, Bool.false_eq_true, if_false] at hrun
            cases hrun
        | some exit =>
            cases exit with
            | threw => exact absurd hparse (threw_never hsome)
            | returned q rest =>
                have hreads : ReadParses c₀.client (c₀.client.requestBuffer ++ segment.val)
                    (routed c.client.serverConfigs q) rest := by
                  rw [hservers]
                  rw [hparser, hwaits] at hhead
                  exact .head hhead (hbuffer ▸ hsome) (hbuffer ▸ hparse)
                rw [processRequestHeaders_parsed os env hsome hparse] at hok
                split at hok
                · rename_i hstate
                  cases hok
                  obtain ⟨hq, hin⟩ := inBody_routed (kept_parseRequest hparse).locationConfig
                    (fun hq => (parseRequest_drained hparse hq).1) hstate
                  obtain ⟨-, rfl⟩ := parseRequest_drained hparse hq
                  refine ⟨fun q' hq' _ => Option.some.inj hq' ▸ hin,
                    fun _ => Or.inl (not_held ?_ ?_)⟩
                  · exact fun _ => not_holdsRequest_nil
                  · exact fun q' hq' _ => Option.some.inj hq' ▸
                      not_restOfBody_nil hin (hone.empty _ _ hreads hstate)
                · rename_i hstate
                  exact calm_dispatched os env rfl rfl hstate (hone.next _ _ hreads hstate) hok

theorem calm_onInput {c c' : Connection W} (h : Calm c.client)
    (input : Option (Option Segment))
    (hone : ∀ segment, input = some (some segment) → bodyTooLarge c.client = .ok none →
      OneRequest c.client segment.val)
    (hok : onInput os env input c = .ok () c') : Calm c'.client := by
  have hread : Calm (c.log c.moment .read).client := h
  cases input with
  | none =>
      cases hok
      exact h
  | some data =>
  have hrun : handleIncomingData os env data c = .ok () c' := hok
  cases hsmall : bodyTooLarge c.client with
  | error fault =>
      rw [handleIncomingData_fault os env data hsmall] at hrun
      cases hrun
  | ok large =>
  cases large with
  | some p =>
      rw [handleIncomingData_tooLarge env data hsmall] at hrun
      cases hrun
      exact calm_terminated h
  | none =>
  cases data with
  | none =>
      rw [handleIncomingData_closed os env hsmall] at hrun
      cases hrun
      exact calm_terminated hread
  | some segment =>
      obtain ⟨c₁, hsame, heq⟩ := handleIncomingData_received os env (c := c) segment hsmall
      rw [heq] at hrun
      exact calm_parseReceived os env h.body hsame (hone segment rfl hsmall) hrun

/-! ## Writing -/

/-- Calm is kept. -/
def KeepsCalm (c c' : Connection W) : Prop := Calm c.client → Calm c'.client

theorem keepsCalm_checkCgiProgress {P : Connection W → Prop} :
    Makes KeepsCalm P (checkCgiProgress os env) := by
  refine makes_checkCgiProgress (fun c k p _ h => ?_) fun c h => h.of_same rfl rfl rfl id
  unfold cgiTimedOut
  exact h.of_same rfl rfl rfl fun _ => Or.inl ⟨rfl, errorResponse_ne_nil os env _ _ _⟩

/-- The end of a response closes the connection, or nothing is held. -/
theorem calm_finalized {c c' : Connection W} (h : Calm c.client)
    (hparser : c'.client.parser = c.client.parser)
    (hbuffer : c'.client.requestBuffer = c.client.requestBuffer)
    (hstarted : c'.client.isStarted = c.client.isStarted) : Calm (finalized c').client := by
  have hbody : ∀ p, c'.client.parser = some p → p.state = .body → InBody p :=
    fun p hp => h.body p (hparser ▸ hp)
  unfold finalized
  split
  · unfold terminated
    split
    · exact ⟨(fun p hp => by cases hp), (fun hs => by cases hs)⟩
    · rename_i hclosed
      exact ⟨hbody, fun hs => absurd hs hclosed⟩
  · rename_i hkeep
    have hkeeps : shouldKeepAlive c'.client = true := by simpa using hkeep
    obtain ⟨p, hp, hopen⟩ := (Option.any_eq_true _ _).mp hkeeps
    have hcloses : ¬Closes c.client := by
      rintro ⟨q, hq, hclose⟩
      rw [hparser, hq] at hp
      obtain rfl := Option.some.inj hp
      simp [hclose] at hopen
    have hheld : c.client.isStarted = true → ¬Held c.client :=
      fun hs => (h.held hs).resolve_right fun hbusy => hcloses hbusy.1
    split
    · rename_i herr
      refine ⟨(fun p hp => by cases hp), fun hs => Or.inl ?_⟩
      refine not_held (fun _ hholds => hheld (hstarted ▸ hs) (Or.inl ⟨fun q hq hstate => ?_, ?_⟩))
        (fun q hq => by cases hq)
      · rw [← hparser] at hq
        rw [hq, Option.any_some, (hbody q hq hstate).errorCode] at herr
        simp at herr
      · exact hbuffer ▸ hholds
    · refine ⟨hbody, fun hs => Or.inl fun hheld' => hheld (hstarted ▸ hs) ?_⟩
      simp only [Held, builderDeleted, hparser, hbuffer] at hheld'
      exact hheld'

theorem calm_handleResponse (sent : Sent) {c c' : Connection W} (h : Calm c.client)
    (hok : handleResponse env sent c = .ok () c') : Calm c'.client := by
  obtain ⟨c₁, hresponse, hresponds, hready⟩ := handleResponse_responds env sent c
  cases hresponse.symm.trans hok
  cases hresponds with
  | idle => exact h
  | dropped => exact calm_terminated h
  | part n hleft =>
      rcases hready with hsame | hready
      · rw [hsame]
        exact h
      · exact h.of_same rfl rfl rfl fun _ => Or.inl ⟨hready, hleft⟩
  | last n => exact calm_finalized h rfl rfl rfl

/-! ## Events -/

theorem keepsCalm_onPipeEvent {P : Connection W → Prop} (k : Nat) (ev : PipeEvent) :
    Makes KeepsCalm P (onPipeEvent env k ev : Method W Unit) := by
  refine makes_onPipeEvent (fun c i b _ _ _ h => ?_) (fun c handler b _ _ => id)
    (fun c handler handler' _ => id) ev
  unfold cgiCompleted
  exact h.of_same rfl rfl rfl fun _ => Or.inl ⟨rfl, generateResponseOnly_ne_nil env _⟩

theorem calm_of_makes {x : Method W Unit} {c c' : Connection W} (h : Calm c.client)
    (hx : Makes KeepsCalm (fun t => t = c) x) (hok : x c = .ok () c') : Calm c'.client := by
  have hkeeps := hx.step (fun _ => id) (fun _ _ _ h h' hc => h' (h hc)) rfl
  rw [hok] at hkeeps
  exact hkeeps h

theorem calm_step {c c' : Connection W} (h : Calm c.client) {ev : Event}
    (hone : Unpipelined c ev) (hok : step os ev c = .ok () c') : Calm c'.client := by
  have hrun : (step os ev).run c = .ok () c' := hok
  cases ev with
  | client env input output =>
      simp only [step, EStateM.run_bind, EStateM.run_get] at hrun
      split at hrun
      · obtain ⟨_, c₁, hinput, houtput⟩ := ok_of_bind hrun
        have hcalm : Calm c₁.client := by
          refine calm_onInput os env h input (fun segment hsegment hsmall => ?_) hinput
          subst hsegment
          exact hone hsmall
        cases output with
        | none =>
            cases houtput
            exact hcalm
        | some sent =>
            obtain ⟨_, c₂, hcheck, hresponse⟩ := ok_of_bind houtput
            exact calm_handleResponse env sent
              (calm_of_makes hcalm (keepsCalm_checkCgiProgress os env) hcheck) hresponse
      · cases hrun
        exact h
  | pipe env k pipeEvent =>
      simp only [step, EStateM.run_bind, EStateM.run_get] at hrun
      split at hrun
      · exact calm_of_makes h (keepsCalm_onPipeEvent env k pipeEvent) hrun
      · cases hrun
        exact h

theorem calm_run : ∀ (evs : List Event) {c c' : Connection W}, Calm c.client →
    (∀ before ev after, evs = before ++ ev :: after →
      Unpipelined (final (run os before c)) ev) →
    run os evs c = .ok () c' → Calm c'.client
  | [], c, c', h, _, hok => by
      cases hok
      exact h
  | ev :: evs, c, c', h, hone, hok => by
      obtain ⟨_, c₁, hstep, hrest⟩ := ok_of_bind hok
      refine calm_run evs (calm_step os h (hone [] ev evs rfl) hstep) ?_ hrest
      intro before ev' after heq
      have hlater := hone (ev :: before) ev' after (by rw [heq]; rfl)
      have hrun : run os (ev :: before) c = run os before c₁ := by
        show EStateM.bind (step os ev) _ c = _
        unfold EStateM.bind
        rw [hstep]
      rwa [hrun] at hlater

theorem calm_accepted (garbage continueSent : Bool) (lastActivity : Int) (fd fd' : Nat)
    (serverConfigs : ServerGroup) (world : W) :
    Calm (accepted garbage continueSent lastActivity fd fd' serverConfigs world).client where
  body := fun p hp => by cases hp
  held := fun _ => Or.inl (not_held (fun _ => not_holdsRequest_nil) fun p hp => by cases hp)

end Connection

open Connection

/-- A connection to which no read brings more than one request is never
left with a complete one: whenever the events so far have been dealt
with. -/
theorem notStranded_run {W : Type} (os : OS W) (garbage continueSent : Bool)
    (lastActivity : Int) (fd fd' : Nat) (serverConfigs : ServerGroup) (world : W)
    {evs : List Connection.Event}
    (hone : ∀ before ev after, evs = before ++ ev :: after → Unpipelined (final (run os before
      (accepted garbage continueSent lastActivity fd fd' serverConfigs world))) ev)
    {c : Connection W} (hok : run os evs
      (accepted garbage continueSent lastActivity fd fd' serverConfigs world) = .ok () c) :
    NotStranded c.client :=
  (calm_run os evs (calm_accepted garbage continueSent lastActivity fd fd' serverConfigs world)
    hone hok).notStranded

/-- A request that is over where it is read, with nothing behind it. -/
theorem oneRequest_over {client : ClientServer} (hnew : client.parser = none) {segment : Bytes}
    {q : RequestParser}
    (hparse : ({} : RequestParser).parseRequest (client.requestBuffer ++ segment)
      = some (.returned q []))
    (hstate : (routed client.serverConfigs q).state ≠ .body) : OneRequest client segment := by
  have hreads : ∀ q' rest, ReadParses client (client.requestBuffer ++ segment) q' rest →
      rest = [] ∧ q'.state ≠ .body := by
    intro q' rest hreads
    cases hreads with
    | body hp =>
        rw [hnew] at hp
        cases hp
    | head _ _ hparse' =>
        rw [hparse, Option.some.injEq, ParseExit.returned.injEq] at hparse'
        obtain ⟨rfl, rfl⟩ := hparse'
        exact ⟨rfl, hstate⟩
  refine ⟨fun q' rest h _ _ => ?_, fun q' rest h hbody => ?_, fun p hp => ?_⟩
  · rw [(hreads q' rest h).1]
    exact not_holdsRequest_nil
  · exact absurd hbody (hreads q' rest h).2
  · rw [hnew] at hp
    cases hp

/-- A request for a file fits into one read. -/
theorem getRequest_size : lit "GET /a HTTP/1.1\r\nHost: a\r\n\r\n" ≠ []
    ∧ (lit "GET /a HTTP/1.1\r\nHost: a\r\n\r\n").length ≤ rdSize := by
  simp [lit, rdSize]

def getRequest : Segment :=
  ⟨lit "GET /a HTTP/1.1\r\nHost: a\r\n\r\n", getRequest_size⟩

/-- What the parser makes of it. -/
def getParser : RequestParser where
  httpMethod := lit "GET"
  requestUri := lit "/a"
  httpVersion := lit "HTTP/1.1"
  headers := OrdMap.empty.insert (lit "host") (lit "a")
  state := .done

/-- One request, and its response. -/
def getEvents : List Connection.Event :=
  [.client { now := 0 } (some (some getRequest)) (some (some ⟨1000, by decide⟩))]

theorem notStranded_run_get : ∃ c, run flatOs getEvents
      (accepted false false 0 3 4 scriptServers ()) = .ok () c ∧ NotStranded c.client := by
  have hok : error? (run flatOs getEvents
      (accepted false false 0 3 4 scriptServers ())) = none := by
    decide +kernel
  refine ⟨_, ok_of_error? hok, notStranded_run flatOs false false 0 3 4 scriptServers () ?_
    (ok_of_error? hok)⟩
  intro before ev after heq
  cases before with
  | nil =>
      obtain ⟨rfl, -⟩ := List.cons.inj heq
      refine fun _ => oneRequest_over rfl (q := getParser) ?_ ?_
      · decide +kernel
      · decide +kernel
  | cons ev' before =>
      have hnil := (List.cons.inj heq).2
      exact absurd hnil.symm (by simp)

/-- Two requests in one segment. -/
def getTwice : Segment :=
  ⟨lit "GET /a HTTP/1.1\r\nHost: a\r\n\r\nGET /a HTTP/1.1\r\nHost: a\r\n\r\n",
    by decide +kernel⟩

/-- They are read, and the response to the first is sent. -/
def aheadEvents : List Connection.Event :=
  [.client { now := 0 } (some (some getTwice)) (some (some ⟨1000, by decide⟩))]

/-- The second request waits, and nothing is left to wake it. -/
theorem not_notStranded_run :
    ¬∀ (W : Type) (os : OS W) (garbage continueSent : Bool) (lastActivity : Int) (fd fd' : Nat)
      (serverConfigs : ServerGroup) (world : W) (evs : List Connection.Event)
      (c : Connection W), run os evs (accepted garbage continueSent lastActivity fd fd'
        serverConfigs world) = .ok () c → NotStranded c.client := by
  intro h
  have hok : error? (run flatOs aheadEvents
      (accepted false false 0 3 4 scriptServers ())) = none := by
    decide +kernel
  have hstranded := h Unit flatOs false false 0 3 4 scriptServers () aheadEvents _
    (ok_of_error? hok)
  generalize hc : (final (run flatOs aheadEvents
    (accepted false false 0 3 4 scriptServers ()))).client = client at hstranded
  obtain ⟨hstarted, hready, hcgi, hbuffer, hparser⟩ : client.isStarted = true
      ∧ client.responseReady = false ∧ client.pendingCgi = none
      ∧ client.requestBuffer = getRequest.val ++ [] ++ []
      ∧ client.parser.all (fun p => decide (p.state = .done)) = true := by
    rw [← hc]
    decide +kernel
  refine hstranded.idle hstarted ?_ (Or.inl ⟨fun p hp => ?_, ?_⟩)
  · rintro (⟨hpending, -⟩ | hrunning)
    · rw [hready] at hpending
      cases hpending
    · exact hrunning hcgi
  · rw [hp, Option.all_some, decide_eq_true_eq] at hparser
    rw [hparser]
    decide
  · refine .accepted (p := getParser) ⟨?_, ⟨_, _, rfl, ?_, ?_⟩, rfl⟩ (.none rfl rfl) hbuffer
    · decide +kernel
    · decide +kernel
    · decide +kernel

end Webserv
