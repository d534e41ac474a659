import Webserv.RequestHead

/-!
# Termination of `parse_request`

A parser in BODY parses what it is given and returns. A fresh parser
runs the loop of `parse_request`, and `Stalls` names the buffers that
keep it in there: those whose request line is neither accepted nor
refused, and those that leave the chunk decoder waiting with bytes
unread. Every other buffer is left within four rounds.
-/

namespace Webserv

open Bytes ChunkStream RequestParser WhileLoop

/-- The iteration advances `pos`, changes the state, or leaves the loop. -/
def Progress (s : RequestParser × Bytes) : Prop :=
  ∀ s', parseRequestIter s = .inl s' →
    s'.2.length < s.2.length ∨ s'.1.state ≠ s.1.state

/-- The parser a fresh parser has become at the start of the body, and the
bytes behind the head, when the head of the buffer is accepted. -/
def acceptedHead (request : Bytes) : Option (RequestParser × Bytes) :=
  let (p, rest) := ({} : RequestParser).parseRequestLine request
  if p.state = .headers then
    match p.parseHeaders rest with
    | .returned p rest => if p.state = .body then some (p, rest) else none
    | .threw => none
  else none

/-- The buffer is a chunked request, and the chunk decoder waits with
bytes unread at the end of the buffer. -/
def ChunksWait (request : Bytes) : Prop :=
  match acceptedHead request with
  | some (p, rest) =>
      p.headers.get? (lit "transfer-encoding") = some (lit "chunked")
        ∧ WaitsUnread (feed chunkSize (.size []) rest)
  | none => False

instance : DecidablePred ChunksWait := fun request => by
  unfold ChunksWait
  split <;> infer_instance

/-- The buffers on which a fresh parser never returns. -/
def Stalls (request : Bytes) : Prop :=
  request ≠ [] ∧ (LineIgnored request ∨ ChunksWait request)

instance : DecidablePred Stalls := fun request => by
  unfold Stalls
  infer_instance

/-! ## Rounds of the body -/

namespace RequestParser

theorem readBody_cases {p : RequestParser} {n : Nat} (hn : n < word)
    (hle : p.body.length ≤ n) (rest : Bytes) :
    (p.readBody n rest).1.state = .done ∨ (p.readBody n rest).2 = [] := by
  simp only [readBody, wsub_of_le hle hn, List.length_append, List.length_take]
  split
  · exact Or.inl rfl
  · refine Or.inr ?_
    rw [List.drop_eq_nil_iff]
    omega

/-- A Content-Length body is refused, complete, or takes all there is. -/
theorem parseContentLengthBody_cases {p : RequestParser} (h : p.errorCode = 0)
    (hbody : p.body = []) (rest : Bytes) :
    (p.parseContentLengthBody rest).1.state = .errorParse
      ∨ (p.parseContentLengthBody rest).1.state = .done
      ∨ (p.parseContentLengthBody rest).2 = [] := by
  simp only [parseContentLengthBody]
  generalize hv : p.getHeaderValue (lit "content-length") = r
  have hr : r.1.errorCode = 0 ∧ r.1.body = [] := by
    rw [← hv]
    exact ⟨h, hbody⟩
  by_cases hbad : (strtoul 10 r.2).2 ≠ [] ∨ (strtoul 10 r.2).1 = 0
  · rw [if_pos hbad]
    refine Or.inl (logError_state ?_ 400)
    exact hr.1
  · rw [if_neg hbad]
    refine Or.inr (readBody_cases (strtoul_lt 10 r.2) ?_ rest)
    simp only [hr.2, List.length_nil, Nat.zero_le]

end RequestParser

theorem parseRequestIter_body {p : RequestParser} (hstate : p.state = .body) {rest : Bytes}
    (hne : rest ≠ []) :
    parseRequestIter (p, rest) = nextRound (p.parseBody rest).1 (p.parseBody rest).2 := by
  simp [parseRequestIter, hstate, hne]

theorem parseRequestIter_over {p : RequestParser} {rest : Bytes}
    (h : rest = [] ∨ p.state = .done ∨ p.state = .errorParse) :
    parseRequestIter (p, rest) = .inr (.returned p rest) := by
  simp only [parseRequestIter, if_pos h]

/-! ## The two ways a call can go -/

/-- The loop is left with `r` within `n` rounds, all of which progress. -/
def Leaves (n : Nat) (s : RequestParser × Bytes) (r : ParseExit) : Prop :=
  run parseRequestIter n s = some r ∧ Always parseRequestIter Progress s

/-- The loop is never left, and not all rounds progress. -/
def Hangs (s : RequestParser × Bytes) : Prop :=
  Diverges parseRequestIter s ∧ ¬Always parseRequestIter Progress s

theorem returned_ne_threw (p : RequestParser) (rest : Bytes) :
    ParseExit.returned p rest ≠ .threw := by
  intro h
  cases h

theorem leaves_inr {s : RequestParser × Bytes} {r : ParseExit}
    (h : parseRequestIter s = .inr r) (n : Nat) : Leaves (n + 1) s r := by
  refine ⟨run_inr h n, always_inr h fun s' hs' => ?_⟩
  rw [h] at hs'
  cases hs'

theorem leaves_inl {s s' : RequestParser × Bytes} {r : ParseExit} {n : Nat}
    (h : parseRequestIter s = .inl s') (hstate : s'.1.state ≠ s.1.state)
    (hl : Leaves n s' r) : Leaves (n + 1) s r := by
  refine ⟨(run_inl h n).trans hl.1, always_inl h (fun u hu => ?_) hl.2⟩
  obtain rfl := Sum.inl.inj (h.symm.trans hu)
  exact Or.inr hstate

theorem hangs_inl {s s' : RequestParser × Bytes} (h : parseRequestIter s = .inl s')
    (hs' : Hangs s') : Hangs s :=
  ⟨diverges_inl h hs'.1, fun ha => hs'.2 (ha.of_inl h)⟩

/-- A round that leaves the loop or hands on a parser that is done. -/
theorem leaves_nextRound {s : RequestParser × Bytes} {p : RequestParser} {rest : Bytes}
    (h : parseRequestIter s = nextRound p rest)
    (hover : rest = [] ∨ p.state = .done ∨ p.state = .errorParse)
    (hstate : s.1.state ≠ .done) (n : Nat) : Leaves (n + 2) s (.returned p rest) := by
  by_cases hleft : p.state = .errorParse ∨ rest = []
  · rw [nextRound, if_pos hleft] at h
    exact leaves_inr h (n + 1)
  · rw [nextRound, if_neg hleft] at h
    refine leaves_inl h ?_ (leaves_inr (parseRequestIter_over hover) n)
    rcases hover with h' | h' | h'
    · exact absurd (Or.inr h') hleft
    · rw [h']
      exact hstate.symm
    · exact absurd (Or.inl h') hleft

/-- A request line that is neither accepted nor refused is read again and
again. -/
theorem hangs_of_lineIgnored {request : Bytes} (hne : request ≠ [])
    (hign : LineIgnored request) : Hangs ({}, request) := by
  have hround : ∀ s : RequestParser × Bytes,
      s.1.errorCode = 0 ∧ s.1.state = .requestLine ∧ s.2 = request →
      ∃ s', parseRequestIter s = .inl s'
        ∧ s'.1.errorCode = 0 ∧ s'.1.state = .requestLine ∧ s'.2 = request := by
    rintro ⟨p, rest⟩ ⟨herr, hstate, rfl⟩
    simp only at herr hstate
    rcases parseRequestLine_cases herr rest with
      ⟨-, method, heq⟩ | ⟨hno, -⟩ | ⟨hno, -⟩
    · refine ⟨({ p with httpMethod := method }, rest), ?_, herr, hstate, rfl⟩
      simp [parseRequestIter, hne, hstate, heq, nextRound]
    · exact absurd hign hno
    · exact absurd hign hno
  refine ⟨diverges_of_invariant _ hround ⟨rfl, rfl, rfl⟩, fun ha => ?_⟩
  obtain ⟨s', hs', -, hstate, hrest⟩ := hround ({}, request) ⟨rfl, rfl, rfl⟩
  rcases ha _ (.start _) s' hs' with h | h
  · rw [hrest] at h
    exact Nat.lt_irrefl _ h
  · exact h hstate

/-- A decoder that waits with bytes unread is called again and again. -/
theorem hangs_of_waitsUnread {p : RequestParser} (hp : p.InChunkedBody) {rest : Bytes}
    (hne : rest ≠ []) (hw : WaitsUnread (feed chunkSize p.posOf rest)) : Hangs (p, rest) := by
  have hround : ∀ s : RequestParser × Bytes,
      s.1.InChunkedBody ∧ s.2 ≠ [] ∧ WaitsUnread (feed chunkSize s.1.posOf s.2) →
      ∃ s', parseRequestIter s = .inl s'
        ∧ s'.1.InChunkedBody ∧ s'.2 ≠ [] ∧ WaitsUnread (feed chunkSize s'.1.posOf s'.2) := by
    rintro ⟨p, rest⟩ ⟨hp, hne, hw⟩
    simp only at hp hne hw
    obtain ⟨hiff, hkeep⟩ := hp.parseChunkedBody_waits (Or.inl hne)
    obtain ⟨hstate, hleft⟩ := hiff.mpr hw
    refine ⟨p.parseChunkedBody rest, ?_, (hkeep hw).1, hleft, (hkeep hw).2⟩
    rw [parseRequestIter_body hp.state hne, parseBody_chunked hp]
    simp [nextRound, hstate, hleft]
  have hd := diverges_of_invariant _ hround (s := (p, rest)) ⟨hp, hne, hw⟩
  refine ⟨hd, fun ha => hd.not_always_lt (fun s => s.2.length) fun s hs u hu => ?_⟩
  have hinv := always_of_invariant (s := (p, rest))
    (P := fun s => s.1.InChunkedBody ∧ s.2 ≠ [] ∧ WaitsUnread (feed chunkSize s.1.posOf s.2))
    (fun s s' hs h => by
      obtain ⟨u, hu, hinv⟩ := hround s hs
      obtain rfl := Sum.inl.inj (h.symm.trans hu)
      exact hinv)
    ⟨hp, hne, hw⟩
  rcases ha s hs u hu with h | h
  · exact h
  · exact absurd ((hinv u (hs.next hu)).1.state.trans (hinv s hs).1.state.symm) h

/-! ## Every buffer -/

theorem acceptedHead_of {request rest rest' : Bytes} {q p : RequestParser}
    (hline : ({} : RequestParser).parseRequestLine request = (q, rest))
    (hq : q.state = .headers) (hhead : q.parseHeaders rest = .returned p rest')
    (hp : p.state = .body) : acceptedHead request = some (p, rest') := by
  simp only [acceptedHead, hline, hhead, if_pos hq, if_pos hp]

theorem not_chunksWait_of {request : Bytes} {o : Option (RequestParser × Bytes)}
    (h : acceptedHead request = o) (ho : o = none) : ¬ChunksWait request := by
  simp [ChunksWait, h, ho]

/-- A parser that enters the body, with nothing of it read. -/
structure EntersBody (p : RequestParser) : Prop where
  state : p.state = .body
  errorCode : p.errorCode = 0
  body : p.body = []
  length : p.contentLengthValue = 0
  idle : p.readingChunkData = false ∧ p.currentChunkSize = 0 ∧ p.currentChunkRead = 0
  fields : p.FieldsAccepted
  framing : p.hasContentLength ≠ p.hasTransferEncoding

theorem EntersBody.inChunkedBody {p : RequestParser} (h : EntersBody p)
    (hcoding : p.headers.get? (lit "transfer-encoding") = some (lit "chunked")) :
    p.InChunkedBody :=
  ⟨h.state, h.errorCode, by rw [h.fields.coding, hcoding]; rfl, hcoding, fun _ => h.idle.2,
    fun h' => absurd (h.idle.1.symm.trans h') (by decide)⟩

/-- A body that does not make the chunk decoder wait is left. -/
theorem leaves_body {p : RequestParser} (hp : EntersBody p) {rest : Bytes}
    (hw : ¬(p.headers.get? (lit "transfer-encoding") = some (lit "chunked")
      ∧ WaitsUnread (feed chunkSize (.size []) rest))) (n : Nat) :
    ∃ p' rest', Leaves (n + 2) (p, rest) (.returned p' rest') := by
  by_cases hne : rest = []
  · exact ⟨p, rest, leaves_inr (parseRequestIter_over (Or.inl hne)) (n + 1)⟩
  have hiter := parseRequestIter_body hp.state hne
  refine ⟨_, _, leaves_nextRound hiter ?_ (by simp [hp.state]) n⟩
  by_cases hte : p.hasTransferEncoding = true
  · have hget : ∃ v, p.headers.get? (lit "transfer-encoding") = some v :=
      Option.isSome_iff_exists.mp (hp.fields.coding ▸ hte)
    obtain ⟨v, hv⟩ := hget
    by_cases hchunked : v = lit "chunked"
    · have hin := hp.inChunkedBody (hchunked ▸ hv)
      rw [parseBody_chunked hin]
      have hiff := (hin.parseChunkedBody_waits (t := rest) (Or.inl hne)).1
      rw [posOf_idle hp.idle.1] at hiff
      rcases hin.parseChunkedBody_state rest with h | h | h
      · refine Or.inl (by_contra fun hleft => hw ⟨hchunked ▸ hv, hiff.mp ⟨h, hleft⟩⟩)
      · exact Or.inr (Or.inl h)
      · exact Or.inr (Or.inr h)
    · have hget : p.getHeaderValue (lit "transfer-encoding") = (p, v) := by
        simp only [getHeaderValue, OrdMap.getOrInsert, hv]
      have hbody : p.parseBody rest = (p.logError 501, rest) := by
        simp only [parseBody, if_pos hte, hget, if_neg hchunked]
      rw [hbody]
      exact Or.inr (Or.inr (logError_state hp.errorCode 501))
  · have hcl : p.hasContentLength = true := by
      have := hp.framing
      simp only [Bool.not_eq_true] at hte
      rw [hte] at this
      simpa using this
    have hbody : p.parseBody rest = p.parseContentLengthBody rest := by
      simp only [parseBody, if_neg hte, if_pos hcl]
    rw [hbody]
    rcases parseContentLengthBody_cases hp.errorCode hp.body rest with h | h | h
    · exact Or.inr (Or.inr h)
    · exact Or.inr (Or.inl h)
    · exact Or.inl h

theorem parseHeaders_nil (p : RequestParser) : p.parseHeaders [] = .returned p [] :=
  total_inr (by simp [parseHeadersIter])

theorem fieldsAccepted_withLine (method joined : Bytes) :
    (({} : RequestParser).withLine method joined).FieldsAccepted :=
  ⟨rfl, rfl, fun _ => nofun, fun _ => nofun⟩

theorem entersBody_of_head {method joined : Bytes} {p : RequestParser}
    (hf : HeadFrame (({} : RequestParser).withLine method joined) p) (hp : p.FieldsAccepted)
    (hframing : p.hasContentLength ≠ p.hasTransferEncoding) :
    EntersBody { p with state := .body } := by
  refine ⟨rfl, hf.errorCode, ?_, ?_, ?_, ⟨hp.length, hp.coding, hp.numeric, hp.known⟩, hframing⟩
  · rw [hf]; rfl
  · rw [hf]; rfl
  · rw [hf]; exact ⟨rfl, rfl, rfl⟩

/-- A fresh parser stalls or leaves the loop within four rounds, and it
throws on no buffer with an empty line in it. -/
theorem parse_verdict (request : Bytes) :
    (Stalls request ∧ Hangs ({}, request))
      ∨ (¬Stalls request ∧ ∃ r, Leaves 4 ({}, request) r
        ∧ (doubleCrlf <:+: request → r ≠ .threw)) := by
  by_cases hne : request = []
  · exact Or.inr ⟨fun h => h.1 hne, _, leaves_inr (parseRequestIter_over (Or.inl hne)) 3,
      fun _ => returned_ne_threw _ _⟩
  have hround : parseRequestIter ({}, request)
      = nextRound (({} : RequestParser).parseRequestLine request).1
        (({} : RequestParser).parseRequestLine request).2 := by
    simp [parseRequestIter, hne]
  rcases parseRequestLine_cases (p := {}) rfl request with
    ⟨hign, -⟩ | ⟨hign, q, code, hq, hc, heq⟩ | ⟨hign, method, target, joined, -, -, -, heq⟩
  · exact Or.inl ⟨⟨hne, Or.inl hign⟩, hangs_of_lineIgnored hne hign⟩
  · have hno : ¬ChunksWait request := not_chunksWait_of (o := none)
      (by simp [acceptedHead, heq, logError_state hq]) rfl
    rw [heq] at hround
    refine Or.inr ⟨fun h => h.2.elim hign hno, _, leaves_nextRound hround
      (Or.inr (Or.inr (logError_state hq code))) (by simp) 2, fun _ => returned_ne_threw _ _⟩
  rw [heq] at hround
  generalize hrest : request.drop (findLineEnd request) = rest at heq hround
  by_cases hnil : rest = []
  · have hno : ¬ChunksWait request := not_chunksWait_of (o := none)
      (by simp [acceptedHead, heq, hnil, parseHeaders_nil, withLine]) rfl
    exact Or.inr ⟨fun h => h.2.elim hign hno, _,
      leaves_nextRound hround (Or.inl hnil) (by simp) 2, fun _ => returned_ne_threw _ _⟩
  have hstate : (({} : RequestParser).withLine method joined).state = .headers := rfl
  have hline : parseRequestIter ({}, request)
      = .inl (({} : RequestParser).withLine method joined, rest) := by
    rw [hround, nextRound, if_neg]
    simp [hstate, hnil]
  have hthrow : doubleCrlf <:+: request →
      (({} : RequestParser).withLine method joined).parseHeaders rest ≠ .threw := fun h =>
    (parseHeaders_ended rfl (hrest ▸ EmptyLineAhead.drop h)).ne_threw
  generalize hp₀ : ({} : RequestParser).withLine method joined = p₀ at *
  have hleave : ∀ {n r}, Leaves n (p₀, rest) r → Leaves (n + 1) ({}, request) r :=
    leaves_inl hline (by simp [hstate])
  have hthrew : p₀.parseHeaders rest = .threw →
      parseRequestIter (p₀, rest) = .inr .threw := fun h => by
    simp [parseRequestIter, hnil, hstate, h]
  have hreturned : ∀ {p rest'}, p₀.parseHeaders rest = .returned p rest' →
      parseRequestIter (p₀, rest) = nextRound p rest' := fun h => by
    simp [parseRequestIter, hnil, hstate, h]
  have hout := parseHeaders_outcome (p := p₀) (hp₀ ▸ rfl)
    (hp₀ ▸ fieldsAccepted_withLine method joined) rest
  have hacc : ∀ {p rest'}, p₀.parseHeaders rest = .returned p rest' → p.state ≠ .body →
      ¬ChunksWait request := fun hhead hp => not_chunksWait_of (o := none)
    (by simp [acceptedHead, heq, hhead, hstate, hp]) rfl
  generalize hhead : p₀.parseHeaders rest = r at hout hthrow hthrew hreturned hacc
  cases hout with
  | threw =>
      have hno : ¬ChunksWait request := not_chunksWait_of (o := none)
        (by simp [acceptedHead, heq, hhead, hstate]) rfl
      exact Or.inr ⟨fun h => h.2.elim hign hno, _, hleave (leaves_inr (hthrew rfl) 2),
        fun h => absurd rfl (hthrow h)⟩
  | refused q code rest' hq hc =>
      have hno := hacc rfl (by rw [logError_state hq]; decide)
      exact Or.inr ⟨fun h => h.2.elim hign hno, _, hleave (leaves_nextRound (hreturned rfl)
        (Or.inr (Or.inr (logError_state hq code))) (by simp [hstate]) 1),
        fun _ => returned_ne_threw _ _⟩
  | ended p hf hp =>
      have hpstate : p.state = .headers := by rw [hf]; exact hstate
      have hno := hacc rfl (by rw [hpstate]; decide)
      exact Or.inr ⟨fun h => h.2.elim hign hno, _, hleave (leaves_nextRound (hreturned rfl)
        (Or.inl rfl) (by simp [hstate]) 1), fun _ => returned_ne_threw _ _⟩
  | done p rest' hf hp hframing hm =>
      have hno := hacc rfl (by simp)
      exact Or.inr ⟨fun h => h.2.elim hign hno, _, hleave (leaves_nextRound (hreturned rfl)
        (Or.inr (Or.inl rfl)) (by simp [hstate]) 1), fun _ => returned_ne_threw _ _⟩
  | body p rest' hf hp hframing =>
      have henter : EntersBody { p with state := .body } :=
        entersBody_of_head (hp₀ ▸ hf) hp hframing
      have haccepted := acceptedHead_of heq hstate hhead rfl
      have hiff : ChunksWait request ↔
          p.headers.get? (lit "transfer-encoding") = some (lit "chunked")
            ∧ WaitsUnread (feed chunkSize (.size []) rest') := by
        simp only [ChunksWait, haccepted]
      by_cases hleft : rest' = []
      · have hno : ¬ChunksWait request := fun h => by
          have := (hiff.mp h).2
          simp [hleft, WaitsUnread] at this
        exact Or.inr ⟨fun h => h.2.elim hign hno, _, hleave (leaves_nextRound (hreturned rfl)
          (Or.inl hleft) (by simp [hstate]) 1), fun _ => returned_ne_threw _ _⟩
      have hnext : parseRequestIter (p₀, rest) = .inl ({ p with state := .body }, rest') := by
        rw [hreturned rfl]
        simp [nextRound, hleft]
      by_cases hw : ChunksWait request
      · have hin := henter.inChunkedBody (hiff.mp hw).1
        refine Or.inl ⟨⟨hne, Or.inr hw⟩, hangs_inl hline (hangs_inl hnext ?_)⟩
        refine hangs_of_waitsUnread hin hleft ?_
        rw [posOf_idle henter.idle.1]
        exact (hiff.mp hw).2
      · obtain ⟨p', rest'', hl⟩ := leaves_body henter (fun h => hw (hiff.mpr h)) 0
        exact Or.inr ⟨fun h => h.2.elim hign hw, _,
          hleave (leaves_inl hnext (by simp [hstate]) hl), fun _ => returned_ne_threw _ _⟩

/-- The bound of `parseRequest` is one: a call of a fresh parser that is
still running behind it does not end. -/
theorem parseRequest_eq_none (request : Bytes) :
    ({} : RequestParser).parseRequest request = none
      ↔ Diverges parseRequestIter ({}, request) := by
  have hrun : ({} : RequestParser).parseRequest request
      = run parseRequestIter 4 ({}, request) := rfl
  rw [hrun]
  refine ⟨fun h => ?_, fun h => h 4⟩
  rcases parse_verdict request with ⟨-, hd, -⟩ | ⟨-, r, ⟨hl, -⟩, -⟩
  · exact hd
  · rw [h] at hl
    cases hl

/-- The loop of a call of `parse_request` is left, and every iteration
advances `pos`, changes the state or leaves it; a parser in BODY runs no
loop. -/
def CallProgresses (p : RequestParser) (request : Bytes) : Prop :=
  p.state = .body
    ∨ Halts parseRequestIter (p, request) ∧ Always parseRequestIter Progress (p, request)

/-- The call comes back to the caller with a parser and a position. -/
def CallReturns (p : RequestParser) (request : Bytes) : Prop :=
  ∃ p' rest, p.parseRequest request = some (.returned p' rest)

/-- A call the driver makes, on a fresh parser or on one left in BODY,
progresses exactly when the parser is in BODY or the buffer does not
stall; and if it is in BODY or, as the driver has checked, an empty line
is in the buffer, then it returns under the same condition. -/
theorem parseRequest_returns {p : RequestParser} (hp : p = {} ∨ p.state = .body)
    (request : Bytes) :
    (CallProgresses p request ↔ (p.state = .body ∨ ¬Stalls request))
      ∧ (p.state = .body ∨ doubleCrlf <:+: request →
        (CallReturns p request ↔ (p.state = .body ∨ ¬Stalls request))) := by
  rcases hp with rfl | hp
  · have hstate : ({} : RequestParser).state ≠ .body := by decide
    simp only [CallProgresses, hstate, false_or]
    rcases parse_verdict request with ⟨hs, hd, -⟩ | ⟨hs, r, ⟨hl, hprog⟩, hthrow⟩
    · refine ⟨iff_of_false (fun h => hd.not_halts h.1) (not_not_intro hs), fun _ => ?_⟩
      refine iff_of_false ?_ (not_not_intro hs)
      rintro ⟨p', rest, h⟩
      rw [(parseRequest_eq_none request).mpr hd] at h
      cases h
    · refine ⟨iff_of_true ⟨⟨r, 4, hl⟩, hprog⟩ hs, fun hhead => iff_of_true ?_ hs⟩
      cases r with
      | returned p' rest => exact ⟨p', rest, hl⟩
      | threw => exact absurd rfl (hthrow hhead)
  · exact ⟨iff_of_true (Or.inl hp) (Or.inl hp),
      fun _ => iff_of_true ⟨_, _, if_pos hp⟩ (Or.inl hp)⟩

theorem parseRequest_returns_get :
    CallReturns {} (lit "GET / HTTP/1.1\r\nHost: a\r\n\r\n") :=
  ((parseRequest_returns (Or.inl rfl) _).2 (Or.inr (by decide +kernel))).mpr
    (Or.inr (by decide +kernel))

/-- A request line with an empty target keeps the server in the loop. -/
theorem parseRequest_not_progresses :
    ¬∀ p : RequestParser, p = {} ∨ p.state = .body → ∀ request, CallProgresses p request := by
  intro h
  have hd := (parseRequest_eq_none (lit "GET  HTTP/1.1\r\nHost: a\r\n\r\n")).mp
    (by decide +kernel)
  rcases h {} (Or.inl rfl) (lit "GET  HTTP/1.1\r\nHost: a\r\n\r\n") with hbody | ⟨hhalts, -⟩
  · cases hbody
  · exact hd.not_halts hhalts

end Webserv
