import Webserv.RequestFrame
import Webserv.ParseTermination

/-!
# Bodies with a Content-Length

What a call of `parse_request` makes of a request with a Content-Length:
the length that the field declares is recorded by the first part of the
body, and the body is complete when as many bytes have come. A call on a
fresh parser does so with the bytes behind the head, if there are any
(`parseRequest_headLength`).
-/

namespace Webserv

open Bytes RequestParser

namespace RequestParser

/-! ## The field -/

/-- The value of the field, as `headers["content-length"]` reads it. -/
def lengthField (p : RequestParser) : Bytes := (p.headers.get? (lit "content-length")).getD []

/-- The length the field declares. -/
def declaredLength (p : RequestParser) : Nat := (strtoul 10 p.lengthField).1

theorem getHeaderValue_snd (p : RequestParser) (key : Bytes) :
    (p.getHeaderValue key).2 = (p.headers.get? key).getD [] := by
  simp only [getHeaderValue, OrdMap.getOrInsert]
  cases p.headers.get? key with
  | none => rfl
  | some v => rfl

theorem lengthField_getHeaderValue (p : RequestParser) (key : Bytes) :
    (p.getHeaderValue key).1.lengthField = p.lengthField := by
  simp only [lengthField, getHeaderValue, OrdMap.getOrInsert]
  cases hget : p.headers.get? key with
  | some v => rfl
  | none =>
      simp only [OrdMap.get?_insert]
      split
      · rename_i hkey
        rw [← hkey, hget]
        rfl
      · rfl

/-- `q` has the length framing of `p`. -/
structure Framed (p q : RequestParser) : Prop where
  hasContentLength : q.hasContentLength = p.hasContentLength
  lengthField : q.lengthField = p.lengthField

namespace Framed

theorem refl (p : RequestParser) : Framed p p := ⟨rfl, rfl⟩

theorem trans {p q r : RequestParser} (h : Framed p q) (h' : Framed q r) : Framed p r :=
  ⟨h'.hasContentLength.trans h.hasContentLength, h'.lengthField.trans h.lengthField⟩

theorem logError {p q : RequestParser} (h : Framed p q) (code : Nat) :
    Framed p (q.logError code) := by
  refine h.trans ?_
  unfold RequestParser.logError
  split
  · refine ⟨rfl, ?_⟩
    have hne : lit "connection" ≠ lit "content-length" := by decide
    split
    · rfl
    · simp only [RequestParser.lengthField, OrdMap.get?_insert_of_ne _ hne]
  · exact refl q

theorem getHeaderValue {p q : RequestParser} (h : Framed p q) (key : Bytes) :
    Framed p (q.getHeaderValue key).1 :=
  h.trans ⟨rfl, lengthField_getHeaderValue q key⟩

end Framed

theorem framed_parseChunkedBody (p : RequestParser) (rest : Bytes) :
    Framed p (p.parseChunkedBody rest).1 := by
  refine WhileLoop.Rounds.total (chunkRounds (I := fun q => Framed p q) (Q := fun q => Framed p q)
    (fun q h => h) (fun q h => h.logError 400) ?_ ?_ ?_) (Framed.refl p)
  · exact fun q h => h.trans ⟨rfl, rfl⟩
  · exact fun q rest h => h.trans ⟨rfl, rfl⟩
  · exact fun q size read reading h => h.trans ⟨rfl, rfl⟩

theorem framed_parseBody (p : RequestParser) (rest : Bytes) :
    Framed p (p.parseBody rest).1 := by
  have h := Framed.refl p
  simp only [parseBody]
  split
  · split
    · exact (h.getHeaderValue _).trans (framed_parseChunkedBody _ rest)
    · exact (h.getHeaderValue _).logError 501
  split
  · simp only [parseContentLengthBody]
    split
    · refine Framed.logError ?_ 400
      exact (h.getHeaderValue _).trans ⟨rfl, rfl⟩
    · simp only [readBody]
      split
      · exact (h.getHeaderValue _).trans ⟨rfl, rfl⟩
      · exact (h.getHeaderValue _).trans ⟨rfl, rfl⟩
  · exact h

/-! ## The parts of a body -/

/-- The parser behind one more part of its body. -/
def withPart (p : RequestParser) (rest : Bytes) : RequestParser :=
  { p with
    headers := (p.getHeaderValue (lit "content-length")).1.headers
    contentLengthValue := p.declaredLength
    body := p.body ++ rest.take (p.declaredLength - p.body.length)
    state := if p.body.length + rest.length < p.declaredLength then p.state else .done }

/-- Each part is copied up to the declared length. -/
theorem parseBody_part {p : RequestParser} (hframing : p.hasTransferEncoding = false)
    (hlength : p.hasContentLength = true) (hvalid : (strtoul 10 p.lengthField).2 = [])
    (hlt : p.body.length < p.declaredLength) (rest : Bytes) :
    p.parseBody rest = (p.withPart rest, rest.drop (p.declaredLength - p.body.length)) := by
  have hnum : ¬((strtoul 10 p.lengthField).2 ≠ [] ∨ (strtoul 10 p.lengthField).1 = 0) := by
    rintro (h | h)
    · exact h hvalid
    · rw [declaredLength, h] at hlt
      exact Nat.not_lt_zero _ hlt
  have hsnd := getHeaderValue_snd p (lit "content-length")
  have hbody : (p.getHeaderValue (lit "content-length")).1.body = p.body := rfl
  have hsub : wsub p.declaredLength p.body.length = p.declaredLength - p.body.length :=
    wsub_of_le (Nat.le_of_lt hlt) (strtoul_lt 10 p.lengthField)
  have hmain : p.parseBody rest = p.parseContentLengthBody rest := by
    rw [parseBody, if_neg (by rw [hframing]; decide), if_pos hlength]
  rw [hmain]
  simp only [parseContentLengthBody, hsnd]
  rw [← lengthField, if_neg hnum, ← declaredLength]
  simp only [readBody, hbody, hsub]
  rcases Nat.lt_or_ge (p.body.length + rest.length) p.declaredLength with hpart | hwhole
  · have hmin : min (p.declaredLength - p.body.length) rest.length = rest.length := by omega
    have hle : rest.length ≤ p.declaredLength - p.body.length := by omega
    have hne : (p.body ++ rest).length ≠ p.declaredLength := by
      rw [List.length_append]
      omega
    simp only [hmin, List.take_length, List.drop_length, if_neg hne, withPart, if_pos hpart,
      List.take_of_length_le hle, List.drop_of_length_le hle]
    rfl
  · have hmin : min (p.declaredLength - p.body.length) rest.length
        = p.declaredLength - p.body.length := by omega
    have heq : (p.body ++ rest.take (p.declaredLength - p.body.length)).length
        = p.declaredLength := by
      rw [List.length_append, List.length_take]
      omega
    simp only [hmin, if_pos heq, withPart, if_neg (Nat.not_lt_of_le hwhole)]
    rfl

/-- A body whose first part is not all of it: the length is recorded, and
the parser waits for the rest. -/
theorem parseBody_firstPart {p : RequestParser} (hframing : p.hasTransferEncoding = false)
    (hlength : p.hasContentLength = true) (hvalid : (strtoul 10 p.lengthField).2 = [])
    (hbody : p.body = []) {rest : Bytes} (hlt : rest.length < p.declaredLength) :
    (p.parseBody rest).1 = { p with
      headers := (p.getHeaderValue (lit "content-length")).1.headers
      contentLengthValue := p.declaredLength
      body := rest } := by
  have hle : rest.length ≤ p.declaredLength := Nat.le_of_lt hlt
  have hzero : p.body.length < p.declaredLength := by
    rw [hbody]
    exact Nat.lt_of_le_of_lt (Nat.zero_le _) hlt
  rw [parseBody_part hframing hlength hvalid hzero]
  simp only [withPart, hbody, List.length_nil, Nat.zero_add, if_pos hlt, Nat.sub_zero,
    List.nil_append, List.take_of_length_le hle]

/-! ## A call on a fresh parser -/

theorem parseBody_state {p : RequestParser} (h : p.state = .body) (rest : Bytes) :
    (p.parseBody rest).1.state ≠ .requestLine ∧ (p.parseBody rest).1.state ≠ .headers := by
  have hlog : ∀ q : RequestParser, q.state = .body → ∀ code,
      (q.logError code).state ≠ .requestLine ∧ (q.logError code).state ≠ .headers := by
    intro q hq code
    unfold logError
    split
    · show ParseState.errorParse ≠ .requestLine ∧ ParseState.errorParse ≠ .headers
      decide
    · rw [hq]
      decide
  have hstay : ∀ q : RequestParser, q.state = .body →
      q.state ≠ .requestLine ∧ q.state ≠ .headers := by
    intro q hq
    rw [hq]
    decide
  have hdone : ParseState.done ≠ .requestLine ∧ ParseState.done ≠ .headers := by decide
  simp only [parseBody]
  split
  · split
    · exact WhileLoop.Rounds.total (chunkRounds (I := fun q => q.state = .body)
        (Q := fun q => q.state ≠ .requestLine ∧ q.state ≠ .headers) hstay
        (fun q hq => hlog q hq 400) (fun _ _ => hdone) (fun q rest hq => hq)
        (fun q size read reading hq => hq)) h
    · refine hlog _ ?_ 501
      exact h
  split
  · simp only [parseContentLengthBody]
    split
    · refine hlog _ ?_ 400
      exact h
    · simp only [readBody]
      split
      · exact hdone
      · refine hstay _ ?_
        exact h
  · exact hstay p h

/-- A request with a Content-Length, without an error, has been made of
the accepted head of the buffer, and of the bytes behind it if there are
any. -/
def HeadLength (request : Bytes) (q : RequestParser) : Prop :=
  q.errorCode = 0 → q.hasContentLength = true → ∃ p rest,
    acceptedHead request = some (p, rest) ∧ EntersBody p ∧ p.hasContentLength = true
      ∧ q = if rest = [] then p else (p.parseBody rest).1

theorem headLength_logError {q : RequestParser} (h : q.errorCode = 0) {code : Nat}
    (hc : code ≠ 0) (request : Bytes) : HeadLength request (q.logError code) := by
  intro herr
  rw [logError_errorCode h] at herr
  exact absurd herr hc

/-- What a fresh parser has come to where a round begins. -/
inductive HeadStage (request : Bytes) : RequestParser × Bytes → Prop where
  | start : HeadStage request ({}, request)
  | ignored {p : RequestParser} (hign : LineIgnored request) (herr : p.errorCode = 0)
      (hstate : p.state = .requestLine) (hlength : p.hasContentLength = false) :
      HeadStage request (p, request)
  | line {method joined rest : Bytes}
      (heq : ({} : RequestParser).parseRequestLine request
        = (({} : RequestParser).withLine method joined, rest))
      (hahead : EmptyLineAhead rest) :
      HeadStage request (({} : RequestParser).withLine method joined, rest)
  | body {p : RequestParser} {rest : Bytes} (hhead : acceptedHead request = some (p, rest))
      (hp : EntersBody p) : HeadStage request (p, rest)
  | finished {q : RequestParser} {rest : Bytes} (hq : HeadLength request q)
      (hstate : q.state = .done ∨ q.state = .errorParse) : HeadStage request (q, rest)
  /-- a body without a Content-Length -/
  | other {q : RequestParser} {rest : Bytes} (hlength : q.hasContentLength = false)
      (hstate : q.state = .body) : HeadStage request (q, rest)

section Stages

variable {request : Bytes}

theorem stage_nextRound {q : RequestParser} {rest : Bytes}
    (hexit : q.state = .errorParse ∨ rest = [] → HeadLength request q)
    (hnext : q.state ≠ .errorParse → rest ≠ [] → HeadStage request (q, rest)) :
    (∃ r, nextRound q rest = .inr r ∧ ∀ q rest, r = .returned q rest → HeadLength request q)
      ∨ ∃ s', nextRound q rest = .inl s' ∧ HeadStage request s' := by
  unfold nextRound
  split
  · rename_i h
    refine Or.inl ⟨_, rfl, fun q' rest' heq => ?_⟩
    rw [ParseExit.returned.injEq] at heq
    exact heq.1 ▸ hexit h
  · rename_i h
    exact Or.inr ⟨_, rfl, hnext (fun hs => h (Or.inl hs)) fun hs => h (Or.inr hs)⟩

/-- The first lines of a fresh parser. -/
theorem stage_requestLine (hcrlf : doubleCrlf <:+: request) {p : RequestParser}
    (herr : p.errorCode = 0) (hlength : p.hasContentLength = false)
    (hstate : p.state = .requestLine) (hp : p = {} ∨ LineIgnored request) :
    (∃ r, nextRound (p.parseRequestLine request).1 (p.parseRequestLine request).2 = .inr r
        ∧ ∀ q rest, r = .returned q rest → HeadLength request q)
      ∨ ∃ s', nextRound (p.parseRequestLine request).1 (p.parseRequestLine request).2 = .inl s'
        ∧ HeadStage request s' := by
  have hnone : ∀ q : RequestParser, q.hasContentLength = false → HeadLength request q :=
    fun q hq _ hq' => absurd (hq.symm.trans hq') (by decide)
  rcases parseRequestLine_cases herr request with
    ⟨hign, method, heq⟩ | ⟨-, q, code, hq, hc, heq⟩ | ⟨hno, method, target, joined, -, -, -, heq⟩
  · rw [heq]
    exact stage_nextRound (fun _ => hnone _ hlength)
      fun _ _ => .ignored hign herr hstate hlength
  · rw [heq]
    exact stage_nextRound (fun _ => headLength_logError hq hc request)
      fun hs _ => absurd (logError_state hq code) hs
  · obtain rfl := hp.resolve_right hno
    rw [heq]
    exact stage_nextRound (fun _ => hnone _ rfl)
      fun _ _ => .line heq (EmptyLineAhead.drop hcrlf)

theorem stage_headers {method joined rest : Bytes}
    (heq : ({} : RequestParser).parseRequestLine request
      = (({} : RequestParser).withLine method joined, rest))
    (hahead : EmptyLineAhead rest) {q : RequestParser} {rest' : Bytes}
    (hexit : (({} : RequestParser).withLine method joined).parseHeaders rest
      = .returned q rest') :
    (∃ r, nextRound q rest' = .inr r ∧ ∀ q rest, r = .returned q rest → HeadLength request q)
      ∨ ∃ s', nextRound q rest' = .inl s' ∧ HeadStage request s' := by
  obtain ⟨_, _, hended, hstate⟩ := parseHeaders_ended (p := ({} : RequestParser).withLine method
    joined) rfl hahead
  rw [hexit, ParseExit.returned.injEq] at hended
  obtain ⟨rfl, rfl⟩ := hended
  have hout := parseHeaders_outcome (p := ({} : RequestParser).withLine method joined) rfl
    (fieldsAccepted_withLine method joined) rest
  rw [hexit] at hout
  cases hout with
  | refused q code _ hq hc =>
      exact stage_nextRound (fun _ => headLength_logError hq hc request)
        fun hs _ => absurd (logError_state hq code) hs
  | ended p hf hp =>
      rw [hf] at hstate
      exact absurd rfl hstate
  | done p _ hf hp hframing hm =>
      have hdone : HeadLength request { p with state := .done } :=
        fun _ hq => absurd (hframing.1.symm.trans hq) (by decide)
      exact stage_nextRound (fun _ => hdone) fun _ _ => .finished hdone (Or.inl rfl)
  | body p _ hf hp hframing =>
      have henter := entersBody_of_head hf hp hframing
      have hhead := acceptedHead_of heq rfl hexit rfl
      refine stage_nextRound (fun hend _ hlength => ?_) fun _ _ => .body hhead henter
      have hnil := hend.resolve_left fun hs => by cases hs
      exact ⟨_, _, hhead, henter, hlength, (if_pos hnil).symm⟩

theorem stage_body {p : RequestParser} {rest : Bytes}
    (hhead : acceptedHead request = some (p, rest)) (hp : EntersBody p) (hne : rest ≠ []) :
    (∃ r, nextRound (p.parseBody rest).1 (p.parseBody rest).2 = .inr r
        ∧ ∀ q rest, r = .returned q rest → HeadLength request q)
      ∨ ∃ s', nextRound (p.parseBody rest).1 (p.parseBody rest).2 = .inl s'
        ∧ HeadStage request s' := by
  have hframed := framed_parseBody p rest
  have hresult : HeadLength request (p.parseBody rest).1 := fun _ hlength =>
    ⟨p, rest, hhead, hp, hframed.hasContentLength ▸ hlength, (if_neg hne).symm⟩
  have hstate := parseBody_state hp.state rest
  refine stage_nextRound (fun _ => hresult) fun herr hrest => ?_
  cases hs : (p.parseBody rest).1.state with
  | requestLine => exact absurd hs hstate.1
  | headers => exact absurd hs hstate.2
  | done => exact .finished hresult (Or.inl hs)
  | errorParse => exact absurd hs herr
  | body =>
      refine .other ?_ hs
      by_contra hlength
      rw [hframed.hasContentLength, Bool.not_eq_false] at hlength
      have hte : p.hasTransferEncoding = false := by
        have := hp.framing
        rw [hlength] at this
        simpa using this.symm
      have hbody : p.parseBody rest = p.parseContentLengthBody rest := by
        simp only [parseBody, hte, hlength, if_true]
        rfl
      rw [hbody] at hs hrest
      rcases parseContentLengthBody_cases hp.errorCode hp.body rest with h | h | h
      · rw [hs] at h
        cases h
      · rw [hs] at h
        cases h
      · exact hrest h

theorem stage_other {q : RequestParser} (hlength : q.hasContentLength = false)
    (hstate : q.state = .body) (rest : Bytes) :
    (∃ r, nextRound (q.parseBody rest).1 (q.parseBody rest).2 = .inr r
        ∧ ∀ q rest, r = .returned q rest → HeadLength request q)
      ∨ ∃ s', nextRound (q.parseBody rest).1 (q.parseBody rest).2 = .inl s'
        ∧ HeadStage request s' := by
  have hlength' := (framed_parseBody q rest).hasContentLength.trans hlength
  have hresult : HeadLength request (q.parseBody rest).1 :=
    fun _ h => absurd (hlength'.symm.trans h) (by decide)
  have hne := parseBody_state hstate rest
  refine stage_nextRound (fun _ => hresult) fun herr _ => ?_
  cases hs : (q.parseBody rest).1.state with
  | requestLine => exact absurd hs hne.1
  | headers => exact absurd hs hne.2
  | done => exact .finished hresult (Or.inl hs)
  | errorParse => exact absurd hs herr
  | body => exact .other hlength' hs

theorem headStage_rounds (hcrlf : doubleCrlf <:+: request) :
    WhileLoop.Rounds parseRequestIter (HeadStage request)
      (fun r => ∀ q rest, r = .returned q rest → HeadLength request q) := by
  have hreturned {q : RequestParser} {rest : Bytes} (h : HeadLength request q) :
      ∀ q' rest', ParseExit.returned q rest = .returned q' rest' → HeadLength request q' := by
    intro q' rest' heq
    rw [ParseExit.returned.injEq] at heq
    exact heq.1 ▸ h
  have hne : request ≠ [] := by
    rintro rfl
    exact absurd (List.infix_nil.mp hcrlf) (by decide)
  intro s hs
  cases hs with
  | start =>
      have hiter : parseRequestIter ({}, request)
          = nextRound (({} : RequestParser).parseRequestLine request).1
            (({} : RequestParser).parseRequestLine request).2 := by
        simp [parseRequestIter, hne]
      rw [hiter]
      exact stage_requestLine hcrlf rfl rfl rfl (Or.inl rfl)
  | @ignored p hign herr hstate hlength =>
      have hiter : parseRequestIter (p, request)
          = nextRound (p.parseRequestLine request).1 (p.parseRequestLine request).2 := by
        simp [parseRequestIter, hne, hstate]
      rw [hiter]
      exact stage_requestLine hcrlf herr hlength hstate (Or.inr hign)
  | @line method joined rest heq hahead =>
      have hrest : rest ≠ [] := by
        rintro rfl
        rcases hahead with h | h
        · exact absurd (List.prefix_nil.mp h) (by decide)
        · exact absurd (List.infix_nil.mp h) (by decide)
      have hstate : (({} : RequestParser).withLine method joined).state = .headers := rfl
      simp only [parseRequestIter, hrest, hstate, false_or, reduceCtorEq, if_false]
      cases hexit : (({} : RequestParser).withLine method joined).parseHeaders rest with
      | threw => exact Or.inl ⟨_, rfl, fun _ _ h => by cases h⟩
      | returned q rest' => exact stage_headers heq hahead hexit
  | @body p rest hhead hp =>
      by_cases hrest : rest = []
      · rw [parseRequestIter_over (Or.inl hrest)]
        refine Or.inl ⟨_, rfl, hreturned fun _ hlength => ?_⟩
        exact ⟨p, rest, hhead, hp, hlength, (if_pos hrest).symm⟩
      · rw [parseRequestIter_body hp.state hrest]
        exact stage_body hhead hp hrest
  | @finished q rest hq hstate =>
      rw [parseRequestIter_over (Or.inr hstate)]
      exact Or.inl ⟨_, rfl, hreturned hq⟩
  | @other q rest hlength hstate =>
      by_cases hrest : rest = []
      · rw [parseRequestIter_over (Or.inl hrest)]
        refine Or.inl ⟨_, rfl, hreturned fun _ h => ?_⟩
        exact absurd (hlength.symm.trans h) (by decide)
      · rw [parseRequestIter_body hstate hrest]
        exact stage_other hlength hstate rest

end Stages

/-- What a call on a fresh parser makes of a buffer with an empty line. -/
theorem parseRequest_headLength {request rest : Bytes} {q : RequestParser}
    (hcrlf : doubleCrlf <:+: request)
    (h : ({} : RequestParser).parseRequest request = some (.returned q rest)) :
    HeadLength request q := by
  have hrun : WhileLoop.run parseRequestIter 4 ({}, request) = some (.returned q rest) := h
  exact (headStage_rounds hcrlf).run .start hrun q rest rfl

end RequestParser

end Webserv
