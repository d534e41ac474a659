import Webserv.RequestHead

/-!
# What `parse_request` leaves alone

The configuration pointers of a parser are only written by routing, and
an error code, once logged, stays. `Kept` says so of two parsers, and
every parsing method relates its argument to its result. `HeadRule` and
`CallRule` are the rules for the calls on a parser without an error.
-/

namespace Webserv

open Bytes

/-- The codes the parsing methods log. -/
def parseErrorCodes : List Nat := [400, 411, 414, 417, 431, 501, 505]

namespace RequestParser

/-- `q` has the configuration pointers of `p`, and its error if it has
one. -/
structure Kept (p q : RequestParser) : Prop where
  serverConfig : q.serverConfig = p.serverConfig
  locationConfig : q.locationConfig = p.locationConfig
  error : q.errorCode = p.errorCode ∨ p.errorCode = 0 ∧ q.errorCode ∈ parseErrorCodes

/-- An exit hands back a parser that is kept, if any. -/
def KeptExit (p : RequestParser) : ParseExit → Prop
  | .returned q _ => Kept p q
  | .threw => True

namespace Kept

theorem refl (p : RequestParser) : Kept p p := ⟨rfl, rfl, Or.inl rfl⟩

theorem trans {p q r : RequestParser} (h : Kept p q) (h' : Kept q r) : Kept p r := by
  refine ⟨h'.serverConfig.trans h.serverConfig, h'.locationConfig.trans h.locationConfig, ?_⟩
  rcases h'.error with heq | ⟨hzero, hmem⟩
  · rw [heq]
    exact h.error
  · rcases h.error with heq | ⟨-, hmem'⟩
    · exact Or.inr ⟨heq ▸ hzero, hmem⟩
    · rw [hzero] at hmem'
      exact absurd hmem' (by decide)

theorem logError {p q : RequestParser} (h : Kept p q) {code : Nat}
    (hc : code ∈ parseErrorCodes) : Kept p (q.logError code) := by
  refine h.trans ?_
  unfold RequestParser.logError
  split
  · rename_i hzero
    exact ⟨rfl, rfl, Or.inr ⟨hzero, hc⟩⟩
  · exact refl q

end Kept

/-! ## The request line -/

theorem kept_decodePercentEncoding (p : RequestParser) (str : Bytes) :
    Kept p (p.decodePercentEncoding str).1 := by
  unfold decodePercentEncoding
  split
  · exact .refl p
  · exact (Kept.refl p).logError (by decide)

theorem kept_normalizeUri (p : RequestParser) (uri : Bytes) : Kept p (p.normalizeUri uri).1 := by
  have h := kept_decodePercentEncoding p uri
  simp only [normalizeUri]
  split
  · exact h
  · split
    · exact h.logError (by decide)
    · exact h

theorem kept_setHttpMethod (p : RequestParser) (method : Bytes) :
    Kept p (p.setHttpMethod method).1 := by
  unfold setHttpMethod
  split
  · exact ⟨rfl, rfl, Or.inl rfl⟩
  · split
    · exact (Kept.refl p).logError (by decide)
    · exact (Kept.refl p).logError (by decide)

theorem kept_setRequestUri (p : RequestParser) (target : Bytes) :
    Kept p (p.setRequestUri target).1 := by
  unfold setRequestUri
  split
  · exact (Kept.refl p).logError (by decide)
  have h := kept_normalizeUri p (target.takeWhile (· != hash))
  cases hn : p.normalizeUri (target.takeWhile (· != hash)) with
  | mk q uri =>
  rw [hn] at h
  simp only [hn]
  split
  · exact h
  have hquery : ∃ q' uri', (if question ∈ uri then
      (q.setQueryString (uri.dropWhile (· != question)).tail, uri.takeWhile (· != question))
      else (q, uri)) = (q', uri') ∧ Kept p q' := by
    split
    · exact ⟨_, _, rfl, h.trans ⟨rfl, rfl, Or.inl rfl⟩⟩
    · exact ⟨_, _, rfl, h⟩
  obtain ⟨q', uri', heq, h'⟩ := hquery
  simp only [heq]
  split
  · exact h'.logError (by decide)
  · split
    · exact h'.logError (by decide)
    · exact h'.trans ⟨rfl, rfl, Or.inl rfl⟩

theorem kept_setHttpVersion (p : RequestParser) (version : Bytes) :
    Kept p (p.setHttpVersion version).1 := by
  unfold setHttpVersion
  split
  · exact ⟨rfl, rfl, Or.inl rfl⟩
  · split
    · exact (Kept.refl p).logError (by decide)
    · exact (Kept.refl p).logError (by decide)

theorem kept_setRequestLineParts (p : RequestParser) (method target version : Bytes) :
    Kept p (p.setRequestLineParts method target version).1 := by
  simp only [setRequestLineParts]
  have hm := kept_setHttpMethod p method
  split
  · exact hm
  · have hu := hm.trans (kept_setRequestUri _ target)
    split
    · exact hu
    · exact hu.trans (kept_setHttpVersion _ version)

theorem kept_parseRequestLine (p : RequestParser) (rest : Bytes) :
    Kept p (p.parseRequestLine rest).1 := by
  simp only [parseRequestLine]
  split
  · exact .refl p
  split
  · exact (Kept.refl p).logError (by decide)
  split
  · rename_i method target version _
    have h := kept_setRequestLineParts p method target version
    split
    · exact h.trans ⟨rfl, rfl, Or.inl rfl⟩
    · exact h
  · exact (Kept.refl p).logError (by decide)

/-! ## The header fields -/

/-- A header line leaves a parser that is kept, and refuses with one of
the codes. -/
def KeptLine (p : RequestParser) : Except Reject HeaderLoop → Prop
  | .ok l => Kept p l.p
  | .error r => Kept p r.1 ∧ r.2 ∈ parseErrorCodes

theorem keptLine_bind {p : RequestParser} {x : Except Reject HeaderLoop}
    {f : HeaderLoop → Except Reject HeaderLoop} (hx : KeptLine p x)
    (hf : ∀ l, Kept p l.p → KeptLine p (f l)) : KeptLine p (x >>= f) := by
  cases x with
  | error r => exact hx
  | ok l => exact hf l hx

theorem keptLine_handleContentLength {p : RequestParser} {l : HeaderLoop} (h : Kept p l.p)
    (key value : Bytes) : KeptLine p (handleContentLength l key value) := by
  unfold handleContentLength
  split
  · split
    · exact ⟨h, show 400 ∈ parseErrorCodes by decide⟩
    · exact h.trans ⟨rfl, rfl, Or.inl rfl⟩
  · exact h

theorem keptLine_handleTransferEncoding {p : RequestParser} {l : HeaderLoop} (h : Kept p l.p)
    (key value : Bytes) : KeptLine p (handleTransferEncoding l key value) := by
  unfold handleTransferEncoding
  split
  · split
    · exact h.trans ⟨rfl, rfl, Or.inl rfl⟩
    · exact ⟨h, show 400 ∈ parseErrorCodes by decide⟩
  · exact h

theorem keptLine_handleHost {p : RequestParser} {l : HeaderLoop} (h : Kept p l.p)
    (key : Bytes) : KeptLine p (handleHost l key) := by
  unfold handleHost
  split
  · split
    · exact ⟨h, show 400 ∈ parseErrorCodes by decide⟩
    · exact h
  · exact h

theorem keptLine_storeHeader {p : RequestParser} {l : HeaderLoop} (h : Kept p l.p)
    (key value : Bytes) : KeptLine p (storeHeader l key value) := by
  unfold storeHeader
  refine keptLine_bind (keptLine_handleContentLength h key value) fun l₁ h₁ => ?_
  refine keptLine_bind (keptLine_handleTransferEncoding h₁ key value) fun l₂ h₂ => ?_
  refine keptLine_bind (keptLine_handleHost h₂ key) fun l₃ h₃ => ?_
  cases hexp : handleExpect l₃ key value with
  | error r =>
      simp only [handleExpect] at hexp
      split at hexp
      · split at hexp
        · cases hexp
        · obtain rfl := Except.error.inj hexp
          exact ⟨h₃, show 417 ∈ parseErrorCodes by decide⟩
      · cases hexp
  | ok value' =>
      simp only [bind, Except.bind]
      split
      · exact ⟨h₃, show 431 ∈ parseErrorCodes by decide⟩
      · exact h₃.trans ⟨rfl, rfl, Or.inl rfl⟩

theorem keptLine_parseHeaderLine {p : RequestParser} {l : HeaderLoop} (h : Kept p l.p)
    (headerLine : Bytes) : KeptLine p (parseHeaderLine l headerLine) := by
  simp only [parseHeaderLine]
  split
  · exact ⟨h, show 400 ∈ parseErrorCodes by decide⟩
  · split
    · exact ⟨h, show 400 ∈ parseErrorCodes by decide⟩
    · exact keptLine_storeHeader h _ _

theorem keptExit_endOfHeaders {p : RequestParser} {l : HeaderLoop} (h : Kept p l.p)
    (headerEnd : Bytes) : KeptExit p (endOfHeaders l headerEnd) := by
  simp only [endOfHeaders]
  split
  · exact h.logError (by decide)
  split
  · exact h.logError (by decide)
  split
  · split
    · exact h.logError (by decide)
    · exact h.trans ⟨rfl, rfl, Or.inl rfl⟩
  · exact h.trans ⟨rfl, rfl, Or.inl rfl⟩

theorem keptExit_parseHeadersIter {p : RequestParser} {l : HeaderLoop} (h : Kept p l.p)
    {r : ParseExit} (hr : parseHeadersIter l = .inr r) : KeptExit p r := by
  simp only [parseHeadersIter] at hr
  split at hr
  · obtain rfl := Sum.inr.inj hr
    exact h
  split at hr
  · obtain rfl := Sum.inr.inj hr
    exact keptExit_endOfHeaders h _
  split at hr
  · obtain rfl := Sum.inr.inj hr
    exact h.logError (by decide)
  split at hr
  · obtain rfl := Sum.inr.inj hr
    exact h.logError (by decide)
  split at hr
  · obtain rfl := Sum.inr.inj hr
    trivial
  split at hr
  · rename_i q code hline
    obtain rfl := Sum.inr.inj hr
    have hq := keptLine_parseHeaderLine h (l.rest.take (findLineEnd l.rest - 2))
    rw [hline] at hq
    exact hq.1.logError hq.2
  · cases hr

theorem keptExit_parseHeaders (p : RequestParser) (rest : Bytes) :
    KeptExit p (p.parseHeaders rest) := by
  refine WhileLoop.total_invariant (I := fun l : HeaderLoop => Kept p l.p) ?_ ?_ (.refl p)
  · intro l r hl hr
    exact keptExit_parseHeadersIter hl hr
  · intro l l' hl hiter
    obtain ⟨-, -, -, l₁, hline, rfl⟩ := parseHeadersIter_inl hiter
    have h := keptLine_parseHeaderLine hl (l.rest.take (findLineEnd l.rest - 2))
    rw [hline] at h
    exact h

/-! ## The body -/

/-- A round of the chunk loop ends with parsers that have `I` and `Q`. -/
def FramedRound (I Q : RequestParser → Prop)
    (r : (RequestParser × Bytes) ⊕ (RequestParser × Bytes)) : Prop :=
  (∃ s, r = .inr s ∧ Q s.1) ∨ ∃ s, r = .inl s ∧ I s.1

/-- What the assignments of the chunk loop keep, and an error or the end
of the body turns into `Q`, its rounds do. -/
theorem chunkRounds {I Q : RequestParser → Prop} (hwait : ∀ q, I q → Q q)
    (herror : ∀ q, I q → Q (q.logError 400)) (hdone : ∀ q, I q → Q { q with state := .done })
    (hread : ∀ q rest, I q → I (q.readChunkData rest).1)
    (hset : ∀ q size read reading, I q → I { q with
      currentChunkSize := size
      currentChunkRead := read
      readingChunkData := reading }) :
    WhileLoop.Rounds parseChunkedBodyIter (fun s => I s.1) (fun s => Q s.1) := by
  have hfinish {q : RequestParser} (h : I q) (rest : Bytes) :
      FramedRound I Q (q.finishChunk rest) := by
    unfold finishChunk
    split
    · split
      · exact Or.inl ⟨_, rfl, hwait q h⟩
      · split
        · exact Or.inl ⟨_, rfl, herror q h⟩
        · exact Or.inr ⟨_, rfl, hset q 0 0 false h⟩
    · exact Or.inl ⟨_, rfl, hwait q h⟩
  have hstart {q : RequestParser} (h : I q) (rest : Bytes) :
      FramedRound I Q (q.startChunk rest) := by
    simp only [startChunk]
    split
    · exact Or.inl ⟨_, rfl, hwait q h⟩
    split
    · exact Or.inl ⟨_, rfl, herror q h⟩
    · rename_i parsed _
      have h' := hset q parsed q.currentChunkRead q.readingChunkData h
      split
      · split
        · exact Or.inl ⟨_, rfl, hwait _ h'⟩
        · split
          · exact Or.inl ⟨_, rfl, herror _ h'⟩
          · exact Or.inl ⟨_, rfl, hdone _ h'⟩
      · exact Or.inr ⟨_, rfl, hset q parsed 0 true h⟩
  rintro ⟨q, rest⟩ h
  simp only [parseChunkedBodyIter]
  split
  · exact Or.inl ⟨_, rfl, hwait q h⟩
  split
  · exact hfinish (hread q rest h) _
  · exact hstart h _

theorem kept_parseChunkedBody (p : RequestParser) (rest : Bytes) :
    Kept p (p.parseChunkedBody rest).1 := by
  refine WhileLoop.Rounds.total (chunkRounds (I := fun q => Kept p q) (Q := fun q => Kept p q)
    (fun q h => h) (fun q h => h.logError (by decide)) ?_ ?_ ?_) (Kept.refl p)
  · exact fun q h => h.trans ⟨rfl, rfl, Or.inl rfl⟩
  · exact fun q rest h => h.trans ⟨rfl, rfl, Or.inl rfl⟩
  · exact fun q size read reading h => h.trans ⟨rfl, rfl, Or.inl rfl⟩

theorem kept_parseContentLengthBody (p : RequestParser) (rest : Bytes) :
    Kept p (p.parseContentLengthBody rest).1 := by
  simp only [parseContentLengthBody]
  split
  · refine Kept.logError ?_ (show 400 ∈ parseErrorCodes by decide)
    exact ⟨rfl, rfl, Or.inl rfl⟩
  · simp only [readBody]
    split
    · exact ⟨rfl, rfl, Or.inl rfl⟩
    · exact ⟨rfl, rfl, Or.inl rfl⟩

theorem kept_parseBody (p : RequestParser) (rest : Bytes) : Kept p (p.parseBody rest).1 := by
  have hheader (key : Bytes) : Kept p (p.getHeaderValue key).1 := ⟨rfl, rfl, Or.inl rfl⟩
  simp only [parseBody]
  split
  · split
    · exact (hheader _).trans (kept_parseChunkedBody _ rest)
    · exact (hheader _).logError (by decide)
  split
  · exact kept_parseContentLengthBody p rest
  · exact .refl p

/-! ## The request -/

/-- The rounds of `parse_request`, for an invariant that its three stages
turn into `Q` at the latest. -/
theorem requestRounds {I : RequestParser → Prop} {Q : RequestParser → Prop}
    (hI : ∀ q, I q → Q q) (hQ : ∀ q, Q q → q.state ≠ .errorParse → I q)
    (hline : ∀ q rest, I q → Q (q.parseRequestLine rest).1)
    (hhead : ∀ q rest q' rest', I q → q.parseHeaders rest = .returned q' rest' → Q q')
    (hbody : ∀ q rest, I q → Q (q.parseBody rest).1) :
    WhileLoop.Rounds parseRequestIter (fun s => I s.1)
      (fun r => ∀ q rest, r = .returned q rest → Q q) := by
  have hreturned {q : RequestParser} (h : Q q) (rest : Bytes) :
      ∀ q' rest', ParseExit.returned q rest = .returned q' rest' → Q q' := by
    intro q' rest' heq
    rw [ParseExit.returned.injEq] at heq
    exact heq.1 ▸ h
  have hnext {q : RequestParser} (h : Q q) (rest : Bytes) :
      (∃ r, nextRound q rest = .inr r ∧ ∀ q rest, r = .returned q rest → Q q)
        ∨ ∃ s', nextRound q rest = .inl s' ∧ I s'.1 := by
    unfold nextRound
    split
    · exact Or.inl ⟨_, rfl, hreturned h rest⟩
    · rename_i hgo
      exact Or.inr ⟨_, rfl, hQ q h fun heq => hgo (Or.inl heq)⟩
  rintro ⟨q, rest⟩ h
  simp only [parseRequestIter]
  split
  · exact Or.inl ⟨_, rfl, hreturned (hI q h) rest⟩
  split
  · exact hnext (hline q rest h) _
  · cases hexit : q.parseHeaders rest with
    | threw => exact Or.inl ⟨_, rfl, fun _ _ heq => by cases heq⟩
    | returned q' rest' => exact hnext (hhead q rest q' rest' h hexit) rest'
  · exact hnext (hbody q rest h) _
  · -- The other states have left the loop.
    rename_i hgo _ hline hhead hbody
    cases hstate : q.state with
    | requestLine => exact absurd hstate hline
    | headers => exact absurd hstate hhead
    | body => exact absurd hstate hbody
    | done => exact absurd (Or.inr (Or.inl hstate)) hgo
    | errorParse => exact absurd (Or.inr (Or.inr hstate)) hgo

/-- What `parse_request` returns. -/
theorem parseRequest_rounds {I : RequestParser → Prop} {Q : RequestParser → Prop}
    (hrounds : WhileLoop.Rounds parseRequestIter (fun s => I s.1)
      (fun r => ∀ q rest, r = .returned q rest → Q q))
    (hbody : ∀ q rest, I q → Q (q.parseBody rest).1) {p q : RequestParser}
    {request rest : Bytes} (hp : I p)
    (h : p.parseRequest request = some (.returned q rest)) : Q q := by
  unfold parseRequest at h
  split at h
  · have heq := Option.some.inj h
    rw [ParseExit.returned.injEq] at heq
    exact heq.1 ▸ hbody p request hp
  · exact hrounds.run hp h q rest rfl

/-- What `parse_request` returns has the configuration pointers it was
called with. -/
theorem kept_parseRequest {p q : RequestParser} {request rest : Bytes}
    (h : p.parseRequest request = some (.returned q rest)) : Kept p q := by
  have hbody (q : RequestParser) (rest : Bytes) (hq : Kept p q) : Kept p (q.parseBody rest).1 :=
    hq.trans (kept_parseBody q rest)
  refine parseRequest_rounds (requestRounds (fun q hq => hq) (fun q hq _ => hq) ?_ ?_ hbody) hbody
    (.refl p) h
  · exact fun q rest hq => hq.trans (kept_parseRequestLine q rest)
  · intro q rest q' rest' hq hexit
    have hk := keptExit_parseHeaders q rest
    rw [hexit] at hk
    exact hq.trans hk

/-! ## Calls without an error -/

/-- An exit hands back a parser with `Q`, if any. -/
def ExitHas (Q : RequestParser → Prop) : ParseExit → Prop
  | .returned q _ => Q q
  | .threw => True

/-- A parser with `I` has no error, and `parse_headers` makes one with `Q`
of it: a header field keeps `I`, and an error turns it into `Q`. -/
structure HeadRule (I Q : RequestParser → Prop) : Prop where
  zero : ∀ q, I q → q.errorCode = 0
  wait : ∀ q, I q → Q q
  error : ∀ (q : RequestParser) code, q.errorCode = 0 → code ≠ 0 → Q (q.logError code)
  field : ∀ q key value, I q → I (q.withField key value)
  ended : ∀ q state, state = .done ∨ state = .body → I q → I { q with state := state }

namespace HeadRule

variable {I Q : RequestParser → Prop}

theorem endOfHeaders (h : HeadRule I Q) {l : HeaderLoop} (hp : I l.p) (headerEnd : Bytes) :
    ExitHas Q (RequestParser.endOfHeaders l headerEnd) := by
  have hzero := h.zero _ hp
  simp only [RequestParser.endOfHeaders]
  split
  · exact h.error _ 400 hzero (by decide)
  split
  · exact h.error _ 400 hzero (by decide)
  split
  · split
    · exact h.error _ 411 hzero (by decide)
    · exact h.wait _ (h.ended _ .done (.inl rfl) hp)
  · exact h.wait _ (h.ended _ .body (.inr rfl) hp)

theorem parseHeadersIter (h : HeadRule I Q) {l : HeaderLoop} (hp : I l.p) {r : ParseExit}
    (hr : RequestParser.parseHeadersIter l = .inr r) : ExitHas Q r := by
  have hzero := h.zero _ hp
  simp only [RequestParser.parseHeadersIter] at hr
  split at hr
  · obtain rfl := Sum.inr.inj hr
    exact h.wait _ hp
  split at hr
  · obtain rfl := Sum.inr.inj hr
    exact h.endOfHeaders hp _
  split at hr
  · obtain rfl := Sum.inr.inj hr
    exact h.error _ 400 hzero (by decide)
  split at hr
  · obtain rfl := Sum.inr.inj hr
    exact h.error _ 431 hzero (by decide)
  split at hr
  · obtain rfl := Sum.inr.inj hr
    trivial
  split at hr
  · rename_i q code hline
    obtain rfl := Sum.inr.inj hr
    obtain ⟨herror, hcode⟩ := parseHeaderLine_error hline
    exact h.error q code (herror.trans hzero) hcode
  · cases hr

theorem parseHeaders (h : HeadRule I Q) {p : RequestParser} (hp : I p) (rest : Bytes) :
    ExitHas Q (p.parseHeaders rest) := by
  refine WhileLoop.total_invariant (I := fun l : HeaderLoop => I l.p) ?_ ?_ hp
  · intro l r hl hr
    exact h.parseHeadersIter hl hr
  · intro l l' hl hiter
    obtain ⟨-, -, -, l₁, hline, rfl⟩ := parseHeadersIter_inl hiter
    obtain ⟨key, value, -, heq, -⟩ := parseHeaderLine_ok hline
    simp only [heq]
    exact h.field l.p key value hl

theorem returned (h : HeadRule I Q) {p q : RequestParser} (hp : I p) {rest rest' : Bytes}
    (hexit : p.parseHeaders rest = .returned q rest') : Q q := by
  have hs := h.parseHeaders hp rest
  rw [hexit] at hs
  exact hs

end HeadRule

/-- The same for a call of `parse_request`: the other two stages keep `I`
as well, or turn it into `Q`. -/
structure CallRule (I Q : RequestParser → Prop) : Prop extends HeadRule I Q where
  go : ∀ q, Q q → q.state ≠ .errorParse → I q
  method : ∀ q method, I q → I { q with httpMethod := method }
  line : ∀ q method joined, I q → I (q.withLine method joined)
  body : ∀ q rest, I q → Q (q.parseBody rest).1

namespace CallRule

variable {I Q : RequestParser → Prop}

theorem parseRequestLine (h : CallRule I Q) {p : RequestParser} (hp : I p) (rest : Bytes) :
    Q (p.parseRequestLine rest).1 := by
  rcases parseRequestLine_cases (h.zero p hp) rest with
    ⟨-, method, heq⟩ | ⟨-, q, code, hq, hcode, heq⟩ | ⟨-, method, target, joined, -, -, -, heq⟩
  · rw [heq]
    exact h.wait _ (h.method p method hp)
  · rw [heq]
    exact h.error q code hq hcode
  · rw [heq]
    exact h.wait _ (h.line p method joined hp)

theorem parseRequest (h : CallRule I Q) {p q : RequestParser} (hp : I p) {request rest : Bytes}
    (hparse : p.parseRequest request = some (.returned q rest)) : Q q := by
  have hrounds := requestRounds h.wait h.go (fun q rest hq => h.parseRequestLine hq rest)
    (fun q rest q' rest' hq hexit => h.returned hq hexit) h.body
  exact parseRequest_rounds hrounds h.body hp hparse

end CallRule

end RequestParser

end Webserv
