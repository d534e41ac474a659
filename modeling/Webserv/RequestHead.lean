import Webserv.ChunkedBody

/-!
# The head of a request

What each method on the way from a fresh parser to the end of the head
can do: the request line with its setters, one header line, the header
loop. Every lemma states all outcomes of its method, and how much of the
parser it leaves alone.
-/

namespace Webserv

open Bytes ChunkStream

namespace RequestParser

/-! ## Errors -/

theorem logError_state {p : RequestParser} (h : p.errorCode = 0) (code : Nat) :
    (p.logError code).state = .errorParse := by
  rw [logError, if_pos h]

theorem logError_errorCode {p : RequestParser} (h : p.errorCode = 0) (code : Nat) :
    (p.logError code).errorCode = code := by
  rw [logError, if_pos h]

/-! ## The request target -/

theorem percentDecode_eq_nil : ∀ {str : Bytes}, percentDecode str = some [] → str = []
  | [], _ => rfl
  | [c], h => by simp [percentDecode] at h
  | [c, d], h => by simp [percentDecode] at h
  | c :: h1 :: h2 :: s, h => by
      rw [percentDecode] at h
      split at h
      · split at h
        · simp only at h
          split at h
          · cases h
          · simp at h
        · cases h
      · simp at h

/-- The target of a request line without its fragment. -/
def targetPath (target : Bytes) : Bytes := target.takeWhile (· != hash)

theorem joinParts_ne_nil (isAbsolute hasTrailingSlash : Bool) (parts : List Bytes) :
    joinParts isAbsolute hasTrailingSlash parts ≠ [] := by
  unfold joinParts
  extract_lets normalized
  by_cases h : normalized = []
  · rw [if_pos h]
    exact List.cons_ne_nil _ _
  · rwa [if_neg h]

theorem joinParts_absolute (hasTrailingSlash : Bool) (parts : List Bytes) :
    joinParts true hasTrailingSlash parts = slash :: writeParts hasTrailingSlash parts := by
  simp [joinParts]

/-- What `normalize_uri` does: nothing on the empty string, an error, or
a normalised string. -/
theorem normalizeUri_cases (p : RequestParser) (uri : Bytes) :
    (uri = [] ∧ p.normalizeUri uri = (p, []))
      ∨ (uri ≠ [] ∧ p.normalizeUri uri = (p.logError 400, []))
      ∨ ∃ decoded parts, percentDecode uri = some decoded ∧ decoded ≠ []
        ∧ foldSegments (decoded.head? == some slash) [] (split slash decoded) = some parts
        ∧ p.normalizeUri uri = (p, joinParts (decoded.head? == some slash)
          (decoded.getLast? == some slash) parts) := by
  by_cases hnil : uri = []
  · subst hnil
    exact Or.inl ⟨rfl, rfl⟩
  cases hdec : percentDecode uri with
  | none =>
      have hd : p.decodePercentEncoding uri = (p.logError 400, []) := by
        rw [decodePercentEncoding, hdec]
      exact Or.inr (Or.inl ⟨hnil, by simp only [normalizeUri, hd, if_true]⟩)
  | some decoded =>
      have hd : p.decodePercentEncoding uri = (p, decoded) := by
        rw [decodePercentEncoding, hdec]
      have hne : decoded ≠ [] := fun h' => hnil (percentDecode_eq_nil (h' ▸ hdec))
      cases hfold : foldSegments (decoded.head? == some slash) [] (split slash decoded) with
      | none =>
          exact Or.inr (Or.inl ⟨hnil, by simp only [normalizeUri, hd, if_neg hne, hfold]⟩)
      | some parts =>
          refine Or.inr (Or.inr ⟨decoded, parts, rfl, hne, hfold, ?_⟩)
          simp only [normalizeUri, hd, if_neg hne, hfold]

theorem takeWhile_of_not_mem {c : UInt8} {s : Bytes} (h : c ∉ s) :
    s.takeWhile (· != c) = s := by
  refine List.takeWhile_eq_self_iff.mpr fun d hd => ?_
  simpa using fun heq : d = c => h (heq ▸ hd)

/-- The parser behind an accepted target, whose normalised path with its
query is `joined`. -/
def withTarget (p : RequestParser) (joined : Bytes) : RequestParser :=
  { p with
    queryString :=
      if question ∈ joined then (joined.dropWhile (· != question)).tail else p.queryString
    requestUri := joined.takeWhile (· != question) }

/-- The targets `set_request_uri` refuses without an error. -/
def TargetIgnored (target : Bytes) : Prop :=
  hasInvalidUriChar target = false ∧ targetPath target = []

instance : DecidablePred TargetIgnored := fun target => by
  unfold TargetIgnored
  infer_instance

/-- The normalised path and query of an accepted target. -/
structure TargetAccepted (target joined : Bytes) : Prop where
  valid : hasInvalidUriChar target = false
  normal : ∃ decoded parts, percentDecode (targetPath target) = some decoded ∧ decoded ≠ []
    ∧ foldSegments (decoded.head? == some slash) [] (split slash decoded) = some parts
    ∧ joined = joinParts (decoded.head? == some slash) (decoded.getLast? == some slash) parts
  rooted : (joined.takeWhile (· != question)).head? = some slash
  short : (joined.takeWhile (· != question)).length ≤ maxUriLength

theorem setRequestUri_cases (p : RequestParser) (target : Bytes) :
    (TargetIgnored target ∧ p.setRequestUri target = (p, false))
      ∨ (¬TargetIgnored target ∧ ∃ q : RequestParser, ∃ code, q.errorCode = p.errorCode ∧ code ≠ 0
        ∧ p.setRequestUri target = (q.logError code, false))
      ∨ (¬TargetIgnored target ∧ ∃ joined, TargetAccepted target joined
        ∧ p.setRequestUri target = (p.withTarget joined, true)) := by
  by_cases hinv : hasInvalidUriChar target = true
  · refine Or.inr (Or.inl ⟨fun h' => absurd (hinv.symm.trans h'.1) (by decide), p, 400, rfl,
      by decide, ?_⟩)
    rw [setRequestUri, if_pos hinv]
  have hvalid : hasInvalidUriChar target = false := by simpa using hinv
  rcases p.normalizeUri_cases (targetPath target) with
    ⟨hnil, heq⟩ | ⟨hne, heq⟩ | ⟨decoded, parts, hdec, hne, hfold, heq⟩
  · refine Or.inl ⟨⟨hvalid, hnil⟩, ?_⟩
    simp only [targetPath] at heq
    simp only [setRequestUri, if_neg hinv, heq, if_true]
  · refine Or.inr (Or.inl ⟨fun h' => hne h'.2, p, 400, rfl, by decide, ?_⟩)
    simp only [targetPath] at heq
    simp only [setRequestUri, if_neg hinv, heq, if_true]
  · have hign : ¬TargetIgnored target := fun h' => by
      rw [h'.2, percentDecode] at hdec
      exact hne (Option.some.inj hdec).symm
    generalize hjoined : joinParts (decoded.head? == some slash)
      (decoded.getLast? == some slash) parts = joined at heq
    have hjne : joined ≠ [] := hjoined ▸ joinParts_ne_nil _ _ _
    have hquery : (if question ∈ joined then
        (p.setQueryString (joined.dropWhile (· != question)).tail,
          joined.takeWhile (· != question)) else (p, joined))
        = ({ p with queryString := (p.withTarget joined).queryString },
          (p.withTarget joined).requestUri) := by
      by_cases hq : question ∈ joined
      · simp only [if_pos hq, withTarget, setQueryString]
      · simp only [if_neg hq, withTarget, takeWhile_of_not_mem hq]
    simp only [targetPath] at heq
    simp only [setRequestUri, if_neg hinv, heq, if_neg hjne, hquery]
    have hq : { p with queryString := (p.withTarget joined).queryString }.errorCode
        = p.errorCode := rfl
    by_cases hroot : (p.withTarget joined).requestUri.head? = some slash
    · by_cases hlen : maxUriLength < (p.withTarget joined).requestUri.length
      · exact Or.inr (Or.inl ⟨hign, _, 414, hq, by decide, by simp [hroot, hlen]⟩)
      · refine Or.inr (Or.inr ⟨hign, joined, ⟨hvalid, ?_, hroot, Nat.le_of_not_lt hlen⟩, ?_⟩)
        · exact ⟨decoded, parts, hdec, hne, hfold, hjoined.symm⟩
        · simp only [hroot, bne_self_eq_false, Bool.false_eq_true, if_false, if_neg hlen]
          rfl
    · exact Or.inr (Or.inl ⟨hign, _, 400, hq, by decide, by simp [hroot]⟩)

/-! ## The request line -/

/-- The parser behind an accepted request line. -/
def withLine (p : RequestParser) (method joined : Bytes) : RequestParser :=
  { ({ p with httpMethod := method }).withTarget joined with
    httpVersion := lit "HTTP/1.1"
    state := .headers }

/-- The parts of a request line that is neither accepted nor refused. -/
def PartsIgnored : List Bytes → Prop
  | [method, target, _] => method ∈ httpMethods ∧ TargetIgnored target
  | _ => False

instance : DecidablePred PartsIgnored := fun parts => by
  unfold PartsIgnored
  split <;> infer_instance

/-- The buffers whose request line is neither accepted nor refused: the
first CRLF is the end of the buffer, or nothing is left of the target. -/
def LineIgnored (request : Bytes) : Prop :=
  findLineEnd request = request.length
    ∨ findLineEnd request ≤ maxRequestLineLength
      ∧ PartsIgnored (split space (request.take (findLineEnd request - 2)))

instance : DecidablePred LineIgnored := fun request => by
  unfold LineIgnored
  infer_instance

theorem setHttpMethod_cases {p : RequestParser} (h : p.errorCode = 0) (method : Bytes) :
    (method ∈ httpMethods ∧ p.setHttpMethod method = ({ p with httpMethod := method }, true))
      ∨ (method ∉ httpMethods ∧ ∃ q : RequestParser, ∃ code, q.errorCode = 0 ∧ code ≠ 0
        ∧ p.setHttpMethod method = (q.logError code, false)) := by
  unfold setHttpMethod
  by_cases hm : method ∈ httpMethods
  · exact Or.inl ⟨hm, if_pos hm⟩
  · rw [if_neg hm]
    refine Or.inr ⟨hm, p, ?_⟩
    split
    · exact ⟨501, h, by decide, rfl⟩
    · exact ⟨400, h, by decide, rfl⟩

theorem setHttpVersion_cases {p : RequestParser} (h : p.errorCode = 0) (version : Bytes) :
    (version = lit "HTTP/1.1"
        ∧ p.setHttpVersion version = ({ p with httpVersion := lit "HTTP/1.1" }, true))
      ∨ (version ≠ lit "HTTP/1.1" ∧ ∃ q : RequestParser, ∃ code, q.errorCode = 0 ∧ code ≠ 0
        ∧ p.setHttpVersion version = (q.logError code, false)) := by
  unfold setHttpVersion
  by_cases hv : version = lit "HTTP/1.1"
  · subst hv
    exact Or.inl ⟨rfl, if_pos rfl⟩
  · rw [if_neg hv]
    refine Or.inr ⟨hv, p, ?_⟩
    split
    · exact ⟨505, h, by decide, rfl⟩
    · exact ⟨400, h, by decide, rfl⟩

theorem setRequestLineParts_cases {p : RequestParser} (h : p.errorCode = 0)
    (method target version : Bytes) :
    (PartsIgnored [method, target, version]
        ∧ p.setRequestLineParts method target version
          = ({ p with httpMethod := method }, false))
      ∨ (¬PartsIgnored [method, target, version] ∧ ∃ q : RequestParser, ∃ code,
        q.errorCode = 0 ∧ code ≠ 0
        ∧ p.setRequestLineParts method target version = (q.logError code, false))
      ∨ (¬PartsIgnored [method, target, version] ∧ ∃ joined,
        method ∈ httpMethods ∧ TargetAccepted target joined ∧ version = lit "HTTP/1.1"
        ∧ p.setRequestLineParts method target version
          = ({ ({ p with httpMethod := method }).withTarget joined with
              httpVersion := lit "HTTP/1.1" }, true)) := by
  rcases setHttpMethod_cases h method with ⟨hm, heq⟩ | ⟨hm, q, code, hq, hc, heq⟩
  · rcases setRequestUri_cases { p with httpMethod := method } target with
      ⟨hign, heq'⟩ | ⟨hign, q, code, hq, hc, heq'⟩ | ⟨hign, joined, hacc, heq'⟩
    · exact Or.inl ⟨⟨hm, hign⟩, by simp [setRequestLineParts, heq, heq']⟩
    · exact Or.inr (Or.inl ⟨fun hi => hign hi.2, q, code, hq.trans h, hc,
        by simp [setRequestLineParts, heq, heq']⟩)
    · have h'' : (({ p with httpMethod := method }).withTarget joined).errorCode = 0 := h
      rcases setHttpVersion_cases h'' version with
        ⟨hv, heq''⟩ | ⟨hv, q, code, hq, hc, heq''⟩
      · exact Or.inr (Or.inr ⟨fun hi => hign hi.2, joined, hm, hacc, hv,
          by simp [setRequestLineParts, heq, heq', heq'']⟩)
      · exact Or.inr (Or.inl ⟨fun hi => hign hi.2, q, code, hq, hc,
          by simp [setRequestLineParts, heq, heq', heq'']⟩)
  · exact Or.inr (Or.inl ⟨fun hi => hm hi.1, q, code, hq, hc,
      by simp [setRequestLineParts, heq]⟩)

/-- What `parse_request_line` does: nothing but recording the method, an
error, or an accepted line. -/
theorem parseRequestLine_cases {p : RequestParser} (h : p.errorCode = 0) (request : Bytes) :
    (LineIgnored request ∧ ∃ method,
        p.parseRequestLine request = ({ p with httpMethod := method }, request))
      ∨ (¬LineIgnored request ∧ ∃ q : RequestParser, ∃ code, q.errorCode = 0 ∧ code ≠ 0
        ∧ p.parseRequestLine request = (q.logError code, request))
      ∨ (¬LineIgnored request ∧ ∃ method target joined,
        split space (request.take (findLineEnd request - 2))
          = [method, target, lit "HTTP/1.1"]
        ∧ method ∈ httpMethods ∧ TargetAccepted target joined
        ∧ p.parseRequestLine request
          = (p.withLine method joined, request.drop (findLineEnd request))) := by
  by_cases hend : findLineEnd request = request.length
  · refine Or.inl ⟨Or.inl hend, p.httpMethod, ?_⟩
    simp only [parseRequestLine, if_pos hend]
  by_cases hlong : maxRequestLineLength < findLineEnd request
  · refine Or.inr (Or.inl ⟨?_, p, 414, h, by decide, ?_⟩)
    · rintro (h' | ⟨h', -⟩)
      · exact hend h'
      · exact absurd h' (Nat.not_le_of_lt hlong)
    · simp only [parseRequestLine, if_neg hend, if_pos hlong]
  have hign : ∀ {parts}, split space (request.take (findLineEnd request - 2)) = parts →
      ¬PartsIgnored parts → ¬LineIgnored request := by
    rintro parts hparts hno (h' | ⟨-, h'⟩)
    · exact hend h'
    · exact hno (hparts ▸ h')
  by_cases hthree : ∃ method target version,
      split space (request.take (findLineEnd request - 2)) = [method, target, version]
  · obtain ⟨method, target, version, hparts⟩ := hthree
    rcases setRequestLineParts_cases h method target version with
      ⟨hi, heq⟩ | ⟨hi, q, code, hq, hc, heq⟩ | ⟨hi, joined, hm, hacc, rfl, heq⟩
    · refine Or.inl ⟨Or.inr ⟨Nat.le_of_not_lt hlong, hparts ▸ hi⟩, method, ?_⟩
      simp [parseRequestLine, if_neg hend, if_neg hlong, hparts, heq]
    · refine Or.inr (Or.inl ⟨hign hparts hi, q, code, hq, hc, ?_⟩)
      simp [parseRequestLine, if_neg hend, if_neg hlong, hparts, heq]
    · refine Or.inr (Or.inr ⟨hign hparts hi, method, target, joined, hparts, hm, hacc, ?_⟩)
      simp [parseRequestLine, if_neg hend, if_neg hlong, hparts, heq, withLine]
  · refine Or.inr (Or.inl ⟨hign rfl fun hi => ?_, p, 400, h, by decide, ?_⟩)
    · unfold PartsIgnored at hi
      split at hi
      · rename_i hparts
        exact hthree ⟨_, _, _, hparts⟩
      · exact hi
    · simp only [parseRequestLine, if_neg hend, if_neg hlong]
      split
      · rename_i hparts
        exact absurd ⟨_, _, _, hparts⟩ hthree
      · rfl

/-! ## The header fields -/

/-- The parser behind an accepted header field. -/
def withField (p : RequestParser) (key value : Bytes) : RequestParser :=
  { p with
    hasContentLength := p.hasContentLength || decide (key = lit "content-length")
    hasTransferEncoding := p.hasTransferEncoding || decide (key = lit "transfer-encoding")
    headers := p.headers.insert key value }

/-- What a stored header field has passed. -/
structure FieldAccepted (key value : Bytes) : Prop where
  length : key = lit "content-length" → isNumeric value = true
  coding : key = lit "transfer-encoding" → value ∈ transferCodings

theorem handleContentLength_ok {l l' : HeaderLoop} {key value : Bytes}
    (h : handleContentLength l key value = .ok l') :
    l'.p = { l.p with
        hasContentLength := l.p.hasContentLength || decide (key = lit "content-length") }
      ∧ l'.rest = l.rest ∧ (key = lit "content-length" → isNumeric value = true) := by
  unfold handleContentLength at h
  by_cases hkey : key = lit "content-length"
  · rw [if_pos hkey] at h
    split at h
    · cases h
    · rename_i hok
      obtain rfl := Except.ok.inj h
      refine ⟨by simp [hkey], rfl, fun _ => ?_⟩
      simp only [Bool.or_eq_true, not_or] at hok
      simpa using hok.1
  · rw [if_neg hkey] at h
    obtain rfl := Except.ok.inj h
    exact ⟨by simp [hkey], rfl, fun h' => absurd h' hkey⟩

theorem handleTransferEncoding_ok {l l' : HeaderLoop} {key value : Bytes}
    (h : handleTransferEncoding l key value = .ok l') :
    l'.p = { l.p with
        hasTransferEncoding :=
          l.p.hasTransferEncoding || decide (key = lit "transfer-encoding") }
      ∧ l'.rest = l.rest ∧ (key = lit "transfer-encoding" → value ∈ transferCodings) := by
  unfold handleTransferEncoding at h
  by_cases hkey : key = lit "transfer-encoding"
  · rw [if_pos hkey] at h
    split at h
    · rename_i hok
      obtain rfl := Except.ok.inj h
      exact ⟨by simp [hkey], rfl, fun _ => hok⟩
    · cases h
  · rw [if_neg hkey] at h
    obtain rfl := Except.ok.inj h
    exact ⟨by simp [hkey], rfl, fun h' => absurd h' hkey⟩

theorem handleHost_ok {l l' : HeaderLoop} {key : Bytes} (h : handleHost l key = .ok l') :
    l'.p = l.p ∧ l'.rest = l.rest := by
  unfold handleHost at h
  split at h
  · split at h
    · cases h
    · obtain rfl := Except.ok.inj h
      exact ⟨rfl, rfl⟩
  · obtain rfl := Except.ok.inj h
    exact ⟨rfl, rfl⟩

theorem handleExpect_ok {l : HeaderLoop} {key value value' : Bytes}
    (h : handleExpect l key value = .ok value') (hkey : key ≠ lit "expect") :
    value' = value := by
  rw [handleExpect, if_neg hkey] at h
  exact (Except.ok.inj h).symm

/-- A field is stored behind its four checks, and only if there is room. -/
theorem storeHeader_cases {l l' : HeaderLoop} {key value : Bytes}
    (h : storeHeader l key value = .ok l') :
    ∃ l₁ l₂ l₃ value', handleContentLength l key value = .ok l₁
      ∧ handleTransferEncoding l₁ key value = .ok l₂ ∧ handleHost l₂ key = .ok l₃
      ∧ handleExpect l₃ key value = .ok value' ∧ l₃.p.headers.size < maxHeaderCount
      ∧ l' = { l₃ with p := { l₃.p with headers := l₃.p.headers.insert key value' } } := by
  simp only [storeHeader, bind, Except.bind] at h
  cases h₁ : handleContentLength l key value with
  | error e => rw [h₁] at h; cases h
  | ok l₁ =>
  rw [h₁] at h
  simp only at h
  cases h₂ : handleTransferEncoding l₁ key value with
  | error e => rw [h₂] at h; cases h
  | ok l₂ =>
  rw [h₂] at h
  simp only at h
  cases h₃ : handleHost l₂ key with
  | error e => rw [h₃] at h; cases h
  | ok l₃ =>
  rw [h₃] at h
  simp only at h
  cases h₄ : handleExpect l₃ key value with
  | error e => rw [h₄] at h; cases h
  | ok value' =>
  rw [h₄] at h
  simp only at h
  split at h
  · cases h
  · rename_i hroom
    obtain rfl := Except.ok.inj h
    exact ⟨l₁, l₂, l₃, value', rfl, h₂, h₃, h₄, Nat.lt_of_not_le hroom, rfl⟩

/-- What storing a header field does to the parser. -/
theorem storeHeader_ok {l l' : HeaderLoop} {key value : Bytes}
    (h : storeHeader l key value = .ok l') :
    ∃ value', FieldAccepted key value' ∧ l'.p = l.p.withField key value'
      ∧ l'.rest = l.rest := by
  obtain ⟨l₁, l₂, l₃, value', h₁, h₂, h₃, h₄, -, rfl⟩ := storeHeader_cases h
  obtain ⟨hp₁, hr₁, hlength⟩ := handleContentLength_ok h₁
  obtain ⟨hp₂, hr₂, hcoding⟩ := handleTransferEncoding_ok h₂
  obtain ⟨hp₃, hr₃⟩ := handleHost_ok h₃
  refine ⟨value', ⟨fun hkey => ?_, fun hkey => ?_⟩, ?_, ?_⟩
  · rw [handleExpect_ok h₄ (by rw [hkey]; decide)]
    exact hlength hkey
  · rw [handleExpect_ok h₄ (by rw [hkey]; decide)]
    exact hcoding hkey
  · simp [hp₃, hp₂, hp₁, withField]
  · rw [hr₃, hr₂, hr₁]

/-- A refused header line comes with a code, and the parser has logged
nothing yet. -/
theorem storeHeader_error {l : HeaderLoop} {key value : Bytes} {r : Reject}
    (h : storeHeader l key value = .error r) : r.1.errorCode = l.p.errorCode ∧ r.2 ≠ 0 := by
  simp only [storeHeader, bind, Except.bind] at h
  cases h₁ : handleContentLength l key value with
  | error e =>
      rw [h₁] at h
      obtain rfl := Except.error.inj h
      simp only [handleContentLength] at h₁
      grind
  | ok l₁ =>
  rw [h₁] at h
  obtain ⟨hp₁, -⟩ := handleContentLength_ok h₁
  simp only at h
  cases h₂ : handleTransferEncoding l₁ key value with
  | error e =>
      rw [h₂] at h
      obtain rfl := Except.error.inj h
      simp only [handleTransferEncoding] at h₂
      grind
  | ok l₂ =>
  rw [h₂] at h
  obtain ⟨hp₂, -⟩ := handleTransferEncoding_ok h₂
  simp only at h
  cases h₃ : handleHost l₂ key with
  | error e =>
      rw [h₃] at h
      obtain rfl := Except.error.inj h
      simp only [handleHost] at h₃
      grind
  | ok l₃ =>
  rw [h₃] at h
  obtain ⟨hp₃, -⟩ := handleHost_ok h₃
  have herr : l₃.p.errorCode = l.p.errorCode := by rw [hp₃, hp₂, hp₁]
  simp only at h
  cases h₄ : handleExpect l₃ key value with
  | error e =>
      rw [h₄] at h
      obtain rfl := Except.error.inj h
      simp only [handleExpect] at h₄
      grind
  | ok value' =>
  rw [h₄] at h
  simp only at h
  split at h
  · obtain rfl := Except.error.inj h
    exact ⟨herr, show (431 : Nat) ≠ 0 by decide⟩
  · cases h

theorem parseHeaderLine_error {l : HeaderLoop} {headerLine : Bytes} {r : Reject}
    (h : parseHeaderLine l headerLine = .error r) :
    r.1.errorCode = l.p.errorCode ∧ r.2 ≠ 0 := by
  simp only [parseHeaderLine] at h
  split at h
  · obtain rfl := Except.error.inj h
    exact ⟨rfl, show (400 : Nat) ≠ 0 by decide⟩
  · split at h
    · obtain rfl := Except.error.inj h
      exact ⟨rfl, show (400 : Nat) ≠ 0 by decide⟩
    · exact storeHeader_error h

theorem parseHeaderLine_ok {l l' : HeaderLoop} {headerLine : Bytes}
    (h : parseHeaderLine l headerLine = .ok l') :
    ∃ key value, FieldAccepted key value ∧ l'.p = l.p.withField key value
      ∧ l'.rest = l.rest := by
  simp only [parseHeaderLine] at h
  split at h
  · cases h
  · split at h
    · cases h
    · obtain ⟨value', hstore⟩ := storeHeader_ok h
      exact ⟨_, value', hstore⟩

/-- The framing flags say which framing fields are stored, and their
values have been checked. -/
structure FieldsAccepted (p : RequestParser) : Prop where
  length : p.hasContentLength = (p.headers.get? (lit "content-length")).isSome
  coding : p.hasTransferEncoding = (p.headers.get? (lit "transfer-encoding")).isSome
  numeric : ∀ v, p.headers.get? (lit "content-length") = some v → isNumeric v = true
  known : ∀ v, p.headers.get? (lit "transfer-encoding") = some v → v ∈ transferCodings

theorem FieldsAccepted.withField {p : RequestParser} (h : p.FieldsAccepted)
    {key value : Bytes} (hv : FieldAccepted key value) :
    (p.withField key value).FieldsAccepted := by
  constructor
  · simp only [RequestParser.withField, OrdMap.get?_insert]
    split
    · rename_i hkey
      simp [hkey]
    · rename_i hkey
      simp [h.length, hkey]
  · simp only [RequestParser.withField, OrdMap.get?_insert]
    split
    · rename_i hkey
      simp [hkey]
    · rename_i hkey
      simp [h.coding, hkey]
  · intro v hget
    simp only [RequestParser.withField, OrdMap.get?_insert] at hget
    split at hget
    · rename_i hkey
      exact Option.some.inj hget ▸ hv.length hkey
    · exact h.numeric v hget
  · intro v hget
    simp only [RequestParser.withField, OrdMap.get?_insert] at hget
    split at hget
    · rename_i hkey
      exact Option.some.inj hget ▸ hv.coding hkey
    · exact h.known v hget

/-- `p` differs from `p₀` in what the header loop writes only. -/
def HeadFrame (p₀ p : RequestParser) : Prop :=
  p = { p₀ with
    hasContentLength := p.hasContentLength
    hasTransferEncoding := p.hasTransferEncoding
    headers := p.headers }

theorem HeadFrame.withField {p₀ p : RequestParser} (h : HeadFrame p₀ p) (key value : Bytes) :
    HeadFrame p₀ (p.withField key value) := by
  unfold HeadFrame at h ⊢
  rw [h]
  rfl

/-- How the header loop is left. -/
inductive HeadOutcome (p₀ : RequestParser) : ParseExit → Prop where
  | threw : HeadOutcome p₀ .threw
  | refused (q : RequestParser) (code : Nat) (rest : Bytes) (hq : q.errorCode = 0)
      (hc : code ≠ 0) : HeadOutcome p₀ (.returned (q.logError code) rest)
  /-- the buffer ends with a header line -/
  | ended (p : RequestParser) (hf : HeadFrame p₀ p) (hp : p.FieldsAccepted) :
      HeadOutcome p₀ (.returned p [])
  | done (p : RequestParser) (rest : Bytes) (hf : HeadFrame p₀ p) (hp : p.FieldsAccepted)
      (hframing : p.hasContentLength = false ∧ p.hasTransferEncoding = false)
      (hm : p.httpMethod ≠ lit "POST") : HeadOutcome p₀ (.returned { p with state := .done } rest)
  | body (p : RequestParser) (rest : Bytes) (hf : HeadFrame p₀ p) (hp : p.FieldsAccepted)
      (hframing : p.hasContentLength ≠ p.hasTransferEncoding) :
      HeadOutcome p₀ (.returned { p with state := .body } rest)

theorem HeadFrame.errorCode {p₀ p : RequestParser} (h : HeadFrame p₀ p) :
    p.errorCode = p₀.errorCode := by
  rw [h]

theorem endOfHeaders_outcome {p₀ : RequestParser} (h₀ : p₀.errorCode = 0) {l : HeaderLoop}
    (hf : HeadFrame p₀ l.p) (hp : l.p.FieldsAccepted) (headerEnd : Bytes) :
    HeadOutcome p₀ (endOfHeaders l headerEnd) := by
  have herr : l.p.errorCode = 0 := hf.errorCode.trans h₀
  simp only [endOfHeaders]
  split
  · exact .refused l.p 400 _ herr (by decide)
  split
  · exact .refused l.p 400 _ herr (by decide)
  rename_i hboth
  split
  · rename_i hnone
    split
    · exact .refused l.p 411 _ herr (by decide)
    · rename_i hm
      exact .done l.p _ hf hp (by simpa using hnone) hm
  · rename_i hsome
    refine .body l.p _ hf hp fun heq => ?_
    rw [heq] at hboth hsome
    cases ht : l.p.hasTransferEncoding <;> rw [ht] at hboth hsome
    · exact hsome rfl
    · exact hboth rfl

theorem parseHeadersIter_outcome {p₀ : RequestParser} (h₀ : p₀.errorCode = 0)
    {l : HeaderLoop} (hf : HeadFrame p₀ l.p) (hp : l.p.FieldsAccepted) {r : ParseExit}
    (h : parseHeadersIter l = .inr r) : HeadOutcome p₀ r := by
  have herr : l.p.errorCode = 0 := hf.errorCode.trans h₀
  simp only [parseHeadersIter] at h
  split at h
  · rename_i hnil
    obtain rfl := Sum.inr.inj h
    rw [hnil]
    exact .ended l.p hf hp
  split at h
  · obtain rfl := Sum.inr.inj h
    exact endOfHeaders_outcome h₀ hf hp _
  split at h
  · obtain rfl := Sum.inr.inj h
    exact .refused l.p 400 _ herr (by decide)
  split at h
  · obtain rfl := Sum.inr.inj h
    exact .refused l.p 431 _ herr (by decide)
  split at h
  · obtain rfl := Sum.inr.inj h
    exact .threw
  split at h
  · rename_i p code hline
    obtain rfl := Sum.inr.inj h
    obtain ⟨hq, hc⟩ := parseHeaderLine_error hline
    exact .refused p code _ (hq.trans herr) hc
  · cases h

theorem parseHeaders_outcome {p : RequestParser} (h : p.errorCode = 0) (hp : p.FieldsAccepted)
    (rest : Bytes) : HeadOutcome p (p.parseHeaders rest) := by
  refine WhileLoop.total_invariant
    (I := fun l : HeaderLoop => HeadFrame p l.p ∧ l.p.FieldsAccepted) ?_ ?_ ⟨rfl, hp⟩
  · exact fun l r hl hiter => parseHeadersIter_outcome h hl.1 hl.2 hiter
  · intro l l' hl hiter
    obtain ⟨-, -, -, l₁, hline, rfl⟩ := parseHeadersIter_inl hiter
    obtain ⟨key, value, hv, heq, -⟩ := parseHeaderLine_ok hline
    exact ⟨heq ▸ hl.1.withField key value, heq ▸ hl.2.withField hv⟩

end RequestParser

/-! ## The end of the head

The driver only hands over a buffer with an empty line in it. Such a
buffer keeps one ahead of every line the parser takes, so the header
loop meets it and never runs past the end of the buffer. -/

/-- An empty line is ahead, at once or behind the end of a line. -/
def EmptyLineAhead (t : Bytes) : Prop := [cr, lf] <+: t ∨ doubleCrlf <:+: t

theorem not_crlf_infix : ∀ {t : Bytes}, NoCrlf t → ¬[cr, lf] <:+: t
  | [], _, h => by simp at h
  | [a], _, h => by simpa using h.length_le
  | a :: b :: t, hno, h => by
      rcases List.infix_cons_iff.mp h with hpre | hinf
      · obtain ⟨s, hs⟩ := hpre
        obtain ⟨rfl, hs'⟩ := List.cons.inj hs
        exact hno.1 ⟨rfl, (List.cons.inj hs').1.symm⟩
      · exact not_crlf_infix hno.2 hinf

theorem emptyLineAhead_crlf {t : Bytes} (h : EmptyLineAhead t) :
    ∃ w u, t = w ++ cr :: lf :: u ∧ NoCrlf (w ++ [cr]) := by
  refine (noCrlf_or_crlf t).resolve_left fun hno => not_crlf_infix hno ?_
  rcases h with h | h
  · exact h.isInfix
  · exact List.IsInfix.trans ⟨[], [cr, lf], rfl⟩ h

/-- Behind the first line end of a buffer with an empty line, there is
still one ahead. -/
theorem emptyLineAhead_of_infix : ∀ {w u : Bytes}, NoCrlf (w ++ [cr]) →
    doubleCrlf <:+: w ++ cr :: lf :: u → EmptyLineAhead u
  | [], u, _, h => by
      rcases List.infix_cons_iff.mp h with hpre | hinf
      · obtain ⟨s, hs⟩ := hpre
        exact Or.inl ⟨s, (List.cons.inj (List.cons.inj hs).2).2⟩
      · rcases List.infix_cons_iff.mp hinf with hpre | hinf
        · obtain ⟨s, hs⟩ := hpre
          exact absurd (List.cons.inj hs).1 (by decide)
        · exact Or.inr hinf
  | a :: w, u, hno, h => by
      have hno' : NoCrlf (w ++ [cr]) := by
        cases w with
        | nil => trivial
        | cons b w => exact hno.2
      rcases List.infix_cons_iff.mp h with hpre | hinf
      · obtain ⟨s, hs⟩ := hpre
        obtain ⟨rfl, hs'⟩ := List.cons.inj hs
        cases w with
        | nil => exact absurd (List.cons.inj hs').1 (by decide)
        | cons b w => exact absurd ⟨rfl, (List.cons.inj hs').1.symm⟩ hno.1
      · exact emptyLineAhead_of_infix hno' hinf

theorem drop_findLineEnd {w u : Bytes} (hno : NoCrlf (w ++ [cr])) :
    (w ++ cr :: lf :: u).drop (findLineEnd (w ++ cr :: lf :: u)) = u := by
  rw [findLineEnd_crlf u hno, show w ++ cr :: lf :: u = (w ++ [cr, lf]) ++ u by simp,
    List.drop_left' (by simp)]

theorem EmptyLineAhead.drop {request : Bytes} (h : doubleCrlf <:+: request) :
    EmptyLineAhead (request.drop (findLineEnd request)) := by
  obtain ⟨w, u, rfl, hno⟩ := emptyLineAhead_crlf (Or.inr h)
  rw [drop_findLineEnd hno]
  exact emptyLineAhead_of_infix hno h

namespace RequestParser

/-- An exit that has met the end of the head, or an error. -/
def Ended (r : ParseExit) : Prop := ∃ p rest, r = .returned p rest ∧ p.state ≠ .headers

theorem ended_logError {p : RequestParser} (h : p.errorCode = 0) (code : Nat) (rest : Bytes) :
    Ended (.returned (p.logError code) rest) := by
  refine ⟨_, _, rfl, ?_⟩
  rw [logError_state h]
  decide

theorem ended_endOfHeaders {l : HeaderLoop} (h : l.p.errorCode = 0) (headerEnd : Bytes) :
    Ended (endOfHeaders l headerEnd) := by
  simp only [endOfHeaders]
  split
  · exact ended_logError h 400 _
  split
  · exact ended_logError h 400 _
  split
  · split
    · exact ended_logError h 411 _
    · exact ⟨_, _, rfl, fun hs => by cases hs⟩
  · exact ⟨_, _, rfl, fun hs => by cases hs⟩

theorem parseHeaders_ended {p : RequestParser} (herr : p.errorCode = 0) {rest : Bytes}
    (h : EmptyLineAhead rest) : Ended (p.parseHeaders rest) := by
  refine WhileLoop.total_invariant
    (I := fun l : HeaderLoop => EmptyLineAhead l.rest ∧ l.p.errorCode = 0)
    (s := { p := p, rest := rest }) ?_ ?_ ⟨h, herr⟩
  · rintro l r ⟨hl, herr⟩ hiter
    obtain ⟨w, u, heq, hno⟩ := emptyLineAhead_crlf hl
    have hnil : l.rest ≠ [] := by simp [heq]
    have hend : ¬findLineEnd l.rest < 2 := by
      rw [heq, findLineEnd_crlf u hno]
      omega
    simp only [parseHeadersIter, if_neg hnil, if_neg hend] at hiter
    split at hiter
    · obtain rfl := Sum.inr.inj hiter
      exact ended_endOfHeaders herr _
    split at hiter
    · obtain rfl := Sum.inr.inj hiter
      exact ended_logError herr 400 _
    split at hiter
    · obtain rfl := Sum.inr.inj hiter
      exact ended_logError herr 431 _
    split at hiter
    · rename_i q code hline
      obtain rfl := Sum.inr.inj hiter
      exact ended_logError ((parseHeaderLine_error hline).1.trans herr) code _
    · cases hiter
  · rintro l l' ⟨hl, herr⟩ hiter
    obtain ⟨hend, -, hrest, l₁, hline, hl'⟩ := parseHeadersIter_inl hiter
    obtain ⟨key, value, -, heq, -⟩ := parseHeaderLine_ok hline
    refine ⟨?_, ?_⟩
    · rw [hrest]
      rcases hl with ⟨s, hs⟩ | hinf
      · rw [← hs, List.cons_append, List.cons_append, findLineEnd, if_pos ⟨rfl, rfl⟩] at hend
        exact absurd hend (Nat.lt_irrefl 2)
      · exact EmptyLineAhead.drop hinf
    · rw [hl']
      simp only [heq]
      exact herr

theorem Ended.ne_threw {r : ParseExit} (h : Ended r) : r ≠ .threw := by
  obtain ⟨p, rest, rfl, -⟩ := h
  intro h
  cases h

end RequestParser

end Webserv
