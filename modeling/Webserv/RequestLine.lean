import Webserv.RequestHead
import Webserv.CrlfLines

/-!
# The request line

The splitter drops an empty field at the end, and a target without a
path is refused without an error. Apart from these lines, and from one
that ends where the received bytes do, a request line is accepted if and
only if it is a method, a target and the version with single spaces.
-/

namespace Bytes

/-! ## Fields between delimiters -/

/-- The first field of a string, and the rest. -/
theorem split_eq_cons {d : UInt8} : ∀ {s w : Bytes} {ws : List Bytes}, split d s = w :: ws →
    d ∉ w ∧ (s = w ∧ ws = [] ∨ ∃ t, s = w ++ d :: t ∧ split d t = ws)
  | [], _, _, h => by cases h
  | c :: s, w, ws, h => by
      rw [split] at h
      by_cases hc : c = d
      · rw [if_pos hc] at h
        obtain ⟨rfl, rfl⟩ := List.cons.inj h
        exact ⟨List.not_mem_nil, Or.inr ⟨s, by rw [hc, List.nil_append], rfl⟩⟩
      · rw [if_neg hc] at h
        cases hs : split d s with
        | nil =>
            rw [hs] at h
            obtain ⟨rfl, rfl⟩ := List.cons.inj h
            have hnil : s = [] := by
              cases s with
              | nil => rfl
              | cons c' s =>
                  rw [split] at hs
                  split at hs
                  · cases hs
                  · split at hs
                    · cases hs
                    · cases hs
            rw [hnil]
            exact ⟨by simpa using Ne.symm hc, Or.inl ⟨rfl, rfl⟩⟩
        | cons w' ws' =>
            rw [hs] at h
            obtain ⟨rfl, rfl⟩ := List.cons.inj h
            obtain ⟨hno, hrest⟩ := split_eq_cons hs
            refine ⟨by simpa using ⟨Ne.symm hc, hno⟩, ?_⟩
            rcases hrest with ⟨rfl, hws⟩ | ⟨t, rfl, ht⟩
            · exact Or.inl ⟨rfl, hws⟩
            · exact Or.inr ⟨t, rfl, ht⟩

theorem split_field {d : UInt8} : ∀ {w : Bytes} (t : Bytes), d ∉ w →
    split d (w ++ d :: t) = w :: split d t
  | [], t, _ => by rw [List.nil_append, split, if_pos rfl]
  | c :: w, t, h => by
      rw [List.mem_cons, not_or] at h
      have hc : c ≠ d := fun hc => h.1 hc.symm
      rw [List.cons_append, split, if_neg hc, split_field t h.2]

theorem split_last {d : UInt8} : ∀ {w : Bytes}, d ∉ w → w ≠ [] → split d w = [w]
  | [], _, hne => absurd rfl hne
  | [c], h, _ => by
      have hc : c ≠ d := fun hc => h (hc ▸ List.mem_cons_self)
      rw [split, if_neg hc, split]
  | c :: c' :: w, h, _ => by
      rw [List.mem_cons, not_or] at h
      have hc : c ≠ d := fun hc => h.1 hc.symm
      rw [split, if_neg hc, split_last h.2 (List.cons_ne_nil c' w)]

theorem split_eq_nil {d : UInt8} {s : Bytes} (h : split d s = []) : s = [] := by
  cases s with
  | nil => rfl
  | cons c s =>
      rw [split] at h
      split at h
      · cases h
      · split at h
        · cases h
        · cases h

/-- Three fields, with or without a delimiter behind them. -/
theorem split_eq_three {d : UInt8} {s a b c : Bytes} (h : split d s = [a, b, c]) :
    s = a ++ d :: (b ++ d :: c) ∨ s = a ++ d :: (b ++ d :: c) ++ [d] := by
  obtain ⟨-, ⟨-, hws⟩ | ⟨t, rfl, ht⟩⟩ := split_eq_cons h
  · cases hws
  obtain ⟨-, ⟨-, hws⟩ | ⟨t', rfl, ht'⟩⟩ := split_eq_cons ht
  · cases hws
  obtain ⟨-, ⟨rfl, -⟩ | ⟨t'', rfl, ht''⟩⟩ := split_eq_cons ht'
  · exact Or.inl rfl
  · rw [split_eq_nil ht'']
    exact Or.inr (by simp)

end Bytes

namespace Webserv

open Bytes RequestParser CrlfLines

/-- A line of the grammar: method, target and version, with one space in
between. -/
def RequestLine (p : RequestParser) (line : Bytes) : Prop :=
  line.length + 2 ≤ maxRequestLineLength ∧ ∃ method target, method ∈ httpMethods
    ∧ (p.setRequestUri target).2 = true
    ∧ line = method ++ space :: (target ++ space :: lit "HTTP/1.1")

/-- The line is one of the grammar with a space behind it. -/
def SpaceBehind (p : RequestParser) (line : Bytes) : Prop :=
  line.length + 2 ≤ maxRequestLineLength ∧ ∃ line', RequestLine p line' ∧ line = line' ++ [space]

/-- The line decides: the parser goes on to the header fields if it is
one of the grammar, and fails with an error if it is not. -/
structure LineExact (p : RequestParser) (line rest : Bytes) : Prop where
  accepted : (p.parseRequestLine (line ++ [cr, lf] ++ rest)).1.state = .headers ↔ RequestLine p line
  refused : ¬RequestLine p line →
    (p.parseRequestLine (line ++ [cr, lf] ++ rest)).1.state = .errorParse
      ∧ (p.parseRequestLine (line ++ [cr, lf] ++ rest)).1.errorCode ≠ 0

theorem space_notMem_target {p : RequestParser} {target : Bytes}
    (h : (p.setRequestUri target).2 = true) : space ∉ target := by
  intro hmem
  have hinvalid : hasInvalidUriChar target = true := by
    unfold hasInvalidUriChar
    rw [Bool.or_eq_true]
    exact Or.inl (List.any_eq_true.mpr ⟨space, hmem, by decide⟩)
  rw [setRequestUri, if_pos hinvalid] at h
  cases h

theorem space_notMem_method : ∀ method ∈ httpMethods, space ∉ method := by
  decide

/-- The fields of a line of the grammar, and of one with a space behind
it. -/
theorem split_requestLine {p : RequestParser} {method target : Bytes} (hm : method ∈ httpMethods)
    (ht : (p.setRequestUri target).2 = true) :
    split space (method ++ space :: (target ++ space :: lit "HTTP/1.1"))
        = [method, target, lit "HTTP/1.1"]
      ∧ split space (method ++ space :: (target ++ space :: lit "HTTP/1.1") ++ [space])
        = [method, target, lit "HTTP/1.1"] := by
  have hmethod := space_notMem_method method hm
  have htarget := space_notMem_target ht
  have hbehind : method ++ space :: (target ++ space :: lit "HTTP/1.1") ++ [space]
      = method ++ space :: (target ++ space :: (lit "HTTP/1.1" ++ space :: [])) := by simp
  refine ⟨?_, ?_⟩
  · rw [split_field _ hmethod, split_field _ htarget, split_last (by decide) (by decide)]
  · rw [hbehind, split_field _ hmethod, split_field _ htarget, split_field _ (by decide), split]

namespace RequestParser

variable {p : RequestParser} {line rest : Bytes}

theorem setRequestUri_accepted {target : Bytes} :
    (p.setRequestUri target).2 = true ↔ ∃ joined, TargetAccepted target joined
      ∧ p.setRequestUri target = (p.withTarget joined, true) := by
  rcases setRequestUri_cases p target with ⟨-, heq⟩ | ⟨-, q, code, -, -, heq⟩ | ⟨-, joined, h, heq⟩
  · rw [heq]
    simp
  · rw [heq]
    simp
  · exact ⟨fun _ => ⟨joined, h, heq⟩, fun _ => by rw [heq]⟩

/-- Whether a target is accepted does not depend on the parser. -/
theorem setRequestUri_of_accepted {target joined : Bytes} (h : TargetAccepted target joined) :
    (p.setRequestUri target).2 = true := by
  have hne : ¬TargetIgnored target := by
    rintro ⟨-, hnil⟩
    obtain ⟨decoded, -, hdec, hdne, -⟩ := h.normal
    rw [hnil, percentDecode] at hdec
    exact hdne (Option.some.inj hdec).symm
  obtain ⟨decoded, parts, hdec, hdne, hfold, hjoined⟩ := h.normal
  have hdec' : percentDecode (target.takeWhile (· != hash)) = some decoded := hdec
  have hjne : joined ≠ [] := hjoined ▸ joinParts_ne_nil _ _ _
  have hshort := h.short
  have hrooted := h.rooted
  simp only [setRequestUri, h.valid, Bool.false_eq_true, if_false, normalizeUri,
    decodePercentEncoding, hdec', hdne, hfold, ← hjoined, hjne]
  by_cases hq : question ∈ joined
  · simp [hq, hrooted, Nat.not_lt.mpr hshort]
  · rw [takeWhile_of_not_mem hq] at hrooted hshort
    simp [hq, hrooted, Nat.not_lt.mpr hshort]

theorem findLineEnd_line (hline : IsLine line) (rest : Bytes) :
    findLineEnd (line ++ [cr, lf] ++ rest) = line.length + 2
      ∧ (line ++ [cr, lf] ++ rest).take (line.length + 2 - 2) = line := by
  have hbytes : line ++ [cr, lf] ++ rest = line ++ cr :: lf :: rest := by simp
  refine ⟨?_, ?_⟩
  · rw [hbytes]
    exact findLineEnd_crlf rest hline
  · rw [Nat.add_sub_cancel, hbytes, List.take_left]

/-- Three good fields take the parser to the header fields. -/
theorem parseRequestLine_fields (hline : IsLine line) (hrest : rest ≠ [])
    (hlength : line.length + 2 ≤ maxRequestLineLength) {method target : Bytes}
    (hm : method ∈ httpMethods) (ht : (p.setRequestUri target).2 = true)
    (hfields : split space line = [method, target, lit "HTTP/1.1"]) :
    (p.parseRequestLine (line ++ [cr, lf] ++ rest)).1.state = .headers
      ∧ ∃ joined, TargetAccepted target joined
        ∧ (p.parseRequestLine (line ++ [cr, lf] ++ rest)).1.requestUri
          = joined.takeWhile (· != question) := by
  obtain ⟨hend, htake⟩ := findLineEnd_line hline rest
  have hmore : ¬line.length + 2 = (line ++ [cr, lf] ++ rest).length := by
    have hpos := List.length_pos_iff.mpr hrest
    simp only [List.length_append, List.length_cons, List.length_nil]
    omega
  obtain ⟨joined, hacc, -⟩ := setRequestUri_accepted.mp ht
  have ht' : (({ p with httpMethod := method } : RequestParser).setRequestUri target).2 = true :=
    setRequestUri_of_accepted hacc
  obtain ⟨joined', hacc', heq⟩ := setRequestUri_accepted.mp ht'
  have hparts : p.setRequestLineParts method target (lit "HTTP/1.1")
      = ({ ({ p with httpMethod := method } : RequestParser).withTarget joined' with
        httpVersion := lit "HTTP/1.1" }, true) := by
    simp [setRequestLineParts, setHttpMethod, hm, heq, setHttpVersion]
  have hparse : p.parseRequestLine (line ++ [cr, lf] ++ rest)
      = ({ ({ p with httpMethod := method } : RequestParser).withTarget joined' with
        httpVersion := lit "HTTP/1.1"
        state := .headers }, (line ++ [cr, lf] ++ rest).drop (line.length + 2)) := by
    simp only [parseRequestLine, hend, if_neg hmore, if_neg (Nat.not_lt.mpr hlength), htake,
      hfields, hparts, if_true]
  rw [hparse]
  exact ⟨rfl, joined', hacc', rfl⟩

/-- A line that is accepted is one of the grammar, or has a space
behind it. -/
theorem line_of_accepted (herr : p.errorCode = 0) (hline : IsLine line)
    (h : (p.parseRequestLine (line ++ [cr, lf] ++ rest)).1.state = .headers)
    (hign : ¬LineIgnored (line ++ [cr, lf] ++ rest)) : RequestLine p line ∨ SpaceBehind p line := by
  obtain ⟨hend, htake⟩ := findLineEnd_line hline rest
  have hmore : ¬line.length + 2 = (line ++ [cr, lf] ++ rest).length := fun hmore =>
    hign (Or.inl (hend.trans hmore))
  have hlength : line.length + 2 ≤ maxRequestLineLength := by
    by_contra hlong
    have hrefused : p.parseRequestLine (line ++ [cr, lf] ++ rest)
        = (p.logError 414, line ++ [cr, lf] ++ rest) := by
      simp only [parseRequestLine, hend, if_neg hmore, if_pos (Nat.lt_of_not_le hlong)]
    rw [hrefused, logError_state herr] at h
    cases h
  rcases parseRequestLine_cases herr (line ++ [cr, lf] ++ rest) with
    ⟨hno, -⟩ | ⟨-, q, code, hq, -, heq⟩ | ⟨-, method, target, joined, hfields, hm, hacc, -⟩
  · exact absurd hno hign
  · rw [heq, logError_state hq] at h
    cases h
  · rw [hend, htake] at hfields
    have ht : (p.setRequestUri target).2 = true := setRequestUri_of_accepted hacc
    rcases split_eq_three hfields with heq | heq
    · exact Or.inl ⟨hlength, method, target, hm, ht, heq⟩
    · refine Or.inr ⟨hlength, _, ⟨?_, method, target, hm, ht, rfl⟩, heq⟩
      have hshort := congrArg List.length heq
      simp only [List.length_append, List.length_cons, List.length_nil] at hshort hlength ⊢
      omega

end RequestParser

open RequestParser

/-- The first line of a request decides as the grammar has it if and only
if there is something behind it, something is left of its target, and it
is not a good line with a space behind it. -/
theorem lineExact_iff {p : RequestParser} (hstate : p.state = .requestLine)
    (herr : p.errorCode = 0) {line : Bytes} (hline : IsLine line) (rest : Bytes) :
    LineExact p line rest
      ↔ ¬LineIgnored (line ++ [cr, lf] ++ rest) ∧ ¬SpaceBehind p line := by
  have hmore : ¬LineIgnored (line ++ [cr, lf] ++ rest) → rest ≠ [] := by
    rintro hign rfl
    refine hign (Or.inl ?_)
    rw [(findLineEnd_line hline []).1]
    simp
  refine ⟨fun h => ?_, ?_⟩
  · have hign : ¬LineIgnored (line ++ [cr, lf] ++ rest) := by
      intro hign
      rcases parseRequestLine_cases herr (line ++ [cr, lf] ++ rest) with
        ⟨-, method, heq⟩ | ⟨hno, -⟩ | ⟨hno, -⟩
      · have hstays : (p.parseRequestLine (line ++ [cr, lf] ++ rest)).1.state
            = .requestLine := by
          rw [heq]
          exact hstate
        by_cases hgood : RequestLine p line
        · cases hstays.symm.trans (h.accepted.mpr hgood)
        · cases hstays.symm.trans (h.refused hgood).1
      · exact hno hign
      · exact hno hign
    refine ⟨hign, ?_⟩
    rintro ⟨hlength, line', ⟨-, method, target, hm, ht, rfl⟩, heq⟩
    have hfields := (split_requestLine hm ht).2
    rw [← heq] at hfields
    obtain ⟨-, method', target', -, -, heq'⟩ :=
      h.accepted.mp (parseRequestLine_fields hline (hmore hign) hlength hm ht hfields).1
    have hspace : line.getLast? = some space := by
      rw [heq, List.getLast?_concat]
    have hdigit : line.getLast? = some 49 := by
      have hbytes : line = method' ++ space :: (target' ++ space :: lit "HTTP/1.") ++ [49] := by
        rw [heq']
        simp [lit]
      rw [hbytes, List.getLast?_concat]
    cases hspace.symm.trans hdigit
  · rintro ⟨hign, hspace⟩
    have haccepted : (p.parseRequestLine (line ++ [cr, lf] ++ rest)).1.state = .headers →
        RequestLine p line := fun h => (line_of_accepted herr hline h hign).resolve_right hspace
    refine ⟨⟨haccepted, ?_⟩, fun hbad => ?_⟩
    · rintro ⟨hlength, method, target, hm, ht, rfl⟩
      exact (parseRequestLine_fields hline (hmore hign) hlength hm ht
        (split_requestLine hm ht).1).1
    · rcases parseRequestLine_cases herr (line ++ [cr, lf] ++ rest) with
        ⟨hno, -⟩ | ⟨-, q, code, hq, hcode, heq⟩ | ⟨-, method, target, joined, -, -, -, heq⟩
      · exact absurd hno hign
      · rw [heq]
        exact ⟨logError_state hq code, by rw [logError_errorCode hq]; exact hcode⟩
      · refine absurd (haccepted ?_) hbad
        rw [heq]
        rfl

theorem lineExact_iff_index : LineExact {} (lit "GET /index.html HTTP/1.1") (lit "Host: a\r\n\r\n")
    ↔ ¬LineIgnored (lit "GET /index.html HTTP/1.1" ++ [cr, lf] ++ lit "Host: a\r\n\r\n")
      ∧ ¬SpaceBehind {} (lit "GET /index.html HTTP/1.1") :=
  lineExact_iff rfl rfl (isLine_of_noCr (by decide +kernel)) (lit "Host: a\r\n\r\n")

/-- Two spaces, and no target between them: no error is recorded. -/
theorem not_lineExact :
    ¬∀ (p : RequestParser), p.state = .requestLine → p.errorCode = 0 →
      ∀ line, IsLine line → ∀ rest, LineExact p line rest := by
  intro h
  have hexact := h {} rfl rfl (lit "GET  HTTP/1.1") (isLine_of_noCr (by decide +kernel))
    (lit "Host: a\r\n\r\n")
  have hbad : ¬RequestLine {} (lit "GET  HTTP/1.1") := by
    rintro ⟨-, method, target, hm, ht, heq⟩
    have hfields := (split_requestLine hm ht).1
    rw [← heq] at hfields
    have hsplit : split space (lit "GET  HTTP/1.1") = [lit "GET", [], lit "HTTP/1.1"] := by
      decide +kernel
    rw [hsplit] at hfields
    obtain rfl : ([] : Bytes) = target := by
      injection hfields with _ hfields
      injection hfields
    exact absurd ht (by decide +kernel)
  exact absurd (hexact.refused hbad).1 (by decide +kernel)

end Webserv
