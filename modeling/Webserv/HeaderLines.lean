import Webserv.CrlfLines
import Webserv.RequestHead

/-!
# The header loop, line by line

A head is a list of lines that an empty line ends. What a line has to
satisfy is said once (`HeaderLine` for the line alone, `LineOk` for the
line behind others), with what it adds to the loop (`withLine`). Then the
loop over a head is a fold over its lines (`parseHeaders_lines`), whatever
follows the head.
-/

namespace Webserv

open Bytes CrlfLines

namespace RequestParser

/-! ## The parts of a line -/

/-- The name of a field as it is written. -/
def rawName (line : Bytes) : Bytes := line.take (line.idxOf colon)

def fieldName (line : Bytes) : Bytes := (rawName line).map tolower

def fieldValue (line : Bytes) : Bytes :=
  trim (lit " \t") (line.drop (line.idxOf colon + 1))

/-- The value that is stored: that of `Expect` is lower-cased. -/
def storedValue (line : Bytes) : Bytes :=
  if fieldName line = lit "expect" then (fieldValue line).map tolower else fieldValue line

/-- The bytes of a field name. -/
def NameByte (c : UInt8) : Prop := isalnum c = true ∨ c = 45 ∨ c = 95

/-- The bytes of a field value. -/
def ValueByte (c : UInt8) : Prop := c = tab ∨ 32 ≤ c ∧ c < 127

/-- A header line that can be accepted. -/
structure HeaderLine (line : Bytes) : Prop where
  unfolded : line.head? ≠ some space ∧ line.head? ≠ some tab
  short : line.length + 2 ≤ maxHeaderLength
  colon : colon ∈ line
  named : rawName line ≠ []
  name : ∀ c ∈ rawName line, NameByte c
  value : ∀ c ∈ fieldValue line, ValueByte c
  length : fieldName line = lit "content-length" → ∀ c ∈ fieldValue line, isdigit c = true
  coding : fieldName line = lit "transfer-encoding" → fieldValue line ∈ transferCodings
  expect : fieldName line = lit "expect" →
    (fieldValue line).map tolower = lit "100-continue"

/-- A header line that is accepted where the loop is at `l`. -/
structure LineOk (l : HeaderLoop) (line : Bytes) : Prop where
  wellFormed : HeaderLine line
  length : fieldName line = lit "content-length" → l.p.hasContentLength = true →
    l.contentLengthValue = fieldValue line
  host : fieldName line = lit "host" → l.hasHost = false
  count : l.p.headers.size < maxHeaderCount

/-- The loop behind an accepted line. -/
def behindLine (l : HeaderLoop) (line : Bytes) : HeaderLoop :=
  { l with
    p := l.p.withField (fieldName line) (storedValue line)
    hasHost := l.hasHost || decide (fieldName line = lit "host")
    contentLengthValue :=
      if fieldName line = lit "content-length" then fieldValue line
      else l.contentLengthValue }

/-! ## Bytes -/

theorem tolower_nameByte (c : UInt8) :
    (isalnum (tolower c) || tolower c == 45 || tolower c == 95) = true ↔ NameByte c := by
  have hfin : ∀ n : Fin 256, (isalnum (tolower (UInt8.ofFin n)) || tolower (UInt8.ofFin n) == 45
      || tolower (UInt8.ofFin n) == 95) = true
        ↔ isalnum (UInt8.ofFin n) = true ∨ UInt8.ofFin n = 45 ∨ UInt8.ofFin n = 95 := by
    decide +kernel
  exact hfin c.toFin

theorem valueByte_iff (c : UInt8) :
    (!((decide (schar c < 32) || c == 127) && c != tab && c != space)) = true
      ↔ ValueByte c := by
  have hfin : ∀ n : Fin 256, (!((decide (schar (UInt8.ofFin n) < 32) || UInt8.ofFin n == 127)
      && UInt8.ofFin n != tab && UInt8.ofFin n != space)) = true
        ↔ UInt8.ofFin n = tab ∨ 32 ≤ UInt8.ofFin n ∧ UInt8.ofFin n < 127 := by
    decide +kernel
  exact hfin c.toFin

theorem isValidHeaderName_iff (name : Bytes) :
    isValidHeaderName (name.map tolower) = true ↔ ∀ c ∈ name, NameByte c := by
  simp only [isValidHeaderName, List.all_map, List.all_eq_true, Function.comp_apply,
    tolower_nameByte]

theorem isValidHeaderValue_iff (value : Bytes) :
    isValidHeaderValue value = true ↔ ∀ c ∈ value, ValueByte c := by
  simp only [isValidHeaderValue, List.all_eq_true, valueByte_iff]

/-! ## One line -/

/-- What the checks behind the syntax of a line ask of a field. -/
structure FieldOk (l : HeaderLoop) (key value : Bytes) : Prop where
  numeric : key = lit "content-length" → isNumeric value = true
  length : key = lit "content-length" → l.p.hasContentLength = true →
    l.contentLengthValue = value
  coding : key = lit "transfer-encoding" → value ∈ transferCodings
  host : key = lit "host" → l.hasHost = false
  expect : key = lit "expect" → value.map tolower = lit "100-continue"
  count : l.p.headers.size < maxHeaderCount

/-- The loop behind a stored field. -/
def behindField (l : HeaderLoop) (key value : Bytes) : HeaderLoop :=
  { l with
    p := l.p.withField key (if key = lit "expect" then value.map tolower else value)
    hasHost := l.hasHost || decide (key = lit "host")
    contentLengthValue := if key = lit "content-length" then value else l.contentLengthValue }

theorem handleContentLength_eq {l : HeaderLoop} {key value : Bytes}
    (hnumeric : key = lit "content-length" → isNumeric value = true)
    (hsame : key = lit "content-length" → l.p.hasContentLength = true →
      l.contentLengthValue = value) :
    handleContentLength l key value = .ok { l with
      p := { l.p with
        hasContentLength := l.p.hasContentLength || decide (key = lit "content-length") }
      contentLengthValue :=
        if key = lit "content-length" then value else l.contentLengthValue } := by
  unfold handleContentLength
  by_cases hkey : key = lit "content-length"
  · have hok : ¬(!isNumeric value || (l.p.hasContentLength && l.contentLengthValue != value)) := by
      cases hseen : l.p.hasContentLength with
      | false => simp [hnumeric hkey]
      | true => simp [hnumeric hkey, hsame hkey hseen]
    rw [if_pos hkey, if_neg hok, if_pos hkey, decide_eq_true hkey, Bool.or_true]
  · rw [if_neg hkey, if_neg hkey, decide_eq_false hkey, Bool.or_false]

theorem handleTransferEncoding_eq {l : HeaderLoop} {key value : Bytes}
    (hcoding : key = lit "transfer-encoding" → value ∈ transferCodings) :
    handleTransferEncoding l key value = .ok { l with
      p := { l.p with hasTransferEncoding :=
        l.p.hasTransferEncoding || decide (key = lit "transfer-encoding") } } := by
  unfold handleTransferEncoding
  by_cases hkey : key = lit "transfer-encoding"
  · rw [if_pos hkey, if_pos (hcoding hkey), decide_eq_true hkey, Bool.or_true]
  · rw [if_neg hkey, decide_eq_false hkey, Bool.or_false]

theorem handleHost_eq {l : HeaderLoop} {key : Bytes}
    (hhost : key = lit "host" → l.hasHost = false) :
    handleHost l key
      = .ok { l with hasHost := l.hasHost || decide (key = lit "host") } := by
  unfold handleHost
  by_cases hkey : key = lit "host"
  · rw [if_pos hkey, if_neg (by simp [hhost hkey]), decide_eq_true hkey, Bool.or_true]
  · rw [if_neg hkey, decide_eq_false hkey, Bool.or_false]

theorem handleExpect_eq {l : HeaderLoop} {key value : Bytes}
    (hexpect : key = lit "expect" → value.map tolower = lit "100-continue") :
    handleExpect l key value
      = .ok (if key = lit "expect" then value.map tolower else value) := by
  unfold handleExpect
  by_cases hkey : key = lit "expect"
  · rw [if_pos hkey, if_pos (hexpect hkey), if_pos hkey]
  · rw [if_neg hkey, if_neg hkey]

theorem storeHeader_eq {l : HeaderLoop} {key value : Bytes} (h : FieldOk l key value) :
    storeHeader l key value = .ok (behindField l key value) := by
  simp only [storeHeader, bind, Except.bind, handleContentLength_eq h.numeric h.length,
    handleTransferEncoding_eq h.coding]
  rw [handleHost_eq (by exact h.host)]
  simp only [handleExpect_eq h.expect, if_neg (Nat.not_le_of_lt h.count)]
  rfl

theorem fieldOk_of_storeHeader {l l' : HeaderLoop} {key value : Bytes}
    (h : storeHeader l key value = .ok l') : FieldOk l key value := by
  obtain ⟨l₁, l₂, l₃, value', h₁, h₂, h₃, h₄, hroom, -⟩ := storeHeader_cases h
  unfold handleContentLength at h₁
  unfold handleTransferEncoding at h₂
  unfold handleHost at h₃
  unfold handleExpect at h₄
  grind [FieldOk]

theorem idxOf_of_named {line : Bytes} (h : rawName line ≠ []) : line.idxOf colon ≠ 0 := by
  intro hzero
  rw [rawName, hzero] at h
  exact h rfl

theorem parseHeaderLine_eq {l : HeaderLoop} {line : Bytes} (h : LineOk l line) :
    parseHeaderLine l line = .ok (behindLine l line) := by
  have hform := h.wellFormed
  have hlt : line.idxOf colon < line.length := List.idxOf_lt_length_of_mem hform.colon
  have hpos := idxOf_of_named hform.named
  have hspace : getElem? line (line.idxOf colon - 1) ≠ some space := by
    intro hget
    have hmem : space ∈ rawName line := by
      rw [rawName, List.mem_take_iff_getElem]
      obtain ⟨hi, heq⟩ := List.getElem?_eq_some_iff.mp hget
      exact ⟨line.idxOf colon - 1, by omega, heq⟩
    exact absurd (hform.name _ hmem) (by unfold NameByte; decide)
  have hcolon : ¬(line.idxOf colon = line.length ∨ line.idxOf colon = 0
      ∨ getElem? line (line.idxOf colon - 1) = some space) := by
    rintro (hend | hzero | hsp)
    · omega
    · exact hpos hzero
    · exact hspace hsp
  have hname : isValidHeaderName ((rawName line).map tolower) = true :=
    (isValidHeaderName_iff _).mpr hform.name
  have hvalue : isValidHeaderValue (fieldValue line) = true :=
    (isValidHeaderValue_iff _).mpr hform.value
  have hfield : FieldOk l (fieldName line) (fieldValue line) :=
    ⟨fun hkey => List.all_eq_true.mpr (hform.length hkey), h.length, hform.coding, h.host,
      hform.expect, h.count⟩
  simp only [parseHeaderLine, if_neg hcolon]
  rw [rawName] at hname
  rw [fieldValue] at hvalue
  simp only [hname, hvalue, Bool.not_true, Bool.or_self, Bool.false_eq_true, if_false]
  exact storeHeader_eq hfield

theorem lineOk_of_parseHeaderLine {l l' : HeaderLoop} {line : Bytes}
    (hfold : ¬(line.head? = some space ∨ line.head? = some tab))
    (hshort : line.length + 2 ≤ maxHeaderLength) (h : parseHeaderLine l line = .ok l') :
    LineOk l line := by
  simp only [parseHeaderLine] at h
  split at h
  · cases h
  rename_i hcolon
  simp only [not_or] at hcolon hfold
  split at h
  · cases h
  rename_i hvalid
  simp only [Bool.or_eq_true, Bool.not_eq_true', not_or, Bool.not_eq_false] at hvalid
  have hfield := fieldOk_of_storeHeader h
  have hmem : colon ∈ line := by
    by_contra hno
    exact hcolon.1 (List.idxOf_eq_length_iff.mpr hno)
  have hnamed : rawName line ≠ [] := by
    intro hnil
    rcases List.take_eq_nil_iff.mp hnil with hzero | hnil
    · exact hcolon.2.1 hzero
    · rw [hnil] at hmem
      cases hmem
  have hform : HeaderLine line :=
    ⟨hfold, hshort, hmem, hnamed, (isValidHeaderName_iff _).mp hvalid.1,
      (isValidHeaderValue_iff _).mp hvalid.2,
      fun hkey => List.all_eq_true.mp (hfield.numeric hkey), hfield.coding, hfield.expect⟩
  exact ⟨hform, hfield.length, hfield.host, hfield.count⟩

/-! ## One round -/

section Round

variable {l : HeaderLoop} {line u : Bytes}

/-- A round on a line that is not empty. -/
theorem parseHeadersIter_line (hrest : l.rest = line ++ cr :: lf :: u) (hline : IsLine line)
    (hne : line ≠ []) :
    (LineOk l line ∧ parseHeadersIter l = .inl { behindLine l line with rest := u })
      ∨ (¬LineOk l line ∧ ∃ q : RequestParser, ∃ code, q.errorCode = l.p.errorCode ∧ code ≠ 0
        ∧ parseHeadersIter l = .inr (.returned (q.logError code) l.rest)) := by
  have hnil : l.rest ≠ [] := by simp [hrest]
  have hpos := List.length_pos_iff.mpr hne
  have hend : findLineEnd l.rest = line.length + 2 := by rw [hrest, findLineEnd_crlf u hline]
  have htake : l.rest.take line.length = line := by rw [hrest, List.take_left]
  have hdrop : l.rest.drop (line.length + 2) = u := by
    rw [hrest, show line ++ cr :: lf :: u = (line ++ [cr, lf]) ++ u by simp,
      List.drop_left' (by simp)]
  have hhead : l.rest.head? = line.head? := by
    rw [hrest, List.head?_append_of_ne_nil _ hne]
  have h2 : ¬line.length + 2 = 2 := by omega
  have hlt : ¬line.length + 2 < 2 := by omega
  have hsub : line.length + 2 - 2 = line.length := by omega
  by_cases hfold : line.head? = some space ∨ line.head? = some tab
  · refine Or.inr ⟨fun h => ?_, l.p, 400, rfl, by decide, ?_⟩
    · exact hfold.elim h.wellFormed.unfolded.1 h.wellFormed.unfolded.2
    · simp only [parseHeadersIter, if_neg hnil, hend, if_neg h2, hhead, if_pos hfold]
  by_cases hlong : maxHeaderLength < line.length + 2
  · refine Or.inr ⟨fun h => ?_, l.p, 431, rfl, by decide, ?_⟩
    · exact absurd h.wellFormed.short (Nat.not_le_of_lt hlong)
    · simp only [parseHeadersIter, if_neg hnil, hend, if_neg h2, hhead, if_neg hfold,
        if_pos hlong]
  cases hparse : parseHeaderLine l line with
  | ok l' =>
      have hok := lineOk_of_parseHeaderLine hfold (Nat.le_of_not_lt hlong) hparse
      obtain rfl := Except.ok.inj ((parseHeaderLine_eq hok).symm.trans hparse)
      refine Or.inl ⟨hok, ?_⟩
      simp only [parseHeadersIter, if_neg hnil, hend, if_neg h2, hhead, if_neg hfold,
        if_neg hlong, if_neg hlt, hsub, htake, hdrop, hparse]
  | error r =>
      obtain ⟨herr, hcode⟩ := parseHeaderLine_error hparse
      refine Or.inr ⟨fun hok => ?_, r.1, r.2, herr, hcode, ?_⟩
      · rw [parseHeaderLine_eq hok] at hparse
        cases hparse
      · simp only [parseHeadersIter, if_neg hnil, hend, if_neg h2, hhead, if_neg hfold,
          if_neg hlong, if_neg hlt, hsub, htake, hparse]

/-- The round on the empty line. -/
theorem parseHeadersIter_blank (hrest : l.rest = cr :: lf :: u) :
    parseHeadersIter l = .inr (endOfHeaders l u) := by
  simp only [parseHeadersIter, hrest]
  rfl

end Round

/-! ## All lines -/

/-- Every line is accepted behind those before it. -/
def LinesOk : HeaderLoop → List Bytes → Prop
  | _, [] => True
  | l, line :: lines => LineOk l line ∧ LinesOk (behindLine l line) lines

/-- The loop behind all lines. -/
def behindLines (l : HeaderLoop) (lines : List Bytes) : HeaderLoop := lines.foldl behindLine l

theorem lineOk_rest {l : HeaderLoop} {line : Bytes} (rest : Bytes) :
    LineOk { l with rest := rest } line ↔ LineOk l line :=
  ⟨fun h => ⟨h.wellFormed, h.length, h.host, h.count⟩,
    fun h => ⟨h.wellFormed, h.length, h.host, h.count⟩⟩

theorem linesOk_rest : ∀ {lines : List Bytes} {l : HeaderLoop} (rest : Bytes),
    LinesOk { l with rest := rest } lines ↔ LinesOk l lines
  | [], _, _ => Iff.rfl
  | _ :: _, l, rest =>
      and_congr (lineOk_rest rest) (linesOk_rest (l := behindLine l _) rest)

theorem behindLines_rest : ∀ (lines : List Bytes) (l : HeaderLoop) (rest : Bytes),
    behindLines { l with rest := rest } lines = { behindLines l lines with rest := rest }
  | [], _, _ => rfl
  | line :: lines, l, rest => behindLines_rest lines (behindLine l line) rest

/-- How the loop over a head is left: behind its lines and the empty line,
or with an error. -/
def HeadExit (l : HeaderLoop) (lines : List Bytes) (tail : Bytes) (r : ParseExit) : Prop :=
  (LinesOk l lines ∧ r = endOfHeaders { behindLines l lines with rest := cr :: lf :: tail } tail)
    ∨ (¬LinesOk l lines ∧ ∃ q : RequestParser, ∃ code rest,
      q.errorCode = l.p.errorCode ∧ code ≠ 0
      ∧ r = .returned (q.logError code) rest)

theorem headExit_total : ∀ {lines : List Bytes} {l : HeaderLoop} {tail : Bytes},
    (∀ line ∈ lines, line ≠ [] ∧ IsLine line) →
    l.rest = unlines lines ++ cr :: lf :: tail →
    HeadExit l lines tail (WhileLoop.total parseHeadersIter (fun l => l.rest.length)
      parseHeadersIter_lt l)
  | [], l, tail, _, hrest => by
      have hl : l = { l with rest := cr :: lf :: tail } := by
        rw [show cr :: lf :: tail = l.rest from hrest.symm]
      refine Or.inl ⟨trivial, ?_⟩
      rw [WhileLoop.total_inr (parseHeadersIter_blank hrest)]
      exact congrArg (fun l => endOfHeaders l tail) hl
  | line :: lines, l, tail, hlines, hrest => by
      obtain ⟨hne, hline⟩ := hlines line List.mem_cons_self
      have hrest' : l.rest = line ++ cr :: lf :: (unlines lines ++ cr :: lf :: tail) := by
        rw [hrest, unlines_cons, List.append_assoc]
        rfl
      rcases parseHeadersIter_line hrest' hline hne with
        ⟨hok, hiter⟩ | ⟨hbad, q, code, herr, hcode, hiter⟩
      · rw [WhileLoop.total_inl hiter]
        have ih : HeadExit { behindLine l line with rest := unlines lines ++ cr :: lf :: tail }
            lines tail _ := headExit_total
          (fun l₀ h₀ => hlines l₀ (List.mem_cons_of_mem _ h₀)) rfl
        rcases ih with ⟨hoks, heq⟩ | ⟨hbad, q, code, rest, herr, hcode, heq⟩
        · refine Or.inl ⟨⟨hok, (linesOk_rest _).mp hoks⟩, ?_⟩
          rw [heq, behindLines_rest]
          rfl
        · exact Or.inr ⟨fun h => hbad ((linesOk_rest _).mpr h.2), q, code, rest, herr, hcode, heq⟩
      · rw [WhileLoop.total_inr hiter]
        exact Or.inr ⟨fun h => hbad h.1, q, code, l.rest, herr, hcode, rfl⟩

/-- `parse_headers` on a head: its lines one after the other. -/
theorem parseHeaders_lines (p : RequestParser) {lines : List Bytes}
    (hlines : ∀ line ∈ lines, line ≠ [] ∧ IsLine line) (tail : Bytes) :
    HeadExit { p := p, rest := [] } lines tail
      (p.parseHeaders (unlines lines ++ cr :: lf :: tail)) := by
  have h := headExit_total
    (l := { p := p, rest := unlines lines ++ cr :: lf :: tail }) hlines rfl
  rcases h with ⟨hok, heq⟩ | ⟨hbad, hexit⟩
  · refine Or.inl ⟨(linesOk_rest (l := { p := p, rest := [] }) _).mp hok, ?_⟩
    have hbehind := behindLines_rest lines { p := p, rest := [] }
      (unlines lines ++ cr :: lf :: tail)
    rw [parseHeaders, heq]
    simp only at hbehind
    rw [hbehind]
  · exact Or.inr ⟨fun h => hbad ((linesOk_rest (l := { p := p, rest := [] }) _).mpr h), hexit⟩

/-- A buffer with an empty line ahead is a head with what follows it. -/
theorem EmptyLineAhead.lines {t : Bytes} (h : EmptyLineAhead t) :
    ∃ lines tail, (∀ line ∈ lines, line ≠ [] ∧ IsLine line)
      ∧ t = unlines lines ++ cr :: lf :: tail := by
  induction hn : t.length using Nat.strongRecOn generalizing t with
  | ind n ih =>
      obtain ⟨w, u, rfl, hno⟩ := emptyLineAhead_crlf h
      cases w with
      | nil => exact ⟨[], u, (fun line h => by cases h), rfl⟩
      | cons a w =>
          have hinfix : doubleCrlf <:+: a :: w ++ cr :: lf :: u := by
            refine h.resolve_left ?_
            rintro ⟨s, hs⟩
            obtain ⟨rfl, hs'⟩ := List.cons.inj hs
            cases w with
            | nil => exact absurd (List.cons.inj hs').1 (by decide)
            | cons b w => exact hno.1 ⟨rfl, (List.cons.inj hs').1.symm⟩
          have hu := emptyLineAhead_of_infix hno hinfix
          have hlt : u.length < n := by
            rw [← hn]
            simp only [List.length_append, List.length_cons]
            omega
          obtain ⟨lines, tail, hlines, rfl⟩ := ih u.length hlt hu rfl
          refine ⟨(a :: w) :: lines, tail, fun line hmem => ?_, by simp⟩
          rcases List.mem_cons.mp hmem with rfl | hmem
          · exact ⟨List.cons_ne_nil _ _, hno⟩
          · exact hlines line hmem

end RequestParser

end Webserv
