import Mathlib.Data.List.Perm.Subperm
import Mathlib.Data.List.Nodup
import Webserv.StatusLine
import Webserv.RequestLine

/-!
# The output of a script

A script writes header fields, an empty line and a body, and each line
ends with LF or CRLF. `processCGIOutput` finds the empty line only as two
CRLFs in a row, knows `Status` and `Content-Type` in this letter case
only, and keeps the other fields in a map.
-/

namespace Webserv

open Bytes ChunkStream CrlfLines

namespace CgiHandler

/-! ## What a script writes -/

/-- A header field of a script, and whether its line ends with CRLF or
with LF alone. -/
structure OutputField where
  name : Bytes
  value : Bytes
  endsCrlf : Bool
  nameOk : cr ∉ name ∧ lf ∉ name ∧ colon ∉ name
  valueOk : cr ∉ value ∧ lf ∉ value

/-- The end of a line. -/
def lineEnd (endsCrlf : Bool) : Bytes := if endsCrlf then [cr, lf] else [lf]

def OutputField.line (f : OutputField) : Bytes := f.name ++ colon :: f.value

def OutputField.text (f : OutputField) : Bytes := f.line ++ lineEnd f.endsCrlf

/-- The header fields with the ends of their lines. -/
def headText (fields : List OutputField) : Bytes := fields.flatMap OutputField.text

/-- The whole output; `blankCrlf` says how the empty line ends. -/
def outputText (fields : List OutputField) (blankCrlf : Bool) (body : Bytes) : Bytes :=
  headText fields ++ (lineEnd blankCrlf ++ body)

theorem OutputField.notMem_line (f : OutputField) : cr ∉ f.line ∧ lf ∉ f.line := by
  obtain ⟨hcr, hlf, -⟩ := f.nameOk
  obtain ⟨hcr', hlf'⟩ := f.valueOk
  rw [line, List.mem_append, List.mem_cons, List.mem_append, List.mem_cons]
  simp only [not_or]
  exact ⟨⟨hcr, by decide, hcr'⟩, hlf, by decide, hlf'⟩

theorem OutputField.line_ne_nil (f : OutputField) : f.line ≠ [] := by
  simp [line]

/-! ## Where the head ends -/

/-- The last header line and the empty line end with CRLF. -/
def BlankFound (fields : List OutputField) (blankCrlf : Bool) : Prop :=
  blankCrlf = true ∧ (fields.getLast?.any OutputField.endsCrlf) = true

instance decidableBlankFound (fields : List OutputField) (blankCrlf : Bool) :
    Decidable (BlankFound fields blankCrlf) :=
  inferInstanceAs (Decidable (_ ∧ _))

theorem blankFound_cons {f g : OutputField} {fields : List OutputField} {blankCrlf : Bool} :
    BlankFound (f :: g :: fields) blankCrlf ↔ BlankFound (g :: fields) blankCrlf := by
  rw [BlankFound, BlankFound, List.getLast?_cons_cons]

theorem find_skip {u : Bytes} : ∀ {l : Bytes}, cr ∉ l →
    find blank (l ++ u) = (find blank u).map (· + l.length)
  | [], _ => by simp
  | a :: l, h => by
      rw [List.mem_cons, not_or] at h
      have hstart : blank.isPrefixOf (a :: l ++ u) = false := by
        rw [Bool.eq_false_iff, ne_eq, List.isPrefixOf_iff_prefix]
        rintro ⟨s, hs⟩
        exact h.1 (List.cons.inj hs).1
      rw [List.cons_append, find, ← List.cons_append, hstart, if_neg (by decide), find_skip h.2,
        Option.map_map]
      rfl

/-- The start of an output is no line end, unless it is the empty line. -/
theorem crlf_prefix_output {fields : List OutputField} {blankCrlf : Bool} {body : Bytes} :
    [cr, lf] <+: outputText fields blankCrlf body ↔ fields = [] ∧ blankCrlf = true := by
  cases fields with
  | nil =>
      cases blankCrlf with
      | true => exact iff_of_true ⟨body, rfl⟩ ⟨rfl, rfl⟩
      | false =>
          refine iff_of_false ?_ fun h => by cases h.2
          rintro ⟨s, hs⟩
          exact absurd (List.cons.inj hs).1 (by decide)
  | cons f fields =>
      refine iff_of_false ?_ fun h => by cases h.1
      have hne := f.line_ne_nil
      obtain ⟨hcr, -⟩ := f.notMem_line
      obtain ⟨c, rest, hline⟩ := List.exists_cons_of_ne_nil hne
      rintro ⟨s, hs⟩
      simp only [outputText, headText, List.flatMap_cons, OutputField.text, hline,
        List.cons_append] at hs
      rw [hline, ← (List.cons.inj hs).1] at hcr
      exact hcr List.mem_cons_self

theorem two_le_headText (f : OutputField) (fields : List OutputField) :
    2 ≤ (headText (f :: fields)).length := by
  have hline := List.length_pos_iff.mpr f.line_ne_nil
  have hend : 1 ≤ (lineEnd f.endsCrlf).length := by cases f.endsCrlf <;> decide
  simp only [headText, List.flatMap_cons, OutputField.text, List.length_append]
  omega

/-- Where `find` meets two CRLFs in a row. -/
theorem find_blank_output (blankCrlf : Bool) (body : Bytes) : ∀ fields : List OutputField,
    find blank (outputText fields blankCrlf body)
      = if BlankFound fields blankCrlf then some ((headText fields).length - 2)
        else (find blank (lineEnd blankCrlf ++ body)).map (· + (headText fields).length)
  | [] => by
      rw [if_neg (by simp [BlankFound])]
      simp [outputText, headText]
  | f :: fields => by
      have ih := find_blank_output blankCrlf body fields
      obtain ⟨hcr, -⟩ := f.notMem_line
      have htext : outputText (f :: fields) blankCrlf body
          = f.line ++ (lineEnd f.endsCrlf ++ outputText fields blankCrlf body) := by
        simp [outputText, headText, OutputField.text]
      have hlength : (headText (f :: fields)).length
          = f.line.length + (lineEnd f.endsCrlf).length + (headText fields).length := by
        simp [headText, OutputField.text]
        omega
      -- Unless this line is the last one, the search goes on behind it.
      have hnext : find blank (outputText (f :: fields) blankCrlf body)
          = if fields = [] ∧ BlankFound [f] blankCrlf then some f.line.length
            else (find blank (outputText fields blankCrlf body)).map
              (· + (f.line.length + (lineEnd f.endsCrlf).length)) := by
        cases hends : f.endsCrlf with
        | false =>
            have hskip : cr ∉ f.line ++ [lf] := by
              rw [List.mem_append, not_or]
              exact ⟨hcr, by decide⟩
            have hlast : ¬BlankFound [f] blankCrlf := by simp [BlankFound, hends]
            rw [if_neg fun h => hlast h.2, htext, hends, lineEnd, if_neg (by decide),
              ← List.append_assoc, find_skip hskip, List.length_append]
        | true =>
            have hlast : BlankFound [f] blankCrlf ↔ blankCrlf = true := by simp [BlankFound, hends]
            rw [htext, hends, lineEnd, if_pos rfl, List.cons_append, List.cons_append,
              List.nil_append, find_blank_line (isLine_of_noCr hcr)]
            simp only [crlf_prefix_output, hlast, List.length_cons, List.length_nil]
      rw [hnext]
      cases fields with
      | nil =>
          by_cases hfound : BlankFound [f] blankCrlf
          · have hends : f.endsCrlf = true := by simpa [BlankFound] using hfound.2
            rw [if_pos ⟨rfl, hfound⟩, if_pos hfound, hlength, hends]
            simp [headText, lineEnd]
          · rw [if_neg fun h => hfound h.2, if_neg hfound, hlength]
            simp [outputText, headText]
      | cons g fields =>
          rw [if_neg fun h => (List.cons_ne_nil g fields) h.1, ih]
          simp only [blankFound_cons]
          by_cases hfound : BlankFound (g :: fields) blankCrlf
          · have hpos := two_le_headText g fields
            rw [if_pos hfound, if_pos hfound, Option.map_some, hlength]
            congr 1
            omega
          · rw [if_neg hfound, if_neg hfound, Option.map_map, hlength]
            refine congrArg (Option.map · _) (funext fun k => ?_)
            simp only [Function.comp]
            omega

/-! ## The body -/

theorem processCgiOutput_body (cgiOutput : Bytes) (b : ResponseBuilder) :
    (processCgiOutput cgiOutput b).body
      = ((find blank cgiOutput).map fun headerEnd => cgiOutput.drop (headerEnd + 4)).getD
        cgiOutput := by
  simp only [processCgiOutput, ResponseBuilder.setBody, doubleCrlf]
  cases find blank cgiOutput with
  | none => rfl
  | some headerEnd => rfl

/-- The body is exact if and only if the empty line is found. -/
theorem body_iff (fields : List OutputField) (blankCrlf : Bool) (body : Bytes)
    (b : ResponseBuilder) :
    (processCgiOutput (outputText fields blankCrlf body) b).body = body
      ↔ BlankFound fields blankCrlf := by
  have hlength : (outputText fields blankCrlf body).length
      = (headText fields).length + (lineEnd blankCrlf).length + body.length := by
    simp [outputText]
    omega
  have hend : 1 ≤ (lineEnd blankCrlf).length ∧ (lineEnd blankCrlf).length ≤ 2 := by
    cases blankCrlf <;> decide
  rw [processCgiOutput_body, find_blank_output]
  by_cases hfound : BlankFound fields blankCrlf
  · refine iff_of_true ?_ hfound
    have hcrlf := hfound.1
    cases fields with
    | nil => cases hfound.2
    | cons f fields =>
        have hpos := two_le_headText f fields
        have hdrop : (headText (f :: fields)).length - 2 + 4
            = (headText (f :: fields)).length + 2 := by omega
        rw [if_pos hfound, Option.map_some, Option.getD_some, hdrop, outputText,
          ← List.drop_drop, List.drop_left, hcrlf]
        rfl
  · -- What is found lies in the body, or nothing is found: the length is wrong.
    refine iff_of_false (fun heq => ?_) hfound
    have hbody := congrArg List.length heq
    rw [if_neg hfound] at hbody
    cases hfind : find blank (lineEnd blankCrlf ++ body) with
    | none =>
        rw [hfind, Option.map_none, Option.map_none, Option.getD_none, hlength] at hbody
        omega
    | some k =>
        have hle := find_le hfind
        rw [hfind, Option.map_some, Option.map_some, Option.getD_some, List.length_drop,
          hlength] at hbody
        simp only [List.length_append, List.length_cons, List.length_nil] at hle
        omega

/-! ## The header loop -/

/-- What the loop does with one field. -/
def outputField (s : OutputLoop) (f : OutputField) : OutputLoop :=
  if f.name = lit "Content-Type" then { s with contentType := trim (lit " \t") f.value }
  else if f.name = lit "Status" then
    (statusOfLine f.line).elim s fun code => { s with b := s.b.setStatus code, statusSet := true }
  else { s with b := s.b.setHeaders f.name (trim (lit " \t") f.value) }

theorem outputHeaderLine_line (s : OutputLoop) (f : OutputField) :
    outputHeaderLine s f.line = outputField s f
      ∧ outputHeaderLine s (f.line ++ [cr]) = outputField s f := by
  have hcolon : f.line.idxOf colon = f.name.length := by
    rw [OutputField.line, List.idxOf_append_of_notMem f.nameOk.2.2]
    simp
  have hne : ¬f.line.idxOf colon = f.line.length := by
    rw [hcolon, OutputField.line, List.length_append, List.length_cons]
    omega
  have hname : f.line.take (f.line.idxOf colon) = f.name := by
    rw [hcolon, OutputField.line, List.take_left]
  have hvalue : f.line.drop (f.line.idxOf colon + 1) = f.value := by
    rw [hcolon, OutputField.line, ← List.drop_drop, List.drop_left]
    rfl
  have hlast : ¬f.line.getLast? = some cr := fun h => f.notMem_line.1 (List.mem_of_getLast? h)
  constructor
  · simp only [outputHeaderLine, outputField, if_neg hlast, if_neg hne, hname, hvalue]
    cases statusOfLine f.line with
    | none => rfl
    | some code => rfl
  · have hlast' : (f.line ++ [cr]).getLast? = some cr := List.getLast?_concat
    simp only [outputHeaderLine, outputField, if_pos hlast', List.dropLast_concat, if_neg hne,
      hname, hvalue]
    cases statusOfLine f.line with
    | none => rfl
    | some code => rfl

/-- The lines of the head, read back. -/
theorem foldl_headText : ∀ (fields : List OutputField) (s : OutputLoop), BlankFound fields true →
    (split lf ((headText fields).take ((headText fields).length - 2))).foldl outputHeaderLine s
      = fields.foldl outputField s
  | [], s, h => by cases h.2
  | [f], s, h => by
      have hends : f.endsCrlf = true := by simpa [BlankFound] using h.2
      have htext : headText [f] = f.line ++ [cr, lf] := by
        simp [headText, OutputField.text, lineEnd, hends]
      have htake : (f.line ++ [cr, lf]).take ((f.line ++ [cr, lf]).length - 2) = f.line := by
        simp
      rw [htext, htake, split_last f.notMem_line.2 f.line_ne_nil]
      exact (outputHeaderLine_line s f).1
  | f :: g :: fields, s, h => by
      have ih := foldl_headText (g :: fields) (outputField s f) (blankFound_cons.mp h)
      have hpos := two_le_headText g fields
      have htake : (headText (f :: g :: fields)).take ((headText (f :: g :: fields)).length - 2)
          = f.text ++ (headText (g :: fields)).take ((headText (g :: fields)).length - 2) := by
        have htext : headText (f :: g :: fields) = f.text ++ headText (g :: fields) := rfl
        have hlength : (f.text ++ headText (g :: fields)).length - 2
            = f.text.length + ((headText (g :: fields)).length - 2) := by
          rw [List.length_append]
          omega
        rw [htext, hlength, List.take_length_add_append]
      rw [htake, OutputField.text, List.foldl_cons, ← ih]
      obtain ⟨-, hlf⟩ := f.notMem_line
      cases hends : f.endsCrlf with
      | false =>
          rw [lineEnd, if_neg (by decide), List.append_assoc, List.singleton_append,
            split_field _ hlf, List.foldl_cons, (outputHeaderLine_line s f).1]
      | true =>
          have hlf' : lf ∉ f.line ++ [cr] := by
            rw [List.mem_append, not_or]
            exact ⟨hlf, by decide⟩
          have hbytes : ∀ t, f.line ++ [cr, lf] ++ t = (f.line ++ [cr]) ++ lf :: t := by simp
          rw [lineEnd, if_pos rfl, hbytes, split_field _ hlf', List.foldl_cons,
            (outputHeaderLine_line s f).2]

/-- The builder behind an output whose empty line is found. -/
def interpreted (fields : List OutputField) (body : Bytes) (b : ResponseBuilder) :
    ResponseBuilder :=
  let s := fields.foldl outputField { b := b.setStatus 200 }
  let b := if s.statusSet then s.b else s.b.setStatus 200
  (b.setHeaders (lit "Content-Type") s.contentType).setBody body

theorem processCgiOutput_found {fields : List OutputField} {blankCrlf : Bool}
    (h : BlankFound fields blankCrlf) (body : Bytes) (b : ResponseBuilder) :
    processCgiOutput (outputText fields blankCrlf body) b = interpreted fields body b := by
  have hcrlf := h.1
  subst hcrlf
  have hbody := (body_iff fields true body b).mpr h
  have hfind := find_blank_output true body fields
  rw [if_pos h] at hfind
  have htake : (outputText fields true body).take ((headText fields).length - 2)
      = (headText fields).take ((headText fields).length - 2) := by
    rw [outputText, List.take_append_of_le_length (Nat.sub_le _ _)]
  rw [processCgiOutput_body, hfind, Option.map_some, Option.getD_some] at hbody
  have hblank : find doubleCrlf (outputText fields true body)
      = some ((headText fields).length - 2) := hfind
  simp only [processCgiOutput, hblank, htake, hbody, foldl_headText fields _ h, interpreted]

/-! ## Status, type and other fields -/

/-- The code a field sets. -/
def OutputField.code? (f : OutputField) : Option Nat :=
  if f.name = lit "Status" then statusOfLine f.line else none

/-- The codes the fields set, in order. -/
def codes (fields : List OutputField) : List Nat := fields.filterMap OutputField.code?

theorem codes_cons_none {f : OutputField} (h : f.code? = none) (fields : List OutputField) :
    codes (f :: fields) = codes fields := List.filterMap_cons_none h

theorem codes_cons_some {f : OutputField} {code : Nat} (h : f.code? = some code)
    (fields : List OutputField) : codes (f :: fields) = code :: codes fields :=
  List.filterMap_cons_some h

theorem outputField_status (s : OutputLoop) (f : OutputField) :
    (outputField s f).b.statusCode = (f.code?.map Nat.cast).getD s.b.statusCode
      ∧ ((outputField s f).statusSet = true ↔ s.statusSet = true ∨ f.code? ≠ none) := by
  unfold outputField OutputField.code?
  by_cases htype : f.name = lit "Content-Type"
  · have hne : lit "Content-Type" ≠ lit "Status" := by simp [lit]
    rw [if_pos htype, htype, if_neg hne]
    exact ⟨rfl, by simp⟩
  rw [if_neg htype]
  by_cases hname : f.name = lit "Status"
  · rw [if_pos hname, if_pos hname]
    cases hcode : statusOfLine f.line with
    | none => exact ⟨rfl, by simp⟩
    | some code => exact ⟨toShort_of_lt (statusOfLine_lt hcode), by simp⟩
  · rw [if_neg hname, if_neg hname]
    exact ⟨rfl, by simp⟩

theorem foldl_outputField_status : ∀ (fields : List OutputField) (s : OutputLoop),
    (fields.foldl outputField s).b.statusCode
        = ((codes fields).getLast?.map Nat.cast).getD s.b.statusCode
      ∧ ((fields.foldl outputField s).statusSet = true
        ↔ s.statusSet = true ∨ codes fields ≠ [])
  | [], s => by simp [codes]
  | f :: fields, s => by
      obtain ⟨hfield, hset⟩ := outputField_status s f
      obtain ⟨hfields, hset'⟩ := foldl_outputField_status fields (outputField s f)
      rw [List.foldl_cons, hfields, hset', hfield, hset]
      cases hcode : f.code? with
      | none => simp [codes_cons_none hcode]
      | some code =>
          rw [codes_cons_some hcode, List.getLast?_cons]
          cases (codes fields).getLast? <;> simp

/-- The status of an interpreted output: the last code, or 200. -/
theorem interpreted_status (fields : List OutputField) (body : Bytes) (b : ResponseBuilder) :
    (interpreted fields body b).statusCode = ((codes fields).getLast?.getD 200 : Nat) := by
  obtain ⟨hstatus, hset⟩ := foldl_outputField_status fields { b := b.setStatus 200 }
  show (if _ then _ else _ : ResponseBuilder).statusCode = _
  cases hcodes : (codes fields).getLast? with
  | none =>
      have hnil : codes fields = [] := List.getLast?_eq_none_iff.mp hcodes
      rw [if_neg fun h => (hset.mp h).elim (fun h => by cases h) fun h => h hnil]
      rfl
  | some code =>
      have hne : codes fields ≠ [] := by
        intro hnil
        rw [hnil] at hcodes
        cases hcodes
      rw [if_pos (hset.mpr (Or.inr hne)), hstatus, hcodes]
      rfl

theorem outputField_contentType (s : OutputLoop) {f : OutputField}
    (h : f.name ≠ lit "Content-Type") : (outputField s f).contentType = s.contentType := by
  unfold outputField
  rw [if_neg h]
  split
  · cases statusOfLine f.line with
    | none => rfl
    | some code => simp only [Option.elim_some]
  · rfl

theorem foldl_outputField_contentType : ∀ (fields : List OutputField) (s : OutputLoop),
    (fields.foldl outputField s).contentType
      = ((fields.filter fun f => f.name = lit "Content-Type").getLast?.map
        fun f => trim (lit " \t") f.value).getD s.contentType
  | [], s => rfl
  | f :: fields, s => by
      rw [List.foldl_cons, foldl_outputField_contentType fields]
      by_cases htype : f.name = lit "Content-Type"
      · rw [List.filter_cons_of_pos (by simpa using htype), List.getLast?_cons]
        cases hlast : (fields.filter fun f => decide (f.name = lit "Content-Type")).getLast? with
        | none => simp [outputField, htype]
        | some g => rfl
      · rw [List.filter_cons_of_neg (by simpa using htype), outputField_contentType s htype]

theorem setStatus_header (b : ResponseBuilder) {code : Nat} (hcode : code < 600) (key : Bytes) :
    (b.setStatus code).headers.get? key
      = if key = lit "Accept-Ranges" ∧ code = 200 then some (lit "bytes")
        else b.headers.get? key := by
  have hshort : toShort code = (code : Int) := toShort_of_lt hcode
  simp only [ResponseBuilder.setStatus, hshort]
  by_cases hok : code = 200
  · subst hok
    have hcast : ((200 : Nat) : Int) = 200 := rfl
    rw [if_pos hcast, OrdMap.get?_insert]
    by_cases hkey : key = lit "Accept-Ranges"
    · rw [if_pos hkey.symm, if_pos ⟨hkey, rfl⟩]
    · rw [if_neg fun h => hkey h.symm, if_neg fun h => hkey h.1]
  · have hne : ¬(code : Int) = 200 := by omega
    rw [if_neg hne, if_neg fun h => hok h.2]

theorem outputField_header (s : OutputLoop) {f : OutputField} {key : Bytes} (h : f.name ≠ key) :
    (outputField s f).b.headers.get? key
      = if key = lit "Accept-Ranges" ∧ f.code? = some 200 then some (lit "bytes")
        else s.b.headers.get? key := by
  unfold outputField OutputField.code?
  by_cases htype : f.name = lit "Content-Type"
  · have hne : lit "Content-Type" ≠ lit "Status" := by simp [lit]
    rw [if_pos htype, htype, if_neg hne, if_neg fun h => by cases h.2]
  rw [if_neg htype]
  by_cases hname : f.name = lit "Status"
  · rw [if_pos hname, if_pos hname]
    cases hcode : statusOfLine f.line with
    | none =>
        rw [if_neg fun h => by cases h.2]
        rfl
    | some code =>
        simp only [Option.elim_some, setStatus_header s.b (statusOfLine_lt hcode) key,
          Option.some_inj]
  · rw [if_neg hname, if_neg hname, if_neg fun h => by cases h.2]
    exact OrdMap.get?_insert_of_ne _ h _

/-- A header that no field behind names. -/
theorem foldl_outputField_header {key : Bytes} : ∀ (fields : List OutputField) (s : OutputLoop),
    (∀ f ∈ fields, f.name ≠ key) →
    (fields.foldl outputField s).b.headers.get? key
      = if key = lit "Accept-Ranges" ∧ 200 ∈ codes fields then some (lit "bytes")
        else s.b.headers.get? key
  | [], s, _ => by simp [codes]
  | f :: fields, s, h => by
      have ih := foldl_outputField_header fields (outputField s f)
        fun g hg => h g (List.mem_cons_of_mem _ hg)
      rw [List.foldl_cons, ih, outputField_header s (h f List.mem_cons_self)]
      cases hcode : f.code? with
      | none =>
          rw [codes_cons_none hcode]
          simp
      | some code =>
          simp only [codes_cons_some hcode, List.mem_cons, Option.some_inj]
          by_cases hkey : key = lit "Accept-Ranges"
          · by_cases hmem : 200 ∈ codes fields
            · simp [hkey, hmem]
            · simp [hkey, hmem, eq_comm]
          · simp [hkey]

/-! ## A faithful interpretation -/

/-- The field is a `Status`, in any letter case. -/
def OutputField.isStatus (f : OutputField) : Bool := decide (f.name.map tolower = lit "status")

/-- The field is a `Content-Type`, in any letter case. -/
def OutputField.isType (f : OutputField) : Bool :=
  decide (f.name.map tolower = lit "content-type")

def OutputField.isOther (f : OutputField) : Bool := !f.isStatus && !f.isType

/-- The value of the field without the blanks at its ends. -/
def OutputField.trimmed (f : OutputField) : Bytes := trim (lit " \t") f.value

/-- The code of a `Status` field: three digits, alone or in front of a
space. -/
def OutputField.HasCode (f : OutputField) (code : Nat) : Prop :=
  ∃ digits reason, f.trimmed = digits ++ reason ∧ digits.length = 3
    ∧ (∀ c ∈ digits, isdigit c = true) ∧ (∀ c ∈ reason.head?, c = space)
    ∧ code = number 10 digits

/-- The output of a script is interpreted as it is meant: its body, the
code of its `Status` field, its `Content-Type`, and every occurrence of
every other field. -/
structure Faithful (fields : List OutputField) (body : Bytes) (b : ResponseBuilder) : Prop where
  body : b.body = body
  status : ∀ f code, fields.filter OutputField.isStatus = [f] → f.HasCode code →
    b.statusCode = code
  noStatus : fields.filter OutputField.isStatus = [] → b.statusCode = 200
  contentType : ∀ f, fields.filter OutputField.isType = [f] →
    b.headers.get? (lit "Content-Type") = some f.trimmed
  others : ((fields.filter OutputField.isOther).map fun f => (f.name, f.trimmed)).Subperm
    b.headers.entries

/-- The outputs that are interpreted as they are meant. -/
structure Recognised (fields : List OutputField) (blankCrlf : Bool) : Prop where
  blank : BlankFound fields blankCrlf
  status : ∀ f code, fields.filter OutputField.isStatus = [f] → f.HasCode code →
    (f.name = lit "Status" ∧ 100 ≤ code ∧ code < 600) ∨ code = 200
  contentType : ∀ f, fields.filter OutputField.isType = [f] →
    f.name = lit "Content-Type" ∨ f.trimmed = lit "text/html"
  distinct : ((fields.filter OutputField.isOther).map OutputField.name).Nodup
  ranges : ∀ front f behind, fields = front ++ f :: behind → f.name = lit "Accept-Ranges" →
    f.trimmed = lit "bytes" ∨ (codes fields ≠ [] ∧ 200 ∉ codes behind)

variable {fields : List OutputField} {body : Bytes} {b : ResponseBuilder}

/-! ### The status -/

theorem codes_filter : ∀ fields : List OutputField,
    codes fields = codes (fields.filter OutputField.isStatus)
  | [] => rfl
  | f :: fields => by
      have ih := codes_filter fields
      by_cases hstatus : f.isStatus = true
      · rw [List.filter_cons_of_pos hstatus]
        cases hcode : f.code? with
        | none => rw [codes_cons_none hcode, codes_cons_none hcode, ih]
        | some code => rw [codes_cons_some hcode, codes_cons_some hcode, ih]
      · have hcode : f.code? = none := by
          unfold OutputField.code?
          rw [if_neg]
          intro hname
          rw [OutputField.isStatus, hname] at hstatus
          exact hstatus (by decide)
        rw [List.filter_cons_of_neg hstatus, codes_cons_none hcode, ih]

/-- Where the trimmed value lies in the value. -/
theorem OutputField.value_eq (f : OutputField) : ∃ front behind,
    f.value = front ++ (f.trimmed ++ behind) ∧ ∀ c ∈ front, c ∈ lit " \t" := by
  refine ⟨f.value.takeWhile fun c => decide (c ∈ lit " \t"),
    (f.value.dropWhile fun c => decide (c ∈ lit " \t")).rtakeWhile
      fun c => decide (c ∈ lit " \t"), ?_, fun c hc => ?_⟩
  · rw [trimmed, trim, List.rdropWhile_append_rtakeWhile, List.takeWhile_append_dropWhile]
  · have hblank := List.mem_takeWhile_imp hc
    exact of_decide_eq_true hblank

/-- The code of a well-formed `Status` field, as the code reads it. -/
theorem statusOfLine_hasCode {f : OutputField} {code : Nat} (hname : f.name = lit "Status")
    (h : f.HasCode code) :
    statusOfLine f.line = if 100 ≤ code ∧ code < 600 then some code else none := by
  obtain ⟨digits, reason, htrimmed, hthree, hdigits, -, rfl⟩ := h
  obtain ⟨front, behind, hvalue, hfront⟩ := f.value_eq
  have hline : f.line = (lit "Status:" ++ front) ++ (digits ++ (reason ++ behind)) := by
    rw [OutputField.line, hname, hvalue, htrimmed]
    simp [lit]
  have hskip : ∀ c ∈ lit "Status:" ++ front, (!isdigit c) = true := by
    intro c hc
    rcases List.mem_append.mp hc with hc | hc
    · exact (by decide +kernel : ∀ c ∈ lit "Status:", (!isdigit c) = true) c hc
    · exact (by decide +kernel : ∀ c ∈ lit " \t", (!isdigit c) = true) c (hfront c hc)
  have hdrop : f.line.dropWhile (fun c => !isdigit c) = digits ++ (reason ++ behind) := by
    rw [hline, List.dropWhile_append_of_pos hskip]
    cases digits with
    | nil => cases hthree
    | cons c digits =>
        rw [List.cons_append, List.dropWhile_cons_of_neg]
        simp [hdigits c List.mem_cons_self]
  have htake : (digits ++ (reason ++ behind)).take 3 = digits := by
    rw [← hthree, List.take_left]
  have hne : digits ≠ [] := by
    rintro rfl
    cases hthree
  have hread := readDigits_digits 0 fun c hc => isDigit_ten (hdigits c hc)
  simp only [statusOfLine, hdrop, htake, if_neg hne, hread]
  rfl

theorem status_iff :
    (∀ f code, fields.filter OutputField.isStatus = [f] → f.HasCode code →
        (interpreted fields body b).statusCode = code)
      ↔ ∀ f code, fields.filter OutputField.isStatus = [f] → f.HasCode code →
        (f.name = lit "Status" ∧ 100 ≤ code ∧ code < 600) ∨ code = 200 := by
  refine forall_congr' fun f => forall_congr' fun code => forall_congr' fun hone =>
    forall_congr' fun hcode => ?_
  rw [interpreted_status, codes_filter, hone]
  by_cases hname : f.name = lit "Status"
  · have hread := statusOfLine_hasCode hname hcode
    by_cases hrange : 100 ≤ code ∧ code < 600
    · rw [if_pos hrange] at hread
      have hsome : f.code? = some code := by rw [OutputField.code?, if_pos hname, hread]
      rw [codes_cons_some hsome]
      exact iff_of_true rfl (Or.inl ⟨hname, hrange⟩)
    · rw [if_neg hrange] at hread
      have hnone : f.code? = none := by rw [OutputField.code?, if_pos hname, hread]
      rw [codes_cons_none hnone]
      have hcast : ((200 : Nat) : Int) = code ↔ code = 200 := by omega
      show ((200 : Nat) : Int) = code ↔ _
      rw [hcast]
      refine ⟨fun h => Or.inr h, fun h => h.resolve_left fun h => hrange h.2⟩
  · have hnone : f.code? = none := by rw [OutputField.code?, if_neg hname]
    rw [codes_cons_none hnone]
    have hcast : ((200 : Nat) : Int) = code ↔ code = 200 := by omega
    show ((200 : Nat) : Int) = code ↔ _
    rw [hcast]
    exact ⟨fun h => Or.inr h, fun h => h.resolve_left fun h => hname h.1⟩

/-! ### The type -/

theorem interpreted_contentType :
    (interpreted fields body b).headers.get? (lit "Content-Type")
      = some (((fields.filter fun f => f.name = lit "Content-Type").getLast?.map
        OutputField.trimmed).getD (lit "text/html")) := by
  have htype := foldl_outputField_contentType fields { b := b.setStatus 200 }
  simp only [interpreted, ResponseBuilder.setBody, ResponseBuilder.setHeaders, htype]
  exact OrdMap.get?_insert_self _ _ _

theorem filter_contentType (fields : List OutputField) :
    (fields.filter fun f => f.name = lit "Content-Type")
      = (fields.filter OutputField.isType).filter fun f => f.name = lit "Content-Type" := by
  rw [List.filter_filter]
  refine List.filter_congr fun f _ => ?_
  by_cases hname : f.name = lit "Content-Type"
  · have htype : f.isType = true := by
      rw [OutputField.isType, hname]
      decide
    simp [hname, htype]
  · simp [hname]

theorem contentType_iff :
    (∀ f, fields.filter OutputField.isType = [f] →
        (interpreted fields body b).headers.get? (lit "Content-Type") = some f.trimmed)
      ↔ ∀ f, fields.filter OutputField.isType = [f] →
        f.name = lit "Content-Type" ∨ f.trimmed = lit "text/html" := by
  refine forall_congr' fun f => forall_congr' fun hone => ?_
  rw [interpreted_contentType, filter_contentType, hone, Option.some_inj]
  by_cases hname : f.name = lit "Content-Type"
  · rw [List.filter_cons_of_pos (by simpa using hname)]
    exact iff_of_true rfl (Or.inl hname)
  · rw [List.filter_cons_of_neg (by simpa using hname)]
    exact ⟨fun h => Or.inr h.symm, fun h => (h.resolve_left hname).symm⟩

/-! ### The other fields -/

theorem OutputField.isOther_name {f : OutputField} (h : f.isOther = true) :
    f.name.map tolower ≠ lit "status" ∧ f.name.map tolower ≠ lit "content-type" := by
  simpa [isOther, isStatus, isType] using h

/-- A header that only the field `f` names. -/
theorem interpreted_header {front behind : List OutputField} {f : OutputField}
    (hother : f.isOther = true) (hbehind : ∀ g ∈ behind, g.name ≠ f.name) :
    (interpreted (front ++ f :: behind) body b).headers.get? f.name
      = if f.name = lit "Accept-Ranges" ∧ (codes (front ++ f :: behind) = [] ∨ 200 ∈ codes behind)
        then some (lit "bytes") else some f.trimmed := by
  obtain ⟨hstatus, htype⟩ := OutputField.isOther_name hother
  have hname : f.name ≠ lit "Content-Type" := by
    intro h
    rw [h] at htype
    exact htype (by decide)
  have hname' : f.name ≠ lit "Status" := by
    intro h
    rw [h] at hstatus
    exact hstatus (by decide)
  have hset : ∀ s, (outputField s f).b.headers.get? f.name = some f.trimmed := by
    intro s
    unfold outputField
    rw [if_neg hname, if_neg hname']
    exact OrdMap.get?_insert_self _ _ _
  obtain ⟨-, hcodes⟩ := foldl_outputField_status (front ++ f :: behind) { b := b.setStatus 200 }
  have hfold := foldl_outputField_header behind
    (outputField (front.foldl outputField { b := b.setStatus 200 }) f) hbehind
  rw [hset] at hfold
  have hrun : (front ++ f :: behind).foldl outputField { b := b.setStatus 200 }
      = behind.foldl outputField (outputField (front.foldl outputField
        { b := b.setStatus 200 }) f) := by
    rw [List.foldl_append, List.foldl_cons]
  rw [hrun] at hcodes
  simp only [interpreted, hrun, ResponseBuilder.setBody, ResponseBuilder.setHeaders]
  rw [OrdMap.get?_insert_of_ne _ (Ne.symm hname)]
  by_cases hnone : codes (front ++ f :: behind) = []
  · rw [if_neg fun h => (hcodes.mp h).elim (fun h => by cases h) fun h => h hnone]
    have hreset := setStatus_header (behind.foldl outputField (outputField (front.foldl outputField
      { b := b.setStatus 200 }) f)).b (by decide : 200 < 600) f.name
    refine hreset.trans ?_
    rw [hfold]
    by_cases hkey : f.name = lit "Accept-Ranges"
    · rw [if_pos ⟨hkey, rfl⟩, if_pos ⟨hkey, Or.inl hnone⟩]
    · rw [if_neg fun h => hkey h.1, if_neg fun h => hkey h.1, if_neg fun h => hkey h.1]
  · rw [if_pos (hcodes.mpr (Or.inr hnone)), hfold]
    simp only [hnone, false_or]

theorem names_behind {front behind : List OutputField} {f : OutputField}
    (hother : f.isOther = true)
    (h : (((front ++ f :: behind).filter OutputField.isOther).map OutputField.name).Nodup) :
    ∀ g ∈ behind, g.name ≠ f.name := by
  intro g hg heq
  have hother' : g.isOther = true := by
    rw [← hother, OutputField.isOther, OutputField.isOther, OutputField.isStatus,
      OutputField.isStatus, OutputField.isType, OutputField.isType, heq]
  rw [List.filter_append, List.filter_cons_of_pos hother, List.map_append, List.map_cons] at h
  refine (List.nodup_cons.mp (List.nodup_append.mp h).2.1).1 (heq ▸ ?_)
  exact List.mem_map_of_mem (List.mem_filter.mpr ⟨hg, hother'⟩)

/-- Every occurrence of a field is kept. -/
theorem others_iff :
    ((fields.filter OutputField.isOther).map fun f => (f.name, f.trimmed)).Subperm
        (interpreted fields body b).headers.entries
      ↔ ((fields.filter OutputField.isOther).map OutputField.name).Nodup
        ∧ ∀ front f behind, fields = front ++ f :: behind → f.name = lit "Accept-Ranges" →
          f.trimmed = lit "bytes" ∨ (codes fields ≠ [] ∧ 200 ∉ codes behind) := by
  have hranges : ∀ f : OutputField, f.name = lit "Accept-Ranges" → f.isOther = true := by
    intro f hname
    rw [OutputField.isOther, OutputField.isStatus, OutputField.isType, hname]
    decide
  constructor
  · intro h
    have hnames : ((fields.filter OutputField.isOther).map OutputField.name).Nodup := by
      obtain ⟨l, hperm, hsub⟩ := h
      have hkeys := (hperm.map Prod.fst).nodup_iff.mp
        ((OrdMap.nodup_keys _).sublist (hsub.map Prod.fst))
      rwa [List.map_map] at hkeys
    refine ⟨hnames, ?_⟩
    rintro front f behind rfl hname
    have hother := hranges f hname
    have hmem := h.subset (List.mem_map_of_mem (List.mem_filter.mpr
      ⟨List.mem_append_right front List.mem_cons_self, hother⟩))
    rw [OrdMap.mem_entries, interpreted_header hother (names_behind hother hnames)] at hmem
    by_cases hreset : codes (front ++ f :: behind) = [] ∨ 200 ∈ codes behind
    · rw [if_pos ⟨hname, hreset⟩] at hmem
      exact Or.inl (Option.some.inj hmem).symm
    · exact Or.inr (not_or.mp hreset)
  · rintro ⟨hnames, hkept⟩
    refine List.subperm_of_subset ?_ ?_
    · refine List.Nodup.of_map Prod.fst ?_
      rw [List.map_map]
      exact hnames
    · intro e he
      obtain ⟨f, hf, rfl⟩ := List.mem_map.mp he
      obtain ⟨hmem, hother⟩ := List.mem_filter.mp hf
      obtain ⟨front, behind, rfl⟩ := List.append_of_mem hmem
      rw [OrdMap.mem_entries, interpreted_header hother (names_behind hother hnames)]
      split
      · rename_i hreset
        obtain ⟨hname, hreset⟩ := hreset
        rcases hkept front f behind rfl hname with hbytes | ⟨hcodes, hno⟩
        · rw [hbytes]
        · exact (hreset.elim hcodes hno).elim
      · rfl

/-- A script's output is interpreted as it is meant if and only if its
last header line and its empty line end with CRLF, `Status` and
`Content-Type` are spelled so, no other name occurs twice, and
`Accept-Ranges` is not overwritten. -/
theorem faithful_iff (fields : List OutputField) (blankCrlf : Bool) (body : Bytes)
    (b : ResponseBuilder) :
    Faithful fields body (processCgiOutput (outputText fields blankCrlf body) b)
      ↔ Recognised fields blankCrlf := by
  constructor
  · intro h
    have hblank := (body_iff fields blankCrlf body b).mp h.body
    rw [processCgiOutput_found hblank] at h
    obtain ⟨hdistinct, hranges⟩ := others_iff.mp h.others
    exact ⟨hblank, status_iff.mp h.status, contentType_iff.mp h.contentType, hdistinct, hranges⟩
  · intro h
    have hbody := (body_iff fields blankCrlf body b).mpr h.blank
    rw [processCgiOutput_found h.blank] at hbody ⊢
    refine ⟨hbody, status_iff.mpr h.status, fun hno => ?_, contentType_iff.mpr h.contentType,
      others_iff.mpr ⟨h.distinct, h.ranges⟩⟩
    rw [interpreted_status, codes_filter, hno]
    rfl

/-- The type of a page, in a line that ends with LF. -/
def pageType : OutputField where
  name := lit "Content-Type"
  value := lit " text/html"
  endsCrlf := false
  nameOk := by decide
  valueOk := by decide

/-- With lines that end with LF the head is part of the body. -/
theorem not_faithful :
    ¬∀ (fields : List OutputField) (blankCrlf : Bool) (body : Bytes) (b : ResponseBuilder),
      Faithful fields body (processCgiOutput (outputText fields blankCrlf body) b) := by
  intro h
  have hpage := h [pageType] false (lit "<html></html>") { request := {}, statusCode := 0 }
  have hblank := ((faithful_iff _ _ _ _).mp hpage).blank
  exact absurd hblank (by decide)

end CgiHandler

end Webserv
