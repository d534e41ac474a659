import Webserv.CrlfLines
import Webserv.Uploads

/-!
# Multipart bodies

Whatever the body is, the loop of `handleMultipartFormData` ends, stays
within its strings and writes to the upload directory only
(`multipart_safe`). A body that is made of parts is read back part by
part, each content with the CRLF that belongs to the next delimiter.
-/

namespace Webserv

open Bytes CrlfLines WhileLoop

namespace ResponseBuilder

/-! ## Offsets -/

/-- A part of a string that a call looks at: it starts at `start`, and a
`substr` ends at `stop`. -/
structure Span where
  text : Bytes
  start : Nat
  stop : Nat

/-- The start is no later than the stop, and the stop is in the string. -/
def Span.InRange (span : Span) : Prop := span.start ≤ span.stop ∧ span.stop ≤ span.text.length

/-- The calls on the header of a part. -/
def headerSpans (headers : Bytes) : List Span :=
  match find (lit "filename=\"") headers with
  | none => []
  | some filenamePos =>
      ⟨headers, filenamePos + 10, filenamePos + 10⟩ ::
      match findFrom (lit "\"") headers (filenamePos + 10) with
      | none => []
      | some filenameEnd => [⟨headers, filenamePos + 10, filenameEnd⟩]

/-- The calls of `find` and `substr` in one round of the loop of
`handleMultipartFormData`, in their order. -/
def roundSpans (boundary body : Bytes) (pos : Nat) : List Span :=
  ⟨body, pos, pos⟩ ::
  match findFrom boundary body pos with
  | none => []
  | some nextPos =>
      let pos := nextPos + boundary.length
      ⟨body, pos, pos⟩ ::
      match partStart body pos with
      | none => []
      | some start =>
          ⟨body, start, start⟩ ::
          match findFrom doubleCrlf body start with
          | none => []
          | some headerEnd =>
              ⟨body, start, headerEnd⟩ :: ⟨body, headerEnd + 4, headerEnd + 4⟩ ::
              match findFrom boundary body (headerEnd + 4) with
              | none => []
              | some partEnd =>
                  -- the look at the two bytes in front of the delimiter
                  (if 2 < partEnd then [⟨body, partEnd - 2, partEnd⟩] else [])
                    ++ ⟨body, headerEnd + 4, partEnd⟩ :: headerSpans (slice body start headerEnd)

theorem inRange_self {text : Bytes} {pos : Nat} (h : pos ≤ text.length) :
    (⟨text, pos, pos⟩ : Span).InRange := ⟨Nat.le_refl pos, h⟩

theorem headerSpans_inRange (headers : Bytes) : ∀ span ∈ headerSpans headers, span.InRange := by
  unfold headerSpans
  cases hname : find (lit "filename=\"") headers with
  | none => exact fun span h => by cases h
  | some filenamePos =>
      have hlength : (lit "filename=\"").length = 10 := by decide
      have hin := find_le hname
      rw [hlength] at hin
      intro span h
      rcases List.mem_cons.mp h with rfl | h
      · exact inRange_self hin
      cases hend : findFrom (lit "\"") headers (filenamePos + 10) with
      | none =>
          rw [hend] at h
          cases h
      | some filenameEnd =>
          rw [hend] at h
          obtain rfl := List.mem_singleton.mp h
          obtain ⟨hle, hin'⟩ := findFrom_le hend
          exact ⟨hle, by simp only; omega⟩

theorem partStart_le {body : Bytes} {pos start : Nat} (hpos : pos ≤ body.length)
    (h : partStart body pos = some start) : pos ≤ start ∧ start ≤ body.length := by
  unfold partStart at h
  split at h
  · cases h
  · split at h
    · rename_i hcrlf
      obtain rfl := Option.some.inj h
      exact ⟨by omega, substr_take_le (substr_of_le hpos 2) hcrlf⟩
    · obtain rfl := Option.some.inj h
      exact ⟨Nat.le_refl _, hpos⟩

/-- From an offset in the body, a round stays in its strings. -/
theorem roundSpans_inRange (boundary : Bytes) {body : Bytes} {pos : Nat}
    (hpos : pos ≤ body.length) : ∀ span ∈ roundSpans boundary body pos, span.InRange := by
  intro span h
  unfold roundSpans at h
  rcases List.mem_cons.mp h with rfl | h
  · exact inRange_self hpos
  cases hnext : findFrom boundary body pos with
  | none =>
      rw [hnext] at h
      cases h
  | some nextPos =>
  rw [hnext] at h
  obtain ⟨-, hin⟩ := findFrom_le hnext
  rcases List.mem_cons.mp h with rfl | h
  · exact inRange_self hin
  cases hstart : partStart body (nextPos + boundary.length) with
  | none =>
      rw [hstart] at h
      cases h
  | some start =>
  rw [hstart] at h
  obtain ⟨-, hstart_le⟩ := partStart_le hin hstart
  rcases List.mem_cons.mp h with rfl | h
  · exact inRange_self hstart_le
  cases hheader : findFrom doubleCrlf body start with
  | none =>
      rw [hheader] at h
      cases h
  | some headerEnd =>
  rw [hheader] at h
  obtain ⟨hheader_le, hheader_in⟩ := findFrom_le hheader
  have hfour : doubleCrlf.length = 4 := rfl
  rw [hfour] at hheader_in
  rcases List.mem_cons.mp h with rfl | h
  · exact ⟨hheader_le, by simp only; omega⟩
  rcases List.mem_cons.mp h with rfl | h
  · exact inRange_self hheader_in
  cases hend : findFrom boundary body (headerEnd + 4) with
  | none =>
      rw [hend] at h
      cases h
  | some partEnd =>
  rw [hend] at h
  obtain ⟨hend_le, hend_in⟩ := findFrom_le hend
  rcases List.mem_append.mp h with h | h
  · split at h
    · obtain rfl := List.mem_singleton.mp h
      exact ⟨Nat.sub_le _ _, by simp only; omega⟩
    · cases h
  · rcases List.mem_cons.mp h with rfl | h
    · exact ⟨hend_le, by simp only; omega⟩
    · exact headerSpans_inRange _ span h

/-! ## The upload directory -/

/-- A file of the directory itself: `c_str` ends at a NUL, and what is
left is no directory entry of its own. -/
def DirectChild (directory path : Bytes) : Prop :=
  ∃ name, path = directory ++ lit "/" ++ name ∧ slash ∉ name
    ∧ cstr name ≠ [] ∧ cstr name ≠ lit "." ∧ cstr name ≠ lit ".."

theorem slash_notMem_decimal2 (n : Nat) : slash ∉ decimal2 n := by
  have hdigit : slash ∉ decimal n := fun h => absurd (isdigit_decimal n slash h) (by decide)
  unfold decimal2
  split
  · rw [List.mem_cons, not_or]
    exact ⟨by decide, hdigit⟩
  · exact hdigit

theorem slash_notMem_safeName (env : Env) {filename : Bytes} (h : slash ∉ filename) :
    slash ∉ safeName env filename := by
  have hyear : slash ∉ decimal (env.localTime.year + 1900) := fun h =>
    absurd (isdigit_decimal _ slash h) (by decide)
  simp only [safeName, timestampStr, List.mem_append, not_or]
  exact ⟨⟨⟨by decide, ⟨⟨⟨⟨⟨⟨hyear, slash_notMem_decimal2 _⟩, slash_notMem_decimal2 _⟩,
    slash_notMem_decimal2 _⟩, slash_notMem_decimal2 _⟩, slash_notMem_decimal2 _⟩,
    slash_notMem_decimal2 _⟩⟩, by decide⟩, h⟩

theorem directChild_uploadPath (env : Env) (l : Location) {filename : Bytes}
    (h : slash ∉ filename) : DirectChild l.uploadStore (uploadPath env l filename) := by
  have hname : cstr (safeName env filename)
      = 117 :: cstr (lit "pload_" ++ timestampStr env.localTime ++ lit "_" ++ filename) := rfl
  refine ⟨_, rfl, slash_notMem_safeName env h, ?_⟩
  rw [hname]
  refine ⟨List.cons_ne_nil _ _, fun hdot => ?_, fun hdots => ?_⟩
  · exact absurd (List.cons.inj hdot).1 (by decide)
  · exact absurd (List.cons.inj hdots).1 (by decide)

theorem directChild_file {env : Env} {l : Location} {part : Part} {f : NewFile}
    (h : part.file env l = some f) : DirectChild l.uploadStore f.path := by
  obtain ⟨filename, hname, rfl⟩ := Option.map_eq_some_iff.mp h
  obtain ⟨-, hvalid⟩ := Option.filter_eq_some_iff.mp hname
  have hslash : slash ∉ filename := by
    intro hmem
    simp [invalidFilename, hmem] at hvalid
  exact directChild_uploadPath env l hslash

/-! ## Every body -/

section Safety

variable {W : Type} (os : OS W) (env : Env) (l : Location)

/-- The delimiter of the parts, as it is read off a `Content-Type`. -/
def delimiterOf (contentType : Bytes) : Option Bytes :=
  (find (lit "boundary=") contentType).map fun boundaryPos =>
    lit "--" ++ contentType.drop (boundaryPos + 9)

/-- The world behind `handleMultipartFormData`. -/
theorem handleMultipartFormData_files (b : ResponseBuilder) (w : W) (contentType body : Bytes) :
    (handleMultipartFormData os env l b w contentType body).2.1
      = writeAll os ((delimiterOf contentType).elim [] fun delimiter =>
        (parts delimiter body).filterMap (Part.file env l)) w := by
  unfold handleMultipartFormData delimiterOf
  cases find (lit "boundary=") contentType with
  | none => rfl
  | some boundaryPos =>
      simp only [multipartLoop_eq, Option.get_some]
      exact foldl_savePart_world os env l _ b w

/-- `handleMultipartFormData` ends, stays within its strings and writes
to the upload directory only. -/
structure MultipartSafe (b : ResponseBuilder) (w : W) (contentType body : Bytes) : Prop where
  boundary : ∀ k, find (lit "boundary=") contentType = some k → k + 9 ≤ contentType.length
  ends : ∀ delimiter, delimiterOf contentType = some delimiter →
    Halts (multipartIter os env l delimiter body) { b := b, w := w, pos := 0 }
  inRange : ∀ delimiter, delimiterOf contentType = some delimiter →
    Always (multipartIter os env l delimiter body)
      (fun s => ∀ span ∈ roundSpans delimiter body s.pos, span.InRange)
      { b := b, w := w, pos := 0 }
  returns : ∀ delimiter, delimiterOf contentType = some delimiter →
    (multipartLoop os env l delimiter body b w).isSome
  children : ∃ files : List NewFile, (∀ f ∈ files, DirectChild l.uploadStore f.path)
    ∧ (handleMultipartFormData os env l b w contentType body).2.1 = writeAll os files w

theorem multipart_safe (b : ResponseBuilder) (w : W) (contentType body : Bytes) :
    MultipartSafe os env l b w contentType body where
  boundary := fun _ hk => find_le hk
  ends := fun delimiter _ => ⟨_, @exits_total _ _ _ _ _ (multipartIter_lt os env l delimiter body)⟩
  inRange := by
    intro delimiter _
    have hpos : Always (multipartIter os env l delimiter body) (fun s => s.pos ≤ body.length)
        { b := b, w := w, pos := 0 } := by
      refine always_of_invariant (fun s s' _ hnext => ?_) (Nat.zero_le _)
      rcases multipartIter_cases os env l delimiter body s with hr | ⟨t, _, _, ht, -, -, hle⟩
      · cases hr.symm.trans hnext
      · obtain rfl := Sum.inl.inj (ht.symm.trans hnext)
        exact hle
    exact fun s hs => roundSpans_inRange delimiter (hpos s hs)
  returns := fun delimiter _ => multipartLoop_isSome os env l delimiter body b w
  children := by
    refine ⟨_, fun f hf => ?_, handleMultipartFormData_files os env l b w contentType body⟩
    cases hdelimiter : delimiterOf contentType with
    | none =>
        rw [hdelimiter] at hf
        cases hf
    | some delimiter =>
        rw [hdelimiter] at hf
        obtain ⟨part, -, hfile⟩ := List.mem_filterMap.mp hf
        exact directChild_file hfile

end Safety

/-! ## Bodies made of parts -/

/-- A part as it is sent: the lines of its header, and its content. -/
structure FormPart where
  first : Bytes
  others : List Bytes
  content : Bytes

/-- The header block in front of its empty line. -/
def FormPart.header (part : FormPart) : Bytes :=
  (unlines (part.first :: part.others)).take ((unlines (part.first :: part.others)).length - 2)

/-- The name under which the part may be saved. -/
def FormPart.filename (part : FormPart) : Option Bytes :=
  (⟨part.header, part.content⟩ : Part).filename

/-- The file the part is to be saved as. -/
def FormPart.file (env : Env) (l : Location) (part : FormPart) : Option NewFile :=
  (⟨part.header, part.content⟩ : Part).file env l

/-- Header lines, and a content without the delimiter behind a CRLF. -/
structure FormPart.WellFormed (delimiter : Bytes) (part : FormPart) : Prop where
  first : part.first ≠ [] ∧ IsLine part.first
  others : ∀ line ∈ part.others, line ≠ [] ∧ IsLine line
  content : ¬crlf ++ delimiter <:+: part.content

/-- The delimiter is not in the content at all, also not together with
the CRLF behind it. -/
def FormPart.Undelimited (delimiter : Bytes) (part : FormPart) : Prop :=
  find delimiter (part.content ++ crlf ++ delimiter) = some (part.content.length + 2)

/-- The parts, each behind the delimiter, and the closing delimiter. -/
def encodeForm (delimiter : Bytes) : List FormPart → Bytes
  | [] => delimiter ++ lit "--" ++ crlf
  | part :: parts => delimiter ++ crlf ++ (unlines (part.first :: part.others) ++ crlf)
      ++ (part.content ++ crlf) ++ encodeForm delimiter parts

theorem drop_behind {s a b : Bytes} {pos : Nat} (h : s.drop pos = a ++ b) :
    s.drop (pos + a.length) = b := by
  rw [← List.drop_drop, h, List.drop_left]

theorem findFrom_of_drop {pat s t : Bytes} {pos k : Nat} (hdrop : s.drop pos = t)
    (hne : t ≠ []) (h : find pat t = some k) : findFrom pat s pos = some (k + pos) := by
  have hpos : pos ≤ s.length := by
    by_contra hlt
    rw [List.drop_eq_nil_of_le (by omega)] at hdrop
    exact hne hdrop.symm
  rw [findFrom, if_pos hpos, hdrop, h]
  rfl

theorem encodeForm_delimiter (delimiter : Bytes) (parts : List FormPart) :
    ∃ more, encodeForm delimiter parts = delimiter ++ more := by
  cases parts with
  | nil => exact ⟨_, by rw [encodeForm, List.append_assoc]⟩
  | cons part parts => exact ⟨_, by simp only [encodeForm, List.append_assoc]; rfl⟩

section Encoded

variable {delimiter body gap : Bytes} {pos : Nat} (hne : delimiter ≠ [])
  (hgap : find delimiter (gap ++ delimiter) = some gap.length)

include hne hgap

omit hne in
theorem find_gap (more : Bytes) :
    find delimiter (gap ++ (delimiter ++ more)) = some gap.length := by
  rw [← List.append_assoc]
  exact find_append more hgap

/-- The round at a part reads its header and its content, with the CRLF
behind it. -/
theorem nextPart_encoded {part : FormPart} (hpart : part.WellFormed delimiter)
    (hplain : part.Undelimited delimiter) {parts : List FormPart}
    (hbody : body.drop pos = gap ++ encodeForm delimiter (part :: parts)) :
    ∃ pos', nextPart delimiter body pos = some (⟨part.header, part.content ++ crlf⟩, pos')
      ∧ body.drop pos' = (part.content ++ crlf) ++ encodeForm delimiter parts := by
  obtain ⟨more, hmore⟩ := encodeForm_delimiter delimiter parts
  have hlines : 2 ≤ (unlines (part.first :: part.others)).length := by
    simp only [unlines_cons, List.length_append, List.length_cons]
    omega
  have hheader := find_blank_unlines (t := part.content ++ crlf ++ encodeForm delimiter parts)
    hpart.first.2 hpart.others
  rw [encodeForm] at hbody
  simp only [List.append_assoc] at hbody
  generalize hblock : unlines (part.first :: part.others) = block at hbody hlines hheader
  have hnext := findFrom_of_drop hbody (by simp [hne]) (find_gap hgap _)
  have hbehind := drop_behind hbody
  rw [Nat.add_comm] at hbehind
  have hafter := drop_behind hbehind
  have hstart : partStart body (gap.length + pos + delimiter.length)
      = some (gap.length + pos + delimiter.length + 2) := by
    rw [partStart, hafter, if_neg, if_pos]
    · rfl
    · rintro ⟨-, h⟩
      exact absurd h (by simp [crlf, lit]; decide)
  have hblockAt := drop_behind hafter
  change body.drop (gap.length + pos + delimiter.length + 2) = _ at hblockAt
  have hheaderEnd : findFrom doubleCrlf body (gap.length + pos + delimiter.length + 2)
      = some (block.length - 2 + (gap.length + pos + delimiter.length + 2)) := by
    refine findFrom_of_drop hblockAt ?_ ?_
    · intro hnil
      rw [List.append_eq_nil_iff] at hnil
      rw [hnil.1] at hlines
      cases hlines
    · rw [← hheader]
      simp only [crlf, List.append_assoc, List.cons_append, List.nil_append]
      rfl
  have hcontentAt : body.drop (block.length - 2 + (gap.length + pos + delimiter.length + 2) + 4)
      = part.content ++ (crlf ++ encodeForm delimiter parts) := by
    have hdrop := drop_behind (drop_behind hblockAt)
    rw [← hdrop]
    congr 1
    have htwo : crlf.length = 2 := rfl
    omega
  have hend : findFrom delimiter body
      (block.length - 2 + (gap.length + pos + delimiter.length + 2) + 4)
      = some (part.content.length + 2
        + (block.length - 2 + (gap.length + pos + delimiter.length + 2) + 4)) := by
    refine findFrom_of_drop hcontentAt (by simp [crlf]) ?_
    have hfound := find_append more hplain
    rw [hmore]
    simpa using hfound
  refine ⟨block.length - 2 + (gap.length + pos + delimiter.length + 2) + 4, ?_, ?_⟩
  · simp only [nextPart, hnext, Option.bind_some, hstart, hheaderEnd, hend, Option.map_some]
    have hslice : slice body (gap.length + pos + delimiter.length + 2)
        (block.length - 2 + (gap.length + pos + delimiter.length + 2)) = part.header := by
      rw [slice, hblockAt, Nat.add_sub_cancel, List.take_append_of_le_length (by omega),
        FormPart.header, hblock]
    have hcontent : slice body
        (block.length - 2 + (gap.length + pos + delimiter.length + 2) + 4)
        (part.content.length + 2
          + (block.length - 2 + (gap.length + pos + delimiter.length + 2) + 4))
        = part.content ++ crlf := by
      rw [slice, hcontentAt, Nat.add_sub_cancel, ← List.append_assoc]
      exact List.take_left' (by simp [crlf])
    rw [hslice, hcontent]
  · rw [hcontentAt, List.append_assoc]

/-- The closing delimiter ends the loop. -/
theorem nextPart_closing (hbody : body.drop pos = gap ++ encodeForm delimiter []) :
    nextPart delimiter body pos = none := by
  rw [encodeForm, List.append_assoc] at hbody
  have hnext := findFrom_of_drop hbody (by simp [hne]) (find_gap hgap _)
  have hbehind := drop_behind hbody
  rw [Nat.add_comm] at hbehind
  have hafter := drop_behind hbehind
  have hclosed : partStart body (gap.length + pos + delimiter.length) = none := by
    have hlt : gap.length + pos + delimiter.length < body.length := by
      by_contra hle
      rw [List.drop_eq_nil_of_le (by omega)] at hafter
      exact absurd hafter (by simp [lit])
    rw [partStart, hafter, if_pos]
    exact ⟨hlt, by simp [lit]⟩
  simp only [nextPart, hnext, Option.bind_some, hclosed, Option.bind_none]

end Encoded

/-- The loop reads back the parts of a body that is made of parts, each
content with the CRLF behind it. -/
theorem partsFrom_encoded {delimiter : Bytes} (hne : delimiter ≠ []) {body : Bytes} :
    ∀ {parts : List FormPart} {fuel pos : Nat} {gap : Bytes}, parts.length < fuel →
      (∀ part ∈ parts, part.WellFormed delimiter ∧ part.Undelimited delimiter) →
      find delimiter (gap ++ delimiter) = some gap.length →
      body.drop pos = gap ++ encodeForm delimiter parts →
      partsFrom delimiter body fuel pos
        = parts.map fun part => ⟨part.header, part.content ++ crlf⟩
  | _, 0, _, _, hfuel, _, _, _ => absurd hfuel (Nat.not_lt_zero _)
  | [], fuel + 1, pos, gap, _, _, hgap, hbody => by
      rw [partsFrom, nextPart_closing hne hgap hbody]
      rfl
  | part :: parts, fuel + 1, pos, gap, hfuel, hparts, hgap, hbody => by
      obtain ⟨hpart, hplain⟩ := hparts part List.mem_cons_self
      obtain ⟨pos', hnext, hbody'⟩ := nextPart_encoded hne hgap hpart hplain hbody
      rw [partsFrom, hnext, List.map_cons]
      refine congrArg _ (partsFrom_encoded hne (Nat.lt_of_succ_lt_succ hfuel)
        (fun part hmem => hparts part (List.mem_cons_of_mem _ hmem)) ?_ hbody')
      rw [List.length_append]
      exact hplain

/-! ## What is stored -/

theorem find_self {pat : Bytes} (h : pat ≠ []) : find pat pat = some 0 := by
  cases pat with
  | nil => exact absurd rfl h
  | cons c pat => rw [find, if_pos (by simp)]

theorem length_encodeForm (delimiter : Bytes) : ∀ parts : List FormPart,
    parts.length ≤ (encodeForm delimiter parts).length
  | [] => Nat.zero_le _
  | part :: parts => by
      have ih := length_encodeForm delimiter parts
      simp only [encodeForm, crlf, List.length_append, List.length_cons, List.length_nil]
      omega

theorem parts_encodeForm {delimiter : Bytes} (hne : delimiter ≠ []) {parts : List FormPart}
    (hparts : ∀ part ∈ parts, part.WellFormed delimiter ∧ part.Undelimited delimiter) :
    ResponseBuilder.parts delimiter (encodeForm delimiter parts)
      = parts.map fun part => ⟨part.header, part.content ++ crlf⟩ :=
  have hself : find delimiter ([] ++ delimiter) = some ([] : Bytes).length := find_self hne
  partsFrom_encoded hne (Nat.lt_succ_of_le (length_encodeForm delimiter parts)) hparts hself rfl

/-- The `Content-Type` of a form. -/
def formType (boundary : Bytes) : Bytes := lit "multipart/form-data; boundary=" ++ boundary

theorem delimiterOf_formType (boundary : Bytes) :
    delimiterOf (formType boundary) = some (lit "--" ++ boundary) := by
  have hfind : find (lit "boundary=") (lit "multipart/form-data; boundary=") = some 21 := by
    decide +kernel
  rw [delimiterOf, formType, find_append boundary hfind, Option.map_some]
  rfl

/-- A form is stored: on any file system, each part that names a file is
saved as it is, in order, and nothing else. -/
def StoredExactly (boundary : Bytes) (parts : List FormPart) : Prop :=
  ∀ (W : Type) (os : OS W) (env : Env) (l : Location) (b : ResponseBuilder) (w : W),
    (handleMultipartFormData os env l b w (formType boundary)
      (encodeForm (lit "--" ++ boundary) parts)).2.1
      = writeAll os (parts.filterMap (FormPart.file env l)) w

/-- The file a part is saved as: its content has a CRLF too many. -/
def FormPart.fileSaved (env : Env) (l : Location) (part : FormPart) : Option NewFile :=
  (⟨part.header, part.content ++ crlf⟩ : Part).file env l

theorem FormPart.file_eq (env : Env) (l : Location) (part : FormPart) :
    part.file env l = part.filename.map (fun name => ⟨uploadPath env l name, part.content⟩)
      ∧ part.fileSaved env l
        = part.filename.map (fun name => ⟨uploadPath env l name, part.content ++ crlf⟩) :=
  ⟨rfl, rfl⟩

theorem form_world {W : Type} (os : OS W) (env : Env) (l : Location) (b : ResponseBuilder) (w : W)
    {boundary : Bytes} {parts : List FormPart}
    (hparts : ∀ part ∈ parts, part.WellFormed (lit "--" ++ boundary)
      ∧ part.Undelimited (lit "--" ++ boundary)) :
    (handleMultipartFormData os env l b w (formType boundary)
      (encodeForm (lit "--" ++ boundary) parts)).2.1
      = writeAll os (parts.filterMap (FormPart.fileSaved env l)) w := by
  have hne : lit "--" ++ boundary ≠ [] := by simp [lit]
  rw [handleMultipartFormData_files, delimiterOf_formType, Option.elim_some,
    parts_encodeForm hne hparts, List.filterMap_map]
  rfl

/-- A file system that records what is written. -/
def recordingOs : OS (List NewFile) where
  stat _ _ := none
  readFile _ _ := none
  readDir _ _ := none
  writable _ _ := false
  writeFile files path content := (files ++ [⟨path, content⟩], true)
  remove files _ := (files, false)
  rmdir files _ := (files, false)

theorem writeAll_recording : ∀ files record : List NewFile,
    writeAll recordingOs files record = record ++ files
  | [], record => (List.append_nil record).symm
  | f :: files, record => by
      have hrest := writeAll_recording files (record ++ [f])
      rw [List.append_assoc] at hrest
      exact hrest

/-- A saved part is not the part that was sent. -/
theorem filename_eq_none_of_saved (env : Env) (l : Location) : ∀ {parts : List FormPart},
    parts.filterMap (FormPart.fileSaved env l) = parts.filterMap (FormPart.file env l) →
    ∀ part ∈ parts, part.filename = none
  | [], _, part, hpart => by cases hpart
  | first :: parts, h, part, hpart => by
      obtain ⟨hfile, hsaved⟩ := FormPart.file_eq env l first
      rw [List.filterMap_cons, List.filterMap_cons, hfile, hsaved] at h
      cases hname : first.filename with
      | none =>
          rw [hname] at h
          rcases List.mem_cons.mp hpart with rfl | hpart
          · exact hname
          · exact filename_eq_none_of_saved env l h part hpart
      | some name =>
          rw [hname] at h
          have hcontent := congrArg (List.length ∘ NewFile.content) (List.cons.inj h).1
          simp [crlf] at hcontent

/-- A form without stray delimiters is stored if and only if none of its
parts names a file. -/
theorem storedExactly_iff {boundary : Bytes} {parts : List FormPart}
    (hparts : ∀ part ∈ parts, part.WellFormed (lit "--" ++ boundary))
    (hplain : ∀ part ∈ parts, part.Undelimited (lit "--" ++ boundary)) :
    StoredExactly boundary parts ↔ ∀ part ∈ parts, part.filename = none := by
  have hworld := fun (W : Type) (os : OS W) (env : Env) (l : Location) (b : ResponseBuilder)
    (w : W) => form_world os env l b w fun part hpart => ⟨hparts part hpart, hplain part hpart⟩
  refine ⟨fun h => ?_, fun h W os env l b w => ?_⟩
  · have hsaved := h (List NewFile) recordingOs { now := 0 } {}
      { request := {}, statusCode := 0 } []
    rw [hworld, writeAll_recording, writeAll_recording] at hsaved
    exact filename_eq_none_of_saved _ _ hsaved
  · have hnone : parts.filterMap (FormPart.fileSaved env l) = []
        ∧ parts.filterMap (FormPart.file env l) = [] := by
      refine ⟨List.filterMap_eq_nil_iff.mpr fun part hpart => ?_,
        List.filterMap_eq_nil_iff.mpr fun part hpart => ?_⟩
      · rw [(FormPart.file_eq env l part).2, h part hpart, Option.map_none]
      · rw [(FormPart.file_eq env l part).1, h part hpart, Option.map_none]
    rw [hworld, hnone.1, hnone.2]

/-- A form field. -/
def fieldPart : FormPart where
  first := lit "Content-Disposition: form-data; name=\"a\""
  others := []
  content := lit "1"

/-- A file of five bytes. -/
def filePart : FormPart where
  first := lit "Content-Disposition: form-data; name=\"a\"; filename=\"a\""
  others := []
  content := lit "hello"

theorem wellFormed_fieldPart : fieldPart.WellFormed (lit "--b") := by
  refine ⟨⟨by decide, isLine_of_noCr (by decide)⟩, (fun line h => by cases h), fun h => ?_⟩
  exact absurd h.length_le (by decide)

theorem wellFormed_filePart : filePart.WellFormed (lit "--b") := by
  refine ⟨⟨by decide, isLine_of_noCr (by decide)⟩, (fun line h => by cases h), fun h => ?_⟩
  exact absurd (h.subset (List.mem_cons_self : cr ∈ crlf ++ lit "--b")) (by decide)

theorem undelimited_fieldPart : fieldPart.Undelimited (lit "--b") :=
  (by decide : find (lit "--b") (lit "1" ++ crlf ++ lit "--b") = some 3)

theorem undelimited_filePart : filePart.Undelimited (lit "--b") :=
  (by decide : find (lit "--b") (lit "hello" ++ crlf ++ lit "--b") = some 7)

/-- Two fields are stored, a field and a file are not. -/
theorem storedExactly_iff_parts :
    StoredExactly (lit "b") [fieldPart, fieldPart]
      ∧ ¬StoredExactly (lit "b") [fieldPart, filePart] := by
  constructor
  · refine (storedExactly_iff (fun part hpart => ?_) fun part hpart => ?_).mpr (by decide +kernel)
    · obtain rfl : part = fieldPart := by simpa using hpart
      exact wellFormed_fieldPart
    · obtain rfl : part = fieldPart := by simpa using hpart
      exact undelimited_fieldPart
  · refine fun hstored => absurd ((storedExactly_iff (fun part hpart => ?_) fun part hpart => ?_).mp
      hstored) (by decide +kernel)
    · rcases List.mem_pair.mp hpart with rfl | rfl
      · exact wellFormed_fieldPart
      · exact wellFormed_filePart
    · rcases List.mem_pair.mp hpart with rfl | rfl
      · exact undelimited_fieldPart
      · exact undelimited_filePart

/-- The file is saved with seven bytes. -/
theorem not_storedExactly :
    ¬∀ (boundary : Bytes) (parts : List FormPart),
      (∀ part ∈ parts, part.WellFormed (lit "--" ++ boundary)) →
      StoredExactly boundary parts := by
  intro h
  have hwell : ∀ part ∈ [filePart], part.WellFormed (lit "--" ++ lit "b") := by
    intro part hpart
    obtain rfl := List.mem_singleton.mp hpart
    exact wellFormed_filePart
  have hstored := h (lit "b") [filePart] hwell (List NewFile) recordingOs { now := 0 } {}
      { request := {}, statusCode := 0 } []
  rw [form_world, writeAll_recording, writeAll_recording] at hstored
  · exact absurd (filename_eq_none_of_saved _ _ hstored filePart List.mem_cons_self)
      (by decide +kernel)
  · intro part hpart
    obtain rfl := List.mem_singleton.mp hpart
    exact ⟨wellFormed_filePart, undelimited_filePart⟩

end ResponseBuilder

end Webserv
