import Webserv.CrlfLines

/-!
# Reading the head of an HTTP message

What a recipient makes of a byte stream: a start line, the field lines up
to the first empty line, and the bytes behind it. Any text is a list of
lines (`linesOf`), so what a head that was put together from arbitrary
pieces says to a recipient is a matter of the lines of the pieces.
-/

namespace MessageHead

open Bytes ChunkStream CrlfLines

/-! ## Reading -/

/-- The first line, and what follows its CRLF. -/
def cutLine : Bytes → Option (Bytes × Bytes)
  | [] => none
  | [_] => none
  | a :: b :: s =>
      if a = cr ∧ b = lf then some ([], s)
      else (cutLine (b :: s)).map fun r => (a :: r.1, r.2)

/-- The lines up to the first empty one, and what follows that. -/
def readLines : Nat → Bytes → Option (List Bytes × Bytes)
  | 0, _ => none
  | fuel + 1, s =>
      (cutLine s).bind fun line =>
        if line.1 = [] then some ([], line.2)
        else (readLines fuel line.2).map fun r => (line.1 :: r.1, r.2)

/-- A message: its start line, its field lines, and the bytes behind its
head. -/
structure Message where
  start : Bytes
  fields : List Bytes
  rest : Bytes
deriving DecidableEq

def read (s : Bytes) : Option Message :=
  match readLines (s.length + 1) s with
  | some (start :: fields, rest) => some ⟨start, fields, rest⟩
  | _ => none

/-- The name of a field line, in lower case. -/
def fieldName (line : Bytes) : Bytes := (line.takeWhile (· != colon)).map tolower

/-- The value of a field line, without the blanks around it. -/
def fieldValue (line : Bytes) : Bytes := trim (lit " \t") (line.dropWhile (· != colon)).tail

/-- A field line that is put together as `name: value` is taken apart. -/
def unpack (line : Bytes) : Bytes × Bytes :=
  (line.takeWhile (· != colon), (line.dropWhile (· != colon)).drop 2)

/-- The values of the fields of a name. -/
def valuesOf (name : Bytes) (lines : List Bytes) : List Bytes :=
  (lines.filter fun line => fieldName line = name).map fieldValue

section Names

variable {name : Bytes} (h : colon ∉ name)

include h

theorem ne_colon : ∀ c ∈ name, (c != colon) = true := by
  intro c hc
  rw [bne_iff_ne]
  rintro rfl
  exact h hc

theorem takeWhile_name (t : Bytes) : (name ++ colon :: t).takeWhile (· != colon) = name := by
  rw [List.takeWhile_append_of_pos (ne_colon h), List.takeWhile_cons_of_neg (by decide),
    List.append_nil]

theorem dropWhile_name (t : Bytes) :
    (name ++ colon :: t).dropWhile (· != colon) = colon :: t := by
  rw [List.dropWhile_append_of_pos (ne_colon h), List.dropWhile_cons_of_neg (by decide)]

theorem unpack_field (value : Bytes) :
    unpack (name ++ colon :: space :: value) = (name, value) := by
  rw [unpack, takeWhile_name h, dropWhile_name h]
  rfl

end Names

theorem cutLine_line : ∀ {l : Bytes}, IsLine l → ∀ u, cutLine (l ++ cr :: lf :: u) = some (l, u)
  | [], _, u => if_pos ⟨rfl, rfl⟩
  | [a], _, u => by
      have hne : ¬(a = cr ∧ cr = lf) := fun h => absurd h.2 (by decide)
      show (if a = cr ∧ cr = lf then _ else _) = _
      have hnil : cutLine (cr :: lf :: u) = some ([], u) := if_pos ⟨rfl, rfl⟩
      rw [if_neg hne, hnil]
      rfl
  | a :: b :: l, h, u => by
      show (if a = cr ∧ b = lf then _ else (cutLine (b :: l ++ cr :: lf :: u)).map _) = _
      rw [if_neg h.1, cutLine_line h.of_cons u]
      rfl

/-- Lines that are not empty are read up to the first empty line. -/
theorem readLines_unlines {u : Bytes} : ∀ {ls : List Bytes} {fuel : Nat},
    (∀ l ∈ ls, l ≠ [] ∧ IsLine l) → ls.length < fuel →
    readLines fuel (unlines ls ++ cr :: lf :: u) = some (ls, u)
  | _, 0, _, h => absurd h (Nat.not_lt_zero _)
  | [], fuel + 1, _, _ => by
      have hnil : cutLine (cr :: lf :: u) = some ([], u) := if_pos ⟨rfl, rfl⟩
      rw [readLines, unlines_nil, List.nil_append, hnil]
      rfl
  | l :: ls, fuel + 1, hls, hlt => by
      obtain ⟨hne, hl⟩ := hls l List.mem_cons_self
      have hls' := fun l' h' => hls l' (List.mem_cons_of_mem l h')
      have hlt' : ls.length < fuel := Nat.lt_of_succ_lt_succ hlt
      rw [readLines, unlines_cons, List.append_assoc, List.cons_append, List.cons_append,
        cutLine_line hl, Option.bind_some, if_neg hne, readLines_unlines hls' hlt']
      rfl

theorem length_le_unlines : ∀ ls : List Bytes, 2 * ls.length ≤ (unlines ls).length
  | [] => Nat.le_refl _
  | l :: ls => by
      have ih := length_le_unlines ls
      simp only [unlines_cons, List.length_cons, List.length_append]
      omega

theorem read_unlines {start : Bytes} {ls : List Bytes} {u : Bytes}
    (h : ∀ l ∈ start :: ls, l ≠ [] ∧ IsLine l) :
    read (unlines (start :: ls) ++ cr :: lf :: u) = some ⟨start, ls, u⟩ := by
  have hlt := length_le_unlines (start :: ls)
  have hfuel : (start :: ls).length < (unlines (start :: ls) ++ cr :: lf :: u).length + 1 := by
    rw [List.length_append]
    omega
  rw [read, readLines_unlines h hfuel]

/-! ## The lines of a text -/

/-- A byte in front of the first line. -/
def consLine (a : UInt8) : List Bytes → List Bytes
  | [] => [[a]]
  | l :: ls => (a :: l) :: ls

/-- The pieces of a text between its CRLFs. -/
def linesOf : Bytes → List Bytes
  | [] => [[]]
  | [a] => [[a]]
  | a :: b :: t => if a = cr ∧ b = lf then [] :: linesOf t else consLine a (linesOf (b :: t))

theorem linesOf_ne_nil : ∀ t : Bytes, linesOf t ≠ []
  | [] => List.cons_ne_nil _ _
  | [_] => List.cons_ne_nil _ _
  | a :: b :: t => by
      rw [linesOf]
      split
      · exact List.cons_ne_nil _ _
      · cases linesOf (b :: t) with
        | nil => exact List.cons_ne_nil _ _
        | cons l ls => exact List.cons_ne_nil _ _

theorem unlines_consLine {a : UInt8} {ls : List Bytes} (h : ls ≠ []) :
    unlines (consLine a ls) = a :: unlines ls := by
  cases ls with
  | nil => exact absurd rfl h
  | cons l ls => rfl

/-- A text with a CRLF behind it is its lines. -/
theorem unlines_linesOf : ∀ t : Bytes, unlines (linesOf t) = t ++ [cr, lf]
  | [] => rfl
  | [_] => rfl
  | a :: b :: t => by
      rw [linesOf]
      split
      · rename_i h
        rw [unlines_cons, unlines_linesOf t, h.1, h.2]
        rfl
      · rw [unlines_consLine (linesOf_ne_nil _), unlines_linesOf (b :: t)]
        rfl

theorem linesOf_line : ∀ {l : Bytes}, IsLine l → linesOf l = [l]
  | [], _ => rfl
  | [_], _ => rfl
  | a :: b :: l, h => by
      rw [linesOf, if_neg h.1, linesOf_line h.of_cons]
      rfl

theorem isLine_cons {a : UInt8} : ∀ {l : Bytes}, IsLine l → ¬(a = cr ∧ l.head? = some lf) →
    IsLine (a :: l)
  | [], _, _ => ⟨fun h => absurd h.2 (by decide), trivial⟩
  | b :: l, hl, hne => ⟨fun h => hne ⟨h.1, congrArg some h.2⟩, hl⟩

theorem head?_linesOf : ∀ {b : UInt8} {t l : Bytes} {ls : List Bytes},
    linesOf (b :: t) = l :: ls → l = [] ∨ l.head? = some b
  | b, [], l, ls, h => by
      obtain ⟨rfl, -⟩ := List.cons.inj h
      exact Or.inr rfl
  | b, c :: t, l, ls, h => by
      rw [linesOf] at h
      split at h
      · obtain ⟨rfl, -⟩ := List.cons.inj h
        exact Or.inl rfl
      · cases hrest : linesOf (c :: t) with
        | nil => exact absurd hrest (linesOf_ne_nil _)
        | cons l' ls' =>
            rw [hrest] at h
            obtain ⟨rfl, -⟩ := List.cons.inj h
            exact Or.inr rfl

theorem isLine_linesOf : ∀ {t l : Bytes}, l ∈ linesOf t → IsLine l
  | [], l, h => by
      obtain rfl := List.mem_singleton.mp h
      trivial
  | [a], l, h => by
      obtain rfl := List.mem_singleton.mp h
      exact isLine_cons trivial fun h => by cases h.2
  | a :: b :: t, l, h => by
      rw [linesOf] at h
      split at h
      · rcases List.mem_cons.mp h with rfl | h
        · trivial
        · exact isLine_linesOf h
      · rename_i hne
        cases hrest : linesOf (b :: t) with
        | nil => exact absurd hrest (linesOf_ne_nil _)
        | cons l' ls' =>
            have hlines : ∀ l₀ ∈ l' :: ls', IsLine l₀ := fun l₀ h₀ => isLine_linesOf (hrest ▸ h₀)
            rw [hrest] at h
            rcases List.mem_cons.mp h with rfl | h
            · refine isLine_cons (hlines l' List.mem_cons_self) fun hcr => ?_
              rcases head?_linesOf hrest with rfl | hhead
              · cases hcr.2
              · exact hne ⟨hcr.1, Option.some.inj (hhead.symm.trans hcr.2)⟩
            · exact hlines l (List.mem_cons_of_mem l' h)

/-! ## Heads put together from pieces -/

/-- An empty line among the lines ends the head early: more is left than
what should follow it. -/
theorem readLines_early {u : Bytes} : ∀ {ls : List Bytes} {fuel : Nat} {r : List Bytes × Bytes},
    (∀ l ∈ ls, IsLine l) → [] ∈ ls → readLines fuel (unlines ls ++ u) = some r →
    u.length ≤ r.2.length
  | _, 0, _, _, _, h => by cases h
  | [], fuel + 1, _, _, hnil, _ => absurd hnil List.not_mem_nil
  | l :: ls, fuel + 1, r, hls, hnil, h => by
      have hl := hls l List.mem_cons_self
      rw [readLines, unlines_cons, List.append_assoc, List.cons_append, List.cons_append,
        cutLine_line hl, Option.bind_some] at h
      by_cases hempty : l = []
      · rw [if_pos hempty] at h
        obtain rfl := Option.some.inj h
        rw [List.length_append]
        exact Nat.le_add_left _ _
      · rw [if_neg hempty] at h
        obtain ⟨r', hr', rfl⟩ := Option.map_eq_some_iff.mp h
        have hnil' : [] ∈ ls := (List.mem_cons.mp hnil).resolve_left fun h => hempty h.symm
        have hle := readLines_early (fun l' h' => hls l' (List.mem_cons_of_mem l h')) hnil' hr'
        exact hle

/-- A recipient finds `body` behind the head exactly when no line of the
head is empty; then the lines are the fields. -/
theorem read_head {start : Bytes} (hstart : start ≠ [] ∧ IsLine start) {ls : List Bytes}
    (hls : ∀ l ∈ ls, IsLine l) (body : Bytes) (m : Message) :
    read (unlines (start :: ls) ++ cr :: lf :: body) = some m ∧ m.rest = body
      ↔ [] ∉ ls ∧ m = ⟨start, ls, body⟩ := by
  have hall : ∀ l ∈ start :: ls, IsLine l :=
    fun l h => (List.mem_cons.mp h).elim (fun heq => heq ▸ hstart.2) (hls l)
  have hsound (hnil : [] ∉ ls) :
      read (unlines (start :: ls) ++ cr :: lf :: body) = some ⟨start, ls, body⟩ := by
    refine read_unlines fun l h => ⟨?_, hall l h⟩
    rcases List.mem_cons.mp h with rfl | h'
    · exact hstart.1
    · exact fun heq => hnil (heq ▸ h')
  constructor
  · rintro ⟨hread, hrest⟩
    by_cases hnil : [] ∈ ls
    · unfold read at hread
      split at hread
      · rename_i hlines
        obtain rfl := Option.some.inj hread
        have hle := readLines_early hall (List.mem_cons_of_mem start hnil) hlines
        simp only at hrest hle
        rw [hrest] at hle
        simp only [List.length_cons] at hle
        omega
      · cases hread
    · have hread' := hsound hnil
      exact ⟨hnil, (Option.some.inj (hread'.symm.trans hread)).symm⟩
  · rintro ⟨hnil, rfl⟩
    exact ⟨hsound hnil, rfl⟩

/-! ## Framing -/

/-- The length a Content-Length says. -/
def lengthSaid (value : Bytes) : Option Nat :=
  if value ≠ [] ∧ value.all isdigit = true then some (number 10 value) else none

/-- The fields tell where the body ends: there is one Content-Length, with
the length of the body, and the body is in every coding that is named. -/
structure Framed (InCoding : Bytes → Bytes → Prop) (fields : List Bytes) (body : Bytes) :
    Prop where
  length : (valuesOf (lit "content-length") fields).map lengthSaid = [some body.length]
  codings : ∀ coding ∈ valuesOf (lit "transfer-encoding") fields, InCoding coding body

/-- A recipient reads exactly `body` from the message. -/
def SelfDelimiting (InCoding : Bytes → Bytes → Prop) (s body : Bytes) : Prop :=
  ∃ m, read s = some m ∧ m.rest = body ∧ Framed InCoding m.fields body

theorem lengthSaid_decimal (n : Nat) : lengthSaid (decimal n) = some n := by
  have hdigits : (decimal n).all isdigit = true := List.all_eq_true.mpr (isdigit_decimal n)
  rw [lengthSaid, if_pos ⟨decimal_ne_nil n, hdigits⟩, number_decimal]

theorem valuesOf_append (name : Bytes) (ls ls' : List Bytes) :
    valuesOf name (ls ++ ls') = valuesOf name ls ++ valuesOf name ls' := by
  simp only [valuesOf, List.filter_append, List.map_append]

theorem perm_valuesOf (name : Bytes) {ls ls' : List Bytes} (h : ls.Perm ls') :
    (valuesOf name ls).Perm (valuesOf name ls') :=
  (h.filter _).map _

theorem valuesOf_eq_nil {name : Bytes} {ls : List Bytes} (h : ∀ l ∈ ls, fieldName l ≠ name) :
    valuesOf name ls = [] := by
  have hnil : ls.filter (fun line => decide (fieldName line = name)) = [] :=
    List.filter_eq_nil_iff.mpr fun l hl heq => h l hl (of_decide_eq_true heq)
  rw [valuesOf, hnil]
  rfl

/-- The order of the fields does not matter. -/
theorem Framed.of_perm {InCoding : Bytes → Bytes → Prop} {ls ls' : List Bytes} {body : Bytes}
    (h : Framed InCoding ls body) (hperm : ls.Perm ls') : Framed InCoding ls' body where
  length := by
    have hlength := (perm_valuesOf (lit "content-length") hperm).map lengthSaid
    rw [h.length] at hlength
    exact List.perm_singleton.mp hlength.symm
  codings := fun coding hc => h.codings coding ((perm_valuesOf _ hperm).mem_iff.mpr hc)

end MessageHead
