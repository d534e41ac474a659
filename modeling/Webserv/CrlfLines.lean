import Webserv.ChunkStream

/-!
# Text in lines that CRLF ends

A text is a list of lines, each followed by CRLF. No CRLF begins inside
a line, so the lines can be read off the text again, and the first empty
line is where the first two CRLFs in a row are.
-/

namespace CrlfLines

open Bytes ChunkStream

/-- A line without its CRLF: no CRLF begins in it, or at its end. -/
def IsLine (l : Bytes) : Prop := NoCrlf (l ++ [cr])

/-- The lines, each with its CRLF. -/
def unlines : List Bytes → Bytes
  | [] => []
  | l :: ls => l ++ cr :: lf :: unlines ls

@[simp] theorem unlines_nil : unlines [] = [] := rfl

@[simp] theorem unlines_cons (l : Bytes) (ls : List Bytes) :
    unlines (l :: ls) = l ++ cr :: lf :: unlines ls := rfl

theorem unlines_append : ∀ ls ls' : List Bytes, unlines (ls ++ ls') = unlines ls ++ unlines ls'
  | [], ls' => rfl
  | l :: ls, ls' => by
      rw [List.cons_append, unlines_cons, unlines_append ls ls', unlines_cons]
      simp

/-- A line is a string that does not contain CRLF. -/
theorem isLine_iff : ∀ {l : Bytes}, IsLine l ↔ ¬[cr, lf] <:+: l
  | [] => iff_of_true trivial fun h => by simp at h
  | [a] => by
      refine iff_of_true ⟨fun h => absurd h.2 (by decide), trivial⟩ fun h => ?_
      simpa using h.length_le
  | a :: b :: l => by
      have ih : IsLine (b :: l) ↔ ¬[cr, lf] <:+: b :: l := isLine_iff
      have hcons : IsLine (a :: b :: l) ↔ ¬(a = cr ∧ b = lf) ∧ IsLine (b :: l) := Iff.rfl
      have hinfix : [cr, lf] <:+: a :: b :: l ↔ [cr, lf] <+: a :: b :: l ∨ [cr, lf] <:+: b :: l :=
        List.infix_cons_iff
      rw [hcons, ih, hinfix, not_or]
      refine and_congr_left fun _ => not_congr ⟨?_, ?_⟩
      · rintro ⟨rfl, rfl⟩
        exact ⟨l, rfl⟩
      · rintro ⟨s, hs⟩
        obtain ⟨rfl, hs'⟩ := List.cons.inj hs
        exact ⟨rfl, (List.cons.inj hs').1.symm⟩

theorem isLine_of_noCr {l : Bytes} (h : cr ∉ l) : IsLine l :=
  isLine_iff.mpr fun hbreak => h (hbreak.subset List.mem_cons_self)

theorem IsLine.of_cons {a : UInt8} {l : Bytes} (h : IsLine (a :: l)) : IsLine l := by
  cases l with
  | nil => trivial
  | cons b l => exact h.2

/-! ## The first empty line -/

/-- Two CRLFs in a row. -/
abbrev blank : Bytes := [cr, lf, cr, lf]

theorem not_blank_prefix {a : UInt8} {l u : Bytes} (h : IsLine (a :: l)) :
    ¬blank <+: a :: l ++ cr :: lf :: u := by
  rintro ⟨s, hs⟩
  obtain ⟨rfl, hs'⟩ := List.cons.inj hs
  cases l with
  | nil => exact absurd (List.cons.inj hs').1 (by decide)
  | cons b l => exact h.1 ⟨rfl, (List.cons.inj hs').1.symm⟩

/-- Behind a line, `find` meets the empty line or goes on. -/
theorem find_blank_line {u : Bytes} : ∀ {l : Bytes}, IsLine l →
    find blank (l ++ cr :: lf :: u)
      = if [cr, lf] <+: u then some l.length
        else (find blank u).map (· + (l.length + 2))
  | [], _ => by
      have hlf : ¬blank <+: lf :: u := by
        rintro ⟨s, hs⟩
        exact absurd (List.cons.inj hs).1 (by decide)
      have hiff : blank <+: cr :: lf :: u ↔ [cr, lf] <+: u := by
        simp [List.cons_prefix_cons]
      rw [List.nil_append, find, find]
      simp only [List.isPrefixOf_iff_prefix, hiff, if_neg hlf, Option.map_map]
      rfl
  | a :: l, h => by
      have hstart := not_blank_prefix (u := u) h
      rw [List.cons_append, find]
      simp only [List.isPrefixOf_iff_prefix]
      rw [if_neg (by simpa using hstart), find_blank_line h.of_cons]
      split
      · rfl
      · rw [Option.map_map]
        rfl

/-- The first empty line of a text is the first one behind its lines. -/
theorem find_blank_unlines {t : Bytes} : ∀ {l : Bytes} {ls : List Bytes}, IsLine l →
    (∀ l' ∈ ls, l' ≠ [] ∧ IsLine l') →
    find blank (unlines (l :: ls) ++ cr :: lf :: t)
      = some ((unlines (l :: ls)).length - 2)
  | l, [], hl, _ => by
      have hnext : [cr, lf] <+: cr :: lf :: t := ⟨t, rfl⟩
      simp only [unlines_cons, unlines_nil, List.append_assoc, List.cons_append, List.nil_append,
        find_blank_line hl, if_pos hnext]
      simp
  | l, l' :: ls, hl, hls => by
      have hl' := hls l' List.mem_cons_self
      have hnext : ¬[cr, lf] <+: unlines (l' :: ls) ++ cr :: lf :: t := by
        rintro ⟨s, hs⟩
        obtain ⟨hne, hline⟩ := hl'
        cases l' with
        | nil => exact hne rfl
        | cons a l' =>
            obtain ⟨rfl, hs'⟩ := List.cons.inj hs
            cases l' with
            | nil => exact absurd (List.cons.inj hs').1 (by decide)
            | cons b l' => exact hline.1 ⟨rfl, (List.cons.inj hs').1.symm⟩
      have ih := find_blank_unlines (t := t) hl'.2
        fun l₀ h₀ => hls l₀ (List.mem_cons_of_mem _ h₀)
      rw [unlines_cons, List.append_assoc, List.cons_append, List.cons_append,
        find_blank_line hl, if_neg hnext, ih]
      simp only [Option.map_some, unlines_cons, List.length_append, List.length_cons]
      congr 1
      omega

end CrlfLines
