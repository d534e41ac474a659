import Webserv.Links

/-!
# The canonical form of a path

`normalize_uri` is a stack machine over the segments of the decoded path.
It fails exactly where a prefix of the segments has more `..` than
ordinary segments; what is left on the stack is ordinary, and is printed
so that splitting reads it back. A canonical form without `%` is therefore
left as it is.
-/

namespace Webserv

open Bytes

namespace RequestParser

/-! ## Canonical forms -/

/-- The segment is neither empty nor a dot segment. -/
def isOrdinary (segment : Bytes) : Bool := decide (KeptSegment segment)

/-- Every prefix of the segments has at most as many `..` as ordinary
segments. -/
def StaysBelow (segments : List Bytes) : Prop :=
  ∀ front, front <+: segments → front.count (lit "..") ≤ front.countP isOrdinary

/-- What `result` is made of, for a decoded path: ordinary segments with
slashes in front, and a slash at the end if the path has one or nothing is
left. -/
def CanonicalForm (decoded result : Bytes) : Prop :=
  ∃ parts : List Bytes, (∀ part ∈ parts, Ordinary part)
    ∧ (result = slash :: [slash].intercalate parts
      ∨ parts ≠ [] ∧ result = slash :: ([slash].intercalate parts ++ [slash]))
    ∧ (result.getLast? = some slash ↔ decoded.getLast? = some slash ∨ parts = [])

/-! ## The stack of segments -/

theorem forall_prefix_cons {α : Type} {P : List α → Prop} {a : α} {l : List α} :
    (∀ front, front <+: a :: l → P front)
      ↔ P [] ∧ ∀ front, front <+: l → P (a :: front) := by
  constructor
  · intro h
    refine ⟨h [] List.nil_prefix, ?_⟩
    intro front hfront
    exact h _ (List.cons_prefix_cons.mpr ⟨rfl, hfront⟩)
  · rintro ⟨hnil, hcons⟩ front hfront
    rcases List.prefix_cons_iff.mp hfront with rfl | ⟨front', rfl, hfront'⟩
    · exact hnil
    · exact hcons front' hfront'

/-- `foldSegments` fails where a prefix has more `..` than there are
segments to remove. -/
theorem foldSegments_isSome : ∀ (segments parts : List Bytes),
    (foldSegments true parts segments).isSome = true
      ↔ ∀ front, front <+: segments →
        front.count (lit "..") ≤ parts.length + front.countP isOrdinary
  | [], parts => by
      refine ⟨fun _ front hfront => ?_, fun _ => rfl⟩
      rw [List.prefix_nil.mp hfront]
      exact Nat.zero_le _
  | segment :: segments, parts => by
      rw [forall_prefix_cons, foldSegments]
      have hnil : (List.count (lit "..") ([] : List Bytes) ≤ parts.length
          + List.countP isOrdinary ([] : List Bytes)) ↔ True := by
        simp
      rw [hnil, true_and]
      by_cases hskip : segment = [] ∨ segment = lit "."
      · have hne : segment ≠ lit ".." := by
          rintro rfl
          exact absurd hskip (by decide)
        have hord : ¬isOrdinary segment = true := by
          rw [isOrdinary, decide_eq_true_eq]
          exact fun hkept => hskip.elim hkept.1 hkept.2.1
        rw [if_pos hskip, foldSegments_isSome segments parts]
        simp only [List.count_cons_of_ne hne, List.countP_cons_of_neg hord]
      rw [if_neg hskip]
      by_cases hup : segment = lit ".."
      · have hord : ¬isOrdinary (lit "..") = true := by decide
        rw [if_pos hup, hup]
        simp only [List.count_cons_self, List.countP_cons_of_neg hord, Bool.not_true,
          Bool.false_or]
        cases parts with
        | nil =>
            constructor
            · intro h
              cases h
            · intro h
              have hfirst := h [] List.nil_prefix
              simp at hfirst
        | cons part parts =>
            simp only [List.isEmpty_cons, Bool.false_eq_true, if_false]
            rw [foldSegments_isSome segments, List.length_dropLast]
            simp only [List.length_cons, Nat.add_sub_cancel]
            refine forall₂_congr fun front _ => ?_
            omega
      · have hord : isOrdinary segment = true := by
          rw [not_or] at hskip
          exact decide_eq_true ⟨hskip.1, hskip.2, hup⟩
        rw [if_neg hup, foldSegments_isSome segments]
        simp only [List.count_cons_of_ne hup, List.countP_cons_of_pos hord, List.length_append,
          List.length_singleton]
        refine forall₂_congr fun front _ => ?_
        omega

theorem kept_of_ordinary {segment : Bytes} (h : Ordinary segment) : KeptSegment segment :=
  ⟨h.nonempty, h.notDot, h.notDotDot⟩

/-! ## The printed path -/

theorem writeParts_eq (hasTrailingSlash : Bool) : ∀ {parts : List Bytes}, parts ≠ [] →
    writeParts hasTrailingSlash parts
      = [slash].intercalate parts ++ if hasTrailingSlash then [slash] else []
  | [], h => absurd rfl h
  | [part], _ => by rw [writeParts, List.intercalate_singleton]
  | part :: part' :: parts, _ => by
      have ih := writeParts_eq hasTrailingSlash (List.cons_ne_nil part' parts)
      rw [writeParts, ih, List.intercalate_cons_cons, List.append_assoc, List.append_assoc,
        List.singleton_append]
      exact List.cons_ne_nil _ _

theorem getLast?_writeParts (hasTrailingSlash : Bool) {parts : List Bytes} (hne : parts ≠ [])
    (h : ∀ part ∈ parts, Ordinary part) :
    (writeParts hasTrailingSlash parts).getLast? = some slash ↔ hasTrailingSlash = true := by
  obtain ⟨front, last, rfl⟩ := (List.eq_nil_or_concat parts).resolve_left hne
  rw [List.concat_eq_append, writeParts_append _ (List.cons_ne_nil _ _), writeParts]
  cases hasTrailingSlash with
  | true => simp
  | false =>
      have hlast := h last (by simp)
      simp only [Bool.false_eq_true, if_false, List.append_nil, iff_false]
      rw [List.getLast?_append_of_ne_nil _ hlast.nonempty]
      intro hend
      exact hlast.noSlash (List.mem_of_getLast? hend)

/-- The path that is written for parts is read back. -/
theorem split_joinParts (hasTrailingSlash : Bool) {parts : List Bytes}
    (h : ∀ part ∈ parts, Ordinary part) :
    split slash (slash :: writeParts hasTrailingSlash parts) = [] :: parts := by
  rw [split, if_pos rfl]
  cases parts with
  | nil => rfl
  | cons part parts =>
      have hpart := h part List.mem_cons_self
      rw [(tail_split_writeParts hasTrailingSlash hpart.noSlash fun p hp =>
        h p (List.mem_cons_of_mem _ hp)).2 hpart.nonempty]

/-- A canonical form is left as it is. -/
theorem normalizeUri_joinParts (q : RequestParser) (hasTrailingSlash : Bool) {parts : List Bytes}
    (h : ∀ part ∈ parts, Ordinary part)
    (hplain : percent ∉ slash :: writeParts hasTrailingSlash parts) :
    q.normalizeUri (slash :: writeParts hasTrailingSlash parts)
      = (q, slash :: writeParts hasTrailingSlash parts) := by
  generalize hresult : slash :: writeParts hasTrailingSlash parts = result at hplain ⊢
  have hdecode : percentDecode result = some result :=
    percentDecode_plain fun hmem => hplain
      (List.dropLast_subset _ (List.dropLast_subset _ hmem))
  have hhead : (result.head? == some slash) = true := by
    rw [← hresult]
    rfl
  have hfold : foldSegments true [] (split slash result) = some parts := by
    rw [← hresult, split_joinParts hasTrailingSlash h, foldSegments, if_pos (.inl rfl),
      foldSegments_kept [] fun s hs => kept_of_ordinary (h s hs), List.nil_append]
  have hjoin : joinParts true (result.getLast? == some slash) parts = result := by
    rw [joinParts_absolute, ← hresult]
    cases parts with
    | nil => rfl
    | cons part parts =>
        have hne := List.cons_ne_nil part parts
        have hlast := getLast?_writeParts hasTrailingSlash hne h
        have hsome : writeParts hasTrailingSlash (part :: parts) ≠ [] := by
          intro hnil
          have hsplit := split_joinParts hasTrailingSlash h
          rw [hnil] at hsplit
          cases hsplit
        have hsame : ((slash :: writeParts hasTrailingSlash (part :: parts)).getLast?
            == some slash) = hasTrailingSlash := by
          rw [List.getLast?_cons_of_ne_nil hsome]
          cases hasTrailingSlash with
          | true => rw [hlast.mpr rfl]; rfl
          | false =>
              rw [beq_eq_false_iff_ne]
              intro hend
              cases hlast.mp hend
        rw [hsame]
  have hne : result ≠ [] := by
    rw [← hresult]
    exact List.cons_ne_nil _ _
  simp only [normalizeUri, decodePercentEncoding, hdecode, if_neg hne, hhead, hfold, hjoin]

/-! ## The canonical form -/

/-- `normalize_uri` of a rooted path succeeds if and only if no prefix of
its segments goes above the root, and its result is a canonical form and
a fixed point. -/
theorem normalizeUri_canonical (p : RequestParser) {uri decoded : Bytes}
    (hdecode : percentDecode uri = some decoded) (hroot : decoded.head? = some slash) :
    ((∃ result, result ≠ [] ∧ p.normalizeUri uri = (p, result))
        ↔ StaysBelow (split slash decoded))
      ∧ (¬StaysBelow (split slash decoded) → p.normalizeUri uri = (p.logError 400, []))
      ∧ ∀ result, result ≠ [] → p.normalizeUri uri = (p, result) →
        CanonicalForm decoded result
          ∧ (percent ∉ result → ∀ q : RequestParser, q.normalizeUri result = (q, result)) := by
  have hne : decoded ≠ [] := by
    rintro rfl
    cases hroot
  have habs : (decoded.head? == some slash) = true := by
    rw [hroot]
    rfl
  have hsome := foldSegments_isSome (split slash decoded) []
  simp only [List.length_nil, Nat.zero_add] at hsome
  change _ ↔ StaysBelow (split slash decoded) at hsome
  cases hfold : foldSegments true [] (split slash decoded) with
  | none =>
      have hrun : p.normalizeUri uri = (p.logError 400, []) := by
        simp only [normalizeUri, decodePercentEncoding, hdecode, if_neg hne, habs, hfold]
      rw [hfold] at hsome
      have hnot : ¬StaysBelow (split slash decoded) := fun h => by cases hsome.mpr h
      have hfails : ∀ result, result ≠ [] → p.normalizeUri uri ≠ (p, result) := by
        intro result hresult heq
        rw [hrun] at heq
        exact hresult (Prod.mk.inj heq).2.symm
      refine ⟨⟨?_, fun h => absurd h hnot⟩, fun _ => hrun, ?_⟩
      · rintro ⟨result, hresult, heq⟩
        exact absurd heq (hfails result hresult)
      · intro result hresult heq
        exact absurd heq (hfails result hresult)
  | some parts =>
      have hord : ∀ part ∈ parts, Ordinary part :=
        ordinary_of_foldSegments hfold (fun _ => noSlash_of_split) fun _ h => by cases h
      have hrun : p.normalizeUri uri
          = (p, slash :: writeParts (decoded.getLast? == some slash) parts) := by
        simp only [normalizeUri, decodePercentEncoding, hdecode, if_neg hne, habs, hfold,
          joinParts_absolute]
      rw [hfold] at hsome
      have hstays := hsome.mp rfl
      refine ⟨⟨fun _ => hstays, fun _ => ⟨_, List.cons_ne_nil _ _, hrun⟩⟩,
        fun h => absurd hstays h, ?_⟩
      intro result _ heq
      obtain rfl := (Prod.mk.inj (hrun.symm.trans heq)).2
      refine ⟨⟨parts, hord, ?_⟩, fun hplain q => normalizeUri_joinParts q _ hord hplain⟩
      have hend : (decoded.getLast? == some slash) = true ↔ decoded.getLast? = some slash :=
        beq_iff_eq
      rw [← hend]
      generalize (decoded.getLast? == some slash) = hasTrailingSlash
      by_cases hparts : parts = []
      · rw [hparts]
        exact ⟨.inl (by rw [writeParts]; rfl), fun _ => .inr rfl, fun _ => rfl⟩
      · have hlast := getLast?_writeParts hasTrailingSlash hparts hord
        have hwritten := writeParts_eq hasTrailingSlash hparts
        constructor
        · cases hasTrailingSlash with
          | true => exact .inr ⟨hparts, congrArg (slash :: ·) hwritten⟩
          | false => exact .inl (congrArg (slash :: ·) (hwritten.trans (List.append_nil _)))
        · rw [or_iff_left hparts, ← hlast, List.getLast?_cons_of_ne_nil]
          intro hnil
          have hsplit := split_joinParts hasTrailingSlash hord
          rw [hnil] at hsplit
          exact hparts (List.cons_eq_cons.mp hsplit).2.symm

/-- A path with an encoded dot segment. -/
theorem normalizeUri_canonical_index :
    (∃ result, result ≠ [] ∧ ({} : RequestParser).normalizeUri (lit "/a/%2E./b/") = ({}, result))
      ↔ StaysBelow (split slash (lit "/a/../b/")) :=
  (normalizeUri_canonical {} (by decide +kernel) (by decide)).1

end RequestParser

end Webserv
