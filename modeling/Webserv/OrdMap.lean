import Mathlib.Order.Lattice
import Mathlib.Data.List.Lex

/-!
# Ordered maps

`std::map` with its contents in key order. The order of the keys is a
field, so that a map value cannot hold a key twice and iterating over it
needs no separate argument.
-/

universe u v

/-- A `std::map`: its pairs in strictly increasing key order. -/
structure OrdMap (κ : Type u) (α : Type v) [LinearOrder κ] where
  entries : List (κ × α)
  sorted : entries.Pairwise fun a b => a.1 < b.1

namespace OrdMap

variable {κ : Type u} {α : Type v} [LinearOrder κ]

theorem ext_entries {m m' : OrdMap κ α} (h : m.entries = m'.entries) : m = m' := by
  obtain ⟨es, hs⟩ := m
  obtain ⟨es', hs'⟩ := m'
  obtain rfl : es = es' := h
  rfl

instance [DecidableEq α] : DecidableEq (OrdMap κ α) := fun m m' =>
  decidable_of_iff (m.entries = m'.entries)
    ⟨ext_entries, fun h => congrArg entries h⟩

def empty : OrdMap κ α := ⟨[], .nil⟩

def size (m : OrdMap κ α) : Nat := m.entries.length

/-! ## Lookup and insertion -/

def lookup (k : κ) : List (κ × α) → Option α
  | [] => none
  | (k', v) :: es => if k' = k then some v else lookup k es

def insertEntry (k : κ) (v : α) : List (κ × α) → List (κ × α)
  | [] => [(k, v)]
  | (k', v') :: es =>
      if k < k' then (k, v) :: (k', v') :: es
      else if k' = k then (k, v) :: es
      else (k', v') :: insertEntry k v es

def eraseEntry (k : κ) : List (κ × α) → List (κ × α)
  | [] => []
  | (k', v') :: es => if k' = k then es else (k', v') :: eraseEntry k es

theorem mem_insertEntry {k : κ} {v : α} {e : κ × α} :
    ∀ {es : List (κ × α)}, e ∈ insertEntry k v es → e = (k, v) ∨ e ∈ es
  | [], h => Or.inl (List.mem_singleton.mp h)
  | (k', v') :: es, h => by
      simp only [insertEntry] at h
      split at h
      · exact List.mem_cons.mp h
      · split at h
        · rcases List.mem_cons.mp h with h | h
          · exact Or.inl h
          · exact Or.inr (List.mem_cons_of_mem _ h)
        · rcases List.mem_cons.mp h with h | h
          · exact Or.inr (h ▸ List.mem_cons_self ..)
          · exact (mem_insertEntry h).imp_right (List.mem_cons_of_mem _)

theorem sorted_insertEntry (k : κ) (v : α) :
    ∀ {es : List (κ × α)}, es.Pairwise (fun a b => a.1 < b.1) →
      (insertEntry k v es).Pairwise fun a b => a.1 < b.1
  | [], _ => List.pairwise_singleton ..
  | (k', v') :: es, h => by
      rw [List.pairwise_cons] at h
      obtain ⟨hhd, htl⟩ := h
      simp only [insertEntry]
      split
      · rename_i hlt
        refine List.pairwise_cons.mpr ⟨fun e he => ?_, List.pairwise_cons.mpr ⟨hhd, htl⟩⟩
        rcases List.mem_cons.mp he with rfl | he
        · exact hlt
        · exact hlt.trans (hhd e he)
      · rename_i hge
        split
        · rename_i heq
          exact List.pairwise_cons.mpr ⟨heq ▸ hhd, htl⟩
        · rename_i hne
          have hlt : k' < k := lt_of_le_of_ne (not_lt.mp hge) hne
          refine List.pairwise_cons.mpr ⟨fun e he => ?_, sorted_insertEntry k v htl⟩
          rcases mem_insertEntry he with rfl | he
          · exact hlt
          · exact hhd e he

theorem eraseEntry_sublist (k : κ) :
    ∀ es : List (κ × α), (eraseEntry k es).Sublist es
  | [] => List.Sublist.refl []
  | (k', v') :: es => by
      simp only [eraseEntry]
      split
      · exact List.sublist_cons_self ..
      · exact (eraseEntry_sublist k es).cons_cons _

/-- `m[k] = v`. -/
def insert (k : κ) (v : α) (m : OrdMap κ α) : OrdMap κ α :=
  ⟨insertEntry k v m.entries, sorted_insertEntry k v m.sorted⟩

/-- `m.erase(k)`. -/
def erase (k : κ) (m : OrdMap κ α) : OrdMap κ α :=
  ⟨eraseEntry k m.entries, m.sorted.sublist (eraseEntry_sublist k m.entries)⟩

/-- `m.find(k)`, with the value it points to. -/
def get? (m : OrdMap κ α) (k : κ) : Option α := lookup k m.entries

/-- `m.count(k) != 0`. -/
def contains (m : OrdMap κ α) (k : κ) : Bool := (m.get? k).isSome

/-- `m[k]` read: a missing key is inserted with the value `dflt`. -/
def getOrInsert (m : OrdMap κ α) (k : κ) (dflt : α) : OrdMap κ α × α :=
  match m.get? k with
  | some v => (m, v)
  | none => (m.insert k dflt, dflt)

@[simp] theorem get?_empty (k : κ) : (empty : OrdMap κ α).get? k = none := rfl

theorem lookup_insertEntry (k k' : κ) (v : α) :
    ∀ es : List (κ × α), lookup k' (insertEntry k v es)
      = if k = k' then some v else lookup k' es
  | [] => rfl
  | (k0, v0) :: es => by
      simp only [insertEntry]
      split
      · rfl
      · split
        · rename_i heq
          subst heq
          by_cases h : k0 = k'
          · simp [lookup, h]
          · simp [lookup, h]
        · rename_i hne
          simp only [lookup, lookup_insertEntry k k' v es]
          by_cases h0 : k0 = k'
          · rw [if_pos h0, if_pos h0, if_neg (fun h => hne (h0.trans h.symm))]
          · rw [if_neg h0, if_neg h0]

theorem get?_insert (m : OrdMap κ α) (k k' : κ) (v : α) :
    (m.insert k v).get? k' = if k = k' then some v else m.get? k' :=
  lookup_insertEntry k k' v m.entries

@[simp] theorem get?_insert_self (m : OrdMap κ α) (k : κ) (v : α) :
    (m.insert k v).get? k = some v := by
  rw [get?_insert, if_pos rfl]

theorem get?_insert_of_ne (m : OrdMap κ α) {k k' : κ} (h : k ≠ k') (v : α) :
    (m.insert k v).get? k' = m.get? k' := by
  rw [get?_insert, if_neg h]

theorem lookup_eq_none {k : κ} : ∀ {es : List (κ × α)}, (∀ e ∈ es, k < e.1) → lookup k es = none
  | [], _ => rfl
  | (k', v') :: es, h => by
      rw [lookup, if_neg (h (k', v') List.mem_cons_self).ne']
      exact lookup_eq_none fun e he => h e (List.mem_cons_of_mem _ he)

theorem lookup_eraseEntry (k k' : κ) : ∀ {es : List (κ × α)},
    es.Pairwise (fun a b => a.1 < b.1) →
    lookup k' (eraseEntry k es) = if k = k' then none else lookup k' es
  | [], _ => by simp [eraseEntry, lookup]
  | (k₀, v) :: es, h => by
      rw [List.pairwise_cons] at h
      by_cases hk : k₀ = k
      · rw [eraseEntry, if_pos hk]
        split
        · rename_i heq
          exact lookup_eq_none fun e he => heq ▸ hk ▸ h.1 e he
        · rename_i hne
          rw [lookup, if_neg fun h₀ => hne (hk.symm.trans h₀)]
      · rw [eraseEntry, if_neg hk, lookup, lookup, lookup_eraseEntry k k' h.2]
        by_cases hk' : k₀ = k'
        · rw [if_pos hk', if_pos hk', if_neg fun heq => hk (hk'.trans heq.symm)]
        · rw [if_neg hk', if_neg hk']

theorem get?_erase (m : OrdMap κ α) (k k' : κ) :
    (m.erase k).get? k' = if k = k' then none else m.get? k' :=
  lookup_eraseEntry k k' m.sorted

theorem mem_iff_lookup {k : κ} {v : α} : ∀ {es : List (κ × α)},
    es.Pairwise (fun a b => a.1 < b.1) → ((k, v) ∈ es ↔ lookup k es = some v)
  | [], _ => by simp [lookup]
  | (k₀, v₀) :: es, h => by
      rw [List.pairwise_cons] at h
      rw [List.mem_cons, mem_iff_lookup h.2, lookup]
      split
      · rename_i heq
        subst heq
        have hnone : lookup k₀ es = none := lookup_eq_none h.1
        simp [hnone, eq_comm]
      · rename_i hne
        refine or_iff_right fun heq => hne ?_
        exact (congrArg Prod.fst heq).symm

/-- The entries are the pairs that a look-up finds. -/
theorem mem_entries {m : OrdMap κ α} {k : κ} {v : α} :
    (k, v) ∈ m.entries ↔ m.get? k = some v :=
  mem_iff_lookup m.sorted

theorem nodup_keys (m : OrdMap κ α) : (m.entries.map Prod.fst).Nodup :=
  List.pairwise_map.mpr (m.sorted.imp ne_of_lt)

theorem length_insertEntry (k : κ) (v : α) : ∀ {es : List (κ × α)},
    es.Pairwise (fun a b => a.1 < b.1) →
    (insertEntry k v es).length = if (lookup k es).isSome then es.length else es.length + 1
  | [], _ => rfl
  | (k', v') :: es, h => by
      rw [List.pairwise_cons] at h
      by_cases hlt : k < k'
      · have hnone : lookup k ((k', v') :: es) = none := by
          rw [lookup, if_neg hlt.ne']
          exact lookup_eq_none fun e he => hlt.trans (h.1 e he)
        simp [insertEntry, hlt, hnone]
      by_cases heq : k' = k
      · simp [insertEntry, lookup, heq]
      · have hrest : lookup k ((k', v') :: es) = lookup k es := if_neg heq
        simp only [insertEntry, if_neg hlt, if_neg heq, List.length_cons, hrest,
          length_insertEntry k v h.2]
        split
        · rfl
        · rfl

/-- Only a new key makes a map longer. -/
theorem size_insert (m : OrdMap κ α) (k : κ) (v : α) :
    (m.insert k v).size = if (m.get? k).isSome then m.size else m.size + 1 :=
  length_insertEntry k v m.sorted

/-! ## Entries -/

section Entries

variable {k : κ} {p : κ × α → Bool} (hp : ∀ e, p e = true ↔ e.1 ≠ k)

include hp

omit [LinearOrder κ] in
theorem filter_entries {es : List (κ × α)} (h : ∀ e ∈ es, e.1 ≠ k) : es.filter p = es :=
  List.filter_eq_self.mpr fun e he => (hp e).mpr (h e he)

theorem eraseEntry_eq : ∀ {es : List (κ × α)}, es.Pairwise (fun a b => a.1 < b.1) →
    eraseEntry k es = es.filter p
  | [], _ => rfl
  | (k', v) :: es, h => by
      rw [List.pairwise_cons] at h
      by_cases hk : k' = k
      · have hout : ¬p (k', v) = true := fun h => (hp _).mp h hk
        rw [eraseEntry, if_pos hk, List.filter_cons_of_neg hout,
          filter_entries hp fun e he => hk ▸ (h.1 e he).ne']
      · rw [eraseEntry, if_neg hk, List.filter_cons_of_pos ((hp (k', v)).mpr hk), eraseEntry_eq h.2]

/-- A key is erased. -/
theorem entries_erase (m : OrdMap κ α) : (m.erase k).entries = m.entries.filter p :=
  eraseEntry_eq hp m.sorted

theorem perm_insertEntry (v : α) : ∀ {es : List (κ × α)}, es.Pairwise (fun a b => a.1 < b.1) →
    (insertEntry k v es).Perm ((k, v) :: es.filter p)
  | [], _ => .refl _
  | (k', v') :: es, h => by
      rw [List.pairwise_cons] at h
      rw [insertEntry]
      split
      · rename_i hlt
        have hall : ∀ e ∈ (k', v') :: es, e.1 ≠ k := by
          intro e he
          rcases List.mem_cons.mp he with rfl | he
          · exact hlt.ne'
          · exact (hlt.trans (h.1 e he)).ne'
        rw [filter_entries hp hall]
      · split
        · rename_i hk
          have hout : ¬p (k', v') = true := fun h => (hp _).mp h hk
          rw [List.filter_cons_of_neg hout,
            filter_entries hp fun e he => hk ▸ (h.1 e he).ne']
        · rename_i hk
          rw [List.filter_cons_of_pos ((hp (k', v')).mpr hk)]
          exact ((perm_insertEntry v h.2).cons _).trans (.swap _ _ _)

/-- A key is written: its old entry goes, the others stay. -/
theorem perm_insert (m : OrdMap κ α) (v : α) :
    (m.insert k v).entries.Perm ((k, v) :: m.entries.filter p) :=
  perm_insertEntry hp v m.sorted

end Entries

/-- A new key is written. -/
theorem perm_insert_new {m : OrdMap κ α} {k : κ} (h : m.get? k = none) (v : α) :
    (m.insert k v).entries.Perm ((k, v) :: m.entries) := by
  have hp (e : κ × α) : decide (e.1 ≠ k) = true ↔ e.1 ≠ k := decide_eq_true_iff
  have hall : ∀ e ∈ m.entries, e.1 ≠ k := by
    rintro ⟨k', v'⟩ he rfl
    rw [mem_entries.mp he] at h
    cases h
  have hperm := perm_insert hp m v
  rwa [filter_entries hp hall] at hperm

end OrdMap
