/-!
# While loops

A loop is given by its body, a map from loop states that either
continues with a next state (`.inl`) or leaves the loop with a result
(`.inr`, for the exit test, a `return` or an exception alike). `run` is
the bounded execution, `Exits` and `Diverges` are the unbounded notions,
and `total` is the loop as a function when a measure bounds it.
-/

namespace WhileLoop

universe u v

variable {σ : Type u} {ρ : Type v}

/-- At most `fuel` rounds of the body. -/
def run (body : σ → σ ⊕ ρ) : Nat → σ → Option ρ
  | 0, _ => none
  | n + 1, s =>
      match body s with
      | .inl s' => run body n s'
      | .inr r => some r

/-- The loop started in `s` is left with the result `r`. -/
def Exits (body : σ → σ ⊕ ρ) (s : σ) (r : ρ) : Prop :=
  ∃ n, run body n s = some r

/-- The loop started in `s` is left. -/
def Halts (body : σ → σ ⊕ ρ) (s : σ) : Prop :=
  ∃ r, Exits body s r

/-- The loop started in `s` is never left. -/
def Diverges (body : σ → σ ⊕ ρ) (s : σ) : Prop :=
  ∀ n, run body n s = none

/-- `t` is the state of some round of the loop started in `s`. -/
inductive Round (body : σ → σ ⊕ ρ) : σ → σ → Prop where
  | start (s : σ) : Round body s s
  | next {s t u : σ} : Round body s t → body t = .inl u → Round body s u

/-- `P` holds of the state of every round of the loop started in `s`. -/
def Always (body : σ → σ ⊕ ρ) (P : σ → Prop) (s : σ) : Prop :=
  ∀ t, Round body s t → P t

variable {body : σ → σ ⊕ ρ} {s s' : σ} {r : ρ}

/-! ## Rounds -/

theorem run_inl (h : body s = .inl s') (n : Nat) :
    run body (n + 1) s = run body n s' := by
  simp only [run, h]

theorem run_inr (h : body s = .inr r) (n : Nat) :
    run body (n + 1) s = some r := by
  simp only [run, h]

theorem run_mono {n m : Nat} (hnm : n ≤ m) (h : run body n s = some r) :
    run body m s = some r := by
  induction n generalizing s m with
  | zero => cases h
  | succ n ih =>
      obtain ⟨k, rfl⟩ : ∃ k, m = k + 1 := ⟨m - 1, by omega⟩
      cases hb : body s with
      | inl t =>
          rw [run_inl hb] at h ⊢
          exact ih (by omega) h
      | inr t =>
          rw [run_inr hb] at h ⊢
          exact h

theorem exits_inr (h : body s = .inr r) : Exits body s r :=
  ⟨1, run_inr h 0⟩

theorem exits_inl (h : body s = .inl s') :
    Exits body s r ↔ Exits body s' r := by
  constructor
  · rintro ⟨n, hn⟩
    cases n with
    | zero => cases hn
    | succ n => exact ⟨n, by rw [← run_inl h]; exact hn⟩
  · rintro ⟨n, hn⟩
    exact ⟨n + 1, by rw [run_inl h]; exact hn⟩

/-- Two states with the same first round. -/
theorem exits_congr (h : body s = body s') : Exits body s r ↔ Exits body s' r := by
  have hrun (n : Nat) : run body n s = run body n s' := by
    cases n with
    | zero => rfl
    | succ n => rw [run, run, h]
  exact exists_congr fun n => by rw [hrun]

/-- A loop whose rounds commute with a map of its states. -/
theorem Exits.map {f : σ → σ} {g : ρ → ρ} (hbody : ∀ s, body (f s) = (body s).map f g)
    (h : Exits body s r) : Exits body (f s) (g r) := by
  obtain ⟨n, hn⟩ := h
  refine ⟨n, ?_⟩
  induction n generalizing s with
  | zero => cases hn
  | succ n ih =>
      cases hs : body s with
      | inl t =>
          rw [run_inl hs] at hn
          rw [run_inl (by rw [hbody, hs]; rfl)]
          exact ih hn
      | inr t =>
          rw [run_inr hs] at hn
          rw [run_inr (by rw [hbody, hs]; rfl), ← Option.some.inj hn]

theorem Exits.unique {r' : ρ} (h : Exits body s r) (h' : Exits body s r') :
    r = r' := by
  obtain ⟨n, hn⟩ := h
  obtain ⟨m, hm⟩ := h'
  have h1 := run_mono (Nat.le_max_left n m) hn
  have h2 := run_mono (Nat.le_max_right n m) hm
  exact Option.some.inj (h1.symm.trans h2)

theorem Diverges.not_halts (h : Diverges body s) : ¬Halts body s := by
  rintro ⟨r, n, hn⟩
  rw [h n] at hn
  cases hn

theorem Round.head {t : σ} (h : body s = .inl s') (ht : Round body s' t) :
    Round body s t := by
  induction ht with
  | start => exact .next (.start s) h
  | next _ hb ih => exact .next ih hb

/-- From the state of a round the loop is left as from its start. -/
theorem Round.exits {t : σ} (ht : Round body s t) : Exits body s r ↔ Exits body t r := by
  induction ht with
  | start => exact Iff.rfl
  | next _ hb ih => exact ih.trans (exits_inl hb)

theorem Round.eq_or_head {t : σ} (h : Round body s t) :
    t = s ∨ ∃ s', body s = .inl s' ∧ Round body s' t := by
  induction h with
  | start => exact Or.inl rfl
  | @next t u _ hb ih =>
      rcases ih with rfl | ⟨s', hs', ht⟩
      · exact Or.inr ⟨u, hb, .start u⟩
      · exact Or.inr ⟨s', hs', .next ht hb⟩

section Always

variable {P : σ → Prop}

theorem always_inr (h : body s = .inr r) (hs : P s) : Always body P s := by
  intro t ht
  rcases ht.eq_or_head with rfl | ⟨s', hs', -⟩
  · exact hs
  · rw [h] at hs'
    cases hs'

theorem always_inl (h : body s = .inl s') (hs : P s) (hs' : Always body P s') :
    Always body P s := by
  intro t ht
  rcases ht.eq_or_head with rfl | ⟨u, hu, ht⟩
  · exact hs
  · obtain rfl := Sum.inl.inj (h.symm.trans hu)
    exact hs' t ht

theorem Always.of_inl (h : body s = .inl s') (hs : Always body P s) :
    Always body P s' :=
  fun t ht => hs t (ht.head h)

/-- The invariant rule: what holds at the start and is kept by every
continuing round holds in every round. -/
theorem always_of_invariant (h : ∀ t u, P t → body t = .inl u → P u) (hs : P s) :
    Always body P s := by
  intro t ht
  induction ht with
  | start => exact hs
  | next _ hb ih => exact h _ _ ih hb

end Always

/-! ## Divergence -/

/-- An invariant under which every round continues keeps the loop from
ever being left. -/
theorem diverges_of_invariant (I : σ → Prop)
    (h : ∀ t, I t → ∃ t', body t = .inl t' ∧ I t') (hs : I s) :
    Diverges body s := by
  intro n
  induction n generalizing s with
  | zero => rfl
  | succ n ih =>
      obtain ⟨t, hb, ht⟩ := h s hs
      rw [run_inl hb]
      exact ih ht

theorem diverges_inl (h : body s = .inl s') (hd : Diverges body s') :
    Diverges body s := by
  intro n
  cases n with
  | zero => rfl
  | succ n => rw [run_inl h]; exact hd n

theorem Diverges.of_inl (h : body s = .inl s') (hd : Diverges body s) :
    Diverges body s' :=
  fun n => by rw [← run_inl h]; exact hd (n + 1)

/-- A loop that is never left has no measure that all its rounds
decrease. -/
theorem Diverges.not_always_lt (μ : σ → Nat) (hd : Diverges body s) :
    ¬Always body (fun t => ∀ u, body t = .inl u → μ u < μ t) s := by
  induction hn : μ s using Nat.strongRecOn generalizing s with
  | ind n ih =>
      intro hlt
      cases hb : body s with
      | inl t =>
          exact ih (μ t) (hn ▸ hlt s (.start s) t hb) (hd.of_inl hb) rfl (hlt.of_inl hb)
      | inr r =>
          have := hd 1
          rw [run_inr hb] at this
          cases this

/-! ## Rounds that keep an invariant -/

/-- A round from `I` continues in `I` or leaves the loop with `Q`. -/
def Rounds (body : σ → σ ⊕ ρ) (I : σ → Prop) (Q : ρ → Prop) : Prop :=
  ∀ s, I s → (∃ r, body s = .inr r ∧ Q r) ∨ ∃ s', body s = .inl s' ∧ I s'

theorem Rounds.run {I : σ → Prop} {Q : ρ → Prop} (h : Rounds body I Q) (hs : I s) {n : Nat}
    (hr : run body n s = some r) : Q r := by
  induction n generalizing s with
  | zero => cases hr
  | succ n ih =>
      rcases h s hs with ⟨r', hb, hq⟩ | ⟨s', hb, hs'⟩
      · rw [run_inr hb] at hr
        exact Option.some.inj hr ▸ hq
      · rw [run_inl hb] at hr
        exact ih hs' hr

/-! ## Bounded loops -/

section Measure

variable {μ : σ → Nat} (hμ : ∀ s s', body s = .inl s' → μ s' < μ s)

include hμ

theorem run_isSome {n : Nat} (h : μ s < n) : (run body n s).isSome := by
  induction n generalizing s with
  | zero => exact absurd h (Nat.not_lt_zero _)
  | succ n ih =>
      cases hb : body s with
      | inl t =>
          rw [run_inl hb]
          exact ih (Nat.lt_of_lt_of_le (hμ s t hb) (Nat.le_of_lt_succ h))
      | inr t => rw [run_inr hb]; rfl

end Measure

/-- The loop as a function, for a body whose rounds decrease `μ`. -/
def total (body : σ → σ ⊕ ρ) (μ : σ → Nat)
    (hμ : ∀ s s', body s = .inl s' → μ s' < μ s) (s : σ) : ρ :=
  (run body (μ s + 1) s).get (run_isSome hμ (Nat.lt_succ_self _))

section Total

variable {μ : σ → Nat} {hμ : ∀ s s', body s = .inl s' → μ s' < μ s}

theorem exits_total : Exits body s (total body μ hμ s) :=
  ⟨μ s + 1, by simp [total]⟩

theorem total_inr (h : body s = .inr r) : total body μ hμ s = r :=
  exits_total.unique (exits_inr h)

theorem total_inl (h : body s = .inl s') :
    total body μ hμ s = total body μ hμ s' :=
  exits_total.unique ((exits_inl h).mpr exits_total)

theorem total_congr {body' : σ → σ ⊕ ρ} (h : body = body')
    (hμ : ∀ s s', body s = .inl s' → μ s' < μ s) (hμ' : ∀ s s', body' s = .inl s' → μ s' < μ s)
    (s : σ) : total body μ hμ s = total body' μ hμ' s := by
  subst h
  rfl

/-- The induction principle of a bounded loop: one case for the round
that leaves it and one for a round that continues. -/
theorem total_induct {P : σ → ρ → Prop}
    (hexit : ∀ s r, body s = .inr r → P s r)
    (hnext : ∀ s s', body s = .inl s' → P s' (total body μ hμ s') →
      P s (total body μ hμ s'))
    (s : σ) : P s (total body μ hμ s) := by
  generalize hn : μ s = n
  induction n using Nat.strongRecOn generalizing s with
  | ind n ih =>
      cases hb : body s with
      | inl t =>
          rw [total_inl hb]
          exact hnext s t hb (ih (μ t) (hn ▸ hμ s t hb) t rfl)
      | inr t =>
          rw [total_inr hb]
          exact hexit s t hb

/-- The invariant rule: what every continuing round keeps and every
leaving round turns into `Q` holds of the result. -/
theorem total_invariant {I : σ → Prop} {Q : ρ → Prop}
    (hexit : ∀ s r, I s → body s = .inr r → Q r)
    (hnext : ∀ s s', I s → body s = .inl s' → I s')
    (hs : I s) : Q (total body μ hμ s) := by
  refine total_induct (P := fun s r => I s → Q r)  ?_ ?_ s hs
  · exact fun s r hb hI => hexit s r hI hb
  · exact fun s s' hb ih hI => ih (hnext s s' hI hb)

theorem Rounds.total {I : σ → Prop} {Q : ρ → Prop} (h : Rounds body I Q) (hs : I s) :
    Q (total body μ hμ s) := by
  obtain ⟨n, hn⟩ : Exits body s (WhileLoop.total body μ hμ s) := exits_total
  exact h.run hs hn

end Total

end WhileLoop
