import Mathlib.Logic.Relation

/-!
# Programs over a step relation

Stateful code as `EStateM`, and a judgement for it: from a state in `P`,
a program only makes steps of the relation `R`, and it ends in `Q`, or
raises in `E`. The rules follow the program text, so the effect of the
code is described once by `R`, and what every step of `R` keeps then
holds in every state the code reaches.
-/

universe u

namespace Program

variable {ε σ α β : Type u}

/-- The state a run ends in, returned or raised. -/
def final : EStateM.Result ε σ α → σ
  | .ok _ s => s
  | .error _ s => s

/-- What a run raises. -/
def error? : EStateM.Result ε σ α → Option ε
  | .ok _ _ => none
  | .error e _ => some e

/-- From a state in `P`, the program makes steps of `R` only, and it
returns in `Q` or raises in `E`. -/
def Meets (R : σ → σ → Prop) (P : σ → Prop) (x : EStateM ε σ α) (Q : α → σ → Prop)
    (E : ε → σ → Prop) : Prop :=
  ∀ s, P s →
    match x s with
    | .ok a s' => Relation.ReflTransGen R s s' ∧ Q a s'
    | .error e s' => Relation.ReflTransGen R s s' ∧ E e s'

variable {R : σ → σ → Prop} {P : σ → Prop} {Q : α → σ → Prop} {E : ε → σ → Prop}

namespace Meets

theorem pure {a : α} (h : ∀ s, P s → Q a s) : Meets R P (Pure.pure a : EStateM ε σ α) Q E :=
  fun s hs => ⟨.refl, h s hs⟩

theorem throw {e : ε} (h : ∀ s, P s → E e s) :
    Meets R P (MonadExcept.throw e : EStateM ε σ α) Q E :=
  fun s hs => ⟨.refl, h s hs⟩

theorem bind {x : EStateM ε σ α} {f : α → EStateM ε σ β} {Q' : β → σ → Prop}
    (hx : Meets R P x Q E) (hf : ∀ a, Meets R (Q a) (f a) Q' E) :
    Meets R P (x >>= f) Q' E := by
  intro s hs
  have h := hx s hs
  show match EStateM.bind x f s with
    | .ok a s' => Relation.ReflTransGen R s s' ∧ Q' a s'
    | .error e s' => Relation.ReflTransGen R s s' ∧ E e s'
  unfold EStateM.bind
  cases hr : x s with
  | ok a s' =>
      rw [hr] at h
      have h' := hf a s' h.2
      simp only
      cases hr' : f a s' with
      | ok b s'' =>
          rw [hr'] at h'
          exact ⟨h.1.trans h'.1, h'.2⟩
      | error e s'' =>
          rw [hr'] at h'
          exact ⟨h.1.trans h'.1, h'.2⟩
  | error e s' =>
      rw [hr] at h
      exact h

/-- Reading the state binds it for the rest of the program. -/
theorem get_bind {f : σ → EStateM ε σ β} {Q' : β → σ → Prop}
    (h : ∀ s, P s → Meets R (fun s' => s' = s) (f s) Q' E) :
    Meets R P ((MonadState.get : EStateM ε σ σ) >>= f) Q' E :=
  fun s hs => h s hs s rfl

/-- Writing the state is one step. -/
theorem set {s' : σ} {Q' : PUnit → σ → Prop} (hR : ∀ s, P s → R s s') (hQ : Q' ⟨⟩ s') :
    Meets R P (MonadStateOf.set s' : EStateM ε σ PUnit) Q' E :=
  fun s hs => ⟨.single (hR s hs), hQ⟩

theorem set_bind {s' : σ} {f : PUnit → EStateM ε σ β} {Q' : β → σ → Prop}
    (hR : ∀ s, P s → R s s') (hf : Meets R (fun s => s = s') (f ⟨⟩) Q' E) :
    Meets R P ((MonadStateOf.set s' : EStateM ε σ PUnit) >>= f) Q' E :=
  (set hR rfl : Meets R P _ (fun _ s => s = s') E).bind fun _ => hf

/-- A run makes steps, returned or raised. -/
theorem reaches {x : EStateM ε σ α} (h : Meets R P x Q E) {s : σ} (hs : P s) :
    Relation.ReflTransGen R s (final (x s)) := by
  have hx := h s hs
  cases hr : x s with
  | ok a s' =>
      rw [hr] at hx
      exact hx.1
  | error e s' =>
      rw [hr] at hx
      exact hx.1

theorem ok {x : EStateM ε σ α} (h : Meets R P x Q E) {s s' : σ} (hs : P s) {a : α}
    (hr : x s = .ok a s') : Relation.ReflTransGen R s s' ∧ Q a s' := by
  have hx := h s hs
  rw [hr] at hx
  exact hx

theorem raised {x : EStateM ε σ α} (h : Meets R P x Q E) {s s' : σ} (hs : P s) {e : ε}
    (hr : x s = .error e s') : E e s' := by
  have hx := h s hs
  rw [hr] at hx
  exact hx.2

end Meets

/-- From a state in `P`, the program makes steps of `R` only. -/
def Makes (R : σ → σ → Prop) (P : σ → Prop) (x : EStateM ε σ α) : Prop :=
  Meets R P x (fun _ _ => True) fun _ _ => True

namespace Makes

variable {s s' : σ}

/-- A program that ends one step from where it begins. -/
theorem of_final {x : EStateM ε σ α} (h : ∀ s, P s → R s (final (x s))) : Makes R P x := by
  intro s hs
  have hstep := h s hs
  cases hr : x s with
  | ok a s' =>
      rw [hr] at hstep
      exact ⟨.single hstep, trivial⟩
  | error e s' =>
      rw [hr] at hstep
      exact ⟨.single hstep, trivial⟩

/-- Reading the state binds it for the rest of the program. -/
theorem get_bind {f : σ → EStateM ε σ β} (h : ∀ s, Makes R (fun t => t = s) (f s)) :
    Makes R P ((MonadState.get : EStateM ε σ σ) >>= f) :=
  Meets.get_bind fun s _ => h s

theorem pure {a : α} : Makes R P (Pure.pure a : EStateM ε σ α) :=
  Meets.pure fun _ _ => trivial

theorem throw {e : ε} : Makes R P (MonadExcept.throw e : EStateM ε σ α) :=
  Meets.throw fun _ _ => trivial

theorem set (h : R s s') : Makes R (fun t => t = s) (MonadStateOf.set s' : EStateM ε σ PUnit) :=
  Meets.set (fun _ ht => ht ▸ h) trivial

theorem set_bind {f : PUnit → EStateM ε σ β} (h : R s s')
    (hf : Makes R (fun t => t = s') (f ⟨⟩)) :
    Makes R (fun t => t = s) ((MonadStateOf.set s' : EStateM ε σ PUnit) >>= f) :=
  Meets.set_bind (fun _ ht => ht ▸ h) hf

theorem bind {x : EStateM ε σ α} {f : α → EStateM ε σ β} (hx : Makes R P x)
    (hf : ∀ a, Makes R (fun _ => True) (f a)) : Makes R P (x >>= f) :=
  Meets.bind hx hf

/-- The steps of a preorder are one step. -/
theorem step {x : EStateM ε σ α} (h : Makes R P x) (hrefl : ∀ s, R s s)
    (htrans : ∀ s₁ s₂ s₃, R s₁ s₂ → R s₂ s₃ → R s₁ s₃) (hs : P s) : R s (final (x s)) := by
  have hreaches := h.reaches hs
  generalize final (x s) = s' at hreaches
  induction hreaches with
  | refl => exact hrefl s
  | tail _ hlast ih => exact htrans _ _ _ ih hlast

/-- What follows a program makes its steps from where the program ends. -/
theorem behind {x : EStateM ε σ α} {f : α → EStateM ε σ β}
    (hf : ∀ a, Makes R (fun _ => True) (f a)) (hrefl : ∀ s, R s s)
    (htrans : ∀ s₁ s₂ s₃, R s₁ s₂ → R s₂ s₃ → R s₁ s₃) (s : σ) :
    R (final (x s)) (final ((x >>= f) s)) := by
  show R _ (final (EStateM.bind x f s))
  unfold EStateM.bind
  cases x s with
  | ok a s' => exact (hf a).step hrefl htrans trivial
  | error e s' => exact hrefl s'

end Makes

/-! ## Returned runs -/

/-- A sequence returns through a state in between. -/
theorem ok_of_bind {x : EStateM ε σ α} {f : α → EStateM ε σ β} {s s' : σ} {b : β}
    (h : (x >>= f) s = .ok b s') : ∃ a t, x s = .ok a t ∧ f a t = .ok b s' := by
  change EStateM.bind x f s = .ok b s' at h
  unfold EStateM.bind at h
  cases hx : x s with
  | ok a t =>
      rw [hx] at h
      exact ⟨a, t, rfl, h⟩
  | error e t =>
      rw [hx] at h
      cases h

theorem bind_eq_ok {x : EStateM ε σ α} {f : α → EStateM ε σ β} {s s' : σ} {b : β} :
    (x >>= f) s = .ok b s' ↔ ∃ a t, x s = .ok a t ∧ f a t = .ok b s' := by
  refine ⟨ok_of_bind, ?_⟩
  rintro ⟨a, t, hx, hf⟩
  show EStateM.bind x f s = .ok b s'
  simp only [EStateM.bind, hx, hf]

/-- Two sequences do the same, if their first parts do, and what follows
does from where these return. -/
theorem bind_congr {x y : EStateM ε σ α} {f g : α → EStateM ε σ β} {s : σ} (hx : x s = y s)
    (hf : ∀ a t, x s = .ok a t → f a t = g a t) : (x >>= f) s = (y >>= g) s := by
  show EStateM.bind x f s = EStateM.bind y g s
  unfold EStateM.bind
  rw [← hx]
  cases hr : x s with
  | ok a t => exact hf a t hr
  | error e t => rfl

/-- A sequence raises what its first part raises, or what follows raises. -/
theorem error_of_bind {x : EStateM ε σ α} {f : α → EStateM ε σ β} {s s' : σ} {e : ε}
    (h : (x >>= f) s = .error e s') :
    x s = .error e s' ∨ ∃ a t, x s = .ok a t ∧ f a t = .error e s' := by
  change EStateM.bind x f s = .error e s' at h
  unfold EStateM.bind at h
  cases hx : x s with
  | ok a t =>
      rw [hx] at h
      exact Or.inr ⟨a, t, rfl, h⟩
  | error e' t =>
      rw [hx] at h
      cases h
      exact Or.inl rfl

theorem ok_of_error? {x : EStateM ε σ PUnit} {s : σ} (h : error? (x s) = none) :
    x s = .ok ⟨⟩ (final (x s)) := by
  cases hx : x s with
  | ok a t => rfl
  | error e t =>
      rw [hx] at h
      cases h

/-! ## Invariants -/

theorem invariant_of_reaches {I : σ → Prop} (hstep : ∀ s s', I s → R s s' → I s') {s s' : σ}
    (h : Relation.ReflTransGen R s s') (hs : I s) : I s' := by
  induction h with
  | refl => exact hs
  | tail _ hlast ih => exact hstep _ _ ih hlast

end Program
