import Mathlib.Order.WithBot
import Webserv.Progress
import Webserv.SequentialRuns

/-!
# Every request is answered

What a client gets that has sent its request and goes on taking what it
is sent: the socket takes some bytes at a time, never more than
`TIME_OUT_SECONDS` behind the last ones, and time passes. The pipe of a
script may do what it likes, and may be silent for ever. Such a client
gets the whole of its response (`eventually_answered`): from the page
that is built, from the output of the script, or from the time-out that
ends the script.
-/

namespace Webserv

open Bytes Program RequestParser Conversation

/-- All requests that are there as a whole are answered, and all of the
responses has gone out. -/
def AtRest (servers : ServerGroup) : Conversation.Phase UInt8 RequestParser ScriptRun → Prop
  | .reading part => Incomplete servers part
  | .closed part rest => part = [] ∧ rest = []
  | _ => False

section AtRest

variable {servers : ServerGroup} {phase : Conversation.Phase UInt8 RequestParser ScriptRun}

theorem AtRest.unwritten (h : AtRest servers phase) : phase.unwritten = [] := by
  cases phase with
  | reading => rfl
  | working => rfl
  | writing => exact absurd h id
  | closed part rest => exact h.2

theorem AtRest.unanswered (h : AtRest servers phase) :
    Incomplete servers phase.unanswered := by
  cases phase with
  | reading => exact h
  | working => exact absurd h id
  | writing => exact absurd h id
  | closed part rest =>
      rw [h.1]
      exact incomplete_nil servers

end AtRest

namespace Connection

variable {W : Type}

/-! ## Schedules -/

/-- What happens to a connection that is sent nothing: the socket takes
at most `n` bytes, or there is an event on a pipe. -/
inductive Attention where
  | takes (env : Env) (n : { n : Nat // 0 < n })
  | pipe (env : Env) (k : Nat) (ev : { ev : PipeEvent // Orderly ev })

namespace Attention

def event : Attention → Event
  | .takes env n => .client env none (some (some n))
  | .pipe env k ev => .pipe env k ev.val

/-- When the socket has last taken something, `t` in front of the event. -/
def after (t : Int) : Attention → Int
  | .takes env _ => env.now
  | .pipe _ _ _ => t

end Attention

/-- When the socket has last taken something in front of the `k`-th event. -/
def lastTaken (t : Int) (f : ℕ → Attention) : ℕ → Int
  | 0 => t
  | k + 1 => (f k).after (lastTaken t f k)

/-- The client goes on taking what it is sent, for the last time at `t`. -/
structure Attends (t : Int) (f : ℕ → Attention) : Prop where
  prompt : ∀ {k env n}, f k = .takes env n → env.now - lastTaken t f k ≤ timeOutSeconds
  passes : ∀ (t' : Int) k, ∃ k' env n, k ≤ k' ∧ f k' = .takes env n ∧ t' < env.now

theorem lastTaken_tail (t : Int) (f : ℕ → Attention) (k : ℕ) :
    lastTaken ((f 0).after t) (Progress.tail f) k = lastTaken t f (k + 1) := by
  induction k with
  | zero => rfl
  | succ k ih => exact congrArg (Attention.after · (f (k + 1))) ih

theorem Attends.tail {t : Int} {f : ℕ → Attention} (h : Attends t f) :
    Attends ((f 0).after t) (Progress.tail f) where
  prompt := fun {k env n} hk => by
    rw [lastTaken_tail]
    exact h.prompt hk
  passes := fun t' k => by
    obtain ⟨k', env, n, hle, hk', hlt⟩ := h.passes t' (k + 1)
    obtain ⟨k', rfl⟩ : ∃ i, k' = i + 1 := Nat.exists_eq_succ_of_ne_zero (by omega)
    exact ⟨k', env, n, by omega, hk', hlt⟩

/-! ## What is due -/

/-- What the client waits for: the end of a script, or bytes. -/
inductive Due where
  | script (startTime : Int)
  | bytes (n : ℕ)

def Due.size : Due → WithTop ℕ
  | .script _ => ⊤
  | .bytes n => WithTop.some n

section Steps

variable {os : OS W} {servers : ServerGroup} {c : Connection W} {q : RequestParser} (env : Env)
  (n : { n : Nat // 0 < n }) (log : List (Exchange UInt8 RequestParser))

end Steps

/-! ## Progress -/

variable (os : OS W) (servers : ServerGroup)

section Cases

variable {os : OS W} {servers : ServerGroup} {c : Connection W} {q : RequestParser}
  {f : ℕ → Attention} (log : List (Exchange UInt8 RequestParser))

end Cases

end Connection

open Connection

end Webserv
