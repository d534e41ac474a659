import Mathlib.Data.List.Basic

/-!
# Delivery in request order

An outbox answers requests one after the other: at once, or by a job that
delivers its response later. Responses go through one buffer, out of
which any part may be sent at a time. What has been sent is at all times
a prefix of the responses in the order of the requests, as long as the
buffer is only written when it is empty, and no request is taken while a
job is running.
-/

universe u v

namespace Delivery

/-- What has become of a request. -/
inductive Answer (ι : Type u) (α : Type v) where
  | built (response : List α)
  | pending (job : ι)
deriving DecidableEq

variable {ι : Type u} {α : Type v}

/-- The responses up to the first one that is not built. -/
def inOrder : List (Answer ι α) → List α
  | .built response :: answers => response ++ inOrder answers
  | _ => []

/-- The answers after the job `job` has delivered `response`. -/
def fill [DecidableEq ι] (job : ι) (response : List α) : Answer ι α → Answer ι α
  | .pending j => if j = job then .built response else .pending j
  | .built r => .built r

structure Outbox (ι : Type u) (α : Type v) where
  answers : List (Answer ι α)
  job : Option ι
  buffer : List α
  sent : List α
  isOpen : Bool

/-- The steps of an outbox. -/
inductive Step [DecidableEq ι] : Outbox ι α → Outbox ι α → Prop where
  | answer (s : Outbox ι α) (response : List α) (hopen : s.isOpen = true) (hjob : s.job = none)
      (hbuffer : s.buffer = []) :
      Step s { s with answers := s.answers ++ [.built response], buffer := response }
  | start (s : Outbox ι α) (job : ι) (hopen : s.isOpen = true) (hjob : s.job = none) :
      Step s { s with answers := s.answers ++ [.pending job], job := some job }
  | respond (s : Outbox ι α) (job : ι) (response : List α) (hopen : s.isOpen = true)
      (hjob : s.job = some job) (hbuffer : s.buffer = []) :
      Step s { s with
        answers := s.answers.map (fill job response)
        job := none
        buffer := response }
  | send (s : Outbox ι α) (n : Nat) (hopen : s.isOpen = true) :
      Step s { s with sent := s.sent ++ s.buffer.take n, buffer := s.buffer.drop n }
  | close (s : Outbox ι α) :
      Step s { s with job := none, buffer := [], isOpen := false }

/-- The invariant: all but a running job's request are answered, and the
buffer holds what is not sent of their responses. -/
structure Ordered (s : Outbox ι α) : Prop where
  sent : s.sent <+: inOrder s.answers
  whole : s.isOpen = true → ∃ responses : List (List α),
    s.answers = responses.map .built ++ (s.job.map .pending).toList
      ∧ s.sent ++ s.buffer = responses.flatten

theorem inOrder_built (responses : List (List α)) (answers : List (Answer ι α)) :
    inOrder (responses.map .built ++ answers) = responses.flatten ++ inOrder answers := by
  induction responses with
  | nil => rfl
  | cons response responses ih => simp [inOrder, ih]

theorem inOrder_pending (job : Option ι) :
    inOrder ((job.map .pending).toList : List (Answer ι α)) = [] := by
  cases job with
  | none => rfl
  | some j => rfl

/-- An open outbox is ordered when the buffer continues what is sent. -/
theorem Ordered.of_whole {s : Outbox ι α} (responses : List (List α))
    (hanswers : s.answers = responses.map .built ++ (s.job.map .pending).toList)
    (hsent : s.sent ++ s.buffer = responses.flatten) : Ordered s := by
  refine ⟨?_, fun _ => ⟨responses, hanswers, hsent⟩⟩
  rw [hanswers, inOrder_built, inOrder_pending, List.append_nil, ← hsent]
  exact List.prefix_append _ _

theorem Ordered.step [DecidableEq ι] {s s' : Outbox ι α} (h : Ordered s) (hstep : Step s s') :
    Ordered s' := by
  cases hstep with
  | answer response hopen hjob hbuffer =>
      obtain ⟨responses, hanswers, hsent⟩ := h.whole hopen
      rw [hjob] at hanswers
      rw [hbuffer, List.append_nil] at hsent
      refine .of_whole (responses ++ [response]) ?_ ?_
      · simp [hanswers, hjob]
      · simp [hsent]
  | start job hopen hjob =>
      obtain ⟨responses, hanswers, hsent⟩ := h.whole hopen
      rw [hjob] at hanswers
      refine .of_whole responses ?_ hsent
      simp [hanswers]
  | respond job response hopen hjob hbuffer =>
      obtain ⟨responses, hanswers, hsent⟩ := h.whole hopen
      rw [hjob] at hanswers
      rw [hbuffer, List.append_nil] at hsent
      refine .of_whole (responses ++ [response]) ?_ ?_
      · simp [hanswers, fill]
      · simp [hsent]
  | send n hopen =>
      obtain ⟨responses, hanswers, hsent⟩ := h.whole hopen
      refine .of_whole responses hanswers ?_
      rw [List.append_assoc, List.take_append_drop]
      exact hsent
  | close => exact ⟨h.sent, fun hopen => by cases hopen⟩

end Delivery
