import Webserv.ClientServer

/-!
# The resources of a CGI handler

The life of a handler from its construction to its destruction, with the
calls it makes on its descriptors and its child. `startCGI`,
`finalizeCGI` and `terminate` each release what the handler holds and
rely on the sentinels `pid`, `output_fd` and `bodyFd` that the others
leave. `startCGI` leaves them set when `addListener` throws, and
`onEvent` goes on behind a `finalizeCGI` that has deleted the handler.

A handler is deleted by its client: at `onCGIComplete`, at a timeout, when
the client terminates, and when the constructor of the client's next
handler throws.
-/

universe u

namespace Webserv

open Bytes

namespace CgiHandler

inductive Descriptor where
  | bodyFile
  | pipeRead
  | pipeWrite
deriving DecidableEq

/-- The system calls that a handler makes. -/
inductive SysCall where
  | opened (d : Descriptor)
  | closed (d : Descriptor)
  | forked
  | killed
  | reaped
deriving DecidableEq

structure Life where
  handler : CgiHandler
  /-- `_is_started` of the client -/
  clientStarted : Bool := true
  calls : List SysCall
  deleted : Bool := false
  /-- a method has run on the deleted handler -/
  misused : Bool := false

/-- A `close`, which fails on the sentinel -1. -/
def closes (isOpen : Bool) (d : Descriptor) : List SysCall :=
  if isOpen then [.closed d] else []

namespace Life

/-- `startCGI` in the parent, and whether it returns. -/
def startCgi (env : Env) (s : Life) : Life × Bool :=
  if !env.pipeOk then (s, false)
  else if !env.forkOk then
    ({ s with calls := s.calls ++
        [.opened .pipeRead, .opened .pipeWrite, .closed .pipeRead, .closed .pipeWrite] }, false)
  else
    let h := { s.handler with startTime := env.now, pid := true, outputFd := true, bodyFd := false }
    let calls := s.calls ++ [.opened .pipeRead, .opened .pipeWrite, .forked, .closed .pipeWrite]
      ++ closes s.handler.bodyFd .bodyFile
    if env.addListenerOk then ({ s with handler := h, calls := calls }, true)
    else
      ({ s with handler := h, calls := calls ++ [.closed .pipeRead, .killed, .reaped] }, false)

/-- `terminate`; `exits` is whether the child is gone within the two
seconds it is waited for. A child is reaped once. -/
def terminate (exits : Bool) (s : Life) : Life :=
  if s.clientStarted then
    { s with
      handler := { s.handler.closed with bodyFd := false }
      calls := s.calls ++ closes s.handler.outputFd .pipeRead
        ++ (if s.handler.pid then
              .killed :: (if exits && decide (.reaped ∉ s.calls) then [.reaped] else [])
            else [])
        ++ closes s.handler.bodyFd .bodyFile }
  else s

/-- `delete`, with the destructor. -/
def delete (exits : Bool) (s : Life) : Life := { s.terminate exits with deleted := true }

def misuse (s : Life) : Life := { s with misused := true }

/-- `finalizeCGI`, whose `onCGIComplete` deletes the handler. -/
def finalizeCgi (exits : Bool) (s : Life) : Life :=
  if s.deleted then s.misuse
  else
    delete exits { s with
      handler := s.handler.closed
      calls := s.calls ++ closes s.handler.outputFd .pipeRead
        ++ (if s.handler.pid then [.reaped] else []) }

/-- The EPOLLIN branch of `onEvent`. -/
def onInput (exits : Bool) (bytes : Bytes) (s : Life) : Life :=
  if bytes ≠ [] then { s with handler := s.handler.read bytes } else s.finalizeCgi exits

def onEvent (exits : Bool) (ev : Connection.PipeEvent) (s : Life) : Life :=
  let s := ev.input.elim s fun bytes => s.onInput exits bytes
  let s := if ev.hup then s.finalizeCgi exits else s
  if ev.err then (if s.deleted then s.misuse else s.terminate exits) else s

end Life

/-- What can happen to a handler. -/
inductive LifeEvent where
  | pipe (ev : Connection.PipeEvent)
  /-- `checkCGIProgress` finds that it has run for too long -/
  | timeout
  | clientTerminates
  /-- the constructor of the client's next handler throws -/
  | nextFails

namespace Life

/-- An event of the pipe is delivered while the pipe is registered, and
the client has no pointer to a handler it has deleted. -/
def step (s : Life) (e : LifeEvent × Bool) : Life :=
  if s.deleted then s
  else
    match e.1 with
    | .pipe ev => if s.handler.outputFd then s.onEvent e.2 ev else s
    | .timeout | .nextFails => s.delete e.2
    | .clientTerminates => { s.delete e.2 with clientStarted := false }

end Life

section

variable {W : Type u} (os : OS W) (env : Env)

end

/-- The event ends the handling of the pipe. -/
def Stops (ev : Connection.PipeEvent) : Prop :=
  ev.input = some [] ∨ ev.hup = true ∨ ev.err = true

/-- At most one of the end of the data, EPOLLHUP and EPOLLERR. -/
structure Single (ev : Connection.PipeEvent) : Prop where
  endHup : ¬(ev.input = some [] ∧ ev.hup = true)
  endErr : ¬(ev.input = some [] ∧ ev.err = true)
  hupErr : ¬(ev.hup = true ∧ ev.err = true)

/-- The events of the pipe, as long as it is read, report one of its ends
at a time. -/
def OneEndAtATime : List (LifeEvent × Bool) → Prop
  | (.pipe ev, _) :: evs => Single ev ∧ (¬Stops ev → OneEndAtATime evs)
  | _ => True

/-- The calls behind a `startCGI` that has returned. -/
def startedCalls (hasBody : Bool) : List SysCall :=
  (if hasBody then [.opened .bodyFile] else [])
    ++ [.opened .pipeRead, .opened .pipeWrite, .forked, .closed .pipeWrite]
    ++ closes hasBody .bodyFile

/-- The child runs and its output is read. -/
structure Running (hasBody : Bool) (s : Life) : Prop where
  outputFd : s.handler.outputFd = true
  pid : s.handler.pid = true
  bodyFd : s.handler.bodyFd = false
  clientStarted : s.clientStarted = true
  deleted : s.deleted = false
  misused : s.misused = false
  calls : s.calls = startedCalls hasBody

/-- Everything is released: behind a `finalizeCGI`, or behind a
`terminate` that has waited for the child for long enough or not. -/
inductive Ended (hasBody : Bool) : List SysCall → Prop where
  | finalized : Ended hasBody (startedCalls hasBody ++ [.closed .pipeRead, .reaped])
  | terminated : Ended hasBody (startedCalls hasBody ++ [.closed .pipeRead, .killed, .reaped])
  | abandoned : Ended hasBody (startedCalls hasBody ++ [.closed .pipeRead, .killed])

/-- Nothing is left to be released, and nothing will be. -/
structure Over (hasBody : Bool) (s : Life) : Prop where
  misused : s.misused = false
  calls : Ended hasBody s.calls
  idle : s.deleted = true
    ∨ s.handler.outputFd = false ∧ s.handler.pid = false ∧ s.handler.bodyFd = false

theorem notMem_reaped_startedCalls (hasBody : Bool) : .reaped ∉ startedCalls hasBody := by
  cases hasBody <;> decide

namespace Ended

variable {hasBody : Bool} {calls : List SysCall}

theorem closed (h : Ended hasBody calls) (d : Descriptor) (hd : .opened d ∈ calls) :
    calls.count (.closed d) = 1 := by
  cases h <;> cases d <;> cases hasBody <;> revert hd <;> decide

end Ended

namespace Running

variable {hasBody : Bool} {s : Life}

theorem finalizeCgi (h : Running hasBody s) (exits : Bool) :
    Over hasBody (s.finalizeCgi exits) ∧ (s.finalizeCgi exits).deleted = true := by
  have hcalls : (s.finalizeCgi exits).calls
      = startedCalls hasBody ++ [.closed .pipeRead, .reaped] := by
    simp [Life.finalizeCgi, Life.delete, Life.terminate, CgiHandler.closed, closes, h.deleted,
      h.clientStarted, h.outputFd, h.pid, h.bodyFd, h.calls]
  have hdeleted : (s.finalizeCgi exits).deleted = true := by
    simp [Life.finalizeCgi, Life.delete, h.deleted]
  refine ⟨⟨?_, hcalls ▸ .finalized, .inl hdeleted⟩, hdeleted⟩
  simp [Life.finalizeCgi, Life.delete, Life.terminate, h.deleted, h.clientStarted, h.misused]

theorem terminate (h : Running hasBody s) (exits : Bool) : Over hasBody (s.terminate exits) := by
  have hreaped : SysCall.reaped ∉ s.calls := h.calls ▸ notMem_reaped_startedCalls hasBody
  refine ⟨?_, ?_, .inr ?_⟩
  · simp [Life.terminate, h.clientStarted, h.misused]
  · cases exits
    · have hcalls : (s.terminate false).calls
          = startedCalls hasBody ++ [.closed .pipeRead, .killed] := by
        simp [Life.terminate, closes, h.clientStarted, h.outputFd, h.pid, h.bodyFd, h.calls]
      exact hcalls ▸ .abandoned
    · have hcalls : (s.terminate true).calls
          = startedCalls hasBody ++ [.closed .pipeRead, .killed, .reaped] := by
        simp [Life.terminate, closes, h.clientStarted, h.outputFd, h.pid, h.bodyFd, hreaped]
        exact h.calls
      exact hcalls ▸ .terminated
  · simp [Life.terminate, h.clientStarted, CgiHandler.closed]

theorem read (h : Running hasBody s) (bytes : Bytes) :
    Running hasBody { s with handler := s.handler.read bytes } :=
  ⟨h.outputFd, h.pid, h.bodyFd, h.clientStarted, h.deleted, h.misused, h.calls⟩

end Running

namespace Over

variable {hasBody : Bool} {s : Life}

theorem terminate (h : Over hasBody s) (hlive : s.deleted = false) (exits : Bool) :
    Over hasBody (s.terminate exits) := by
  obtain ⟨hfd, hpid, hbody⟩ := h.idle.resolve_left (by rw [hlive]; decide)
  have hcalls : (s.terminate exits).calls = s.calls := by
    unfold Life.terminate
    split
    · simp [closes, hfd, hpid, hbody]
    · rfl
  refine ⟨?_, hcalls ▸ h.calls, .inr ?_⟩
  · unfold Life.terminate
    split <;> exact h.misused
  · unfold Life.terminate
    split
    · exact ⟨rfl, rfl, rfl⟩
    · exact ⟨hfd, hpid, hbody⟩

theorem delete (h : Over hasBody s) : Over hasBody { s with deleted := true } :=
  ⟨h.misused, h.calls, .inl rfl⟩

theorem step (h : Over hasBody s) (e : LifeEvent × Bool) : Over hasBody (s.step e) := by
  unfold Life.step
  split
  · exact h
  rename_i hlive
  rw [Bool.not_eq_true] at hlive
  obtain ⟨ev, exits⟩ := e
  cases ev with
  | pipe ev =>
      have hfd := (h.idle.resolve_left (by rw [hlive]; decide)).1
      simp only [hfd]
      exact h
  | timeout => exact (h.terminate hlive exits).delete
  | nextFails => exact (h.terminate hlive exits).delete
  | clientTerminates =>
      have hdeleted := (h.terminate hlive exits).delete
      exact ⟨hdeleted.misused, hdeleted.calls, .inl rfl⟩

theorem foldl (evs : List (LifeEvent × Bool)) :
    ∀ {s : Life}, Over hasBody s → Over hasBody (evs.foldl Life.step s) := by
  induction evs with
  | nil =>
      intro s h
      exact h
  | cons e evs ih =>
      intro s h
      exact ih (h.step e)

end Over

/-! ## One event -/

namespace Life

variable {s : Life}

end Life

namespace Running

variable {hasBody : Bool} {s : Life}

/-- The EPOLLIN branch. -/
theorem onInput (h : Running hasBody s) (exits : Bool) (input : Option Bytes) :
    (input ≠ some [] ∧ Running hasBody (input.elim s fun bytes => s.onInput exits bytes))
    ∨ (input = some [] ∧ Over hasBody (input.elim s fun bytes => s.onInput exits bytes)
      ∧ (input.elim s fun bytes => s.onInput exits bytes).deleted = true) := by
  cases input with
  | none => exact .inl ⟨nofun, h⟩
  | some bytes =>
      by_cases hb : bytes = []
      · subst hb
        exact .inr ⟨rfl, h.finalizeCgi exits⟩
      · refine .inl ⟨by simpa using hb, ?_⟩
        simp only [Option.elim_some, Life.onInput, if_pos hb]
        exact h.read bytes

/-- An event that reports one end or none. -/
theorem onEvent (h : Running hasBody s) (exits : Bool) {ev : Connection.PipeEvent}
    (hsingle : Single ev) :
    (Stops ev → Over hasBody (s.onEvent exits ev))
      ∧ (¬Stops ev → Running hasBody (s.onEvent exits ev)) := by
  obtain ⟨input, hup, err⟩ := ev
  obtain ⟨hendHup, hendErr, hhupErr⟩ := hsingle
  simp only at hendHup hendErr hhupErr
  simp only [Stops, Life.onEvent]
  obtain ⟨hinput, hrunning⟩ | ⟨hinput, hover, -⟩ := h.onInput exits input
  · cases hup with
    | true =>
        obtain rfl : err = false := by simpa using hhupErr
        exact ⟨fun _ => (hrunning.finalizeCgi exits).1,
          fun hstops => absurd (.inr (.inl rfl)) hstops⟩
    | false =>
        cases err with
        | true =>
            rw [if_neg (by decide : ¬false = true), if_pos rfl,
              if_neg (by rw [hrunning.deleted]; decide)]
            exact ⟨fun _ => hrunning.terminate exits, fun hstops => absurd (.inr (.inr rfl)) hstops⟩
        | false =>
            refine ⟨fun hstops => ?_, fun _ => hrunning⟩
            simp [hinput] at hstops
  · obtain rfl : hup = false := by simpa [hinput] using hendHup
    obtain rfl : err = false := by simpa [hinput] using hendErr
    exact ⟨fun _ => hover, fun hstops => absurd (.inl hinput) hstops⟩

/-- Without an event of the pipe the handler is deleted. -/
theorem delete (h : Running hasBody s) (exits : Bool) : Over hasBody (s.delete exits) :=
  (h.terminate exits).delete

end Running

/-! ## The start -/

namespace Life

variable {env : Env} {h : CgiHandler}

end Life

/-! ## Runs -/

variable {hasBody : Bool}

/-- A handler that is destroyed has released everything once when the
events that reached it were clean. -/
theorem Running.foldl (evs : List (LifeEvent × Bool)) :
    ∀ {s : Life}, Running hasBody s → OneEndAtATime evs → (evs.foldl Life.step s).deleted = true →
      Over hasBody (evs.foldl Life.step s) := by
  induction evs with
  | nil =>
      intro s h _ hdeleted
      rw [List.foldl_nil, h.deleted] at hdeleted
      cases hdeleted
  | cons e evs ih =>
      intro s h hclean hdeleted
      rw [List.foldl_cons] at hdeleted ⊢
      obtain ⟨ev, exits⟩ := e
      have hlive : ¬s.deleted = true := by rw [h.deleted]; decide
      cases ev with
      | pipe ev =>
          have hstep : s.step (.pipe ev, exits) = s.onEvent exits ev := by
            simp only [Life.step, if_neg hlive, h.outputFd]
            rfl
          rw [hstep] at hdeleted ⊢
          obtain ⟨hover, hrunning⟩ := h.onEvent exits hclean.1
          by_cases hstops : Stops ev
          · exact (hover hstops).foldl evs
          · exact ih (hrunning hstops) (hclean.2 hstops) hdeleted
      | timeout | nextFails =>
          simp only [Life.step, if_neg hlive]
          exact (h.delete exits).foldl evs
      | clientTerminates =>
          simp only [Life.step, if_neg hlive]
          have hover := h.delete exits
          exact Over.foldl evs ⟨hover.misused, hover.calls, .inl rfl⟩

namespace Life

variable {env : Env} {h : CgiHandler}

end Life

section

variable {W : Type u} {os : OS W} {env : Env} {w : W} {request : RequestParser} {cgiPath : Bytes}
  {response : Nat} {evs : List (LifeEvent × Bool)} {s : Life}

end

end CgiHandler

end Webserv
