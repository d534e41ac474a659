import Webserv.IoMultiplexer

/-!
# The table of listeners and epoll

`addListener` inserts into `_listeners` before `epoll_ctl` is asked, and
`removeListener` erases before it, so a call of `epoll_ctl` that fails
leaves the two apart. In every run without such a failure they hold the
same descriptors.
-/

namespace Webserv

namespace IoMultiplexer

variable {L : Type} [DecidableEq L]

/-- `modifyListener`; the events that are asked for are not part of the
model. -/
def modifyListener (io : IoMultiplexer L) (listener : L) (fd : Nat) (ctlOk : Bool) :
    IoMultiplexer L × Bool :=
  match io.listeners.get? fd with
  | none => (io, false)
  | some registered => (io, decide (registered = listener) && ctlOk)

/-- `removeListener`, for a descriptor that stays open. -/
def removeListener (io : IoMultiplexer L) (fd : Nat) (ctlOk : Bool) : IoMultiplexer L × Bool :=
  if io.listeners.contains fd then
    ({ listeners := io.listeners.erase fd
       epoll := if ctlOk then io.epoll.filter (· ≠ fd) else io.epoll }, ctlOk)
  else (io, false)

/-- A call, and whether its `epoll_ctl` succeeds. -/
inductive Call (L : Type) where
  | add (listener : L) (fd : Nat) (ctlOk : Bool)
  | modify (listener : L) (fd : Nat) (ctlOk : Bool)
  | remove (fd : Nat) (ctlOk : Bool)

/-- The state behind a call, and whether the call returns. -/
def call (io : IoMultiplexer L) : Call L → IoMultiplexer L × Bool
  | .add listener fd ctlOk => io.addListener listener fd ctlOk
  | .modify listener fd ctlOk => io.modifyListener listener fd ctlOk
  | .remove fd ctlOk => io.removeListener fd ctlOk

/-- The keys of `_listeners` are the descriptors registered with epoll. -/
def InSync (io : IoMultiplexer L) : Prop :=
  ∀ fd, io.listeners.contains fd = true ↔ fd ∈ io.epoll

/-- What is asked of an `addListener` or `modifyListener`. -/
structure Mirrors (io : IoMultiplexer L) (c : Call L) : Prop where
  inSync : (io.call c).1.InSync
  unchanged : (io.call c).2 = false → (io.call c).1.listeners = io.listeners

/-- The calls register as they should, one after the other. -/
def RunMirrors (io : IoMultiplexer L) : List (Call L) → Prop
  | [] => True
  | .remove fd ctlOk :: calls => RunMirrors (io.call (.remove fd ctlOk)).1 calls
  | c :: calls => io.Mirrors c ∧ RunMirrors (io.call c).1 calls

/-- `epoll_ctl` does not fail behind an update of `_listeners`: when a
descriptor is added that has no listener yet. -/
def AddSettles (io : IoMultiplexer L) : Call L → Prop
  | .add _ fd ctlOk => io.listeners.contains fd = true ∨ ctlOk = true
  | _ => True

/-- The same when a listener is removed. -/
def RemoveSettles (io : IoMultiplexer L) : Call L → Prop
  | .remove fd ctlOk => io.listeners.contains fd = false ∨ ctlOk = true
  | _ => True

/-- A condition on every call of a run, in the state before it. -/
def RunMeets (Cond : IoMultiplexer L → Call L → Prop) (io : IoMultiplexer L) :
    List (Call L) → Prop
  | [] => True
  | c :: calls => Cond io c ∧ RunMeets Cond (io.call c).1 calls

variable {io : IoMultiplexer L}

theorem InSync.add (h : io.InSync) {listener : L} {fd : Nat} {ctlOk : Bool} :
    io.Mirrors (.add listener fd ctlOk) ↔ io.AddSettles (.add listener fd ctlOk) := by
  by_cases hc : io.listeners.contains fd = true
  · refine iff_of_true ?_ (Or.inl hc)
    have hcall : io.call (.add listener fd ctlOk) = (io, false) := addListener_of_contains hc
    constructor
    · rw [hcall]
      exact h
    · rw [hcall]
      exact fun _ => rfl
  have hcall : io.call (.add listener fd ctlOk)
      = ({ listeners := io.listeners.insert fd listener
           epoll := if ctlOk then fd :: io.epoll else io.epoll }, ctlOk) :=
    addListener_of_not_contains hc
  have hself : (io.listeners.insert fd listener).contains fd = true := by
    rw [OrdMap.contains, OrdMap.get?_insert_self]
    rfl
  cases ctlOk with
  | true =>
      refine iff_of_true ?_ (Or.inr rfl)
      constructor
      · rw [hcall]
        intro fd'
        by_cases heq : fd' = fd
        · subst heq
          exact iff_of_true hself List.mem_cons_self
        · have hother : (io.listeners.insert fd listener).contains fd'
              = io.listeners.contains fd' := by
            rw [OrdMap.contains, OrdMap.get?_insert_of_ne _ (Ne.symm heq), OrdMap.contains]
          show (io.listeners.insert fd listener).contains fd' = true ↔ fd' ∈ fd :: io.epoll
          rw [hother, List.mem_cons, h fd']
          exact ⟨Or.inr, fun h => h.resolve_left heq⟩
      · rw [hcall]
        exact fun h => by cases h
  | false =>
      refine iff_of_false (fun hmirrors => ?_) fun hok => hok.elim hc (by decide)
      have hsync := hmirrors.inSync fd
      rw [hcall] at hsync
      exact hc ((h fd).mpr (hsync.mp hself))

theorem call_modify (listener : L) (fd : Nat) (ctlOk : Bool) :
    (io.call (.modify listener fd ctlOk)).1 = io := by
  show (io.modifyListener listener fd ctlOk).1 = io
  unfold modifyListener
  split
  · rfl
  · rfl

theorem InSync.modify (h : io.InSync) (listener : L) (fd : Nat) (ctlOk : Bool) :
    io.Mirrors (.modify listener fd ctlOk) := by
  constructor
  · rw [call_modify]
    exact h
  · rw [call_modify]
    exact fun _ => rfl

theorem InSync.remove (h : io.InSync) {fd : Nat} {ctlOk : Bool}
    (hok : io.RemoveSettles (.remove fd ctlOk)) : (io.call (.remove fd ctlOk)).1.InSync := by
  by_cases hc : io.listeners.contains fd = true
  · have hctl : ctlOk = true := hok.resolve_left (by simp [hc])
    subst hctl
    have hcall : io.call (.remove fd true)
        = ({ listeners := io.listeners.erase fd, epoll := io.epoll.filter (· ≠ fd) }, true) :=
      if_pos hc
    rw [hcall]
    intro fd'
    have herase : (io.listeners.erase fd).contains fd'
        = if fd = fd' then false else io.listeners.contains fd' := by
      rw [OrdMap.contains, OrdMap.get?_erase]
      split
      · rfl
      · rfl
    show (io.listeners.erase fd).contains fd' = true ↔ fd' ∈ io.epoll.filter (· ≠ fd)
    rw [herase, List.mem_filter, ← h fd']
    by_cases heq : fd = fd'
    · simp [heq]
    · simp [heq, Ne.symm heq]
  · have hcall : io.call (.remove fd ctlOk) = (io, false) := if_neg hc
    rw [hcall]
    exact h

/-- From a state in step, over any calls. -/
theorem runMirrors_iff : ∀ {calls : List (Call L)} {io : IoMultiplexer L}, io.InSync →
    RunMeets RemoveSettles io calls → (RunMirrors io calls ↔ RunMeets AddSettles io calls)
  | [], _, _, _ => Iff.rfl
  | .add listener fd ctlOk :: calls, io, h, hremoves => by
      show io.Mirrors _ ∧ _ ↔ io.AddSettles _ ∧ _
      rw [h.add]
      refine and_congr_right fun hok => ?_
      exact runMirrors_iff (h.add.mpr hok).inSync hremoves.2
  | .modify listener fd ctlOk :: calls, io, h, hremoves => by
      have hmirrors := h.modify listener fd ctlOk
      show io.Mirrors _ ∧ _ ↔ True ∧ _
      rw [iff_true_intro hmirrors]
      exact and_congr_right fun _ => runMirrors_iff hmirrors.inSync hremoves.2
  | .remove fd ctlOk :: calls, io, h, hremoves => by
      show RunMirrors _ _ ↔ True ∧ _
      rw [true_and]
      exact runMirrors_iff (h.remove hremoves.1) hremoves.2

theorem runMeets_and {Cond Cond' : IoMultiplexer L → Call L → Prop} :
    ∀ {calls : List (Call L)} {io : IoMultiplexer L},
    RunMeets (fun io c => Cond io c ∧ Cond' io c) io calls →
      RunMeets Cond io calls ∧ RunMeets Cond' io calls
  | [], _, _ => ⟨trivial, trivial⟩
  | _ :: _, _, ⟨⟨h, h'⟩, hcalls⟩ =>
      ⟨⟨h, (runMeets_and hcalls).1⟩, h', (runMeets_and hcalls).2⟩

omit [DecidableEq L] in
theorem inSync_empty : ({} : IoMultiplexer L).InSync := fun fd => by
  simp [OrdMap.contains]

/-- In a run in which no `epoll_ctl` fails behind an update of
`_listeners`, every `addListener` and `modifyListener` leaves the table
and epoll in step, and a call that throws leaves the table as it was. Of
the runs whose removals succeed it is only these. -/
theorem listeners_mirror (calls : List (Call L)) :
    (RunMeets (fun io c => io.AddSettles c ∧ io.RemoveSettles c) {} calls →
        RunMirrors {} calls)
      ∧ (RunMeets RemoveSettles {} calls → RunMirrors {} calls →
        RunMeets AddSettles {} calls) := by
  constructor
  · intro h
    obtain ⟨hadds, hremoves⟩ := runMeets_and h
    exact (runMirrors_iff inSync_empty hremoves).mpr hadds
  · intro hremoves h
    exact (runMirrors_iff inSync_empty hremoves).mp h

/-- A descriptor that is added, refused a second time, removed and used
again. -/
def reusedCalls : List (Call Unit) :=
  [.add () 4 true, .add () 4 false, .modify () 4 false, .remove 4 true, .add () 4 true]

theorem listeners_mirror_reused : RunMirrors {} reusedCalls :=
  (listeners_mirror reusedCalls).1 ⟨⟨Or.inr rfl, trivial⟩, ⟨Or.inl (by decide), trivial⟩,
    ⟨trivial, trivial⟩, ⟨trivial, Or.inr rfl⟩, ⟨Or.inr rfl, trivial⟩, trivial⟩

/-- An `addListener` whose `epoll_ctl` fails leaves its entry behind, and
the next connection with this descriptor is refused. -/
theorem not_runMirrors :
    ¬∀ calls : List (Call Unit), RunMirrors {} calls := by
  intro h
  have hfails : ({} : IoMultiplexer Unit).Mirrors (.add () 4 false) := (h [.add () 4 false]).1
  have hsync := (hfails.inSync 4).mp (by decide)
  cases hsync

end IoMultiplexer

end Webserv
