import Webserv.IoMultiplexer
import Webserv.WhileLoop

/-!
# The shutdown of the event loop

`IOMultiplexer::terminate` takes `_listeners.rend()` once, in front of its
loop, and dereferences it in every round. A reverse iterator refers to
the entry before its base, and the base of `rend()` is the first entry,
so the first round of the loop is undefined already, whatever the
`terminate` of the listeners does.
-/

namespace OrdMap

variable {κ α : Type} [LinearOrder κ]

/-- `rend()`, by the key its base refers to; `none` is the end of the
map. -/
def rend (m : OrdMap κ α) : Option κ := m.entries.head?.map Prod.fst

/-- What a reverse iterator with this base refers to: the entry before
it, or nothing in front of the first entry. -/
def derefReverse (m : OrdMap κ α) (base : Option κ) : Option (κ × α) :=
  (m.entries.takeWhile fun e => decide (some e.1 ≠ base)).getLast?

theorem derefReverse_rend (m : OrdMap κ α) : m.derefReverse m.rend = none := by
  unfold derefReverse rend
  cases m.entries with
  | nil => rfl
  | cons e es =>
      rw [List.takeWhile_cons_of_neg (by simp)]
      rfl

end OrdMap

namespace Webserv

namespace IoMultiplexer

open WhileLoop

variable {L : Type}

/-- How `terminate` ends, when it does: with the listeners that are left,
or by dereferencing an iterator past the end. -/
inductive Shutdown (L : Type) where
  | returned (io : IoMultiplexer L)
  | pastTheEnd

/-- A round of `terminate`. `onTerminate` is what the `terminate` of a
listener does to the table, also when it throws. -/
def terminateIter (onTerminate : Nat → L → IoMultiplexer L → IoMultiplexer L)
    (it : Option Nat) (io : IoMultiplexer L) : IoMultiplexer L ⊕ Shutdown L :=
  if io.listeners.size = 0 then .inr (.returned io)
  else
    (io.listeners.derefReverse it).elim (.inr .pastTheEnd) fun e => .inl (onTerminate e.1 e.2 io)

/-- `terminate` drains the table. -/
structure Drains (onTerminate : Nat → L → IoMultiplexer L → IoMultiplexer L)
    (io : IoMultiplexer L) : Prop where
  safe : ¬Exits (terminateIter onTerminate io.listeners.rend) io .pastTheEnd
  registered : Always (terminateIter onTerminate io.listeners.rend)
    (fun io' => ∀ e, io'.listeners.derefReverse io.listeners.rend = some e →
      io'.listeners.get? e.1 = some e.2) io
  ends : ∃ io', Exits (terminateIter onTerminate io.listeners.rend) io (.returned io')
    ∧ io'.listeners.size = 0

theorem terminateIter_first (onTerminate : Nat → L → IoMultiplexer L → IoMultiplexer L)
    {io : IoMultiplexer L} (h : io.listeners.size ≠ 0) :
    terminateIter onTerminate io.listeners.rend io = .inr .pastTheEnd := by
  rw [terminateIter, if_neg h, OrdMap.derefReverse_rend]
  rfl

/-- With any listener registered the loop leaves the map in its first
round. -/
theorem not_drains (onTerminate : Nat → L → IoMultiplexer L → IoMultiplexer L)
    {io : IoMultiplexer L} (h : io.listeners.size ≠ 0) : ¬Drains onTerminate io := by
  intro hdrains
  exact hdrains.safe (exits_inr (terminateIter_first onTerminate h))

/-- A server that listens on one descriptor, and takes it out when it is
terminated. -/
def oneListener : IoMultiplexer Unit := { listeners := OrdMap.empty.insert 3 (), epoll := [3] }

theorem not_drains_oneListener :
    ¬Drains (fun fd _ io => io.closeListener fd) oneListener :=
  not_drains _ (by decide)

theorem not_all_drain :
    ¬∀ (L : Type) (onTerminate : Nat → L → IoMultiplexer L → IoMultiplexer L)
      (io : IoMultiplexer L), io.listeners.size ≠ 0 → Drains onTerminate io := by
  intro h
  have hdrains := h Unit (fun fd _ io => io.closeListener fd) oneListener (by decide)
  exact hdrains.safe (exits_inr (terminateIter_first _ (by decide)))

end IoMultiplexer

end Webserv
