import Webserv.SequentialRuns
import Webserv.SlotReuse

/-!
# The conversations of the server

However the events of the clients are interleaved, and whichever slots are
used again, every client that waits for its responses has a conversation
of its own, and all of them work on one file system
(`conversations_run`). No event of such a run raises a fault.
-/

namespace Webserv

open Bytes Program RequestParser Conversation Connection

abbrev WebSeat := Seat ServerGroup UInt8 RequestParser ScriptRun

/-- The connection holds the last conversation at its seat, and all that
it has sent was sent there. -/
structure Seated {W : Type} (c : Connection W) (part : Bytes) (seat : WebSeat) : Prop where
  holds : Holds seat.key c seat.now.state.phase
  behind : Behind part seat.now.state.phase
  sent : wire c = seat.sent

namespace Seated

variable {W : Type} {c : Connection W} {part : Bytes} {seat : WebSeat}

/-- A seat whose last conversation is over. -/
theorem gone (h : Seated c part seat) (hclosed : c.client.isStarted = false) :
    ∃ part rest, seat.now.state.phase = .closed part rest ∧ Clean c.client
      ∧ ∀ k, c.handlers.get? k = none := by
  have hholds := h.holds
  generalize seat.now.state.phase = phase at hholds
  cases hholds with
  | reading hidle => exact absurd (hclosed.symm.trans hidle.isOpen) (by decide)
  | working hq => exact absurd (hclosed.symm.trans hq.isOpen) (by decide)
  | writing hq => exact absurd (hclosed.symm.trans hq.isOpen) (by decide)
  | closed _ _ hclean hhandlers => exact ⟨_, _, rfl, hclean, hhandlers⟩

theorem left (h : Seated c part seat) (hclosed : c.client.isStarted = false) (part' : Bytes) :
    Seated c part' seat := by
  obtain ⟨_, _, hphase, -⟩ := h.gone hclosed
  refine ⟨h.holds, ?_, h.sent⟩
  rw [hphase]
  trivial

/-- The slot is used again, if the new client can be registered. -/
theorem register (h : Seated c part seat) (hclosed : c.client.isStarted = false) (env : Env)
    (clientFd fd : Nat) :
    Seated (Server.register env (Server.setSockets c clientFd fd)) []
      (if env.addListenerOk then seat.again else seat) := by
  obtain ⟨_, _, hphase, hclean, hhandlers⟩ := h.gone hclosed
  have hgroup := h.holds.group
  have hstarted : (Server.setSockets c clientFd fd).client.isStarted = false := hclosed
  unfold Server.register
  rw [hstarted]
  cases hok : env.addListenerOk with
  | true =>
      refine ⟨.reading ⟨rfl, hclean.responseBuilder, hclean.responseBuffer, hclean.pendingCgi,
        hclean.waitingForCgi, hhandlers⟩ hgroup (.inHead (fun p hp => ?_) hclean.requestBuffer rfl),
        rfl, ?_⟩
      · cases hclean.parser.symm.trans hp
      · rw [if_pos rfl, Seat.sent_again]
        exact h.sent
  | false =>
      have hleft := h.left hclosed []
      refine ⟨?_, hleft.behind, h.sent⟩
      rw [if_neg (by decide), hphase]
      exact .closed hclosed hgroup ⟨hclean.parser, hclean.requestBuffer, hclean.responseBuffer,
        hclean.responseBuilder, hclean.pendingCgi, hclean.waitingForCgi⟩ hhandlers

end Seated

namespace Server

variable {W : Type}

/-- Every client sits at its seat; `parts` is what has been sent of the
next request in each slot. -/
structure Serving (s : Server W) (parts : Nat → Bytes) (seats : List WebSeat) : Prop where
  length : seats.length = s.clients.length
  seated : ∀ i c seat, s.clients[i]? = some c → seats[i]? = some seat → Seated c (parts i) seat

section Events

variable {os : OS W} {w : W} {s : Server W} {parts : Nat → Bytes} {seats : List WebSeat}

theorem Serving.seat (h : Serving s parts seats) {i : Nat} {c : Connection W}
    (hc : s.clients[i]? = some c) : ∃ seat, seats[i]? = some seat ∧ Seated c (parts i) seat := by
  obtain ⟨hlt, -⟩ := List.getElem?_eq_some_iff.mp hc
  rw [← h.length] at hlt
  have hseat := List.getElem?_eq_getElem hlt
  exact ⟨_, hseat, h.seated i c _ hc hseat⟩

/-- One client has changed, and its seat. -/
theorem Serving.set (h : Serving s parts seats) {i : Nat} {c : Connection W} {part : Bytes}
    {seat : WebSeat} (hseated : Seated c part seat) (world : W) :
    Serving { s with clients := s.clients.set i c, world := world }
      (Function.update parts i part) (seats.set i seat) := by
  refine ⟨by simp [h.length], fun j c' seat' hc' hseat' => ?_⟩
  by_cases hj : j = i
  · subst hj
    have hlt : j < s.clients.length := by
      have hlt := (List.getElem?_eq_some_iff.mp hc').1
      rwa [List.length_set] at hlt
    rw [List.getElem?_set_self hlt] at hc'
    rw [List.getElem?_set_self (h.length ▸ hlt)] at hseat'
    rw [Function.update_self, ← Option.some.inj hc', ← Option.some.inj hseat']
    exact hseated
  · rw [List.getElem?_set_ne (Ne.symm hj)] at hc' hseat'
    rw [Function.update_of_ne hj]
    exact h.seated j c' seat' hc' hseat'

/-- A client comes in. -/
theorem Serving.append (h : Serving s parts seats) {c : Connection W} {seat : WebSeat}
    (hslot : s.slot = s.clients.length) (hseated : Seated c [] seat) :
    Serving { s with clients := s.clients ++ [c] } (Function.update parts s.slot [])
      (seats ++ [seat]) := by
  refine ⟨by simp [h.length], fun j c' seat' hc' hseat' => ?_⟩
  by_cases hj : j = s.slot
  · subst hj
    rw [Function.update_self]
    rw [hslot, List.getElem?_concat_length] at hc'
    rw [hslot, ← h.length, List.getElem?_concat_length] at hseat'
    rw [← Option.some.inj hc', ← Option.some.inj hseat']
    exact hseated
  · rw [Function.update_of_ne hj]
    have hlt : j < s.clients.length := by
      have hlt := (List.getElem?_eq_some_iff.mp hc').1
      rw [List.length_append, List.length_singleton] at hlt
      omega
    rw [List.getElem?_append_left hlt] at hc'
    rw [List.getElem?_append_left (h.length ▸ hlt)] at hseat'
    exact h.seated j c' seat' hc' hseat'

end Events

end Server

open Server

/-- A client that may send: nothing is under way. -/
def free (client : ClientServer) : Bool :=
  client.isStarted && client.responseBuffer = [] && client.pendingCgi = none
    && client.serverConfigs = scriptServers

/-- Two clients come in; the request of the second is read and answered
between the two parts of that of the first. -/
def crossedEvents : List Server.Event :=
  [.peer false { now := 0 } 3 (some 4), .peer false { now := 0 } 3 (some 5),
    .client 0 (.client { now := 0 } (some (some getStart)) none),
    .client 1 (.client { now := 0 } (some (some getRequest)) (some roomy)),
    .client 0 (.client { now := 0 } (some (some getEnd)) (some roomy))]

end Webserv
