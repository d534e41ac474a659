import Webserv.ConnectionRuns

/-!
# Inactive connections

The time of the last activity is looked at in `handleResponse` only, and
there behind the test whether a response is ready. A client that stalls
while its request is read, or that stays silent between two requests, is
never timed out.
-/

namespace Webserv

open Bytes Program

namespace Connection

variable {W : Type} (os : OS W) (env : Env)

/-- A response is ready, or partly sent. -/
def ResponsePending (client : ClientServer) : Prop :=
  client.responseReady = true ∧ client.responseBuffer ≠ []

/-- EPOLLOUT alone is handled, and the connection is closed behind it. -/
def DroppedAt (sent : Sent) (c : Connection W) : Prop :=
  ∃ c', onEvent os env none (some sent) c = .ok () c' ∧ c'.client.isStarted = false

theorem isStarted_terminated (c : Connection W) : c.terminated.client.isStarted = false := by
  unfold terminated
  split
  · rfl
  · rename_i hclosed
    simpa using hclosed

/-- Without a CGI process EPOLLOUT is `handleResponse`. -/
theorem onEvent_output (sent : Sent) {c : Connection W} (hcgi : c.client.pendingCgi = none) :
    onEvent os env none (some sent) c = handleResponse env sent c := by
  have hcheck : checkCgiProgress os env c = .ok () c := by
    show (checkCgiProgress os env).run c = _
    simp only [checkCgiProgress, EStateM.run_bind, EStateM.run_get, hcgi]
    split
    · rename_i hh
      cases hh
    · rfl
  show (onEvent os env none (some sent)).run c = (handleResponse env sent).run c
  have hrun : (checkCgiProgress os env).run c = .ok () c := hcheck
  simp only [onEvent, onInput, onOutput, EStateM.run_bind, EStateM.run_pure, hrun]

/-- Where nothing is to be sent, nothing happens. -/
theorem handleResponse_idle (sent : Sent) {c : Connection W} (h : ¬ResponsePending c.client) :
    handleResponse env sent c = .ok () c := by
  show (handleResponse env sent).run c = _
  have hready : (!(c.client.responseReady && decide (c.client.responseBuffer ≠ []))) = true := by
    simp only [ResponsePending, not_and_or] at h
    simpa using h
  simp only [handleResponse, EStateM.run_bind, EStateM.run_get, hready, if_true,
    EStateM.run_pure]

/-- The response of an inactive client is given up. -/
theorem handleResponse_inactive (sent : Sent) {c : Connection W} (h : ResponsePending c.client)
    (hidle : hasTimeOut env c.client = true) :
    handleResponse env sent c = .ok () c.terminated := by
  show (handleResponse env sent).run c = _
  have hready : (!(c.client.responseReady && decide (c.client.responseBuffer ≠ []))) = false := by
    simp [h.1, h.2]
  simp only [handleResponse, EStateM.run_bind, EStateM.run_get, hready, hidle, if_true,
    Bool.false_eq_true, if_false, terminate, EStateM.run_set]

end Connection

open Connection

/-- An inactive connection without a CGI process is dropped where EPOLLOUT
is handled if and only if it has a response to send. -/
theorem inactive_dropped_iff {W : Type} (os : OS W) (env : Env) (sent : Sent) {c : Connection W}
    (hstarted : c.client.isStarted = true) (hcgi : c.client.pendingCgi = none)
    (hidle : hasTimeOut env c.client = true) :
    DroppedAt os env sent c ↔ ResponsePending c.client := by
  unfold DroppedAt
  rw [onEvent_output os env sent hcgi]
  by_cases h : ResponsePending c.client
  · rw [handleResponse_inactive env sent h hidle]
    exact ⟨fun _ => h, fun _ => ⟨_, rfl, isStarted_terminated c⟩⟩
  · rw [handleResponse_idle env sent h]
    refine ⟨?_, fun hpending => absurd hpending h⟩
    rintro ⟨c', heq, hclosed⟩
    cases heq
    exact absurd (hstarted.symm.trans hclosed) (by decide)

/-- A page is ready, and nothing has been taken of it for eleven seconds. -/
def stalledPage : Connection Unit :=
  let c := accepted false false 0 3 4 scriptServers ()
  { c with
    client := { c.client with
      responseReady := true
      responseBuffer := lit "HTTP/1.1 200 OK" } }

theorem inactive_dropped_iff_page :
    DroppedAt flatOs { now := 11 } none stalledPage ↔ ResponsePending stalledPage.client :=
  inactive_dropped_iff flatOs { now := 11 } none rfl rfl (by decide)

/-- The first bytes of a head, with nothing behind them. -/
def partHead : Segment := ⟨lit "GET / HT", by simp [lit, rdSize]⟩

def partHeadReceived : Connection Unit :=
  let c := accepted false false 0 3 4 scriptServers ()
  (c.log c.moment .read).received { now := 0 } partHead

theorem reachable_partHeadReceived : Reachable flatOs partHeadReceived :=
  .tick (.tick (.accepted false false 0 3 4 scriptServers ()) (.read _))
    (.receive { now := 0 } partHead rfl)

/-- A client that has sent a part of a head is never dropped. -/
theorem not_inactive_dropped :
    ¬∀ (W : Type) (os : OS W) (env : Env) (sent : Sent) (c : Connection W), Reachable os c →
      c.client.isStarted = true → c.client.pendingCgi = none →
      hasTimeOut env c.client = true → DroppedAt os env sent c := by
  intro h
  obtain ⟨c', heq, hclosed⟩ := h Unit flatOs { now := 3600 } none partHeadReceived
    reachable_partHeadReceived rfl rfl (by decide)
  have hidle : ¬ResponsePending partHeadReceived.client := fun h => absurd h.1 (by decide)
  rw [onEvent_output flatOs _ none rfl, handleResponse_idle _ none hidle] at heq
  cases heq
  exact absurd hclosed (by decide)

end Webserv
