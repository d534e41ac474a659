import Webserv.ConnectionRuns

/-!
# The pending CGI

A handler writes into the builder it was started with. That is the
current builder, built from the request that started the handler, as
long as no request is completed while a CGI is pending and no CGI is
started while a builder is still alive.
-/

namespace Webserv

open Bytes Program

/-- No request is completed while a CGI is pending, and none starts a CGI
while a builder is alive. -/
def OneAtATime (e : Moment × Action) : Prop :=
  match e.2 with
  | .dispatch _ (.started _ _) => e.1.client.waitingForCgi = false ∧ e.1.builder = none
  | .dispatch _ _ => e.1.client.waitingForCgi = false
  | _ => True

instance decidableOneAtATime : DecidablePred OneAtATime
  | (m, .dispatch _ (.started _ _)) =>
      inferInstanceAs (Decidable (m.client.waitingForCgi = false ∧ m.builder = none))
  | (m, .dispatch _ (.answered _)) | (m, .dispatch _ .crashed) =>
      inferInstanceAs (Decidable (m.client.waitingForCgi = false))
  | (_, .read) | (_, .parsed _ _) | (_, .cgiRespond _ _) | (_, .send _)
  | (_, .sendDirect _) | (_, .close) => instDecidableTrue

namespace Connection

variable {W : Type} {os : OS W}

/-- The builder `i` is the current one, and was built from the request
that started the handler `h`. -/
def WritesInto (c : Connection W) (h i : Nat) : Prop :=
  c.client.responseBuilder = some i ∧ ∃ b, c.builders.get? i = some b
    ∧ ∃ m p interpreter, (m, .dispatch p (.started h interpreter)) ∈ c.trace
      ∧ b.request = ResponseBuilder.sourceRequest p

/-- The handlers of a connection are as the code expects them: the only
one outstanding is the pending one, and it writes into the builder of its
own request. -/
structure PendingOk (c : Connection W) : Prop where
  outstanding : ∀ h handler, c.handlers.get? h = some handler → c.client.pendingCgi = some h
  waiting : c.client.waitingForCgi = true
    ↔ ∃ h handler, c.client.pendingCgi = some h ∧ c.handlers.get? h = some handler
  builder : ∀ h handler, c.handlers.get? h = some handler →
    c.WritesInto h handler.responseBuilder

/-- Nothing is sent while a CGI is pending. -/
def SentIdle (e : Moment × Action) : Prop :=
  match e.2 with
  | .send _ => e.1.client.waitingForCgi = false
  | _ => True

/-- What the runs keep besides: a response in the buffer has a builder,
and there is none while a CGI is pending. -/
structure PendingKept (c : Connection W) : Prop extends PendingOk c where
  sound : Sound c
  live : ∀ h, c.client.pendingCgi = some h → ∃ handler, c.handlers.get? h = some handler
  empty : c.client.waitingForCgi = true → c.client.responseBuffer = []
  buffered : c.client.responseBuffer ≠ [] → ∃ i, c.client.responseBuilder = some i
  sent : Meeting SentIdle c

namespace PendingKept

variable {c c' : Connection W}

theorem idle (h : PendingKept c) (hw : c.client.waitingForCgi = false) :
    c.client.pendingCgi = none ∧ ∀ k, c.handlers.get? k = none := by
  have hnone : c.client.pendingCgi = none := by
    by_contra hp
    obtain ⟨k, hk⟩ := Option.ne_none_iff_exists'.mp hp
    obtain ⟨handler, hlive⟩ := h.live k hk
    exact absurd (hw.symm.trans (h.waiting.mpr ⟨k, handler, hk, hlive⟩)) (by decide)
  refine ⟨hnone, fun k => ?_⟩
  by_contra hk
  obtain ⟨handler, hlive⟩ := Option.ne_none_iff_exists'.mp hk
  have := h.outstanding k handler hlive
  rw [hnone] at this
  cases this

/-- A connection without a handler is as it should be. -/
theorem of_idle (hsound : Sound c) (hw : c.client.waitingForCgi = false)
    (hp : c.client.pendingCgi = none) (hh : ∀ k, c.handlers.get? k = none)
    (hbuffered : c.client.responseBuffer ≠ [] → ∃ i, c.client.responseBuilder = some i)
    (hsent : Meeting SentIdle c) : PendingKept c where
  outstanding := fun k handler hk => by rw [hh] at hk; cases hk
  waiting := by
    rw [hw]
    refine iff_of_false (by decide) ?_
    rintro ⟨k, handler, -, hk⟩
    rw [hh] at hk
    cases hk
  builder := fun k handler hk => by rw [hh] at hk; cases hk
  sound := hsound
  live := fun k hk => by rw [hp] at hk; cases hk
  empty := fun h => by rw [hw] at h; cases h
  buffered := hbuffered
  sent := hsent

/-- A connection with one handler, which is pending and writes where it
should, is as it should be. -/
theorem of_pending (hsound : Sound c) {k : Nat} {handler : CgiHandler}
    (hw : c.client.waitingForCgi = true) (hp : c.client.pendingCgi = some k)
    (hlive : c.handlers.get? k = some handler)
    (hone : ∀ j handler', c.handlers.get? j = some handler' → j = k)
    (hwrites : c.WritesInto k handler.responseBuilder) (hempty : c.client.responseBuffer = [])
    (hsent : Meeting SentIdle c) : PendingKept c where
  outstanding := fun j handler' hj => by rw [hone j handler' hj]; exact hp
  waiting := iff_of_true hw ⟨k, handler, hp, hlive⟩
  builder := fun j handler' hj => by
    obtain rfl := hone j handler' hj
    obtain rfl := Option.some.inj (hlive.symm.trans hj)
    exact hwrites
  sound := hsound
  live := fun j hj => by
    obtain rfl := Option.some.inj (hp.symm.trans hj)
    exact ⟨handler, hlive⟩
  empty := fun _ => hempty
  buffered := fun hne => absurd hempty hne
  sent := hsent

/-- A live handler is the pending one, and the connection waits for it. -/
theorem pending_of_live (h : PendingKept c) {k : Nat} {handler : CgiHandler}
    (hlive : c.handlers.get? k = some handler) :
    c.client.pendingCgi = some k ∧ c.client.waitingForCgi = true
      ∧ ∀ j handler', c.handlers.get? j = some handler' → j = k := by
  have hp := h.outstanding k handler hlive
  refine ⟨hp, h.waiting.mpr ⟨k, handler, hp, hlive⟩, fun j handler' hj => ?_⟩
  exact Option.some.inj ((h.outstanding j handler' hj).symm.trans hp)

theorem delete_pending (h : PendingKept c) (k : Nat) :
    (delete c.handlers c.client.pendingCgi).get? k = none := by
  by_contra hk
  obtain ⟨handler, hk⟩ := Option.ne_none_iff_exists'.mp hk
  cases hp : c.client.pendingCgi with
  | none =>
      rw [hp] at hk
      have := h.outstanding k handler hk
      rw [hp] at this
      cases this
  | some j =>
      rw [hp, delete, Heap.get?_free] at hk
      split at hk
      · cases hk
      · rename_i hne
        exact hne (Option.some.inj ((h.outstanding k handler hk).symm.trans hp))

theorem get?_delete_none {α : Type} {objects : Heap α} (h : ∀ k, objects.get? k = none)
    (i : Option Nat) (k : Nat) : (delete objects i).get? k = none := by
  cases i with
  | none => exact h k
  | some i =>
      rw [delete, Heap.get?_free]
      split
      · rfl
      · exact h k

theorem sentIdle_tick (h : PendingKept c) (htick : Tick os c c') : Meeting SentIdle c' := by
  refine h.sent.extend htick fun e he => ?_
  unfold SentIdle
  split
  · rename_i bytes ha
    obtain ⟨m, action⟩ := e
    simp only at ha
    subst ha
    obtain ⟨rfl, hne⟩ := htick.action he
    by_contra hw
    exact hne (h.empty (by simpa [moment] using hw))
  · trivial

/-- A tick that leaves builders, handlers and the response buffer alone. -/
theorem quiet (h : PendingKept c) (htick : Tick os c c') (hh : c'.handlers = c.handlers)
    (hb : c'.builders = c.builders) (hp : c'.client.pendingCgi = c.client.pendingCgi)
    (hw : c'.client.waitingForCgi = c.client.waitingForCgi)
    (hi : c'.client.responseBuilder = c.client.responseBuilder)
    (hr : c'.client.responseBuffer = c.client.responseBuffer) : PendingKept c' where
  outstanding := by rw [hh, hp]; exact h.outstanding
  waiting := by rw [hw, hh, hp]; exact h.waiting
  builder := fun k handler hk => by
    obtain ⟨hi', b, hlive, m, p, interpreter, hmem, hrequest⟩ := h.builder k handler (hh ▸ hk)
    exact ⟨hi.trans hi', b, hb ▸ hlive, m, p, interpreter, htick.trace_prefix.subset hmem,
      hrequest⟩
  sound := h.sound.tick htick
  live := by rw [hh, hp]; exact h.live
  empty := by rw [hw, hr]; exact h.empty
  buffered := by rw [hr, hi]; exact h.buffered
  sent := h.sentIdle_tick htick

/-- The state behind a `set` of the pending handler. -/
theorem handler_set (h : PendingKept c) (htick : Tick os c c') {k : Nat}
    {handler handler' : CgiHandler} (hlive : c.handlers.get? k = some handler)
    (heq : handler'.responseBuilder = handler.responseBuilder)
    (hh : c'.handlers = c.handlers.set k handler') (hclient : c'.client = c.client)
    (hb : ∀ i b, c.builders.get? i = some b →
      ∃ b', c'.builders.get? i = some b' ∧ b'.request = b.request) : PendingKept c' := by
  obtain ⟨hp, hw, hone⟩ := h.pending_of_live hlive
  obtain ⟨hi, b, hblive, m, p, interpreter, hmem, hrequest⟩ := h.builder k handler hlive
  obtain ⟨b', hb', hrequest'⟩ := hb _ _ hblive
  have hget : c'.handlers.get? k = some handler' := by
    rw [hh, Heap.get?_set_of_live hlive, if_pos rfl]
  refine of_pending (h.sound.tick htick) (hclient ▸ hw) (hclient ▸ hp) hget ?_ ?_
    (hclient ▸ h.empty hw) (h.sentIdle_tick htick)
  · intro j handler'' hj
    rw [hh, Heap.get?_set_of_live hlive] at hj
    split at hj
    · assumption
    · exact hone j handler'' hj
  · rw [heq]
    exact ⟨hclient ▸ hi, b', hb', m, p, interpreter, htick.trace_prefix.subset hmem,
      hrequest'.trans hrequest⟩

/-- A process is started for a request that found no builder. -/
theorem start (h : PendingKept c) {env : Env} {c₁ : Connection W} {p : RequestParser} {i : Nat}
    {b : ResponseBuilder} {l : Location} (hb : CgiBuilder os env c p c₁ i b l)
    {handler : CgiHandler} (hi : handler.responseBuilder = i)
    (hw : c.client.waitingForCgi = false) (hnone : c.builder? = none)
    (htick : Tick os c (handlerStarted c.moment p c₁ i (b.initRoutes l) handler)) :
    PendingKept (handlerStarted c.moment p c₁ i (b.initRoutes l) handler) := by
  obtain ⟨hp, hh⟩ := h.idle hw
  have hnull : c.client.responseBuilder = none := by
    by_contra hsome
    obtain ⟨j, hj⟩ := Option.ne_none_iff_exists'.mp hsome
    obtain ⟨b₀, hb₀⟩ := h.sound.live j hj
    rw [builder?, hj, Option.bind_some, hb₀] at hnone
    cases hnone
  have hempty : c.client.responseBuffer = [] := by
    by_contra hne
    obtain ⟨j, hj⟩ := h.buffered hne
    rw [hnull] at hj
    cases hj
  have hrequest : b.request = ResponseBuilder.sourceRequest p := by
    rcases ensureBuilder_cases hb.used hb.live with ⟨-, hfound, -⟩ | ⟨-, -, hnew, -⟩
    · rw [hnull] at hfound
      cases hfound
    · rw [hnew]
      exact (ResponseBuilder.builtFrom_create os env c.world p).request
  refine of_pending (k := c₁.handlers.next) (h.sound.tick htick) rfl rfl
    (Heap.get?_alloc_self _ _) ?_ ?_ ?_ (h.sentIdle_tick htick)
  · intro j handler' hj
    simp only [handlerStarted, Heap.get?_alloc] at hj
    split at hj
    · assumption
    · rw [hb.handlers, hh] at hj
      cases hj
  · refine ⟨?_, b.initRoutes l, ?_, c.moment, p, handler.interpreter,
      List.mem_append_right _ List.mem_cons_self, hrequest⟩
    · simp only [handlerStarted, hb.client, hi]
    · simp only [handlerStarted, hi]
      rw [Heap.get?_set_of_live hb.live, if_pos rfl]
  · simp only [handlerStarted, hb.client, hempty]

theorem tick (h : PendingKept c) (htick : Tick os c c') (hcond : Meeting OneAtATime c') :
    PendingKept c' := by
  have hstep := htick
  have hsent := h.sentIdle_tick htick
  have hsound := h.sound.tick htick
  cases htick with
  | read => exact h.quiet hstep rfl rfl rfl rfl rfl rfl
  | tooLarge => exact h.quiet hstep rfl rfl rfl rfl rfl rfl
  | receive => exact h.quiet hstep rfl rfl rfl rfl rfl rfl
  | expect => exact h.quiet hstep rfl rfl rfl rfl rfl rfl
  | parseBody => exact h.quiet hstep rfl rfl rfl rfl rfl rfl
  | parseHead => exact h.quiet hstep rfl rfl rfl rfl rfl rfl
  | cleanup => exact h.quiet hstep rfl rfl rfl rfl rfl rfl
  | requestLine => exact h.quiet hstep rfl rfl rfl rfl rfl rfl
  | crash => exact h.quiet hstep rfl rfl rfl rfl rfl rfl
  | active => exact h.quiet hstep rfl rfl rfl rfl rfl rfl
  | terminate =>
      unfold terminated at hsent hsound ⊢
      split at hsent
      · rename_i hs
        simp only [if_pos hs] at hsound ⊢
        exact of_idle hsound rfl rfl h.delete_pending (fun hne => absurd rfl hne) hsent
      · rename_i hs
        simp only [if_neg hs]
        exact h
  | @answer env c p hp hcgi b world response hb =>
      have hw : c.client.waitingForCgi = false :=
        hcond (c.moment, .dispatch p (.answered response)) (List.mem_append_right _
          List.mem_cons_self)
      obtain ⟨hnone, hidle⟩ := h.idle hw
      exact of_idle hsound hw hnone hidle (fun _ => ⟨_, rfl⟩) hsent
  | @refuse env c p hp hcgi c₁ c₂ i b b' l hb hb' hc' code hcode =>
      have hw : c.client.waitingForCgi = false :=
        hcond (c.moment, .dispatch p (.answered _)) (List.mem_append_right _ List.mem_cons_self)
      obtain ⟨hnone, hidle⟩ := h.idle hw
      obtain ⟨pending, hpending, hclient⟩ := hb.dropped_client hc'
      obtain rfl : pending = none := hpending.elim (fun heq => heq.trans hnone) id
      refine of_idle hsound ?_ ?_ ?_ (fun _ => ⟨i, ?_⟩) hsent
      · simp only [errorAnswer, hclient, hw]
      · simp only [errorAnswer, hclient]
      · intro k
        have hidle' : ∀ k, c₁.handlers.get? k = none := by
          rw [hb.handlers]
          exact hidle
        simp only [errorAnswer]
        rcases hc' with rfl | rfl | rfl
        · exact hidle' k
        · exact hidle' k
        · exact get?_delete_none hidle' _ k
      · simp only [errorAnswer, hclient]
  | @start env c p hp hcgi c₁ i b l hb huse hroute handler handler' hcreate hstart =>
      obtain ⟨hw, hnone⟩ := hcond (c.moment, .dispatch p (.started c₁.handlers.next
        handler'.interpreter)) (List.mem_append_right _ List.mem_cons_self)
      exact h.start hb ((CgiHandler.startCgi_some hstart).2.trans
        (CgiHandler.create_ok hcreate).2) hw hnone hstep
  | @timeout env c k handler p hw hh hlive hp =>
      have hidle := h.delete_pending
      rw [hh] at hidle
      unfold cgiTimedOut at hsound hsent ⊢
      exact of_idle hsound rfl rfl hidle (fun _ => ⟨_, (h.builder k handler hlive).1⟩) hsent
  | send env n hne =>
      have hw : c.client.waitingForCgi = false := by
        by_contra hw
        exact hne (h.empty (by simpa using hw))
      obtain ⟨hnone, hidle⟩ := h.idle hw
      exact of_idle hsound hw hnone hidle (fun _ => h.buffered hne) hsent
  | @finalize env c c₀ n heq hnil =>
      have hw : c.client.waitingForCgi = false := by
        subst heq
        exact h.sent (c₀.moment, .send _) (List.mem_append_right _ List.mem_cons_self)
      obtain ⟨hnone, hidle⟩ := h.idle hw
      exact of_idle hsound hw hnone hidle (fun hne => absurd hnil hne) hsent
  | @close c k handler b hlive hb =>
      have hclosed : handler.closed.responseBuilder = handler.responseBuilder := rfl
      refine h.handler_set hstep hlive hclosed rfl rfl fun i b₀ hi => ?_
      rw [cgiClosed, Heap.get?_set_of_live hb]
      split
      · rename_i heq
        obtain rfl := Option.some.inj (hb.symm.trans (heq ▸ hi))
        exact ⟨_, rfl, (CgiHandler.kept_processCgiOutput _ _).request⟩
      · exact ⟨b₀, hi, rfl⟩
  | complete env hh hi hb =>
      have hidle := h.delete_pending
      rw [hh] at hidle
      unfold cgiCompleted at hsound hsent ⊢
      exact of_idle hsound rfl rfl hidle (fun _ => ⟨_, hi⟩) hsent
  | handler hlive heq =>
      exact h.handler_set hstep hlive heq rfl rfl fun i b hi => ⟨b, hi, rfl⟩

end PendingKept

theorem pendingKept_accepted (garbage continueSent : Bool) (lastActivity : Int) (fd fd' : Nat)
    (serverConfigs : ServerGroup) (world : W) :
    PendingKept (accepted garbage continueSent lastActivity fd fd' serverConfigs world) :=
  .of_idle (sound_accepted ..) rfl rfl (fun _ => rfl) (fun hne => absurd rfl hne)
    fun e he => by cases he

end Connection

open Connection

/-- In every run in which no request is completed while a CGI is pending,
and no CGI is started while a builder is alive, the handlers are as they
should be: at most one is outstanding, it is the pending one exactly
while the connection waits, and it writes into the current builder, which
was built from the request that started it. -/
theorem pending_ok {W : Type} (os : OS W) (garbage continueSent : Bool) (lastActivity : Int)
    (fd fd' : Nat) (serverConfigs : ServerGroup) (world : W) (evs : List Event)
    (h : Meeting OneAtATime
      (final (run os evs
        (accepted garbage continueSent lastActivity fd fd' serverConfigs world)))) :
    PendingOk
      (final (run os evs
        (accepted garbage continueSent lastActivity fd fd' serverConfigs world))) :=
  (run_invariant (fun _ _ hc htick hcond => hc.tick htick hcond)
    (pendingKept_accepted garbage continueSent lastActivity fd fd' serverConfigs world)
    evs h).toPendingOk

def scriptRequest : Bytes := lit "GET /cgi/a.php HTTP/1.1\r\nHost: a\r\n\r\n"

/-- A request for a script, whose output arrives. -/
def scriptEvents : List Event :=
  [reads { now := 0 } scriptRequest, .pipe { now := 0 } 0 ⟨some (lit "hello"), false, false⟩]

theorem pending_ok_script :
    PendingOk (final (run flatOs scriptEvents (accepted false false 0 3 4 scriptServers ()))) :=
  pending_ok flatOs false false 0 3 4 scriptServers () scriptEvents (by decide +kernel)

/-- Two requests for a script in a row leave two handlers. -/
theorem not_pending_ok :
    ¬∀ (W : Type) (os : OS W) (garbage continueSent : Bool) (lastActivity : Int)
      (fd fd' : Nat) (serverConfigs : ServerGroup) (world : W) (evs : List Event),
      PendingOk
        (final (run os evs
          (accepted garbage continueSent lastActivity fd fd' serverConfigs world))) := by
  intro h
  have hok := h Unit flatOs false false 0 3 4 scriptServers ()
    [reads { now := 0 } scriptRequest, reads { now := 0 } scriptRequest]
  have hlive : ((final (run flatOs
      [reads { now := 0 } scriptRequest, reads { now := 0 } scriptRequest]
      (accepted false false 0 3 4 scriptServers ()))).handlers.get? 0).isSome := by
    decide +kernel
  obtain ⟨handler, hlive⟩ := Option.isSome_iff_exists.mp hlive
  have hpending := hok.outstanding 0 handler hlive
  revert hpending
  decide +kernel

end Webserv
