import Webserv.ConnectionSteps

/-!
# Runs of a connection

The rule for properties of runs: what every tick keeps, in a run whose
actions all meet a condition, holds where the run ends, returned or
raised. With it two facts of every run: a closed connection has nothing
left to do, and `_responseBuilder` never dangles.
-/

namespace Webserv

open Bytes Program Relation

namespace Connection

variable {W : Type} {os : OS W}

/-! ## What a CGI request finds -/

namespace CgiBuilder

variable {env : Env} {c c' c'' : Connection W} {p : RequestParser} {i : Nat}
  {b : ResponseBuilder} {l : Location}

theorem trace (h : CgiBuilder os env c p c' i b l) : c'.trace = c.trace := by
  rcases ensureBuilder_cases h.used h.live with ⟨rfl, -⟩ | ⟨-, -, -, rfl⟩
  · rfl
  · rfl

theorem client (h : CgiBuilder os env c p c' i b l) :
    c'.client = { c.client with responseBuilder := some i } := by
  rcases ensureBuilder_cases h.used h.live with ⟨rfl, hi, -⟩ | ⟨-, -, -, rfl⟩
  · rw [← hi]
  · rfl

theorem handlers (h : CgiBuilder os env c p c' i b l) : c'.handlers = c.handlers := by
  rcases ensureBuilder_cases h.used h.live with ⟨rfl, -⟩ | ⟨-, -, -, rfl⟩
  · rfl
  · rfl

theorem dropped_live (hb : CgiBuilder os env c p c' i b l) (h : Dropped c' c'') :
    c''.client.responseBuilder = some i ∧ c''.builders.get? i = some b := by
  have hclient := hb.client
  rcases h with rfl | rfl | rfl
  · exact ⟨by rw [hclient], hb.live⟩
  · exact ⟨by rw [forgetPending, hclient], hb.live⟩
  · exact ⟨by rw [deletePending, forgetPending, hclient], hb.live⟩

theorem dropped_trace (hb : CgiBuilder os env c p c' i b l) (h : Dropped c' c'') :
    c''.trace = c.trace := by
  rw [← hb.trace]
  rcases h with rfl | rfl | rfl <;> rfl

/-- The client, but for its pending CGI. -/
theorem dropped_client (hb : CgiBuilder os env c p c' i b l) (h : Dropped c' c'') :
    ∃ pending, (pending = c.client.pendingCgi ∨ pending = none)
      ∧ c''.client = { c.client with responseBuilder := some i, pendingCgi := pending } := by
  have hclient := hb.client
  rcases h with rfl | rfl | rfl
  · exact ⟨_, Or.inl rfl, hclient⟩
  · exact ⟨none, Or.inr rfl, by rw [forgetPending, hclient]⟩
  · exact ⟨none, Or.inr rfl, by rw [deletePending, forgetPending, hclient]⟩

end CgiBuilder

/-! ## The history -/

/-- `t'` is `t` with at most one more action. -/
def Extends (t t' : List (Moment × Action)) : Prop := t' = t ∨ ∃ e, t' = t ++ [e]

theorem extends_terminated (c : Connection W) : Extends c.trace c.terminated.trace := by
  unfold terminated
  split
  · exact Or.inr ⟨_, rfl⟩
  · exact Or.inl rfl

theorem Tick.extends {c c' : Connection W} (h : Tick os c c') : Extends c.trace c'.trace := by
  cases h with
  | terminate => exact extends_terminated c
  | refuse env hp hcgi hb hb' hc' hcode =>
      rw [← hb.dropped_trace hc']
      exact Or.inr ⟨_, rfl⟩
  | start env hp hcgi hb =>
      rw [← hb.trace]
      exact Or.inr ⟨_, rfl⟩
  | receive => exact Or.inl rfl
  | cleanup => exact Or.inl rfl
  | requestLine => exact Or.inl rfl
  | active => exact Or.inl rfl
  | finalize => exact Or.inl rfl
  | close => exact Or.inl rfl
  | handler => exact Or.inl rfl
  | _ => exact Or.inr ⟨_, rfl⟩

/-- Actions are only added to the history. -/
theorem Tick.trace_prefix {c c' : Connection W} (h : Tick os c c') : c.trace <+: c'.trace := by
  rcases h.extends with heq | ⟨e, heq⟩
  · exact heq ▸ List.prefix_rfl
  · exact heq ▸ List.prefix_append _ _

theorem action_of_append {t : List (Moment × Action)} {e e' : Moment × Action}
    (h : t ++ [e'] = t ++ [e]) : e' = e :=
  List.singleton_inj.mp (List.append_cancel_left h)

theorem no_action {t : List (Moment × Action)} {e : Moment × Action} (h : t = t ++ [e]) : False :=
  List.cons_ne_nil _ _ (List.self_eq_append_right.mp h)

/-- What is the case before an action. A process is started on the word of
the builder in use. -/
def Allowed (os : OS W) (c : Connection W) : Action → Prop
  | .parsed before _ => before.state = .body ∨ BodyHeld c
  | .dispatch p o => Completed c p
      ∧ ∀ handler interpreter, o = .started handler interpreter → p.goesToCgi = true
        ∧ ∃ env c₁ i b l, CgiBuilder os env c p c₁ i b l ∧ l.useCgi = true
          ∧ ((b.initRoutes l).routes.get? p.httpMethod).isSome ∧ interpreter = l.cgiPath
  | .send _ => c.client.responseBuffer ≠ []
  | _ => True

theorem Tick.action {c c' : Connection W} (h : Tick os c c') {m : Moment} {action : Action}
    (he : c'.trace = c.trace ++ [(m, action)]) : m = c.moment ∧ Allowed os c action := by
  cases h with
  | answer env hp =>
      cases action_of_append he
      exact ⟨rfl, hp, fun _ _ ho => by cases ho⟩
  | refuse env hp hcgi hb hb' hc' =>
      unfold errorAnswer at he
      simp only [hb.dropped_trace hc'] at he
      cases action_of_append he
      exact ⟨rfl, hp, fun _ _ ho => by cases ho⟩
  | crash hp =>
      cases action_of_append he
      exact ⟨rfl, hp, fun _ _ ho => by cases ho⟩
  | start env hp hcgi hb huse hroute hcreate hstart =>
      simp only [handlerStarted, hb.trace] at he
      cases action_of_append he
      refine ⟨rfl, hp, fun _ _ ho => ?_⟩
      cases ho
      exact ⟨hcgi, env, _, _, _, _, hb, huse, hroute, (CgiHandler.startCgi_some hstart).1.trans
        (CgiHandler.create_ok hcreate).1⟩
  | terminate =>
      unfold terminated at he
      split at he
      · cases action_of_append he
        exact ⟨rfl, trivial⟩
      · cases no_action he
  | parseBody hp hstate =>
      cases action_of_append he
      exact ⟨rfl, Or.inl hstate⟩
  | parseHead hbody =>
      cases action_of_append he
      exact ⟨rfl, Or.inr hbody⟩
  | send env n hne =>
      cases action_of_append he
      exact ⟨rfl, hne⟩
  | read =>
      cases action_of_append he
      exact ⟨rfl, trivial⟩
  | tooLarge =>
      cases action_of_append he
      exact ⟨rfl, trivial⟩
  | expect =>
      cases action_of_append he
      exact ⟨rfl, trivial⟩
  | timeout =>
      cases action_of_append he
      exact ⟨rfl, trivial⟩
  | complete =>
      cases action_of_append he
      exact ⟨rfl, trivial⟩
  | receive => cases no_action he
  | cleanup => cases no_action he
  | requestLine => cases no_action he
  | active => cases no_action he
  | finalize => cases no_action he
  | close => cases no_action he
  | handler => cases no_action he

/-! ## The rule for runs -/

/-- Every action of the connection meets `Cond`. -/
def Meeting (Cond : Moment × Action → Prop) (c : Connection W) : Prop := ∀ e ∈ c.trace, Cond e

instance decidableMeeting (Cond : Moment × Action → Prop) [DecidablePred Cond]
    (c : Connection W) : Decidable (Meeting Cond c) :=
  inferInstanceAs (Decidable (∀ e ∈ c.trace, Cond e))

theorem Meeting.of_tick {Cond : Moment × Action → Prop} {c c' : Connection W}
    (hc : Meeting Cond c') (h : Tick os c c') : Meeting Cond c :=
  fun e he => hc e (h.trace_prefix.subset he)

/-- Only the last action is to be checked. -/
theorem Meeting.extend {Cond : Moment × Action → Prop} {c c' : Connection W}
    (h : Meeting Cond c) (htick : Tick os c c')
    (hnew : ∀ e, c'.trace = c.trace ++ [e] → Cond e) : Meeting Cond c' := by
  intro e he
  rcases htick.extends with heq | ⟨e', heq⟩
  · exact h e (heq ▸ he)
  · rw [heq, List.mem_append, List.mem_singleton] at he
    rcases he with he | rfl
    · exact h e he
    · exact hnew e heq

/-- The last action of a tick meets what all actions do. -/
theorem Meeting.last {Cond : Moment × Action → Prop} {c c' : Connection W}
    (h : Meeting Cond c') {e : Moment × Action} (heq : c'.trace = c.trace ++ [e]) : Cond e :=
  h e (heq ▸ List.mem_append_right _ List.mem_cons_self)

theorem run_reaches (os : OS W) (evs : List Event) (c : Connection W) :
    ReflTransGen (Tick os) c (final (run os evs c)) :=
  (ticks_run os evs fun _ => True).reaches trivial

theorem Meeting.of_reaches {Cond : Moment × Action → Prop} {c c' : Connection W}
    (h : ReflTransGen (Tick os) c c') (hcond : Meeting Cond c') : Meeting Cond c := by
  induction h with
  | refl => exact hcond
  | tail _ htick ih => exact ih (hcond.of_tick htick)

/-- What every tick keeps, as long as the actions meet `Cond`, holds at
the end of every run whose actions all do. -/
theorem run_invariant {Cond : Moment × Action → Prop} {I : Connection W → Prop}
    (hstep : ∀ c c', I c → Tick os c c' → Meeting Cond c' → I c') {c : Connection W} (h : I c)
    (evs : List Event) (hcond : Meeting Cond (final (run os evs c))) :
    I (final (run os evs c)) := by
  refine invariant_of_reaches (I := fun c => Meeting Cond c → I c) ?_ (run_reaches os evs c)
    (fun _ => h) hcond
  intro c c' hc htick hcond'
  exact hstep c c' (hc (hcond'.of_tick htick)) htick hcond'

/-- The states between the ticks of a connection, from its acceptance
on. -/
inductive Reachable (os : OS W) : Connection W → Prop where
  | accepted (garbage continueSent : Bool) (lastActivity : Int) (fd fd' : Nat)
      (serverConfigs : ServerGroup) (world : W) : Reachable os
        (Connection.accepted garbage continueSent lastActivity fd fd' serverConfigs world)
  | tick {c c' : Connection W} (h : Reachable os c) (htick : Tick os c c') : Reachable os c'

/-! ## Facts of every run -/

/-- A client with nothing to do. Its `_response_ready` may still be as the
constructor left it. -/
structure Clean (client : ClientServer) : Prop where
  parser : client.parser = none
  requestBuffer : client.requestBuffer = []
  responseBuffer : client.responseBuffer = []
  responseBuilder : client.responseBuilder = none
  pendingCgi : client.pendingCgi = none
  waitingForCgi : client.waitingForCgi = false

structure Sound (c : Connection W) : Prop where
  closed : c.client.isStarted = false → Clean c.client
  live : ∀ i, c.client.responseBuilder = some i → ∃ b, c.builders.get? i = some b

theorem next_delete {α : Type} (objects : Heap α) (i : Option Nat) :
    (delete objects i).next = objects.next := by
  cases i with
  | none => rfl
  | some i => exact Heap.next_free objects i

theorem get?_alloc_delete {α : Type} (objects : Heap α) (i : Option Nat) (a : α) :
    ((delete objects i).alloc a).get? objects.next = some a := by
  rw [← next_delete objects i]
  exact Heap.get?_alloc_self _ a

theorem live_set {α : Type} {objects : Heap α} {i j : Nat} {a : α}
    (hi : objects.get? i = some a) (a' : α) (hj : ∃ b, objects.get? j = some b) :
    ∃ b, (objects.set i a').get? j = some b := by
  rw [Heap.get?_set_of_live hi]
  split
  · exact ⟨a', rfl⟩
  · exact hj

theorem Sound.started {c : Connection W} (h : Sound c) (hc : ¬Clean c.client) :
    c.client.isStarted = true := by
  by_contra hs
  exact hc (h.closed (by simpa using hs))

/-- A connection with a parser is open. -/
theorem Sound.started_of_parser {c : Connection W} (h : Sound c) {p : RequestParser}
    (hp : c.client.parser = some p) : c.client.isStarted = true := by
  refine h.started fun hc => ?_
  rw [hc.parser] at hp
  cases hp

theorem sound_terminated {c : Connection W} (h : Sound c) : Sound c.terminated := by
  unfold terminated
  split
  · exact ⟨fun _ => ⟨rfl, rfl, rfl, rfl, rfl, rfl⟩, fun i hi => by cases hi⟩
  · exact h

/-- A new state of an open connection is sound when its builder is live. -/
theorem Sound.of_started {c : Connection W} (hs : c.client.isStarted = true)
    (hlive : ∀ i, c.client.responseBuilder = some i → ∃ b, c.builders.get? i = some b) :
    Sound c :=
  ⟨fun h => absurd (hs.symm.trans h) (by decide), hlive⟩

theorem Sound.tick {c c' : Connection W} (h : Sound c) (htick : Tick os c c') : Sound c' := by
  cases htick with
  | read => exact ⟨h.closed, h.live⟩
  | tooLarge => exact ⟨h.closed, h.live⟩
  | crash => exact ⟨h.closed, h.live⟩
  | terminate => exact sound_terminated h
  | receive env segment hs => exact .of_started hs h.live
  | expect =>
      refine ⟨fun hs => ?_, h.live⟩
      obtain ⟨h₁, h₂, h₃, h₄, h₅, h₆⟩ := h.closed hs
      exact ⟨h₁, h₂, h₃, h₄, h₅, h₆⟩
  | parseBody hp => exact .of_started (h.started_of_parser hp) h.live
  | parseHead _ hhead =>
      refine .of_started (h.started fun hc => ?_) h.live
      rw [hc.requestBuffer] at hhead
      exact absurd hhead (by decide)
  | cleanup =>
      refine ⟨fun hs => ?_, h.live⟩
      obtain ⟨-, h₂, h₃, h₄, h₅, h₆⟩ := h.closed hs
      exact ⟨rfl, h₂, h₃, h₄, h₅, h₆⟩
  | requestLine hp => exact .of_started (h.started_of_parser hp.parser) h.live
  | @answer env c p hp hcgi b world response hb =>
      refine .of_started (h.started_of_parser hp.parser) fun i hi => ?_
      obtain rfl := Option.some.inj hi
      exact ⟨b, get?_alloc_delete _ _ b⟩
  | refuse env hp hcgi hb hb' hc' =>
      obtain ⟨hi, hlive⟩ := hb.dropped_live hc'
      obtain ⟨pending, -, hclient⟩ := hb.dropped_client hc'
      unfold errorAnswer
      refine .of_started ?_ fun j hj => ?_
      · simp only [hclient]
        exact h.started_of_parser hp.parser
      · simp only [hi, Option.some.injEq] at hj
        subst hj
        exact live_set hlive _ ⟨_, hlive⟩
  | start env hp hcgi hb =>
      have hclient := hb.client
      refine .of_started ?_ fun j hj => ?_
      · simp only [handlerStarted, hclient]
        exact h.started_of_parser hp.parser
      · simp only [handlerStarted, hclient] at hj
        obtain rfl := Option.some.inj hj
        exact live_set hb.live _ ⟨_, hb.live⟩
  | timeout env hw hh hlive hp =>
      unfold cgiTimedOut
      exact .of_started (h.started_of_parser hp) h.live
  | active env hw =>
      refine .of_started (h.started fun hc => ?_) h.live
      exact absurd (hw.symm.trans hc.waitingForCgi) (by decide)
  | send env n hne => exact .of_started (h.started fun hc => hne hc.responseBuffer) h.live
  | finalize env hsent hnil =>
      refine ⟨fun hs => ?_, fun i hi => by cases hi⟩
      obtain ⟨h₁, h₂, h₃, -, h₅, h₆⟩ := h.closed hs
      exact ⟨h₁, h₂, h₃, rfl, h₅, h₆⟩
  | close hlive hb => exact ⟨h.closed, fun i hi => live_set hb _ (h.live i hi)⟩
  | complete env hh hi hb =>
      unfold cgiCompleted
      refine .of_started (h.started fun hc => ?_) fun j hj => live_set hb _ (h.live j hj)
      rw [hc.pendingCgi] at hh
      cases hh
  | handler => exact ⟨h.closed, h.live⟩

theorem Sound.reaches {c c' : Connection W} (h : Sound c)
    (hreaches : ReflTransGen (Tick os) c c') : Sound c' :=
  invariant_of_reaches (I := Sound) (fun _ _ h htick => h.tick htick) hreaches h

theorem sound_accepted (garbage continueSent : Bool) (lastActivity : Int) (fd fd' : Nat)
    (serverConfigs : ServerGroup) (world : W) :
    Sound (accepted garbage continueSent lastActivity fd fd' serverConfigs world) :=
  .of_started rfl fun i hi => by cases hi

/-! ## The parser -/

/-- The parser, if there is one, has the property `P`. -/
def ParserHas (P : RequestParser → Prop) (c : Connection W) : Prop :=
  ∀ p, c.client.parser = some p → P p

/-- What a new head has, and what a part of the body and the request line
keep, the parser has. -/
theorem ParserHas.tick {P : RequestParser → Prop} {c c' : Connection W}
    (hhead : ∀ p rest, (find doubleCrlf c.client.requestBuffer).isSome →
      ({} : RequestParser).parseRequest c.client.requestBuffer = some (.returned p rest) →
      c' = c.parsed {} (routed c.client.serverConfigs p) rest →
      P (routed c.client.serverConfigs p))
    (hbody : ∀ p p' rest, P p → c.client.parser = some p → p.state = .body →
      bodyTooLarge c.client = .ok none →
      p.parseRequest c.client.requestBuffer = some (.returned p' rest) →
      c' = c.parsed p p' rest → P p')
    (hline : ∀ p, P p → P p.setRequestLine) (h : ParserHas P c) (htick : Tick os c c') :
    ParserHas P c' := by
  cases htick with
  | parseBody hp hstate hsmall hparse =>
      intro q hq
      obtain rfl := Option.some.inj hq
      exact hbody _ _ _ (h _ hp) hp hstate hsmall hparse rfl
  | parseHead _ hcrlf hparse =>
      intro q hq
      obtain rfl := Option.some.inj hq
      exact hhead _ _ hcrlf hparse rfl
  | requestLine hp =>
      intro q hq
      obtain rfl := Option.some.inj hq
      exact hline _ (h _ hp.parser)
  | cleanup =>
      intro q hq
      cases hq
  | terminate =>
      unfold terminated
      split
      · intro q hq
        cases hq
      · exact h
  | refuse env hp hcgi hb hb' hc' =>
      obtain ⟨pending, -, hclient⟩ := hb.dropped_client hc'
      intro q hq
      simp only [errorAnswer, hclient] at hq
      exact h q hq
  | start env hp hcgi hb =>
      intro q hq
      simp only [handlerStarted, hb.client] at hq
      exact h q hq
  | timeout =>
      unfold cgiTimedOut
      exact fun q hq => h q hq
  | complete =>
      unfold cgiCompleted
      exact fun q hq => h q hq
  | _ => exact h

/-! ## The builders -/

/-- Every live builder has the property `P`. -/
def AllBuilders (P : ResponseBuilder → Prop) (c : Connection W) : Prop :=
  ∀ i b, c.builders.get? i = some b → P b

section Builders

open ResponseBuilder

variable {P : ResponseBuilder → Prop}

theorem all_free {objects : Heap ResponseBuilder}
    (h : ∀ i b, objects.get? i = some b → P b) (i : Nat) :
    ∀ j b, (objects.free i).get? j = some b → P b := by
  intro j b hb
  rw [Heap.get?_free] at hb
  split at hb
  · cases hb
  · exact h j b hb

theorem all_delete {objects : Heap ResponseBuilder}
    (h : ∀ i b, objects.get? i = some b → P b) (i : Option Nat) :
    ∀ j b, (delete objects i).get? j = some b → P b := by
  cases i with
  | none => exact h
  | some i => exact all_free h i

theorem all_alloc {objects : Heap ResponseBuilder}
    (h : ∀ i b, objects.get? i = some b → P b) {a : ResponseBuilder} (ha : P a) :
    ∀ j b, (objects.alloc a).get? j = some b → P b := by
  intro j b hb
  rw [Heap.get?_alloc] at hb
  split at hb
  · exact Option.some.inj hb ▸ ha
  · exact h j b hb

theorem all_set {objects : Heap ResponseBuilder}
    (h : ∀ i b, objects.get? i = some b → P b) {i : Nat} {a a' : ResponseBuilder}
    (hi : objects.get? i = some a) (ha : P a') :
    ∀ j b, (objects.set i a').get? j = some b → P b := by
  intro j b hb
  rw [Heap.get?_set_of_live hi] at hb
  split at hb
  · exact Option.some.inj hb ▸ ha
  · exact h j b hb

theorem allBuilders_terminated {c : Connection W} (h : AllBuilders P c) :
    AllBuilders P c.terminated := by
  unfold terminated
  split
  · exact all_delete h _
  · exact h

/-- What a new builder for the completed request has, and what answering
keeps, all builders have. -/
theorem AllBuilders.tick {c c' : Connection W}
    (hnew : ∀ env p, Completed c p → P (create os c.world env p))
    (hkeep : ∀ b b', P b → Answered b b' → P b') (h : AllBuilders P c)
    (htick : Tick os c c') : AllBuilders P c' := by
  have hcgi {env : Env} {c' : Connection W} {p : RequestParser} {i : Nat}
      {b : ResponseBuilder} {l : Location} (hp : Completed c p)
      (hb : CgiBuilder os env c p c' i b l) : AllBuilders P c' := by
    rcases ensureBuilder_cases hb.used hb.live with ⟨rfl, -⟩ | ⟨-, -, rfl, rfl⟩
    · exact h
    · exact all_alloc h (hnew env p hp)
  cases htick with
  | terminate => exact allBuilders_terminated h
  | @answer env c p hp _ b world response hb =>
      exact all_alloc (all_delete h _)
        (hkeep _ _ (hnew env p hp) (buildResponse_answered os env hb))
  | @refuse env c p hp _ c' c'' i b b' l hb hb' hc' code _ =>
      have hbuilders := hcgi hp hb
      have hlive := (hb.dropped_live hc').2
      have hall : AllBuilders P c'' := by
        rcases hc' with rfl | rfl | rfl
        · exact hbuilders
        · exact hbuilders
        · exact hbuilders
      have hb'' : P b' := by
        rcases hb' with rfl | rfl
        · exact hall i _ hlive
        · exact hkeep _ _ (hall i _ hlive) (answered_initRoutes hb.location)
      unfold errorAnswer
      refine all_set hall hlive (hkeep _ _ hb'' (.of_kept ?_))
      exact ((Kept.refl b').setErrorPage code).generateResponseOnly
  | start env hp _ hb =>
      have hbuilders := hcgi hp hb
      exact all_set hbuilders hb.live
        (hkeep _ _ (hbuilders _ _ hb.live) (answered_initRoutes hb.location))
  | finalize => exact all_delete h _
  | close hlive hb =>
      exact all_set h hb (hkeep _ _ (h _ _ hb) (.of_kept (CgiHandler.kept_processCgiOutput _ _)))
  | complete env hh hi hb =>
      unfold cgiCompleted
      exact all_set h hb (hkeep _ _ (h _ _ hb) (.of_kept (Kept.refl _).generateResponseOnly))
  | read => exact h
  | tooLarge => exact h
  | receive => exact h
  | expect => exact h
  | parseBody => exact h
  | parseHead => exact h
  | cleanup => exact h
  | requestLine => exact h
  | crash => exact h
  | timeout =>
      unfold cgiTimedOut
      exact fun i b hb => h i b hb
  | active => exact h
  | send => exact h
  | handler => exact h

theorem builder?_mem {c : Connection W} {b : ResponseBuilder} (h : AllBuilders P c)
    (hb : c.builder? = some b) : P b := by
  obtain ⟨i, -, hi⟩ := Option.bind_eq_some_iff.mp hb
  exact h i b hi

end Builders

/-! ## Sample events and a sample configuration -/

/-- EPOLLIN with `bytes` to read; no bytes are the end of the stream. -/
def reads (env : Env) (bytes : Bytes) : Event :=
  .client env
    (some (if h : bytes ≠ [] ∧ bytes.length ≤ rdSize then some ⟨bytes, h⟩ else none)) none

/-- EPOLLOUT with room for `n` bytes; no room is an error. -/
def writes (env : Env) (n : Nat) : Event :=
  .client env none (some (if h : 0 < n then some ⟨n, h⟩ else none))

end Connection

/-- A server with a location that runs scripts, and one that does not. -/
def scriptServers : ServerGroup where
  first := { locations := [
    { location := lit "/", root := lit "/www" },
    { location := lit "/cgi", root := lit "/www", useCgi := true, cgiPath := lit "/bin/php" }] }

end Webserv
