import Webserv.ClientServer
import Webserv.ResponseFrame

/-!
# The steps of a connection

`Tick` lists the state changes a method of the connection can make, each
with what the code has checked before it. Every method is a sequence of
ticks (`run_ticks`), so an invariant of runs is one of ticks, and an
action in the history tells what was the case when it was done.
-/

namespace Webserv

open Bytes Program Relation

namespace Connection

variable {W : Type}

/-- The builder `processCGIRequest` uses for `p`: in `c'`, at address
`i`, with its location. -/
structure CgiBuilder (os : OS W) (env : Env) (c : Connection W) (p : RequestParser)
    (c' : Connection W) (i : Nat) (b : ResponseBuilder) (l : Location) : Prop where
  used : ensureBuilder os env c p = (c', i)
  live : c'.builders.get? i = some b
  location : b.locationConfig = some l

/-- `c''` is `c'`, or `c'` without its pending CGI. -/
def Dropped (c' c'' : Connection W) : Prop :=
  c'' = c' ∨ c'' = c'.forgetPending ∨ c'' = c'.deletePending

/-- The parser is that of a request that is complete or has failed. -/
structure Completed (c : Connection W) (p : RequestParser) : Prop where
  parser : c.client.parser = some p
  state : p.state ≠ .body

/-- A body is only left waiting while a CGI is. -/
def BodyHeld (c : Connection W) : Prop :=
  ∀ p, c.client.parser = some p → p.state = .body → c.client.waitingForCgi = true

/-- One change of the state. -/
inductive Tick (os : OS W) : Connection W → Connection W → Prop where
  | read (c : Connection W) : Tick os c (c.log c.moment .read)
  | tooLarge (env : Env) {c : Connection W} {p : RequestParser}
      (hp : bodyTooLarge c.client = .ok (some p)) :
      Tick os c (c.log c.moment (.sendDirect (tooLargeResponse os env c p)))
  | terminate (c : Connection W) : Tick os c c.terminated
  | receive (env : Env) {c : Connection W} (segment : Segment)
      (hs : c.client.isStarted = true) : Tick os c (c.received env segment)
  | expect (c : Connection W) : Tick os c c.continueSent
  | parseBody {c : Connection W} {p p' : RequestParser} {rest : Bytes}
      (hp : c.client.parser = some p) (hstate : p.state = .body)
      (hsmall : bodyTooLarge c.client = .ok none)
      (hparse : p.parseRequest c.client.requestBuffer = some (.returned p' rest)) :
      Tick os c (c.parsed p p' rest)
  | parseHead {c : Connection W} {p : RequestParser} {rest : Bytes} (hbody : BodyHeld c)
      (hhead : (find doubleCrlf c.client.requestBuffer).isSome)
      (hparse : ({} : RequestParser).parseRequest c.client.requestBuffer
        = some (.returned p rest)) :
      Tick os c (c.parsed {} (routed c.client.serverConfigs p) rest)
  | cleanup (c : Connection W) : Tick os c (c.withParser none)
  | requestLine {c : Connection W} {p : RequestParser} (hp : Completed c p) :
      Tick os c (c.withParser (some p.setRequestLine))
  | crash {c : Connection W} {p : RequestParser} (hp : Completed c p) :
      Tick os c (c.log c.moment (.dispatch p .crashed))
  | answer (env : Env) {c : Connection W} {p : RequestParser} (hp : Completed c p)
      (hcgi : p.goesToCgi = false) {b : ResponseBuilder} {world : W} {response : Bytes}
      (hb : (ResponseBuilder.create os c.world env p).buildResponse os env c.world
        = some (b, world, response)) :
      Tick os c (c.normalAnswer p b world response)
  /-- a CGI request is refused, or its handler cannot be had -/
  | refuse (env : Env) {c : Connection W} {p : RequestParser} (hp : Completed c p)
      (hcgi : p.goesToCgi = true) {c' c'' : Connection W} {i : Nat}
      {b b' : ResponseBuilder} {l : Location} (hb : CgiBuilder os env c p c' i b l)
      (hb' : b' = b ∨ b' = b.initRoutes l)
      (hc' : Dropped c' c'')
      {code : Int} (hcode : code = 405 ∨ code = 500) :
      Tick os c (errorAnswer os env c.moment p c'' i b' code)
  | start (env : Env) {c : Connection W} {p : RequestParser} (hp : Completed c p)
      (hcgi : p.goesToCgi = true) {c' : Connection W} {i : Nat} {b : ResponseBuilder}
      {l : Location} (hb : CgiBuilder os env c p c' i b l) (huse : l.useCgi = true)
      (hroute : ((b.initRoutes l).routes.get? p.httpMethod).isSome)
      {h h' : CgiHandler} (hcreate : CgiHandler.create os env c'.world p l.cgiPath i = .ok h)
      (hstart : h.startCgi env = some h') :
      Tick os c (handlerStarted c.moment p c' i (b.initRoutes l) h')
  | timeout (env : Env) {c : Connection W} {h : Nat} {handler : CgiHandler}
      {p : RequestParser} (hw : c.client.waitingForCgi = true)
      (hh : c.client.pendingCgi = some h) (hlive : c.handlers.get? h = some handler)
      (hp : c.client.parser = some p) : Tick os c (cgiTimedOut os env c h p)
  | active (env : Env) {c : Connection W} (hw : c.client.waitingForCgi = true) :
      Tick os c (c.active env)
  | send (env : Env) {c : Connection W} (n : Nat) (hne : c.client.responseBuffer ≠ []) :
      Tick os c (c.chunkSent env n)
  /-- the response is finalized right behind the `send` of its end -/
  | finalize (env : Env) {c c₀ : Connection W} {n : Nat} (hsent : c = c₀.chunkSent env n)
      (hnil : c.client.responseBuffer = []) : Tick os c c.builderDeleted
  | close {c : Connection W} {h : Nat} {handler : CgiHandler} {b : ResponseBuilder}
      (hlive : c.handlers.get? h = some handler)
      (hb : c.builders.get? handler.responseBuilder = some b) :
      Tick os c (c.cgiClosed h handler b)
  | complete (env : Env) {c : Connection W} {h i : Nat} {b : ResponseBuilder}
      (hh : c.client.pendingCgi = some h) (hi : c.client.responseBuilder = some i)
      (hb : c.builders.get? i = some b) : Tick os c (c.cgiCompleted env h i b)
  | handler {c : Connection W} {h : Nat} {handler handler' : CgiHandler}
      (hlive : c.handlers.get? h = some handler)
      (heq : handler'.responseBuilder = handler.responseBuilder) :
      Tick os c (c.withHandler h handler')

/-! ## Faults -/

/-- The dispatch of `p` at `m` goes through a NULL location. -/
inductive NullLocation (m : Moment) (p : RequestParser) : Prop where
  /-- `build_response` on a request without an error -/
  | normal (hcgi : p.goesToCgi = false) (herr : p.errorCode = 0)
      (hl : p.locationConfig = none)
  /-- `processCGIRequest`, with a new builder -/
  | fresh (hcgi : p.goesToCgi = true) (hm : m.builder = none) (hl : p.locationConfig = none)
  /-- `processCGIRequest`, with the builder it finds -/
  | reused (hcgi : p.goesToCgi = true) {b : ResponseBuilder} (hm : m.builder = some b)
      (hl : b.locationConfig = none)
  /-- the constructor of the handler -/
  | root (hcgi : p.goesToCgi = true) {b : ResponseBuilder} {l : Location}
      (hm : m.builder = some b) (hb : b.locationConfig = some l) (huse : l.useCgi = true)
      (hroute : ((b.initRoutes l).routes.get? p.httpMethod).isSome)
      (hpath : l.cgiPath ≠ []) (hl : p.locationConfig = none)

/-- What a connection that has run into a fault has just done. -/
def Cause (fault : Fault) (c : Connection W) : Prop :=
  match fault with
  | .nullServerConfig => (c.moment, .read) ∈ c.trace ∧ ∃ p, c.client.parser = some p
      ∧ p.hasContentLength = true ∧ p.serverConfig = none
  | .nullLocationConfig => ∃ p, (c.moment, .dispatch p .crashed) ∈ c.trace
      ∧ c.client.parser = some p ∧ NullLocation c.moment p
  | _ => True

/-- The program makes ticks only; from a state in `P` it returns in `Q`,
and a fault has its cause. -/
def Ticks {α : Type} (os : OS W) (P : Connection W → Prop) (x : Method W α)
    (Q : α → Connection W → Prop) : Prop :=
  Meets (Tick os) P x Q Cause

/-! ## Every method makes ticks -/

section Methods

variable {os : OS W} {P : Connection W → Prop} {c c' : Connection W}

theorem ticks_get {α : Type} {f : Connection W → Method W α} {Q : α → Connection W → Prop}
    (h : ∀ c, P c → Ticks os (fun c' => c' = c) (f c) Q) : Ticks os P (get >>= f) Q :=
  Meets.get_bind h

theorem ticks_set {Q : Unit → Connection W → Prop} (h : Tick os c c') (hQ : Q () c') :
    Ticks os (fun s => s = c) (set c') Q :=
  Meets.set (fun _ hs => hs ▸ h) hQ

theorem ticks_set_bind {α : Type} {f : Unit → Method W α} {Q : α → Connection W → Prop}
    (h : Tick os c c') (hf : Ticks os (fun s => s = c') (f ()) Q) :
    Ticks os (fun s => s = c) (set c' >>= f) Q :=
  Meets.set_bind (fun _ hs => hs ▸ h) hf

theorem ticks_pure {α : Type} {a : α} {Q : α → Connection W → Prop} (hQ : Q a c) :
    Ticks os (fun s => s = c) (pure a) Q :=
  Meets.pure fun _ hs => hs ▸ hQ

theorem ticks_throw {α : Type} {fault : Fault} {Q : α → Connection W → Prop}
    (h : Cause fault c) : Ticks os (fun s => s = c) (throw fault) Q :=
  Meets.throw fun _ hs => hs ▸ h

/-- Nothing is known where a method ends. -/
abbrev anywhere {α : Type} : α → Connection W → Prop := fun _ _ => True

theorem ticks_terminate : Ticks os P terminate anywhere :=
  ticks_get fun c _ => ticks_set (.terminate c) trivial

theorem ticks_cleanupParser : Ticks os P cleanupParser anywhere :=
  ticks_get fun c _ => ticks_set (.cleanup c) trivial

/-! ## Dispatch -/

theorem mem_log (c : Connection W) (m : Moment) (action : Action) :
    (m, action) ∈ (c.log m action).trace :=
  List.mem_append_right _ List.mem_cons_self

theorem ticks_crash {α : Type} {p : RequestParser} {fault : Fault}
    {Q : α → Connection W → Prop} (hp : Completed c p)
    (h : Cause fault (c.log c.moment (.dispatch p .crashed))) :
    Ticks os (fun s => s = c)
      (set (c.log c.moment (.dispatch p .crashed)) >>= fun _ => throw fault) Q :=
  ticks_set_bind (.crash hp) (ticks_throw h)

theorem ticks_processNormalRequest (env : Env) {p : RequestParser} (hcgi : p.goesToCgi = false)
    (hP : ∀ c, P c → Completed c p) :
    Ticks os P (processNormalRequest os env p) anywhere := by
  refine ticks_get fun c hc => ?_
  have hp := hP c hc
  have hnew := ResponseBuilder.builtFrom_create os env c.world p
  cases hb : (ResponseBuilder.create os c.world env p).buildResponse os env c.world with
  | none =>
      obtain ⟨herr, hl⟩ := ResponseBuilder.buildResponse_eq_none os env hb
      rw [hnew.request] at herr
      rw [hnew.locationConfig] at hl
      exact ticks_crash hp ⟨p, mem_log _ _ _, hp.parser, .normal hcgi herr hl⟩
  | some r => exact ticks_set (.answer env hp hcgi hb) trivial

/-- The builder in use: the one found, or a new one. -/
theorem ensureBuilder_cases {env : Env} {p : RequestParser} {i : Nat} {b : ResponseBuilder}
    (hc' : ensureBuilder os env c p = (c', i)) (hb : c'.builders.get? i = some b) :
    (c' = c ∧ c.client.responseBuilder = some i ∧ c.builder? = some b)
      ∨ (c.client.responseBuilder = none ∧ i = c.builders.next
        ∧ b = ResponseBuilder.create os c.world env p
        ∧ c' = { c with
          client := { c.client with responseBuilder := some i }
          builders := c.builders.alloc b }) := by
  unfold ensureBuilder at hc'
  cases hi : c.client.responseBuilder with
  | some j =>
      rw [hi] at hc'
      obtain ⟨rfl, rfl⟩ := Prod.mk.inj hc'
      exact Or.inl ⟨rfl, rfl, by simp [builder?, hi, hb]⟩
  | none =>
      rw [hi] at hc'
      obtain ⟨rfl, rfl⟩ := Prod.mk.inj hc'
      obtain rfl := Option.some.inj ((Heap.get?_alloc_self _ _).symm.trans hb)
      exact Or.inr ⟨rfl, rfl, rfl, rfl⟩

theorem builder?_eq_none (h : c.client.responseBuilder = none) : c.builder? = none := by
  rw [builder?, h]
  rfl

/-- The results of `processCGIRequest` for `p`. -/
inductive CgiResult (os : OS W) (env : Env) (c : Connection W) (p : RequestParser) :
    EStateM.Result Fault (Connection W) Unit → Prop where
  | crash {fault : Fault}
      (hfault : fault = .useAfterFree ∨ fault = .nullLocationConfig ∧ NullLocation c.moment p) :
      CgiResult os env c p (.error fault (c.log c.moment (.dispatch p .crashed)))
  | refuse {c' c'' : Connection W} {i : Nat} {b b' : ResponseBuilder} {l : Location}
      (hb : CgiBuilder os env c p c' i b l) (hb' : b' = b ∨ b' = b.initRoutes l)
      (hc' : Dropped c' c'') {code : Int} (hcode : code = 405 ∨ code = 500) :
      CgiResult os env c p (.ok () (errorAnswer os env c.moment p c'' i b' code))
  | start {c' : Connection W} {i : Nat} {b : ResponseBuilder} {l : Location}
      (hb : CgiBuilder os env c p c' i b l) (huse : l.useCgi = true)
      (hroute : ((b.initRoutes l).routes.get? p.httpMethod).isSome)
      {h h' : CgiHandler} (hcreate : CgiHandler.create os env c'.world p l.cgiPath i = .ok h)
      (hstart : h.startCgi env = some h') :
      CgiResult os env c p (.ok () (handlerStarted c.moment p c' i (b.initRoutes l) h'))

theorem processCgiRequest_result (os : OS W) (env : Env) {p : RequestParser}
    (hcgi : p.goesToCgi = true) (c : Connection W) :
    CgiResult os env c p (processCgiRequest os env p c) := by
  show CgiResult os env c p ((processCgiRequest os env p).run c)
  simp only [processCgiRequest, EStateM.run_bind, EStateM.run_get]
  cases hused : ensureBuilder os env c p with
  | mk c' i =>
  simp only
  cases hb : c'.builders.get? i with
  | none => exact .crash (Or.inl rfl)
  | some b =>
  have hcases := ensureBuilder_cases hused hb
  simp only
  cases hl : b.locationConfig with
  | none =>
      refine .crash (Or.inr ⟨rfl, ?_⟩)
      rcases hcases with ⟨-, -, hfound⟩ | ⟨hnone, -, rfl, -⟩
      · exact .reused hcgi hfound hl
      · rw [(ResponseBuilder.builtFrom_create os env c.world p).locationConfig] at hl
        exact .fresh hcgi (builder?_eq_none hnone) hl
  | some l =>
  have hbuilder : CgiBuilder os env c p c' i b l := ⟨hused, hb, hl⟩
  simp only
  split
  · exact .refuse hbuilder (Or.inl rfl) (Or.inl rfl) (Or.inl rfl)
  rename_i huse
  have huse : l.useCgi = true := by simpa using huse
  split
  · exact .refuse hbuilder (Or.inr rfl) (Or.inl rfl) (Or.inl rfl)
  rename_i hroute
  have hroute : ((b.initRoutes l).routes.get? p.httpMethod).isSome := by
    simpa [Option.isSome_iff_ne_none] using hroute
  unfold startHandler
  cases hcreate : CgiHandler.create os env c'.world p l.cgiPath i with
  | error failure =>
      cases failure with
      | nullLocationConfig =>
          obtain ⟨hpath, hpl⟩ := CgiHandler.create_nullLocation hcreate
          rcases hcases with ⟨rfl, -, hfound⟩ | ⟨hnone, -, rfl, -⟩
          · exact .crash (Or.inr ⟨rfl, .root hcgi hfound hl huse hroute hpath hpl⟩)
          · rw [(ResponseBuilder.builtFrom_create os env c.world p).locationConfig, hpl] at hl
            cases hl
      | runtimeError => exact .refuse hbuilder (Or.inr rfl) (Or.inr (Or.inr rfl)) (Or.inr rfl)
  | ok h =>
      simp only
      cases hstart : h.startCgi env with
      | none => exact .refuse hbuilder (Or.inr rfl) (Or.inr (Or.inl rfl)) (Or.inr rfl)
      | some h' => exact .start hbuilder huse hroute hcreate hstart

theorem ticks_processCgiRequest (env : Env) {p : RequestParser} (hcgi : p.goesToCgi = true)
    (hP : ∀ c, P c → Completed c p) :
    Ticks os P (processCgiRequest os env p) anywhere := by
  intro c hc
  have hp := hP c hc
  have hresult := processCgiRequest_result os env hcgi c
  generalize processCgiRequest os env p c = r at hresult
  cases hresult with
  | crash hfault =>
      refine ⟨.single (.crash hp), ?_⟩
      rcases hfault with rfl | ⟨rfl, hnull⟩
      · trivial
      · exact ⟨p, mem_log _ _ _, hp.parser, hnull⟩
  | refuse hb hb' hc' hcode => exact ⟨.single (.refuse env hp hcgi hb hb' hc' hcode), trivial⟩
  | start hb huse hroute hcreate hstart =>
      exact ⟨.single (.start env hp hcgi hb huse hroute hcreate hstart), trivial⟩

theorem ticks_processCompletedRequest (env : Env)
    (hP : ∀ c, P c → ∃ p, Completed c p) :
    Ticks os P (processCompletedRequest os env) anywhere := by
  refine ticks_get fun c hc => ?_
  obtain ⟨p, hp⟩ := hP c hc
  have hp' : Completed (c.withParser (some p.setRequestLine)) p.setRequestLine := ⟨rfl, hp.state⟩
  simp only [hp.parser]
  refine ticks_set_bind (.requestLine hp) ?_
  split
  · rename_i hcgi
    exact ticks_processCgiRequest env hcgi fun s hs => hs ▸ hp'
  · rename_i hcgi
    exact ticks_processNormalRequest env (by simpa using hcgi) fun s hs => hs ▸ hp'

/-! ## Reading -/

/-- The read path is entered: the connection is open, and the recorded
Content-Length is within the limit. -/
structure ReadOk (c : Connection W) : Prop where
  started : c.client.isStarted = true
  small : bodyTooLarge c.client = .ok none

theorem bodyTooLarge_error {client : ClientServer} {fault : Fault}
    (h : bodyTooLarge client = .error fault) : fault = .nullServerConfig
      ∧ ∃ p, client.parser = some p ∧ p.hasContentLength = true ∧ p.serverConfig = none := by
  unfold bodyTooLarge at h
  cases hp : client.parser with
  | none => rw [hp] at h; cases h
  | some p =>
      rw [hp] at h
      simp only at h
      split at h
      · rename_i hlength
        cases hcfg : p.serverConfig with
        | none =>
            rw [hcfg] at h
            exact ⟨(Except.error.inj h).symm, p, rfl, hlength, hcfg⟩
        | some cfg => rw [hcfg] at h; cases h
      · cases h

theorem ticks_receive (env : Env) (data : Option Segment) (hP : ∀ c, P c → ReadOk c) :
    Ticks os P (receive env data) (fun ok c => ok = true → ReadOk c) := by
  cases data with
  | none =>
      refine Meets.bind ticks_terminate fun _ => ?_
      exact Meets.pure fun _ _ h => absurd h (by decide)
  | some segment =>
      refine ticks_get fun c hc => ?_
      exact ticks_set_bind (.receive env segment (hP c hc).started)
        (ticks_pure fun _ => ⟨(hP c hc).started, (hP c hc).small⟩)

theorem ticks_readIncomingData (env : Env) (data : Option Segment)
    (hP : ∀ c, P c → c.client.isStarted = true) :
    Ticks os P (readIncomingData os env data) (fun ok c => ok = true → ReadOk c) := by
  refine ticks_get fun c hc => ?_
  refine ticks_set_bind (.read c) ?_
  cases hlarge : bodyTooLarge c.client with
  | error fault =>
      obtain ⟨rfl, p, hp, hlength, hcfg⟩ := bodyTooLarge_error hlarge
      exact ticks_throw ⟨mem_log _ _ _, p, hp, hlength, hcfg⟩
  | ok large =>
      cases large with
      | none =>
          exact ticks_receive env data fun s hs => hs ▸ ⟨hP c hc, hlarge⟩
      | some p =>
          refine Meets.bind (Q := anywhere) ?_ fun _ =>
            Meets.pure fun _ _ h => absurd h (by decide)
          refine ticks_get fun s hs => ?_
          subst hs
          exact ticks_set_bind (.tooLarge env hlarge) ticks_terminate

theorem ticks_handleExpectContinue (hP : ∀ c, P c → ReadOk c) :
    Ticks os P handleExpectContinue (fun _ c => ReadOk c) := by
  refine ticks_get fun c hc => ?_
  split
  · exact ticks_set (.expect c) ⟨(hP c hc).started, (hP c hc).small⟩
  · exact ticks_pure (hP c hc)

theorem ticks_isParsingRequestBody (env : Env) (hP : ∀ c, P c → ReadOk c) :
    Ticks os P (isParsingRequestBody os env) (fun parsing c => parsing = false → BodyHeld c) := by
  refine ticks_get fun c hc => ?_
  cases hp : c.client.parser with
  | none =>
      refine ticks_pure fun _ q hq => ?_
      rw [hp] at hq
      cases hq
  | some p =>
  simp only
  split
  · rename_i hbody
    refine ticks_pure fun _ q hq hstate => ?_
    obtain rfl := Option.some.inj (hp.symm.trans hq)
    exact hbody.resolve_left (not_not.mpr hstate)
  rename_i hbody
  have hstate : p.state = .body := by
    by_contra h
    exact hbody (Or.inl h)
  refine ticks_get fun s hs => ?_
  subst hs
  have hparse : p.parseRequest s.client.requestBuffer
      = some (.returned (p.parseBody s.client.requestBuffer).1
        (p.parseBody s.client.requestBuffer).2) := if_pos hstate
  rw [hparse]
  refine ticks_set_bind (.parseBody hp hstate (hP s hc).small hparse) ?_
  have htrue {s : Connection W} : true = false → BodyHeld s := fun h => absurd h (by decide)
  split
  · rename_i hover
    refine Meets.bind (ticks_processCompletedRequest env fun t ht => ?_) fun _ =>
      Meets.pure fun _ _ => htrue
    subst ht
    refine ⟨_, rfl, fun h => ?_⟩
    rw [h] at hover
    exact absurd hover (by decide)
  · exact ticks_pure htrue

theorem ticks_processRequestHeaders (env : Env) (hP : ∀ c, P c → BodyHeld c) :
    Ticks os P (processRequestHeaders os env) anywhere := by
  refine ticks_get fun c hc => ?_
  split
  · exact ticks_pure trivial
  rename_i hhead
  have hhead : (find doubleCrlf c.client.requestBuffer).isSome := by
    simpa [Option.isSome_iff_ne_none] using hhead
  cases hparse : ({} : RequestParser).parseRequest c.client.requestBuffer with
  | none => exact ticks_throw trivial
  | some r =>
      cases r with
      | threw => exact ticks_cleanupParser
      | returned p rest =>
          refine ticks_set_bind (.parseHead (hP c hc) hhead hparse) ?_
          split
          · exact ticks_pure trivial
          · rename_i hstate
            exact ticks_processCompletedRequest env fun s hs => hs ▸ ⟨_, rfl, hstate⟩

theorem ticks_handleIncomingData (env : Env) (data : Option Segment)
    (hP : ∀ c, P c → c.client.isStarted = true) :
    Ticks os P (handleIncomingData os env data) anywhere := by
  refine Meets.bind (ticks_readIncomingData env data hP) fun ok => ?_
  cases ok with
  | false => exact Meets.pure fun _ _ => trivial
  | true =>
      refine Meets.bind (ticks_handleExpectContinue fun c hc => hc rfl) fun _ => ?_
      refine Meets.bind (ticks_isParsingRequestBody env fun c hc => hc) fun parsing => ?_
      cases parsing with
      | false => exact ticks_processRequestHeaders env fun c hc => hc rfl
      | true => exact Meets.pure fun _ _ => trivial

/-! ## Writing -/

theorem ticks_checkCgiProgress (env : Env) : Ticks os P (checkCgiProgress os env) anywhere := by
  refine ticks_get fun c _ => ?_
  split
  · rename_i h hw hh
    cases hlive : c.handlers.get? h with
    | none => exact ticks_throw trivial
    | some handler =>
        simp only
        split
        · cases hp : c.client.parser with
          | none => exact ticks_throw trivial
          | some p => exact ticks_set (.timeout env hw hh hlive hp) trivial
        · exact ticks_set (.active env hw) trivial
  · exact ticks_pure trivial

theorem ticks_finalizeResponse (env : Env)
    (hP : ∀ c, P c → c.client.responseBuffer = [] ∧ ∃ c₀ n, c = chunkSent env c₀ n) :
    Ticks os P finalizeResponse anywhere := by
  refine ticks_get fun c hc => ?_
  obtain ⟨hnil, c₀, n, hsent⟩ := hP c hc
  refine ticks_set_bind (.finalize env hsent hnil) ?_
  split
  · exact ticks_terminate
  split
  · exact ticks_cleanupParser
  · exact ticks_pure trivial

theorem ticks_sendResponseChunk (env : Env) (sent : Sent)
    (hP : ∀ c, P c → c.client.responseBuffer ≠ []) :
    Ticks os P (sendResponseChunk env sent)
      (fun ok c => ok = true → ∃ c₀ n, c = chunkSent env c₀ n) := by
  cases sent with
  | none =>
      refine Meets.bind ticks_terminate fun _ => ?_
      exact Meets.pure fun _ _ h => absurd h (by decide)
  | some n =>
      refine ticks_get fun c hc => ?_
      exact ticks_set_bind (.send env n.val (hP c hc)) (ticks_pure fun _ => ⟨c, n.val, rfl⟩)

theorem ticks_sendResponse (env : Env) (sent : Sent)
    (hP : ∀ c, P c → c.client.responseBuffer ≠ []) :
    Ticks os P (sendResponse env sent) anywhere := by
  refine Meets.bind (ticks_sendResponseChunk env sent hP) fun ok => ticks_get fun c hc => ?_
  split
  · rename_i hnil
    simp only [Bool.and_eq_true, decide_eq_true_eq] at hnil
    exact ticks_finalizeResponse env fun s hs => hs ▸ ⟨hnil.2, hc hnil.1⟩
  · exact ticks_pure trivial

theorem ticks_handleResponse (env : Env) (sent : Sent) :
    Ticks os P (handleResponse env sent) anywhere := by
  refine ticks_get fun c _ => ?_
  split
  · exact ticks_pure trivial
  rename_i hready
  split
  · exact ticks_terminate
  · refine ticks_sendResponse env sent fun s hs => ?_
    subst hs
    simp only [Bool.not_eq_true', Bool.and_eq_false_iff, decide_eq_false_iff_not] at hready
    intro hnil
    exact hready (Or.inr (not_not.mpr hnil))

theorem ticks_onEvent (env : Env) (data : Option (Option Segment)) (sent : Option Sent)
    (hP : ∀ c, P c → c.client.isStarted = true) :
    Ticks os P (onEvent os env data sent) anywhere := by
  have hinput : Ticks os P (onInput os env data) anywhere := by
    cases data with
    | none => exact Meets.pure fun _ _ => trivial
    | some data => exact ticks_handleIncomingData env data hP
  refine Meets.bind hinput fun _ => ?_
  cases sent with
  | none => exact Meets.pure fun _ _ => trivial
  | some sent =>
      exact Meets.bind (ticks_checkCgiProgress env) fun _ => ticks_handleResponse env sent

/-! ## The pipe of a CGI handler -/

theorem ticks_finalizeCgi (env : Env) (h : Nat) : Ticks os P (finalizeCgi env h) anywhere := by
  refine ticks_get fun c _ => ?_
  cases hlive : c.handlers.get? h with
  | none => exact ticks_throw trivial
  | some handler =>
  simp only
  cases hb : c.builders.get? handler.responseBuilder with
  | none => exact ticks_throw trivial
  | some b =>
  refine ticks_set_bind (.close hlive hb) (ticks_get fun s _ => ?_)
  split
  · rename_i hh
    cases hi : s.client.responseBuilder with
    | none => exact ticks_throw trivial
    | some i =>
    simp only
    cases hb : s.builders.get? i with
    | none => exact ticks_throw trivial
    | some b => exact ticks_set (.complete env hh hi hb) trivial
  · exact ticks_pure trivial

theorem ticks_terminateCgi (h : Nat) : Ticks os P (terminateCgi h) anywhere := by
  refine ticks_get fun c _ => ?_
  cases hlive : c.handlers.get? h with
  | none => exact ticks_throw trivial
  | some handler =>
      simp only
      split
      · exact ticks_set (.handler hlive rfl) trivial
      · exact ticks_pure trivial

theorem ticks_readCgi (env : Env) (h : Nat) (bytes : Bytes) :
    Ticks os P (readCgi env h bytes) anywhere := by
  refine ticks_get fun c _ => ?_
  cases hlive : c.handlers.get? h with
  | none => exact ticks_throw trivial
  | some handler =>
      simp only
      split
      · exact ticks_set (.handler hlive rfl) trivial
      · exact ticks_finalizeCgi env h

theorem ticks_onPipeEvent (env : Env) (h : Nat) (ev : PipeEvent) :
    Ticks os P (onPipeEvent env h ev) anywhere := by
  have hinput : Ticks os P (onPipeInput env h ev.input) anywhere := by
    cases ev.input with
    | none => exact Meets.pure fun _ _ => trivial
    | some bytes => exact ticks_readCgi env h bytes
  refine Meets.bind hinput fun _ => Meets.bind (Q := anywhere) ?_ fun _ => ?_
  · split
    · exact ticks_finalizeCgi env h
    · exact Meets.pure fun _ _ => trivial
  · split
    · exact ticks_terminateCgi h
    · exact Meets.pure fun _ _ => trivial

/-! ## Runs -/

theorem ticks_step (ev : Event) : Ticks os P (step os ev) anywhere := by
  refine ticks_get fun c _ => ?_
  cases ev with
  | client env input output =>
      simp only
      split
      · rename_i hstarted
        exact ticks_onEvent env input output fun s hs => hs ▸ hstarted
      · exact ticks_pure trivial
  | pipe env h ev =>
      simp only
      split
      · exact ticks_onPipeEvent env h ev
      · exact ticks_pure trivial

theorem ticks_run (os : OS W) : ∀ (evs : List Event) (P : Connection W → Prop),
    Ticks os P (run os evs) anywhere
  | [], _ => Meets.pure fun _ _ => trivial
  | ev :: evs, _ => Meets.bind (ticks_step ev) fun _ => ticks_run os evs _

end Methods

end Connection

end Webserv
