import Webserv.Conversation
import Webserv.Inactivity
import Webserv.Pipelining
import Webserv.RequestText

/-!
# A connection as a sequential service

What a connection is for: it reads one request after the other, answers
each with the page that is built for it or with what its script has
written, and sends the responses in the order of the requests
(`webService`). `Holds` says what the connection has in its fields in
each phase of that; this module has what reading, dispatch, closing and
the pipe of a script make of it.
-/

namespace Webserv

open Bytes Program RequestParser Conversation

/-- A script that runs for a request: the builder it writes into, and what
has been read of its output. -/
structure ScriptRun where
  builder : ResponseBuilder
  startTime : Int
  output : Bytes

namespace Connection

variable {W : Type}

section Service

variable (os : OS W)

/-- What `processCGIRequest` makes of a request whose builder is new, at
address `i`: an error of the builder, or a handler. -/
def launch (env : Env) (w : W) (q : RequestParser) (l : Location) (i : Nat) :
    ResponseBuilder × Int ⊕ CgiHandler :=
  let b := ResponseBuilder.create os w env q
  if !l.useCgi then .inl (b, 405)
  else if ((b.initRoutes l).routes.get? q.httpMethod).isNone then .inl (b.initRoutes l, 405)
  else
    match CgiHandler.create os env w q l.cgiPath i with
    | .error _ => .inl (b.initRoutes l, 500)
    | .ok h =>
        match h.startCgi env with
        | none => .inl (b.initRoutes l, 500)
        | some h => .inr h

/-- How a request is begun with, and the file system behind it. -/
inductive Begun (env : Env) (w : W) (q : RequestParser) : Bytes ⊕ ScriptRun → W → Prop where
  | page {b : ResponseBuilder} {w' : W} {response : Bytes} (hcgi : q.goesToCgi = false)
      (hbuild : (ResponseBuilder.create os w env q).buildResponse os env w
        = some (b, w', response)) : Begun env w q (.inl response) w'
  | refused {l : Location} {i : Nat} {b : ResponseBuilder} {code : Int} (hcgi : q.goesToCgi = true)
      (hl : q.locationConfig = some l) (hlaunch : launch os env w q l i = .inl (b, code)) :
      Begun env w q (.inl (errorResponse os env w b code).2) w
  | started {l : Location} {i : Nat} {h : CgiHandler} (hcgi : q.goesToCgi = true)
      (hl : q.locationConfig = some l) (hlaunch : launch os env w q l i = .inr h) :
      Begun env w q (.inr {
        builder := (ResponseBuilder.create os w env q).initRoutes l
        startTime := h.startTime
        output := [] }) w

/-- The response of a script that has ended, or has run for too long. -/
inductive Ended (env : Env) (w : W) (q : RequestParser) (j : ScriptRun) : Bytes → Prop where
  | finished : Ended env w q j
      ((CgiHandler.processCgiOutput j.output j.builder).generateResponseOnly env).2
  | timedOut (hlate : timeOutSeconds < env.now - j.startTime) :
      Ended env w q j
        (errorResponse os env w (ResponseBuilder.create os w env q) 504).2

/-- The service of a connection that routes by `servers`. A request that
is refused or has no location must not look like one for a script. -/
def webService (servers : ServerGroup) :
    Conversation.Service UInt8 RequestParser ScriptRun Env W where
  Asks text q := ∃ p, RequestText servers text p
    ∧ (p.goesToCgi = true → p.locationConfig.isSome) ∧ q = p.setRequestLine
  Begins := Begun os
  Works j j' := ∃ bytes, j' = { j with output := j.output ++ bytes }
  Ends := Ended os
  Closes q := q.isConnectionClose = true

end Service

/-! ## What the connection holds -/

/-- The bytes of an action that the client gets. -/
def onWire : Action → Bytes
  | .send bytes => bytes
  | .sendDirect bytes => bytes
  | _ => []

def wire (c : Connection W) : Bytes := (c.trace.map fun e => onWire e.2).flatten

theorem wire_snoc {c c' : Connection W} {e : Moment × Action}
    (h : c'.trace = c.trace ++ [e]) : wire c' = wire c ++ onWire e.2 := by
  simp [wire, h]

/-- The parser of a request that has been dispatched. -/
structure Dispatched (client : ClientServer) (q : RequestParser) : Prop where
  isOpen : client.isStarted = true
  parser : client.parser = some q
  notBody : q.state ≠ .body
  quiet : Quiet q
  /-- where the connection is kept open, nothing is left behind -/
  kept : q.isConnectionClose = false → q.errorCode = 0 ∧ client.requestBuffer = []

/-- The other fields of the client do not matter. -/
theorem Dispatched.of_eq {client client' : ClientServer} {q : RequestParser}
    (h : Dispatched client q) (hopen : client'.isStarted = client.isStarted)
    (hparser : client'.parser = client.parser)
    (hbuffer : client'.requestBuffer = client.requestBuffer) : Dispatched client' q :=
  ⟨hopen.trans h.isOpen, hparser.trans h.parser, h.notBody, h.quiet, hbuffer ▸ h.kept⟩

/-- Between two requests, or in one: no response and no script. -/
structure Idle (c : Connection W) : Prop where
  isOpen : c.client.isStarted = true
  builder : c.client.responseBuilder = none
  buffer : c.client.responseBuffer = []
  pending : c.client.pendingCgi = none
  waiting : c.client.waitingForCgi = false
  handlers : ∀ h, c.handlers.get? h = none

/-- Where the read path stands that has received a part of a request. -/
inductive Reads (servers : ServerGroup) (client : ClientServer) (part : Bytes) : Prop where
  | inHead (hparser : ∀ p, client.parser = some p → p.state ≠ .body ∧ Quiet p)
      (hbuffer : client.requestBuffer = part) (hfind : find doubleCrlf part = none)
  | inBody {q : RequestParser} (hfind : (find doubleCrlf part).isSome)
      (hwaiting : Waiting servers part q client.requestBuffer)
      (hparser : client.parser = some (routed servers q))

/-- The script of the request in hand. -/
structure Runs (c : Connection W) (j : ScriptRun) (k i : Nat) (h : CgiHandler) : Prop where
  buffer : c.client.responseBuffer = []
  waiting : c.client.waitingForCgi = true
  pending : c.client.pendingCgi = some k
  handler : c.handlers.get? k = some h
  only : ∀ k', k' ≠ k → c.handlers.get? k' = none
  output : h.cgiOutput = j.output
  startTime : h.startTime = j.startTime
  target : h.responseBuilder = i
  current : c.client.responseBuilder = some i
  builder : c.builders.get? i = some j.builder

/-- A response that is being sent. -/
structure Writes (c : Connection W) (rest : Bytes) : Prop where
  ready : c.client.responseReady = true
  buffer : c.client.responseBuffer = rest
  rest : rest ≠ []
  pending : c.client.pendingCgi = none
  waiting : c.client.waitingForCgi = false
  handlers : ∀ h, c.handlers.get? h = none

/-- What the connection has in its fields in each phase. -/
inductive Holds (servers : ServerGroup) (c : Connection W) :
    Conversation.Phase UInt8 RequestParser ScriptRun → Prop where
  | reading {part : Bytes} (hidle : Idle c) (hservers : c.client.serverConfigs = servers)
      (hreads : Reads servers c.client part) : Holds servers c (.reading part)
  | working {text : Bytes} {q : RequestParser} {j : ScriptRun} {k i : Nat} {h : CgiHandler}
      (hq : Dispatched c.client q) (hservers : c.client.serverConfigs = servers)
      (hruns : Runs c j k i h) : Holds servers c (.working text q j)
  | writing {q : RequestParser} {rest : Bytes} (hq : Dispatched c.client q)
      (hservers : c.client.serverConfigs = servers) (hwrites : Writes c rest) :
      Holds servers c (.writing q rest)
  | closed {part rest : Bytes} (hclosed : c.client.isStarted = false)
      (hservers : c.client.serverConfigs = servers) (hclean : Clean c.client)
      (hhandlers : ∀ h, c.handlers.get? h = none) : Holds servers c (.closed part rest)

/-! ## Dispatch -/

section Dispatch

variable (os : OS W) (env : Env) {servers : ServerGroup} {c : Connection W} {q : RequestParser}

theorem deletePending_idle (h : c.client.pendingCgi = none) :
    c.deletePending = c.forgetPending := by
  simp only [deletePending, h, delete]
  rfl

/-- A request that is no script's is answered with its page. -/
theorem processNormalRequest_answers (hcgi : q.goesToCgi = false)
    (hlocated : q.errorCode = 0 → q.locationConfig.isSome) :
    ∃ b w' response, processNormalRequest os env q c = .ok () (c.normalAnswer q b w' response)
      ∧ Begun os env c.world q (.inl response) w' ∧ response ≠ [] := by
  cases hbuild : (ResponseBuilder.create os c.world env q).buildResponse os env c.world with
  | none =>
      obtain ⟨herr, hl⟩ := ResponseBuilder.buildResponse_eq_none os env hbuild
      have hnew := ResponseBuilder.builtFrom_create os env c.world q
      rw [hnew.request] at herr
      rw [hnew.locationConfig] at hl
      have hsome := hlocated herr
      rw [hl] at hsome
      cases hsome
  | some r =>
      obtain ⟨b, w', response⟩ := r
      refine ⟨b, w', response, ?_, .page hcgi hbuild, buildResponse_ne_nil os env hbuild⟩
      show (processNormalRequest os env q).run c = _
      simp only [processNormalRequest, EStateM.run_bind, EStateM.run_get, hbuild, EStateM.run_set]

/-- The connection with a new builder for `q`. -/
def withBuilder (c : Connection W) (b : ResponseBuilder) : Connection W :=
  { c with
    client := { c.client with responseBuilder := some c.builders.next }
    builders := c.builders.alloc b }

/-- What becomes of a request for a script, where no builder is alive and
no script is pending. -/
theorem processCgiRequest_launch (hbuilder : c.client.responseBuilder = none)
    (hpending : c.client.pendingCgi = none) {l : Location} (hl : q.locationConfig = some l) :
    processCgiRequest os env q c
      = .ok () (match launch os env c.world q l c.builders.next with
        | .inl (b, code) => errorAnswer os env c.moment q
            ((c.withBuilder (ResponseBuilder.create os c.world env q)).forgetPending)
            c.builders.next b code
        | .inr h => handlerStarted c.moment q
            (c.withBuilder (ResponseBuilder.create os c.world env q)) c.builders.next
            ((ResponseBuilder.create os c.world env q).initRoutes l) h) := by
  have hensure : ensureBuilder os env c q
      = (c.withBuilder (ResponseBuilder.create os c.world env q), c.builders.next) := by
    simp only [ensureBuilder, hbuilder]
    rfl
  have hget : (c.withBuilder (ResponseBuilder.create os c.world env q)).builders.get?
      c.builders.next = some (ResponseBuilder.create os c.world env q) :=
    Heap.get?_alloc_self _ _
  have hlocation : (ResponseBuilder.create os c.world env q).locationConfig = some l := by
    rw [(ResponseBuilder.builtFrom_create os env c.world q).locationConfig, hl]
  have hforget : (c.withBuilder (ResponseBuilder.create os c.world env q)).forgetPending
      = c.withBuilder (ResponseBuilder.create os c.world env q) := by
    simp only [withBuilder, forgetPending, hpending]
  have hworld : (c.withBuilder (ResponseBuilder.create os c.world env q)).world = c.world := rfl
  show (processCgiRequest os env q).run c = _
  simp only [processCgiRequest, EStateM.run_bind, EStateM.run_get, hensure, hget, hlocation, launch]
  split
  · rw [hforget]
    rfl
  split
  · rw [hforget]
    rfl
  simp only [startHandler, hworld]
  cases hcreate : CgiHandler.create os env c.world q l.cgiPath c.builders.next with
  | error failure =>
      cases failure with
      | runtimeError =>
          simp only [deletePending_idle
            (show (c.withBuilder _).client.pendingCgi = none from hpending)]
          rfl
      | nullLocationConfig =>
          obtain ⟨-, hnone⟩ := CgiHandler.create_nullLocation hcreate
          rw [hl] at hnone
          cases hnone
  | ok h =>
      simp only
      cases h.startCgi env with
      | none => rfl
      | some h' => rfl

theorem launch_started {w : W} {l : Location} {i : Nat} {h : CgiHandler}
    (hlaunch : launch os env w q l i = .inr h) : h.cgiOutput = [] ∧ h.responseBuilder = i := by
  simp only [launch] at hlaunch
  split at hlaunch
  · cases hlaunch
  split at hlaunch
  · cases hlaunch
  cases hcreate : CgiHandler.create os env w q l.cgiPath i with
  | error failure =>
      rw [hcreate] at hlaunch
      cases hlaunch
  | ok h₀ =>
      have hnew : h₀.cgiOutput = [] ∧ h₀.responseBuilder = i := by
        obtain ⟨_, _, -, rfl⟩ := CgiHandler.create_eq_ok hcreate
        exact ⟨rfl, rfl⟩
      rw [hcreate] at hlaunch
      cases hstart : h₀.startCgi env with
      | none =>
          simp only [hstart] at hlaunch
          cases hlaunch
      | some h' =>
          simp only [hstart] at hlaunch
          cases hlaunch
          unfold CgiHandler.startCgi at hstart
          split at hstart
          · cases hstart
            exact hnew
          · cases hstart

/-- The phase a request is in that has been begun with. -/
def begun (text : Bytes) (q : RequestParser) :
    Bytes ⊕ ScriptRun → Conversation.Phase UInt8 RequestParser ScriptRun
  | .inl response => .writing q response
  | .inr j => .working text q j

/-- What is dispatched: a request that is whole, on a connection that does
nothing else. -/
structure Whole (c : Connection W) (p : RequestParser) : Prop where
  idle : Idle c
  parser : c.client.parser = some p
  notBody : p.state ≠ .body
  quiet : Quiet p
  kept : p.isConnectionClose = false → p.errorCode = 0 ∧ c.client.requestBuffer = []
  located : p.errorCode = 0 → p.locationConfig.isSome
  script : p.goesToCgi = true → p.locationConfig.isSome

variable {p : RequestParser}

/-- A refused script is answered with the page of the error. -/
theorem holds_errorAnswer (h : Whole c p) (m : Moment) (i : Nat) (b : ResponseBuilder)
    (code : Int) (b' : ResponseBuilder) :
    Holds c.client.serverConfigs
      (errorAnswer os env m p.setRequestLine
        (((c.withParser (some p.setRequestLine)).withBuilder b').forgetPending) i b code)
      (.writing p.setRequestLine (errorResponse os env c.world b code).2) :=
  .writing ⟨h.idle.isOpen, rfl, h.notBody, ⟨h.quiet.small, h.quiet.silent⟩, h.kept⟩ rfl
    ⟨rfl, rfl, errorResponse_ne_nil os env c.world b code, rfl, h.idle.waiting, h.idle.handlers⟩

theorem holds_handlerStarted (h : Whole c p) (m : Moment) (text : Bytes) {l : Location}
    {b : ResponseBuilder} {handler : CgiHandler}
    (hlaunch : launch os env c.world p.setRequestLine l c.builders.next = .inr handler) :
    Holds c.client.serverConfigs
      (handlerStarted m p.setRequestLine
        ((c.withParser (some p.setRequestLine)).withBuilder b) c.builders.next (b.initRoutes l)
        handler)
      (.working text p.setRequestLine {
        builder := b.initRoutes l
        startTime := handler.startTime
        output := [] }) := by
  obtain ⟨houtput, htarget⟩ := launch_started os env hlaunch
  refine .working ⟨h.idle.isOpen, rfl, h.notBody, ⟨h.quiet.small, h.quiet.silent⟩, h.kept⟩ rfl
    (k := c.handlers.next) ⟨h.idle.buffer, rfl, rfl, Heap.get?_alloc_self _ _, ?_, houtput, rfl,
      htarget, rfl, ?_⟩
  · intro k' hk'
    show (c.handlers.alloc handler).get? k' = none
    rw [Heap.get?_alloc_of_ne _ _ hk']
    exact h.idle.handlers k'
  · show ((c.builders.alloc b).set c.builders.next (b.initRoutes l)).get? c.builders.next = _
    rw [Heap.get?_set_of_live (Heap.get?_alloc_self _ _), if_pos rfl]

/-- A whole request is begun with. -/
theorem Whole.dispatch (h : Whole c p) (text : Bytes) :
    ∃ c' r, processCompletedRequest os env c = .ok () c'
      ∧ Begun os env c.world p.setRequestLine r c'.world
      ∧ Holds c.client.serverConfigs c' (begun text p.setRequestLine r) ∧ wire c' = wire c := by
  rw [processCompletedRequest_eq os env h.parser]
  by_cases hcgi : p.goesToCgi = true
  · obtain ⟨l, hl⟩ := Option.isSome_iff_exists.mp (h.script hcgi)
    have hcgi' : p.setRequestLine.goesToCgi = true := hcgi
    have hl' : p.setRequestLine.locationConfig = some l := hl
    have hlaunch := processCgiRequest_launch os env
      (c := c.withParser (some p.setRequestLine)) h.idle.builder h.idle.pending hl'
    rw [if_pos hcgi, hlaunch]
    cases hr : launch os env c.world p.setRequestLine l c.builders.next with
    | inl refused =>
        obtain ⟨b, code⟩ := refused
        have hr' : launch os env (c.withParser (some p.setRequestLine)).world p.setRequestLine l
            (c.withParser (some p.setRequestLine)).builders.next = .inl (b, code) := hr
        rw [hr']
        refine ⟨_, .inl _, rfl, .refused hcgi' hl' hr, holds_errorAnswer os env h _ _ b code _, ?_⟩
        exact (wire_snoc rfl).trans (List.append_nil _)
    | inr handler =>
        have hr' : launch os env (c.withParser (some p.setRequestLine)).world p.setRequestLine l
            (c.withParser (some p.setRequestLine)).builders.next = .inr handler := hr
        rw [hr']
        refine ⟨_, .inr _, rfl, .started hcgi' hl' hr, holds_handlerStarted os env h _ text hr, ?_⟩
        exact (wire_snoc rfl).trans (List.append_nil _)
  · have hnot : p.setRequestLine.goesToCgi = false := Bool.eq_false_iff.mpr hcgi
    obtain ⟨b, w', response, hanswer, hbegun, hne⟩ := processNormalRequest_answers os env
      (c := c.withParser (some p.setRequestLine)) hnot h.located
    rw [if_neg hcgi, hanswer]
    refine ⟨_, .inl response, rfl, hbegun, .writing ⟨h.idle.isOpen, rfl, h.notBody,
      ⟨h.quiet.small, h.quiet.silent⟩, h.kept⟩ rfl ⟨rfl, rfl, hne, h.idle.pending,
        h.idle.waiting, h.idle.handlers⟩, ?_⟩
    exact (wire_snoc rfl).trans (List.append_nil _)

end Dispatch

/-! ## Reading -/

section Reading

variable (os : OS W) (env : Env) {servers : ServerGroup} {c : Connection W} {part : Bytes}

theorem Reads.quiet (h : Reads servers c.client part) {p : RequestParser}
    (hp : c.client.parser = some p) : Quiet p := by
  cases h with
  | inHead hparser => exact (hparser p hp).2
  | inBody _ hwaiting hparser =>
      obtain rfl := Option.some.inj (hparser.symm.trans hp)
      exact hwaiting.quiet

theorem bodyTooLarge_quiet {client : ClientServer}
    (h : ∀ p, client.parser = some p → Quiet p) : bodyTooLarge client = .ok none := by
  unfold bodyTooLarge
  cases hp : client.parser with
  | none => rfl
  | some p =>
      simp only
      split
      · rename_i hlength
        obtain ⟨cfg, hcfg, hsmall⟩ := (h p hp).small hlength
        rw [hcfg]
        simp only [if_neg (Nat.not_lt_of_le hsmall)]
      · rfl

theorem expectHandled_quiet (h : ∀ p, c.client.parser = some p → Quiet p) :
    expectHandled c = c := by
  unfold expectHandled
  cases hp : c.client.parser with
  | none => rfl
  | some p =>
      rw [Option.any_some, (h p hp).silent]
      rfl

/-- Behind the segment. -/
def withSegment (env : Env) (c : Connection W) (segment : Segment) : Connection W :=
  (c.log c.moment .read).received env segment

theorem onInput_segment (h : ∀ p, c.client.parser = some p → Quiet p) (segment : Segment) :
    onInput os env (some (some segment)) c = parseReceived os env (withSegment env c segment) := by
  show handleIncomingData os env (some segment) c = _
  rw [handleIncomingData_eq os env segment (bodyTooLarge_quiet h)]
  exact congrArg (parseReceived os env)
    (expectHandled_quiet (c := withSegment env c segment) h)

theorem Idle.withSegment (h : Idle c) (segment : Segment) : Idle (withSegment env c segment) :=
  ⟨h.isOpen, h.builder, h.buffer, h.pending, h.waiting, h.handlers⟩

theorem wire_withSegment (segment : Segment) : wire (withSegment env c segment) = wire c :=
  (wire_snoc (e := (c.moment, .read)) rfl).trans (List.append_nil _)

theorem Idle.parsed (h : Idle c) (before p : RequestParser) (rest : Bytes) :
    Idle (c.parsed before p rest) :=
  ⟨h.isOpen, h.builder, h.buffer, h.pending, h.waiting, h.handlers⟩

theorem wire_parsed (before p : RequestParser) (rest : Bytes) :
    wire (c.parsed before p rest) = wire c :=
  (wire_snoc rfl).trans (List.append_nil _)

/-- A body that is read to its end. -/
theorem parseReceived_over {c' : Connection W} {p q : RequestParser} {rest : Bytes}
    (hp : c.client.parser = some p) (hstate : p.state = .body)
    (hw : c.client.waitingForCgi = false)
    (hparse : p.parseRequest c.client.requestBuffer = some (.returned q rest))
    (hq : q.state ≠ .body)
    (hok : processCompletedRequest os env (c.parsed p q rest) = .ok () c') :
    parseReceived os env c = .ok () c' := by
  have hgo : ¬(p.state ≠ .body ∨ c.client.waitingForCgi = true) := by
    rw [hstate, hw]
    decide
  have hover : q.state = .done ∨ q.state = .errorParse := by
    have hnext := parseBody_state hstate c.client.requestBuffer
    rw [parseRequest_inBody hstate hparse] at hnext
    cases hs : q.state with
    | requestLine => exact absurd hs hnext.1
    | headers => exact absurd hs hnext.2
    | body => exact absurd hs hq
    | done => exact Or.inl rfl
    | errorParse => exact Or.inr rfl
  have hdispatch : (processCompletedRequest os env).run (c.parsed p q rest) = .ok () c' := hok
  show (parseReceived os env).run c = _
  simp only [parseReceived, isParsingRequestBody, parseRequestBody, EStateM.run_bind,
    EStateM.run_get, hp, if_neg hgo, hparse, EStateM.run_set, if_pos hover, hdispatch]
  rfl

theorem find_append_isSome {pat s : Bytes} (h : (find pat s).isSome) (t : Bytes) :
    (find pat (s ++ t)).isSome := by
  obtain ⟨k, hk⟩ := Option.isSome_iff_exists.mp h
  rw [find_append t hk]
  rfl

/-- A segment with a part of a request. -/
theorem onInput_part (hidle : Idle c) (hservers : c.client.serverConfigs = servers)
    (hreads : Reads servers c.client part) (segment : Segment) {more : Bytes}
    {q : RequestParser} (hmore : more ≠ [])
    (htext : RequestText servers (part ++ segment.val ++ more) q)
    (hcut : CutAllowed servers (part ++ segment.val)) :
    ∃ c', onInput os env (some (some segment)) c = .ok () c'
      ∧ Holds servers c' (.reading (part ++ segment.val)) ∧ wire c' = wire c
      ∧ c'.world = c.world := by
  have hpart := htext.part rfl hmore hcut
  have hidle' := hidle.withSegment env segment
  rw [onInput_segment os env (fun p hp => hreads.quiet hp)]
  cases hreads with
  | inHead hparser hbuffer hfind =>
      have hbuffer' : (withSegment env c segment).client.requestBuffer = part ++ segment.val :=
        congrArg (· ++ segment.val) hbuffer
      rw [parseReceived_atHead os env (c := withSegment env c segment)
        fun p hp hstate => absurd hstate (hparser p hp).1]
      by_cases hnone : find doubleCrlf (part ++ segment.val) = none
      · rw [processRequestHeaders_waits os env (hbuffer' ▸ hnone)]
        exact ⟨_, rfl, .reading hidle' hservers (.inHead hparser hbuffer' hnone),
          wire_withSegment env segment, rfl⟩
      · obtain ⟨q₁, rest, hwaiting⟩ := hpart.resolve_left hnone
        have hsome := Option.isSome_iff_ne_none.mpr hnone
        rw [processRequestHeaders_parsed os env (hbuffer' ▸ hsome) (hbuffer' ▸ hwaiting.parse)]
        rw [show (withSegment env c segment).client.serverConfigs = servers from hservers,
          if_pos hwaiting.state]
        exact ⟨_, rfl, .reading (hidle'.parsed {} _ rest) hservers (.inBody hsome hwaiting rfl),
          (wire_parsed {} _ rest).trans (wire_withSegment env segment), rfl⟩
  | @inBody q₀ hfind hwaiting hparser =>
      have hsome := find_append_isSome hfind segment.val
      obtain ⟨q₁, rest, hnext⟩ := hpart.resolve_left (Option.isSome_iff_ne_none.mp hsome)
      have hparse := hwaiting.resume segment.val segment.property.1 q₁ rest hnext.parse
        hnext.errorCode
      have hbody := (parseReceived_body os env (c := withSegment env c segment) hparser
        hwaiting.state hidle.waiting hparse).1 hnext.state
      exact ⟨_, hbody, .reading (hidle'.parsed _ _ rest) hservers (.inBody hsome hnext rfl),
        (wire_parsed _ _ rest).trans (wire_withSegment env segment), rfl⟩

/-- The connection with the parser of a whole text. -/
theorem whole_parsed (hidle : Idle c) {text rest : Bytes} {before p : RequestParser}
    (htext : RequestText servers text p) (hrest : p.errorCode = 0 → rest = [])
    (hscript : p.goesToCgi = true → p.locationConfig.isSome) :
    Whole (c.parsed before p rest) p where
  idle := hidle.parsed before p rest
  parser := rfl
  notBody := htext.parsed.notBody
  quiet := htext.parsed.quiet
  kept := fun hopen => by
    have herr : p.errorCode = 0 := by
      by_contra herr
      rw [htext.settled.2 herr] at hopen
      cases hopen
    exact ⟨herr, hrest herr⟩
  located := htext.settled.1
  script := hscript

/-- A segment that ends a request. -/
theorem onInput_whole (hidle : Idle c) (hservers : c.client.serverConfigs = servers)
    (hreads : Reads servers c.client part) (segment : Segment) {p : RequestParser}
    (htext : RequestText servers (part ++ segment.val) p)
    (hscript : p.goesToCgi = true → p.locationConfig.isSome) :
    ∃ c' r, onInput os env (some (some segment)) c = .ok () c'
      ∧ Begun os env c.world p.setRequestLine r c'.world
      ∧ Holds servers c' (begun (part ++ segment.val) p.setRequestLine r)
      ∧ wire c' = wire c := by
  obtain ⟨q, rest, hparse, hrouted, hrest, hends⟩ := htext.parsed.parse
  have hidle' := hidle.withSegment env segment
  have hwire := wire_withSegment (c := c) env segment
  rw [onInput_segment os env (fun p hp => hreads.quiet hp)]
  cases hreads with
  | inHead hparser hbuffer hfind =>
      have hbuffer' : (withSegment env c segment).client.requestBuffer = part ++ segment.val :=
        congrArg (· ++ segment.val) hbuffer
      obtain ⟨c', r, hok, hbegun, hholds, hsame⟩ :=
        Whole.dispatch os env (c := (withSegment env c segment).parsed {} p rest)
          (whole_parsed hidle' htext hrest hscript) (part ++ segment.val)
      rw [parseReceived_atHead os env (c := withSegment env c segment)
          fun p hp hstate => absurd hstate (hparser p hp).1,
        processRequestHeaders_parsed os env (hbuffer' ▸ htext.find) (hbuffer' ▸ hparse),
        show (withSegment env c segment).client.serverConfigs = servers from hservers, ← hrouted,
        if_neg htext.parsed.notBody]
      refine ⟨c', r, hok, hbegun, ?_, hsame.trans ((wire_parsed {} p rest).trans hwire)⟩
      rwa [show ((withSegment env c segment).parsed {} p rest).client.serverConfigs = servers
        from hservers] at hholds
  | @inBody q₀ hfind hwaiting hparser =>
      -- what is refused at the end of its head has no part behind it
      have herr : q.errorCode = 0 := by
        refine hends.resolve_right fun hend => ?_
        obtain ⟨k, hk⟩ := Option.isSome_iff_exists.mp hfind
        have hnone := find_part_of_ends hend (List.prefix_append part segment.val) (by
          have hpos := List.length_pos_iff.mpr segment.property.1
          rw [List.length_append]
          omega)
        rw [hk] at hnone
        cases hnone
      have hresume := hwaiting.resume segment.val segment.property.1 q rest hparse herr
      rw [← hrouted] at hresume
      obtain ⟨c', r, hok, hbegun, hholds, hsame⟩ :=
        Whole.dispatch os env (c := (withSegment env c segment).parsed (routed servers q₀) p rest)
          (whole_parsed hidle' htext hrest hscript) (part ++ segment.val)
      refine ⟨c', r, parseReceived_over os env (c := withSegment env c segment) hparser
        hwaiting.state hidle.waiting hresume htext.parsed.notBody hok, hbegun, ?_,
        hsame.trans ((wire_parsed _ p rest).trans hwire)⟩
      rwa [show ((withSegment env c segment).parsed (routed servers q₀) p rest).client.serverConfigs
        = servers from hservers] at hholds

end Reading

/-! ## Closing -/

section Closing

variable {servers : ServerGroup} {c : Connection W}
  {phase : Conversation.Phase UInt8 RequestParser ScriptRun}

theorem wire_terminated (c : Connection W) : wire c.terminated = wire c := by
  unfold terminated
  split
  · exact (wire_snoc rfl).trans (List.append_nil _)
  · rfl

theorem world_terminated (c : Connection W) : c.terminated.world = c.world := by
  unfold terminated
  split
  · rfl
  · rfl

theorem terminated_of_closed (h : c.client.isStarted = false) : c.terminated = c := by
  rw [terminated, h]
  rfl

/-- The handler that is pending, and no other one, can be alive. -/
theorem Holds.handlers_terminated (h : Holds servers c phase) (k : Nat) :
    c.terminated.handlers.get? k = none := by
  unfold terminated
  split
  · show (delete c.handlers c.client.pendingCgi).get? k = none
    cases h with
    | reading hidle =>
        rw [hidle.pending]
        exact hidle.handlers k
    | @working _ _ _ k₀ _ _ _ _ hruns =>
        rw [hruns.pending]
        show (c.handlers.free k₀).get? k = none
        rw [Heap.get?_free]
        split
        · rfl
        · rename_i hne
          exact hruns.only k hne
    | writing _ _ hwrites =>
        rw [hwrites.pending]
        exact hwrites.handlers k
    | closed _ _ _ hhandlers =>
        unfold delete
        split
        · rw [Heap.get?_free]
          split
          · rfl
          · exact hhandlers k
        · exact hhandlers k
  · rename_i hclosed
    cases h with
    | reading hidle => exact absurd hidle.isOpen hclosed
    | working hq => exact absurd hq.isOpen hclosed
    | writing hq => exact absurd hq.isOpen hclosed
    | closed _ _ _ hhandlers => exact hhandlers k

theorem Holds.group (h : Holds servers c phase) : c.client.serverConfigs = servers := by
  cases h with
  | reading _ hservers => exact hservers
  | working _ hservers => exact hservers
  | writing _ hservers => exact hservers
  | closed _ hservers => exact hservers

theorem Holds.terminated (h : Holds servers c phase) :
    Holds servers c.terminated (.closed phase.unanswered phase.unwritten) := by
  by_cases hopen : c.client.isStarted = true
  · refine .closed (isStarted_terminated c) ?_ ?_ h.handlers_terminated
    · rw [Connection.terminated, if_pos hopen]
      exact h.group
    · rw [Connection.terminated, if_pos hopen]
      exact ⟨rfl, rfl, rfl, rfl, rfl, rfl⟩
  · cases h with
    | reading hidle => exact absurd hidle.isOpen hopen
    | working hq => exact absurd hq.isOpen hopen
    | writing hq => exact absurd hq.isOpen hopen
    | closed hclosed hservers hclean hhandlers =>
        rw [terminated_of_closed hclosed]
        exact .closed hclosed hservers hclean hhandlers

theorem closed_terminated {part rest : Bytes} (hopen : c.client.isStarted = true)
    (hservers : c.client.serverConfigs = servers) (hpending : c.client.pendingCgi = none)
    (hhandlers : ∀ h, c.handlers.get? h = none) :
    Holds servers c.terminated (.closed part rest) := by
  rw [Connection.terminated, if_pos hopen, hpending]
  exact .closed rfl hservers ⟨rfl, rfl, rfl, rfl, rfl, rfl⟩ hhandlers

/-- The history and the file system are no matter. -/
theorem Holds.withTrace (h : Holds servers c phase) (world : W) (trace : List (Moment × Action)) :
    Holds servers { c with world := world, trace := trace } phase := by
  cases h with
  | reading hidle hservers hreads =>
      exact .reading ⟨hidle.isOpen, hidle.builder, hidle.buffer, hidle.pending, hidle.waiting,
        hidle.handlers⟩ hservers hreads
  | working hq hservers hruns =>
      exact .working hq hservers ⟨hruns.buffer, hruns.waiting, hruns.pending, hruns.handler,
        hruns.only, hruns.output, hruns.startTime, hruns.target, hruns.current, hruns.builder⟩
  | writing hq hservers hwrites =>
      exact .writing hq hservers ⟨hwrites.ready, hwrites.buffer, hwrites.rest, hwrites.pending,
        hwrites.waiting, hwrites.handlers⟩
  | closed hclosed hservers hclean hhandlers =>
      exact .closed hclosed hservers hclean hhandlers

/-- An open connection has no parser that the read path would refuse. -/
theorem Holds.quiet (h : Holds servers c phase) (hopen : c.client.isStarted = true)
    {p : RequestParser} (hp : c.client.parser = some p) : Quiet p := by
  cases h with
  | reading _ _ hreads => exact hreads.quiet hp
  | working hq => exact Option.some.inj (hq.parser.symm.trans hp) ▸ hq.quiet
  | writing hq => exact Option.some.inj (hq.parser.symm.trans hp) ▸ hq.quiet
  | closed hclosed =>
      rw [hopen] at hclosed
      cases hclosed

end Closing

/-! ## The pipe -/

section Pipe

variable {servers : ServerGroup} {c : Connection W} {text : Bytes} {q : RequestParser}
  {j : ScriptRun} {k i : Nat} {h : CgiHandler}

/-- The script has written. -/
theorem readCgi_runs (env : Env) (hruns : Runs c j k i h) {bytes : Bytes} (hne : bytes ≠ []) :
    readCgi env k bytes c = .ok () (c.withHandler k (h.read bytes))
      ∧ Runs (c.withHandler k (h.read bytes)) { j with output := j.output ++ bytes } k i
        (h.read bytes) := by
  have hset := Heap.get?_set_of_live hruns.handler (h.read bytes)
  refine ⟨?_, hruns.buffer, hruns.waiting, hruns.pending, ?_, fun k' hk' => ?_, ?_,
    hruns.startTime, hruns.target, hruns.current, hruns.builder⟩
  · show (readCgi env k bytes).run c = _
    simp only [readCgi, EStateM.run_bind, EStateM.run_get, hruns.handler, if_pos hne]
    rfl
  · exact (hset k).trans (if_pos rfl)
  · exact (hset k').trans ((if_neg hk').trans (hruns.only k' hk'))
  · exact congrArg (· ++ bytes) hruns.output

/-- The pipe has failed: what is left is the time-out. -/
theorem terminateCgi_runs (hopen : c.client.isStarted = true) (hruns : Runs c j k i h) :
    terminateCgi k c = .ok () (c.withHandler k { h.closed with bodyFd := false })
      ∧ Runs (c.withHandler k { h.closed with bodyFd := false }) j k i
        { h.closed with bodyFd := false } := by
  have hset := Heap.get?_set_of_live hruns.handler { h.closed with bodyFd := false }
  refine ⟨?_, hruns.buffer, hruns.waiting, hruns.pending, ?_, fun k' hk' => ?_, hruns.output,
    hruns.startTime, hruns.target, hruns.current, hruns.builder⟩
  · show (terminateCgi k).run c = _
    simp only [terminateCgi, EStateM.run_bind, EStateM.run_get, hruns.handler, if_pos hopen]
    rfl
  · exact (hset k).trans (if_pos rfl)
  · exact (hset k').trans ((if_neg hk').trans (hruns.only k' hk'))

theorem wire_cgiCompleted (env : Env) (c : Connection W) (k i : Nat) (b : ResponseBuilder) :
    wire (c.cgiCompleted env k i b) = wire c :=
  (wire_snoc rfl).trans (List.append_nil _)

theorem world_cgiCompleted (env : Env) (c : Connection W) (k i : Nat) (b : ResponseBuilder) :
    (c.cgiCompleted env k i b).world = c.world := rfl

theorem lastActivity_cgiCompleted (env : Env) (c : Connection W) (k i : Nat) (b : ResponseBuilder) :
    (c.cgiCompleted env k i b).client.lastActivity = c.client.lastActivity := by
  simp only [cgiCompleted]

theorem holds_cgiCompleted (env : Env) (hq : Dispatched c.client q)
    (hservers : c.client.serverConfigs = servers)
    (honly : ∀ k', k' ≠ k → c.handlers.get? k' = none) (i : Nat) (b : ResponseBuilder) :
    Holds servers (c.cgiCompleted env k i b) (.writing q (b.generateResponseOnly env).2) := by
  refine .writing (hq.of_eq rfl rfl rfl) hservers
    ⟨rfl, rfl, generateResponseOnly_ne_nil env b, rfl, rfl, fun k' => ?_⟩
  show (c.handlers.free k).get? k' = none
  rw [Heap.get?_free]
  split
  · rfl
  · rename_i hne
    exact honly k' hne

/-- The script has ended, and its response is there. -/
theorem finalizeCgi_runs (env : Env) (hq : Dispatched c.client q)
    (hservers : c.client.serverConfigs = servers) (hruns : Runs c j k i h) :
    ∃ c', finalizeCgi env k c = .ok () c'
      ∧ Holds servers c' (.writing q
        ((CgiHandler.processCgiOutput j.output j.builder).generateResponseOnly env).2)
      ∧ wire c' = wire c ∧ c'.world = c.world
      ∧ c'.client.lastActivity = c.client.lastActivity := by
  have hbuilder : c.builders.get? h.responseBuilder = some j.builder := hruns.target ▸ hruns.builder
  have hset : (c.builders.set h.responseBuilder
      (CgiHandler.processCgiOutput h.cgiOutput j.builder)).get? i
        = some (CgiHandler.processCgiOutput j.output j.builder) := by
    rw [hruns.target, hruns.output, Heap.get?_set_of_live hruns.builder, if_pos rfl]
  have hcomplete : (onCgiComplete env k).run (c.cgiClosed k h j.builder)
      = .ok () ((c.cgiClosed k h j.builder).cgiCompleted env k i
        (CgiHandler.processCgiOutput j.output j.builder)) := by
    simp only [onCgiComplete, EStateM.run_bind, EStateM.run_get,
      show (c.cgiClosed k h j.builder).client = c.client from rfl, hruns.pending, if_true,
      hruns.current,
      show (c.cgiClosed k h j.builder).builders = c.builders.set h.responseBuilder
        (CgiHandler.processCgiOutput h.cgiOutput j.builder) from rfl, hset]
    rfl
  refine ⟨(c.cgiClosed k h j.builder).cgiCompleted env k i
    (CgiHandler.processCgiOutput j.output j.builder), ?_, ?_, ?_,
    world_cgiCompleted env (c.cgiClosed k h j.builder) k i _,
    lastActivity_cgiCompleted env (c.cgiClosed k h j.builder) k i _⟩
  · show (finalizeCgi env k).run c = _
    simp only [finalizeCgi, EStateM.run_bind, EStateM.run_get, hruns.handler, hbuilder,
      EStateM.run_set, hcomplete]
  · refine holds_cgiCompleted env (c := c.cgiClosed k h j.builder) hq hservers
      (fun k' hk' => ?_) i _
    show (c.handlers.set k h.closed).get? k' = none
    rw [Heap.get?_set_of_live hruns.handler, if_neg hk']
    exact hruns.only k' hk'
  · exact wire_cgiCompleted env (c.cgiClosed k h j.builder) k i _

end Pipe

end Connection

end Webserv
