import Webserv.CgiPipe
import Webserv.SequentialService

/-!
# The runs of a sequential service

A client that waits for the response before it sends the next request has
a conversation with its connection, however its requests are cut into
segments, however the pipe of a script is read and however little of a
response the socket takes at a time (`conversation_run`). No event of such
a run raises a fault.
-/

namespace Webserv

open Bytes Program RequestParser Conversation

namespace Connection

variable {W : Type}

/-! ## Steps -/

/-- The connection has gone on from `s` to a state that it holds. -/
structure Follows (os : OS W) (servers : ServerGroup) (c c' : Connection W)
    (s s' : Conversation.State UInt8 RequestParser ScriptRun) (input : Bytes) : Prop where
  steps : ∃ sent, (webService os servers).Steps c.world s input sent c'.world s'
    ∧ wire c' = wire c ++ sent
  holds : Holds servers c' s'.phase

/-- The client has sent `part` of the next request. -/
def Behind (part : Bytes) : Conversation.Phase UInt8 RequestParser ScriptRun → Prop
  | .reading read => read = part
  | .closed _ _ => True
  | _ => part = []

/-- The program returns, and the connection has gone on. -/
def Leads (os : OS W) (servers : ServerGroup) (x : Method W Unit) (c : Connection W)
    (s : Conversation.State UInt8 RequestParser ScriptRun) (input part : Bytes) : Prop :=
  ∃ c' s', x c = .ok () c' ∧ Follows os servers c c' s s' input ∧ Behind part s'.phase

section Steps

variable {os : OS W} {servers : ServerGroup} {c c' c'' : Connection W}
  {s s' s'' : Conversation.State UInt8 RequestParser ScriptRun} {input input' part part' : Bytes}
  {x y : Method W Unit}

theorem Follows.refl (h : Holds servers c s.phase) : Follows os servers c c s s [] :=
  ⟨⟨[], .refl c.world s, (List.append_nil _).symm⟩, h⟩

theorem Follows.single {sent : Bytes}
    (hstep : (webService os servers).Step c.world s input sent c'.world s')
    (hwire : wire c' = wire c ++ sent) (h : Holds servers c' s'.phase) :
    Follows os servers c c' s s' input :=
  ⟨⟨sent, .single hstep, hwire⟩, h⟩

theorem Follows.trans (h : Follows os servers c c' s s' input)
    (h' : Follows os servers c' c'' s' s'' input') :
    Follows os servers c c'' s s'' (input ++ input') := by
  obtain ⟨sent, hsteps, hwire⟩ := h.steps
  obtain ⟨sent', hsteps', hwire'⟩ := h'.steps
  refine ⟨⟨sent ++ sent', hsteps.trans hsteps', ?_⟩, h'.holds⟩
  rw [hwire', hwire, List.append_assoc]

theorem Leads.stay (h : Holds servers c s.phase) (hbehind : Behind part s.phase)
    (hok : x c = .ok () c) : Leads os servers x c s [] part :=
  ⟨c, s, hok, .refl h, hbehind⟩

theorem Leads.bind (hx : Leads os servers x c s input part)
    (hy : ∀ c' s', Holds servers c' s'.phase → Behind part s'.phase →
      Leads os servers y c' s' [] part') :
    Leads os servers (do x; y) c s input part' := by
  obtain ⟨c', s', hok, hfollows, hbehind⟩ := hx
  obtain ⟨c'', s'', hok', hfollows', hbehind'⟩ := hy c' s' hfollows.holds hbehind
  refine ⟨c'', s'', bind_eq_ok.mpr ⟨(), c', hok, hok'⟩, ?_, hbehind'⟩
  have htrans := hfollows.trans hfollows'
  rwa [List.append_nil] at htrans

/-- The connection is closed. -/
theorem Leads.leave (h : Holds servers c s.phase) (hok : x c = .ok () c.terminated) :
    Leads os servers x c s [] part := by
  refine ⟨c.terminated, ⟨.closed s.phase.unanswered s.phase.unwritten, s.log⟩, hok, ?_, trivial⟩
  refine .single ?_ ((wire_terminated c).trans (List.append_nil _).symm) h.terminated
  rw [world_terminated]
  exact .leave

variable (env : Env)

/-! ## Writing -/

/-- Where no script is waited for, there is nothing to check. -/
theorem checkCgiProgress_idle (h : c.client.waitingForCgi = false) :
    checkCgiProgress os env c = .ok () c := by
  show (checkCgiProgress os env).run c = _
  simp only [checkCgiProgress, EStateM.run_bind, EStateM.run_get, h]
  rfl

theorem Runs.active {j : ScriptRun} {k i : Nat} {h : CgiHandler} (hruns : Runs c j k i h) :
    Runs (c.active env) j k i h :=
  ⟨hruns.buffer, hruns.waiting, hruns.pending, hruns.handler, hruns.only, hruns.output,
    hruns.startTime, hruns.target, hruns.current, hruns.builder⟩

/-- The page of a script that has run for too long. -/
theorem holds_cgiTimedOut {q : RequestParser} {k : Nat} (hq : Dispatched c.client q)
    (hservers : c.client.serverConfigs = servers)
    (honly : ∀ k', k' ≠ k → c.handlers.get? k' = none) :
    Holds servers (cgiTimedOut os env c k q) (.writing q
      (errorResponse os env c.world (ResponseBuilder.create os c.world env q) 504).2) := by
  have hne := errorResponse_ne_nil os env c.world (ResponseBuilder.create os c.world env q) 504
  simp only [cgiTimedOut]
  generalize (errorResponse os env c.world (ResponseBuilder.create os c.world env q) 504).2
    = response at hne
  refine .writing (hq.of_eq rfl rfl rfl) hservers
    ⟨rfl, rfl, hne, rfl, rfl, fun k' => ?_⟩
  show (c.handlers.free k).get? k' = none
  rw [Heap.get?_free]
  split
  · rfl
  · rename_i hne
    exact honly k' hne

theorem wire_cgiTimedOut (c : Connection W) (k : Nat) (q : RequestParser) :
    wire (cgiTimedOut os env c k q) = wire c := by
  simp only [cgiTimedOut]
  exact (wire_snoc rfl).trans (List.append_nil _)

theorem world_cgiTimedOut (c : Connection W) (k : Nat) (q : RequestParser) :
    (cgiTimedOut os env c k q).world = c.world := by
  simp only [cgiTimedOut]

variable (os) in
/-- The script runs on, or it has run for too long. -/
theorem checkCgiProgress_runs (text : Bytes) (log : List (Exchange UInt8 RequestParser))
    {q : RequestParser} {j : ScriptRun} {k i : Nat} {handler : CgiHandler}
    (hq : Dispatched c.client q) (hservers : c.client.serverConfigs = servers)
    (hruns : Runs c j k i handler) :
    if timeOutSeconds < env.now - j.startTime then
      checkCgiProgress os env c = .ok () (cgiTimedOut os env c k q)
        ∧ Follows os servers c (cgiTimedOut os env c k q) ⟨.working text q j, log⟩
          (State.answer ⟨.working text q j, log⟩ text q
            (errorResponse os env c.world (ResponseBuilder.create os c.world env q) 504).2) []
    else checkCgiProgress os env c = .ok () (c.active env)
      ∧ Follows os servers c (c.active env) ⟨.working text q j, log⟩ ⟨.working text q j, log⟩ []
        := by
  have hrun : checkCgiProgress os env c
      = if env.now - handler.startTime > timeOutSeconds then
          .ok () (cgiTimedOut os env c k q)
        else .ok () (c.active env) := by
    show (checkCgiProgress os env).run c = _
    simp only [checkCgiProgress, EStateM.run_bind, EStateM.run_get, hruns.waiting,
      hruns.pending, hruns.handler, hq.parser]
    split
    · exact EStateM.run_set _ _
    · exact EStateM.run_set _ _
  rw [hruns.startTime] at hrun
  split
  · rename_i hlate
    rw [if_pos hlate] at hrun
    refine ⟨hrun, .single ?_ ((wire_cgiTimedOut env c k q).trans (List.append_nil _).symm)
      (holds_cgiTimedOut env hq hservers hruns.only)⟩
    rw [world_cgiTimedOut]
    exact .finish (e := env) (.timedOut hlate)
  · rename_i hearly
    rw [if_neg hearly] at hrun
    exact ⟨hrun, ⟨[], .refl _ _, (List.append_nil _).symm⟩,
      .working (hq.of_eq rfl rfl rfl) hservers (hruns.active env)⟩

theorem leads_checkCgiProgress (h : Holds servers c s.phase) (hbehind : Behind part s.phase) :
    Leads os servers (checkCgiProgress os env) c s [] part := by
  obtain ⟨phase, log⟩ := s
  cases h with
  | reading hidle hservers hreads =>
      exact .stay (.reading hidle hservers hreads) hbehind
        (checkCgiProgress_idle env hidle.waiting)
  | writing hq hservers hwrites =>
      exact .stay (.writing hq hservers hwrites) hbehind
        (checkCgiProgress_idle env hwrites.waiting)
  | closed hclosed hservers hclean hhandlers =>
      exact .stay (.closed hclosed hservers hclean hhandlers) hbehind
        (checkCgiProgress_idle env hclean.waitingForCgi)
  | @working text q j k i handler hq hservers hruns =>
      have hcheck := checkCgiProgress_runs os env text log hq hservers hruns
      split at hcheck
      · exact ⟨_, _, hcheck.1, hcheck.2, hbehind⟩
      · exact ⟨_, _, hcheck.1, hcheck.2, hbehind⟩

/-- The phase behind the response to `q`. -/
def afterResponse (q : RequestParser) : Conversation.Phase UInt8 RequestParser ScriptRun :=
  if q.isConnectionClose then .closed [] [] else .reading []

theorem behind_afterResponse (q : RequestParser) : Behind [] (afterResponse q) := by
  unfold afterResponse
  split
  · trivial
  · rfl

section Writing

variable {q : RequestParser} {rest : Bytes} {n : Nat}
  (log : List (Conversation.Exchange UInt8 RequestParser))

/-- A part of the response has gone out. -/
theorem follows_chunkSent (hq : Dispatched c.client q) (hservers : c.client.serverConfigs = servers)
    (hwrites : Writes c rest) (hleft : rest.drop n ≠ []) :
    Follows os servers c (c.chunkSent env n) ⟨.writing q rest, log⟩
      ⟨.writing q (rest.drop n), log⟩ [] := by
  have hwire : wire (c.chunkSent env n) = wire c ++ rest.take n := by
    rw [← hwrites.buffer]
    exact wire_snoc (e := (c.moment, .send (c.client.responseBuffer.take n))) rfl
  have hstep : (webService os servers).Step c.world
      ⟨.writing q (rest.take n ++ rest.drop n), log⟩ [] (rest.take n) c.world
      ⟨.writing q (rest.drop n), log⟩ := .write hleft
  rw [List.take_append_drop] at hstep
  refine .single hstep hwire ?_
  exact .writing (hq.of_eq rfl rfl rfl) hservers
    ⟨hwrites.ready, congrArg (List.drop n) hwrites.buffer, hleft, hwrites.pending,
      hwrites.waiting, hwrites.handlers⟩

/-- The response has gone out as a whole. -/
theorem follows_finalized (hq : Dispatched c.client q) (hservers : c.client.serverConfigs = servers)
    (hwrites : Writes c rest) (hdone : rest.drop n = []) :
    Follows os servers c (finalized (c.chunkSent env n)) ⟨.writing q rest, log⟩
      ⟨afterResponse q, log⟩ [] := by
  have htake : c.client.responseBuffer.take n = rest := by
    rw [hwrites.buffer]
    exact List.take_of_length_le (List.drop_eq_nil_iff.mp hdone)
  have hsent : wire (c.chunkSent env n) = wire c ++ rest := by
    rw [← htake]
    exact wire_snoc (e := (c.moment, .send (c.client.responseBuffer.take n))) rfl
  have hkeeps : shouldKeepAlive (c.chunkSent env n).client = !q.isConnectionClose := by
    rw [shouldKeepAlive, show (c.chunkSent env n).client.parser = some q from hq.parser]
    rfl
  have herror : (c.chunkSent env n).client.parser.any (fun p => decide (p.errorCode ≠ 0))
      = decide (q.errorCode ≠ 0) := by
    rw [show (c.chunkSent env n).client.parser = some q from hq.parser]
    rfl
  have hdeleted : wire (c.chunkSent env n).builderDeleted = wire c ++ rest := hsent
  rw [finalized, hkeeps, herror, afterResponse]
  cases hclose : q.isConnectionClose with
  | true =>
      have hfollows : Follows os servers c (c.chunkSent env n).builderDeleted.terminated
          ⟨.writing q rest, log⟩ ⟨.closed [] [], log⟩ [] := by
        refine .single ?_ ((wire_terminated _).trans hdeleted)
          (closed_terminated hq.isOpen hservers hwrites.pending hwrites.handlers)
        rw [world_terminated]
        exact .last hclose
      exact hfollows
  | false =>
      obtain ⟨herr, hbuffer⟩ := hq.kept hclose
      rw [herr]
      have hfollows : Follows os servers c (c.chunkSent env n).builderDeleted
          ⟨.writing q rest, log⟩ ⟨.reading [], log⟩ [] := by
        refine .single (.next ?_) hdeleted ?_
        · show ¬q.isConnectionClose = true
          rw [hclose]
          decide
        · have hempty : c.client.responseBuffer.drop n = [] := hwrites.buffer ▸ hdone
          refine .reading ⟨hq.isOpen, rfl, hempty, hwrites.pending, hwrites.waiting,
            hwrites.handlers⟩ hservers (.inHead (fun p hp => ?_) hbuffer rfl)
          obtain rfl := Option.some.inj (hq.parser.symm.trans hp)
          exact ⟨hq.notBody, hq.quiet⟩
      exact hfollows

end Writing

theorem leads_handleResponse (sent : Sent) (h : Holds servers c s.phase)
    (hbehind : Behind part s.phase) : Leads os servers (handleResponse env sent) c s [] part := by
  obtain ⟨phase, log⟩ := s
  cases h with
  | reading hidle hservers hreads =>
      exact .stay (.reading hidle hservers hreads) hbehind
        (handleResponse_idle env sent fun h => h.2 hidle.buffer)
  | working hq hservers hruns =>
      exact .stay (.working hq hservers hruns) hbehind
        (handleResponse_idle env sent fun h => h.2 hruns.buffer)
  | closed hclosed hservers hclean hhandlers =>
      exact .stay (.closed hclosed hservers hclean hhandlers) hbehind
        (handleResponse_idle env sent fun h => h.2 hclean.responseBuffer)
  | @writing q rest hq hservers hwrites =>
      obtain rfl : part = [] := hbehind
      obtain ⟨c', hok, hresponds, -⟩ := handleResponse_responds env sent c
      cases hresponds with
      | idle => exact .stay (.writing hq hservers hwrites) rfl hok
      | dropped => exact .leave (.writing hq hservers hwrites) hok
      | last n _ hdone =>
          rw [hwrites.buffer] at hdone
          exact ⟨_, _, hok, follows_finalized env log hq hservers hwrites hdone,
            behind_afterResponse q⟩
      | part n hleft =>
          rw [hwrites.buffer] at hleft
          exact ⟨_, _, hok, follows_chunkSent env log hq hservers hwrites hleft, rfl⟩

theorem leads_onOutput (output : Option Sent) (h : Holds servers c s.phase)
    (hbehind : Behind part s.phase) : Leads os servers (onOutput os env output) c s [] part := by
  cases output with
  | none => exact .stay h hbehind rfl
  | some sent =>
      exact (leads_checkCgiProgress env h hbehind).bind fun c' s' h' hbehind' =>
        leads_handleResponse env sent h' hbehind'

/-! ## Reading -/

/-- No bytes come in. -/
theorem leads_onInput {data : Option (Option Segment)} (hopen : c.client.isStarted = true)
    (h : Holds servers c s.phase) (hbehind : Behind part s.phase)
    (hdata : ∀ segment, data ≠ some (some segment)) :
    Leads os servers (onInput os env data) c s [] part := by
  rcases data with _ | _ | segment
  · exact .stay h hbehind rfl
  · have hclosed := handleIncomingData_closed os env
      (bodyTooLarge_quiet fun p hp => h.quiet hopen hp)
    have hread : wire (c.log c.moment .read) = wire c :=
      (wire_snoc (e := (c.moment, .read)) rfl).trans (List.append_nil _)
    have hleave : Leads os servers terminate (c.log c.moment .read) s [] part :=
      .leave (h.withTrace c.world _) rfl
    obtain ⟨c', s', hok, hfollows, hbehind'⟩ := hleave
    refine ⟨c', s', hclosed.trans hok, ⟨?_, hfollows.holds⟩, hbehind'⟩
    obtain ⟨sent, hsteps, hwire⟩ := hfollows.steps
    exact ⟨sent, hsteps, hwire.trans (congrArg (· ++ sent) hread)⟩
  · exact absurd rfl (hdata segment)

/-- A connection that is open and does nothing reads. -/
theorem Holds.idle (h : Holds servers c s.phase) (hopen : c.client.isStarted = true)
    (hidle : ¬Busy c.client) (hbehind : Behind part s.phase) :
    Idle c ∧ c.client.serverConfigs = servers ∧ Reads servers c.client part
      ∧ s.phase = .reading part := by
  obtain ⟨phase, log⟩ := s
  cases h with
  | reading hidle hservers hreads =>
      obtain rfl := hbehind
      exact ⟨hidle, hservers, hreads, rfl⟩
  | working _ _ hruns =>
      refine absurd (Or.inr ?_) hidle
      rw [hruns.pending]
      exact Option.some_ne_none _
  | writing _ _ hwrites =>
      refine absurd (Or.inl ⟨hwrites.ready, ?_⟩) hidle
      rw [hwrites.buffer]
      exact hwrites.rest
  | closed hclosed =>
      rw [hopen] at hclosed
      cases hclosed

theorem leads_part (segment : Segment) (h : Holds servers c s.phase)
    (hopen : c.client.isStarted = true) (hidle : ¬Busy c.client)
    (hbehind : Behind part s.phase) {more : Bytes} {p : RequestParser} (hmore : more ≠ [])
    (htext : RequestText servers (part ++ segment.val ++ more) p)
    (hscript : p.goesToCgi = true → p.locationConfig.isSome)
    (hcut : CutAllowed servers (part ++ segment.val)) :
    Leads os servers (onInput os env (some (some segment))) c s segment.val
      (part ++ segment.val) := by
  obtain ⟨hidle, hservers, hreads, hphase⟩ := h.idle hopen hidle hbehind
  obtain ⟨c', hok, hholds, hwire, hworld⟩ :=
    onInput_part os env hidle hservers hreads segment hmore htext hcut
  obtain ⟨phase, log⟩ := s
  obtain rfl := hphase
  refine ⟨c', ⟨.reading (part ++ segment.val), log⟩, hok,
    .single ?_ (hwire.trans (List.append_nil _).symm) hholds, rfl⟩
  rw [hworld]
  exact .read ⟨more, p.setRequestLine, hmore, p, htext, hscript, rfl⟩

theorem leads_whole (segment : Segment) (h : Holds servers c s.phase)
    (hopen : c.client.isStarted = true) (hidle : ¬Busy c.client)
    (hbehind : Behind part s.phase) {p : RequestParser}
    (htext : RequestText servers (part ++ segment.val) p)
    (hscript : p.goesToCgi = true → p.locationConfig.isSome) :
    Leads os servers (onInput os env (some (some segment))) c s segment.val [] := by
  obtain ⟨hidle, hservers, hreads, hphase⟩ := h.idle hopen hidle hbehind
  obtain ⟨c', r, hok, hbegun, hholds, hwire⟩ :=
    onInput_whole os env hidle hservers hreads segment htext hscript
  have hwire' := hwire.trans (List.append_nil _).symm
  have hasks : (webService os servers).Asks (part ++ segment.val) p.setRequestLine :=
    ⟨p, htext, hscript, rfl⟩
  obtain ⟨phase, log⟩ := s
  obtain rfl := hphase
  cases r with
  | inl response =>
      exact ⟨c', State.answer ⟨.reading part, log⟩ (part ++ segment.val) p.setRequestLine response,
        hok, .single (.answer hasks hbegun) hwire' hholds, rfl⟩
  | inr j =>
      exact ⟨c', ⟨.working (part ++ segment.val) p.setRequestLine j, log⟩, hok,
        .single (.launch hasks hbegun) hwire' hholds, rfl⟩

/-! ## Events -/

/-- The pipe is not at its end and hung up in one event, and a handler
that is finished does not fail. -/
structure Orderly (ev : PipeEvent) : Prop where
  ended : ev.input = some [] → ev.hup = false ∧ ev.err = false
  hung : ev.hup = true → ev.err = false

/-- What an event on the pipe of a script makes of its request: the script
still runs, or the response is there. -/
inductive Scripted (q : RequestParser) (startTime : Int) :
    Conversation.Phase UInt8 RequestParser ScriptRun → Prop where
  | runs {text : Bytes} {j : ScriptRun} (hstart : j.startTime = startTime) :
      Scripted q startTime (.working text q j)
  | ended (response : Bytes) : Scripted q startTime (.writing q response)

theorem Scripted.behind {q : RequestParser} {startTime : Int}
    {phase : Conversation.Phase UInt8 RequestParser ScriptRun} (h : Scripted q startTime phase) :
    Behind [] phase := by
  cases h with
  | runs => rfl
  | ended => rfl

/-- The program returns, and has gone on with the script. -/
def Scripts (os : OS W) (servers : ServerGroup) (x : Method W Unit) (c : Connection W)
    (s : Conversation.State UInt8 RequestParser ScriptRun) (q : RequestParser)
    (startTime : Int) : Prop :=
  ∃ c' s', x c = .ok () c' ∧ Follows os servers c c' s s' [] ∧ Scripted q startTime s'.phase
    ∧ c'.client.lastActivity = c.client.lastActivity

theorem Scripts.append {q : RequestParser} {startTime : Int}
    (hx : Scripts os servers x c s q startTime) (hy : ∀ c', y c' = .ok () c') :
    Scripts os servers (do x; y) c s q startTime := by
  obtain ⟨c', s', hok, hfollows, hscripted, htime⟩ := hx
  exact ⟨c', s', bind_eq_ok.mpr ⟨(), c', hok, hy c'⟩, hfollows, hscripted, htime⟩

theorem scripts_finalizeCgi {text : Bytes} {q : RequestParser} {j : ScriptRun} {k i : Nat}
    {handler : CgiHandler} (log : List (Exchange UInt8 RequestParser))
    (hq : Dispatched c.client q) (hservers : c.client.serverConfigs = servers)
    (hruns : Runs c j k i handler) :
    Scripts os servers (finalizeCgi env k) c ⟨.working text q j, log⟩ q j.startTime := by
  obtain ⟨c', hok, hholds, hwire, hworld, htime⟩ := finalizeCgi_runs env hq hservers hruns
  refine ⟨c', State.answer ⟨.working text q j, log⟩ text q _, hok,
    .single ?_ (hwire.trans (List.append_nil _).symm) hholds, .ended _, htime⟩
  rw [hworld]
  exact .finish (e := env) .finished

/-- The end of an event on the pipe, for a script that still runs. -/
theorem scripts_pipeEnd {text : Bytes} {q : RequestParser} {j : ScriptRun} {k i : Nat}
    {handler : CgiHandler} (log : List (Exchange UInt8 RequestParser)) {hup err : Bool}
    (hq : Dispatched c.client q) (hservers : c.client.serverConfigs = servers)
    (hruns : Runs c j k i handler) (hend : hup = true → err = false) :
    Scripts os servers (do
      (if hup then finalizeCgi env k else pure ())
      if err then terminateCgi k else pure ()) c ⟨.working text q j, log⟩ q j.startTime := by
  cases hup with
  | true =>
      rw [hend rfl]
      exact (scripts_finalizeCgi env log hq hservers hruns).append fun c' => rfl
  | false =>
      cases err with
      | false =>
          exact ⟨c, ⟨.working text q j, log⟩, rfl, .refl (.working hq hservers hruns), .runs rfl,
            rfl⟩
      | true =>
          obtain ⟨hok, hruns'⟩ := terminateCgi_runs hq.isOpen hruns
          exact ⟨_, ⟨.working text q j, log⟩, hok, ⟨⟨[], .refl _ _, (List.append_nil _).symm⟩,
            .working (hq.of_eq rfl rfl rfl) hservers hruns'⟩, .runs rfl, rfl⟩

theorem scripts_onPipeEvent {text : Bytes} {q : RequestParser} {j : ScriptRun} {k i : Nat}
    {handler : CgiHandler} (log : List (Exchange UInt8 RequestParser))
    (hq : Dispatched c.client q) (hservers : c.client.serverConfigs = servers)
    (hruns : Runs c j k i handler) {ev : PipeEvent} (hev : Orderly ev) :
    Scripts os servers (onPipeEvent env k ev) c ⟨.working text q j, log⟩ q j.startTime := by
  obtain ⟨input, hup, err⟩ := ev
  rcases input with _ | _ | ⟨b, bytes⟩
  · exact scripts_pipeEnd env log hq hservers hruns hev.hung
  · obtain ⟨hhup, herr⟩ := hev.ended rfl
    change hup = false at hhup
    change err = false at herr
    subst hhup herr
    have hread : readCgi env k [] c = finalizeCgi env k c := by
      show (readCgi env k []).run c = (finalizeCgi env k).run c
      simp [readCgi, hruns.handler]
    have hfinal : Scripts os servers (finalizeCgi env k) c ⟨.working text q j, log⟩ q
        j.startTime := scripts_finalizeCgi env log hq hservers hruns
    obtain ⟨c', s', hok, hscripts⟩ := hfinal
    exact Scripts.append ⟨c', s', hread.trans hok, hscripts⟩ fun c' => rfl
  · obtain ⟨hok, hruns'⟩ := readCgi_runs env hruns (List.cons_ne_nil b bytes)
    have hend : Scripts os servers (do
        (if hup then finalizeCgi env k else pure ())
        if err then terminateCgi k else pure ()) (c.withHandler k (handler.read (b :: bytes)))
        ⟨.working text q { j with output := j.output ++ b :: bytes }, log⟩ q j.startTime :=
      scripts_pipeEnd env log (hq.of_eq rfl rfl rfl) hservers hruns' hev.hung
    obtain ⟨c', s', hok', hfollows, hscripted, htime⟩ := hend
    refine ⟨c', s', bind_eq_ok.mpr ⟨(), _, hok, hok'⟩, ?_, hscripted, htime⟩
    have hwork : Follows os servers c (c.withHandler k (handler.read (b :: bytes)))
        ⟨.working text q j, log⟩
        ⟨.working text q { j with output := j.output ++ b :: bytes }, log⟩ [] :=
      .single (.work ⟨_, rfl⟩) (List.append_nil _).symm
        (.working (hq.of_eq rfl rfl rfl) hservers hruns')
    exact hwork.trans hfollows

theorem step_client (input : Option (Option Segment)) (output : Option Sent) :
    step os (.client env input output) c
      = if c.client.isStarted then onEvent os env input output c else .ok () c := by
  show (step os (.client env input output)).run c = _
  simp only [step, EStateM.run_bind, EStateM.run_get]
  split
  · rfl
  · rfl

/-- A pipe that is not registered has no events. -/
theorem step_pipe_unregistered {k : Nat} (ev : PipeEvent) (h : ¬c.pipeRegistered k = true) :
    step os (.pipe env k ev) c = .ok () c := by
  show (step os (.pipe env k ev)).run c = _
  simp only [step, EStateM.run_bind, EStateM.run_get, if_neg h]
  rfl

theorem leads_step_quiet {input : Option (Option Segment)} (output : Option Sent)
    (h : Holds servers c s.phase) (hbehind : Behind part s.phase)
    (hinput : ∀ segment, input ≠ some (some segment)) :
    Leads os servers (step os (.client env input output)) c s [] part := by
  by_cases hopen : c.client.isStarted = true
  · have hevent : Leads os servers (onEvent os env input output) c s [] part :=
      (leads_onInput env hopen h hbehind hinput).bind
        fun c' s' h' hbehind' => leads_onOutput env output h' hbehind'
    obtain ⟨c', s', hok, hfollows, hbehind'⟩ := hevent
    exact ⟨c', s', (step_client env input output).trans ((if_pos hopen).trans hok), hfollows,
      hbehind'⟩
  · exact .stay h hbehind ((step_client env input output).trans (if_neg hopen))

variable (os) in
/-- An event on a pipe does nothing, or goes on with the script. -/
theorem step_pipe_cases (k : Nat) {ev : PipeEvent} (h : Holds servers c s.phase)
    (hev : Orderly ev) :
    step os (.pipe env k ev) c = .ok () c
      ∨ ∃ text q j, s.phase = .working text q j
        ∧ Scripts os servers (step os (.pipe env k ev)) c s q j.startTime := by
  by_cases hlive : c.handlers.get? k = none
  · have hnot : ¬c.pipeRegistered k = true := by
      rw [pipeRegistered, hlive]
      decide
    exact .inl (step_pipe_unregistered env ev hnot)
  by_cases hregistered : c.pipeRegistered k = true
  · have hstep : step os (.pipe env k ev) c = onPipeEvent env k ev c := step_pipe hregistered
    obtain ⟨phase, log⟩ := s
    cases h with
    | reading hidle => exact absurd (hidle.handlers k) hlive
    | writing _ _ hwrites => exact absurd (hwrites.handlers k) hlive
    | closed _ _ _ hhandlers => exact absurd (hhandlers k) hlive
    | @working text q j k₀ i handler hq hservers hruns =>
        obtain rfl : k = k₀ := by
          by_contra hne
          exact hlive (hruns.only k hne)
        have hevent : Scripts os servers (onPipeEvent env k ev) c ⟨.working text q j, log⟩ q
            j.startTime := scripts_onPipeEvent env log hq hservers hruns hev
        obtain ⟨c', s', hok, hscripts⟩ := hevent
        exact .inr ⟨text, q, j, rfl, c', s', hstep.trans hok, hscripts⟩
  · exact .inl (step_pipe_unregistered env ev hregistered)

theorem leads_step_pipe (k : Nat) {ev : PipeEvent} (h : Holds servers c s.phase)
    (hbehind : Behind part s.phase) (hev : Orderly ev) :
    Leads os servers (step os (.pipe env k ev)) c s [] part := by
  rcases step_pipe_cases os env k h hev with hok | ⟨text, q, j, hphase, hscripts⟩
  · exact .stay h hbehind hok
  · obtain ⟨c', s', hok, hfollows, hscripted, -⟩ := hscripts
    obtain rfl : part = [] := by
      rw [hphase] at hbehind
      exact hbehind
    exact ⟨c', s', hok, hfollows, hscripted.behind⟩

/-- A read, and what is sent in the same event. -/
theorem leads_step_segment (segment : Segment) (output : Option Sent)
    (hopen : c.client.isStarted = true)
    (hinput : Leads os servers (onInput os env (some (some segment))) c s segment.val part) :
    Leads os servers (step os (.client env (some (some segment)) output)) c s segment.val
      part := by
  obtain ⟨c', s', hok, hfollows, hbehind⟩ :=
    hinput.bind fun c' s' h hbehind => leads_onOutput env output h hbehind
  exact ⟨c', s', (step_client env _ output).trans ((if_pos hopen).trans hok), hfollows, hbehind⟩

/-- What a client does that sends a request when it has the response to the
one before. It has sent `part` of the next one in front of the event, and
what the last index says behind it. -/
inductive Polite (servers : ServerGroup) (client : ClientServer) :
    Bytes → Event → Bytes → Prop where
  | gone (part : Bytes) (ev : Event) (hclosed : client.isStarted = false) :
      Polite servers client part ev part
  | quiet {part : Bytes} {env : Env} {input : Option (Option Segment)} {output : Option Sent}
      (hinput : ∀ segment, input ≠ some (some segment)) :
      Polite servers client part (.client env input output) part
  | pipe {part : Bytes} {env : Env} {k : Nat} {ev : PipeEvent} (hev : Orderly ev) :
      Polite servers client part (.pipe env k ev) part
  /-- a part of a request -/
  | part {part more : Bytes} {env : Env} {segment : Segment} {output : Option Sent}
      {p : RequestParser} (hopen : client.isStarted = true) (hidle : ¬Busy client)
      (hmore : more ≠ []) (htext : RequestText servers (part ++ segment.val ++ more) p)
      (hscript : p.goesToCgi = true → p.locationConfig.isSome)
      (hcut : CutAllowed servers (part ++ segment.val)) :
      Polite servers client part (.client env (some (some segment)) output) (part ++ segment.val)
  /-- the rest of a request -/
  | whole {part : Bytes} {env : Env} {segment : Segment} {output : Option Sent}
      {p : RequestParser} (hopen : client.isStarted = true) (hidle : ¬Busy client)
      (htext : RequestText servers (part ++ segment.val) p)
      (hscript : p.goesToCgi = true → p.locationConfig.isSome) :
      Polite servers client part (.client env (some (some segment)) output) []

theorem Polite.incomplete {client : ClientServer} {ev : Event}
    (h : Polite servers client part ev part') (hpart : Incomplete servers part) :
    Incomplete servers part' := by
  cases h with
  | gone => exact hpart
  | quiet => exact hpart
  | pipe => exact hpart
  | part _ _ hmore htext => exact htext.incomplete hmore
  | whole => exact incomplete_nil servers

/-- The bytes an event brings to an open connection. -/
def brings (client : ClientServer) : Event → Bytes
  | .client _ (some (some segment)) _ => if client.isStarted then segment.val else []
  | _ => []

/-- Nothing happens on a connection that is closed. -/
theorem Holds.step_closed (h : Holds servers c s.phase) (hclosed : c.client.isStarted = false)
    (ev : Event) : step os ev c = .ok () c := by
  cases ev with
  | client env input output =>
      exact (step_client env input output).trans (if_neg (Bool.eq_false_iff.mp hclosed))
  | pipe env k ev =>
      have hnone := h.handlers_terminated k
      rw [terminated_of_closed hclosed] at hnone
      refine step_pipe_unregistered env ev ?_
      rw [pipeRegistered, hnone]
      decide

theorem brings_closed {client : ClientServer} (hclosed : client.isStarted = false) (ev : Event) :
    brings client ev = [] := by
  rcases ev with ⟨env, _ | _ | segment, output⟩ | ⟨env, k, ev⟩
  · rfl
  · rfl
  · exact if_neg (Bool.eq_false_iff.mp hclosed)
  · rfl

theorem brings_open {client : ClientServer} (hopen : client.isStarted = true) {env : Env}
    {segment : Segment} {output : Option Sent} :
    brings client (.client env (some (some segment)) output) = segment.val :=
  if_pos hopen

/-- A polite event raises no fault, and is a step of the conversation. -/
theorem Polite.leads {ev : Event} (hev : Polite servers c.client part ev part')
    (h : Holds servers c s.phase) (hbehind : Behind part s.phase) :
    Leads os servers (step os ev) c s (brings c.client ev) part' := by
  cases hev with
  | gone _ hclosed =>
      rw [brings_closed hclosed]
      exact .stay h hbehind (h.step_closed hclosed ev)
  | @quiet env input output hinput =>
      have hbrings : brings c.client (.client env input output) = [] := by
        rcases input with _ | _ | segment
        · rfl
        · rfl
        · exact absurd rfl (hinput segment)
      rw [hbrings]
      exact leads_step_quiet env output h hbehind hinput
  | pipe hev => exact leads_step_pipe _ _ h hbehind hev
  | part hopen hidle hmore htext hscript hcut =>
      rw [brings_open hopen]
      exact leads_step_segment _ _ _ hopen
        (leads_part _ _ h hopen hidle hbehind hmore htext hscript hcut)
  | whole hopen hidle htext hscript =>
      rw [brings_open hopen]
      exact leads_step_segment _ _ _ hopen (leads_whole _ _ h hopen hidle hbehind htext hscript)

end Steps

/-! ## Runs -/

/-- All events are polite. -/
inductive PoliteRun (os : OS W) (servers : ServerGroup) :
    Connection W → Bytes → List Event → Prop where
  | nil (c : Connection W) (part : Bytes) : PoliteRun os servers c part []
  | cons {c : Connection W} {part part' : Bytes} {ev : Event} {evs : List Event}
      (hev : Polite servers c.client part ev part')
      (hrest : PoliteRun os servers (final (step os ev c)) part' evs) :
      PoliteRun os servers c part (ev :: evs)

/-- What the connection is brought in a run. -/
def taken (os : OS W) : List Event → Connection W → Bytes
  | [], _ => []
  | ev :: evs, c => brings c.client ev ++ taken os evs (final (step os ev c))

theorem PoliteRun.follows {os : OS W} {servers : ServerGroup} {c : Connection W} {part : Bytes}
    {evs : List Event} (h : PoliteRun os servers c part evs)
    {s : Conversation.State UInt8 RequestParser ScriptRun} (hholds : Holds servers c s.phase)
    (hbehind : Behind part s.phase) (hpart : Incomplete servers part) :
    ∃ c' s' part', run os evs c = .ok () c' ∧ Follows os servers c c' s s' (taken os evs c)
      ∧ Behind part' s'.phase ∧ Incomplete servers part' := by
  induction h generalizing s with
  | nil c part => exact ⟨c, s, part, rfl, .refl hholds, hbehind, hpart⟩
  | @cons c part part' ev evs hev _ ih =>
      have hleads : Leads os servers (step os ev) c s (brings c.client ev) part' :=
        hev.leads hholds hbehind
      obtain ⟨c₁, s₁, hok, hfollows, hbehind₁⟩ := hleads
      have hfinal : final (step os ev c) = c₁ := by rw [hok]; rfl
      rw [hfinal] at ih
      obtain ⟨c', s', last, hrun, hfollows', hlast⟩ := ih hfollows.holds hbehind₁
        (hev.incomplete hpart)
      refine ⟨c', s', last, bind_eq_ok.mpr ⟨(), c₁, hok, hrun⟩, ?_, hlast⟩
      rw [taken, hfinal]
      exact hfollows.trans hfollows'

theorem holds_accepted (garbage continueSent : Bool) (lastActivity : Int) (fd fd' : Nat)
    (servers : ServerGroup) (world : W) :
    Holds servers (accepted garbage continueSent lastActivity fd fd' servers world)
      (Phase.reading []) :=
  .reading ⟨rfl, rfl, rfl, rfl, rfl, fun _ => rfl⟩ rfl (.inHead (fun p hp => by cases hp) rfl rfl)

end Connection

open Connection

/-- A connection whose client waits for the response before it sends the
next request is a sequential service: it runs into no fault, and what it
has been brought and what it has sent are those of a conversation, so that
they are accounted for by the requests that are answered, in their order,
each with a response that it can have. -/
theorem conversation_run {W : Type} (os : OS W) (garbage continueSent : Bool)
    (lastActivity : Int) (fd fd' : Nat) (servers : ServerGroup) (world : W) {evs : List Event}
    (h : PoliteRun os servers
      (accepted garbage continueSent lastActivity fd fd' servers world) [] evs) :
    ∃ c s, run os evs (accepted garbage continueSent lastActivity fd fd' servers world) = .ok () c
      ∧ (webService os servers).Steps world ⟨.reading [], []⟩
        (taken os evs (accepted garbage continueSent lastActivity fd fd' servers world))
        (wire c) c.world s
      ∧ Service.Accounted s
        (taken os evs (accepted garbage continueSent lastActivity fd fd' servers world)) (wire c)
      ∧ (webService os servers).Sound s ∧ Holds servers c s.phase := by
  have hstart := holds_accepted garbage continueSent lastActivity fd fd' servers world
  obtain ⟨c, s, -, hrun, hfollows, -⟩ := h.follows (s := ⟨.reading [], []⟩) hstart rfl
    (incomplete_nil servers)
  obtain ⟨sent, hsteps, hwire⟩ := hfollows.steps
  obtain rfl : wire c = sent := hwire
  refine ⟨c, s, hrun, hsteps, ?_, hsteps.sound Service.sound_start, hfollows.holds⟩
  exact hsteps.accounted Service.accounted_start

/-- The start of a request, and its end. -/
def getStart : Segment := ⟨lit "GET /a HTTP/1.1\r\nHo", by decide +kernel⟩

def getEnd : Segment := ⟨lit "st: a\r\n\r\n", by decide +kernel⟩

theorem requestText_get : RequestText scriptServers ([] ++ getStart.val ++ getEnd.val)
    (routed scriptServers getParser) := by
  refine .bare ⟨?_, ⟨_, _, rfl, ?_, ?_⟩, rfl⟩ rfl ?_
  · decide +kernel
  · decide +kernel
  · decide +kernel
  · decide +kernel

theorem located_get : (routed scriptServers getParser).locationConfig.isSome := by
  decide +kernel

/-- No body is cut there. -/
theorem cutAllowed_getStart : CutAllowed scriptServers ([] ++ getStart.val) := by
  intro head p t hhead heq
  have hfind := hhead.complete.find t
  rw [← heq] at hfind
  cases (show find doubleCrlf ([] ++ getStart.val) = none by decide +kernel).symm.trans hfind

/-- The two parts of the request, whatever is sent behind it. -/
theorem politeRun_get (output : Option Sent) :
    PoliteRun flatOs scriptServers (accepted false false 0 3 4 scriptServers ()) []
      [.client { now := 0 } (some (some getStart)) none,
        .client { now := 0 } (some (some getEnd)) output] := by
  refine .cons (.part rfl ?_ getEnd.property.1 requestText_get (fun _ => located_get)
    cutAllowed_getStart) (.cons (.whole ?_ ?_ requestText_get (fun _ => located_get)) (.nil _ _))
  · rintro (⟨-, hbuffer⟩ | hpending)
    · exact hbuffer rfl
    · exact hpending rfl
  · decide +kernel
  · show ¬(_ ∨ _)
    decide +kernel

/-- The socket takes a whole response. -/
def roomy : Sent := some ⟨1000, Nat.succ_pos 999⟩

/-- Read in two parts, and answered in one. -/
def cutEvents : List Event :=
  [.client { now := 0 } (some (some getStart)) none,
    .client { now := 0 } (some (some getEnd)) (some roomy)]

theorem conversation_run_get : ∃ (c : Connection Unit) (s : State UInt8 RequestParser ScriptRun),
    run flatOs cutEvents (accepted false false 0 3 4 scriptServers ()) = .ok () c
      ∧ Service.Accounted s
        (taken flatOs cutEvents (accepted false false 0 3 4 scriptServers ())) (wire c) := by
  obtain ⟨c, s, hrun, -, haccounted, -⟩ :=
    conversation_run flatOs false false 0 3 4 scriptServers () (politeRun_get (some roomy))
  exact ⟨c, s, hrun, haccounted⟩

end Webserv
