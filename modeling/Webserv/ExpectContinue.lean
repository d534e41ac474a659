import Mathlib.Data.List.DropRight
import Webserv.BodyLimit
import Webserv.Pipelining

/-!
# The interim response

`handleExpectContinue` stands in front of the code that parses a head, so
it looks at the request before, and `_continue_sent` is never reset. A
request that waits for its interim response is told to go on behind its
own head in no run; a request that has been answered may still be.
-/

namespace Webserv

open Bytes Program

/-! ## What is said of a history -/

/-- The buffer whose head an action parses. -/
def headBuffer? (e : Moment × Action) : Option Bytes :=
  match e.2 with
  | .parsed before _ => if before.state = .body then none else some e.1.client.requestBuffer
  | _ => none

def continueText : Bytes := lit "HTTP/1.1 100 Continue\r\n\r\n"

def isInterim (e : Moment × Action) : Bool := decide (e.2 = .sendDirect continueText)

/-- The number of interim responses sent. -/
def interims (history : List (Moment × Action)) : Nat := history.countP isInterim

/-- What has been done since the last head was parsed. -/
def sinceHead (history : List (Moment × Action)) : List (Moment × Action) :=
  history.rtakeWhile fun e => (headBuffer? e).isNone

/-- The buffer begins with an accepted head that holds
`Expect: 100-continue`. -/
def Expects (buffer : Bytes) : Prop :=
  ∃ head p, head <+: buffer ∧ CompleteHead head p
    ∧ p.headers.get? (lit "expect") = some (lit "100-continue")

/-- The last request expects an interim response. -/
def Expecting (history : List (Moment × Action)) : Prop :=
  ∃ buffer, history.reverse.findSome? headBuffer? = some buffer ∧ Expects buffer

/-- The final response of the last request has been built: it has been
answered, its script has, or it has been refused past the response
buffer. -/
def ResponseBuilt (history : List (Moment × Action)) : Prop :=
  ∃ e ∈ sinceHead history, (∃ p response, e.2 = .dispatch p (.answered response))
    ∨ (∃ h response, e.2 = .cgiRespond h response ∧ ∃ e' ∈ sinceHead history,
        ∃ p interpreter, e'.2 = .dispatch p (.started h interpreter))
    ∨ ∃ response, e.2 = .sendDirect response ∧ response ≠ continueText

namespace Connection

variable {W : Type}

/-- The parser of a request that expects an interim response is in BODY. -/
def Waits (c : Connection W) : Prop :=
  ∃ p, c.client.parser = some p ∧ p.state = .body ∧ Expecting c.trace

/-- What is asked of a `handleIncomingData`. -/
structure HonoursRead (os : OS W) (env : Env) (data : Option Segment) (c : Connection W) :
    Prop where
  sent : ∀ c', handleIncomingData os env data c = .ok () c' → Waits c' →
    0 < interims (sinceHead c'.trace)
  /-- the stretch of a history between two heads is about one request -/
  once : ∀ before part after,
    (final (handleIncomingData os env data c)).trace = before ++ part ++ after →
      (∀ e ∈ part, headBuffer? e = none) → interims part ≤ 1
  inTime : Expecting c.trace → ResponseBuilt c.trace →
    interims (final (handleIncomingData os env data c)).trace = interims c.trace

/-- The interim responses of a run are sent as they should be. -/
def Honours (os : OS W) : List Event → Connection W → Prop
  | [], _ => True
  | ev :: evs, c =>
      (∀ env data output, ev = .client env (some data) output → c.client.isStarted = true →
        HonoursRead os env data c)
      ∧ ∀ c', step os ev c = .ok () c' → Honours os evs c'

/-- The parser that a segment which completes a head leaves. -/
structure HeadIn (c : Connection W) (segment : Segment) (q : RequestParser) : Prop where
  atHead : ∀ p, c.client.parser = some p → p.state = .body → c.client.waitingForCgi = true
  found : (find doubleCrlf (c.client.requestBuffer ++ segment.val)).isSome
  parsed : ∃ p rest, ({} : RequestParser).parseRequest (c.client.requestBuffer ++ segment.val)
    = some (.returned p rest) ∧ q = routed c.client.serverConfigs p

/-- The segment leaves no request that expects an interim response without
its body, and no such request is answered and still expects one. -/
structure ReadsClear (segment : Segment) (c : Connection W) : Prop where
  complete : ∀ q, HeadIn c segment q → q.state = .body →
    ¬Expects (c.client.requestBuffer ++ segment.val)
  answered : Expecting c.trace → ResponseBuilt c.trace →
    c.client.parser.any (fun p => p.headers.contains (lit "expect")) = true →
      c.client.continueSent = true

/-- Every segment of a run is read where it should be. -/
def Clear (os : OS W) : List Event → Connection W → Prop
  | [], _ => True
  | ev :: evs, c =>
      (∀ env segment output, ev = .client env (some (some segment)) output →
        c.client.isStarted = true → bodyTooLarge c.client = .ok none → ReadsClear segment c)
      ∧ ∀ c', step os ev c = .ok () c' → Clear os evs c'

/-! ## Code that sends no interim response -/

theorem interims_append (history : List (Moment × Action)) (e : Moment × Action) :
    interims (history ++ [e]) = interims history + if isInterim e then 1 else 0 := by
  simp [interims, List.countP_append, List.countP_singleton]

theorem headBuffer?_append (history : List (Moment × Action)) (e : Moment × Action) :
    (history ++ [e]).reverse.findSome? headBuffer?
      = (headBuffer? e).or (history.reverse.findSome? headBuffer?) := by
  rw [List.reverse_append, List.reverse_singleton, List.singleton_append, List.findSome?_cons]
  cases headBuffer? e <;> rfl

/-- No interim response has been sent. -/
structure Silent (c c' : Connection W) : Prop where
  continueSent : c'.client.continueSent = c.client.continueSent
  interims : interims c'.trace = interims c.trace

namespace Silent

variable {c c' c'' : Connection W}

theorem refl (c : Connection W) : Silent c c := ⟨rfl, rfl⟩

theorem trans (h : Silent c c') (h' : Silent c' c'') : Silent c c'' :=
  ⟨h'.continueSent.trans h.continueSent, h'.interims.trans h.interims⟩

theorem of_eq (hsent : c'.client.continueSent = c.client.continueSent)
    (htrace : c'.trace = c.trace) : Silent c c' := ⟨hsent, by rw [htrace]⟩

theorem of_append {m : Moment} {action : Action}
    (hsent : c'.client.continueSent = c.client.continueSent)
    (htrace : c'.trace = c.trace ++ [(m, action)]) (he : action ≠ .sendDirect continueText) :
    Silent c c' := by
  refine ⟨hsent, ?_⟩
  rw [htrace, interims_append, isInterim, decide_eq_false he]
  rfl

end Silent

/-- Besides, no head has been parsed, and the parser is the same if it is
still there. -/
structure Still (c c' : Connection W) : Prop extends Silent c c' where
  head : c'.trace.reverse.findSome? headBuffer? = c.trace.reverse.findSome? headBuffer?
  parser : c'.client.parser = none ∨ c'.client.parser = c.client.parser

namespace Still

variable {c c' c'' : Connection W}

theorem refl (c : Connection W) : Still c c := ⟨.refl c, rfl, .inr rfl⟩

theorem trans (h : Still c c') (h' : Still c' c'') : Still c c'' := by
  refine ⟨h.toSilent.trans h'.toSilent, h'.head.trans h.head, ?_⟩
  rcases h'.parser with hnone | heq
  · exact .inl hnone
  · rw [heq]
    exact h.parser

theorem of_eq (hclient : c'.client.continueSent = c.client.continueSent
      ∧ (c'.client.parser = none ∨ c'.client.parser = c.client.parser))
    (htrace : c'.trace = c.trace) : Still c c' :=
  ⟨.of_eq hclient.1 htrace, by rw [htrace], hclient.2⟩

theorem of_append {m : Moment} {action : Action}
    (hclient : c'.client.continueSent = c.client.continueSent
      ∧ (c'.client.parser = none ∨ c'.client.parser = c.client.parser))
    (htrace : c'.trace = c.trace ++ [(m, action)]) (he : action ≠ .sendDirect continueText)
    (hhead : headBuffer? (m, action) = none) : Still c c' := by
  refine ⟨.of_append hclient.1 htrace he, ?_, hclient.2⟩
  rw [htrace, headBuffer?_append, hhead]
  rfl

theorem terminated (c : Connection W) : Still c c.terminated := by
  unfold Connection.terminated
  split
  · exact .of_append ⟨rfl, .inl rfl⟩ rfl (by simp) rfl
  · exact .refl c

/-- A request in BODY does not come to expect an interim response. -/
theorem waits (h : Still c c') (hw : Waits c') : Waits c := by
  obtain ⟨p, hp, hstate, buffer, hfound, hexpects⟩ := hw
  rcases h.parser with hnone | heq
  · rw [hnone] at hp
    cases hp
  · exact ⟨p, heq ▸ hp, hstate, buffer, h.head ▸ hfound, hexpects⟩

end Still

section Output

variable (env : Env) {os : OS W} {P : Connection W → Prop}

theorem still_cgiTimedOut (c : Connection W) (h : Nat) (p : RequestParser) :
    Still c (cgiTimedOut os env c h p) := by
  unfold cgiTimedOut
  exact .of_append ⟨rfl, .inr rfl⟩ rfl (by simp) rfl

theorem still_onOutput (output : Option Sent) : Makes Still P (onOutput os env output) := by
  cases output with
  | none => exact .pure
  | some sent =>
      have hcheck : Makes Still P (checkCgiProgress os env) :=
        makes_checkCgiProgress (fun c h p _ => still_cgiTimedOut env c h p)
          fun c => .of_eq ⟨rfl, .inr rfl⟩ rfl
      refine hcheck.bind fun _ => makes_handleResponse .terminated (fun c n => ?_) (fun c => ?_)
        (fun c => ?_) sent
      · exact .of_append ⟨rfl, .inr rfl⟩ rfl (by simp) rfl
      · exact .of_eq ⟨rfl, .inr rfl⟩ rfl
      · exact .of_eq ⟨rfl, .inl rfl⟩ rfl

end Output

theorem still_onPipeEvent (env : Env) (h : Nat) {P : Connection W → Prop} (ev : PipeEvent) :
    Makes Still P (onPipeEvent env h ev : Method W Unit) := by
  refine makes_onPipeEvent (fun c i b _ _ _ => ?_) (fun c handler b _ _ => ?_)
    (fun c handler handler' _ => ?_) ev
  · exact .of_append ⟨rfl, .inr rfl⟩ rfl (by simp) rfl
  · exact .of_eq ⟨rfl, .inr rfl⟩ rfl
  · exact .of_eq ⟨rfl, .inr rfl⟩ rfl

section Input

variable (os : OS W) (env : Env) {P : Connection W → Prop}

theorem silent_cgiRequest {p : RequestParser} (hcgi : p.goesToCgi = true) (c : Connection W) :
    Silent c (final (processCgiRequest os env p c)) := by
  have hresult := processCgiRequest_result os env hcgi c
  generalize processCgiRequest os env p c = r at hresult
  cases hresult with
  | crash => exact .of_append rfl rfl (by simp)
  | refuse hb hb' hc' hcode =>
      obtain ⟨pending, -, hclient⟩ := hb.dropped_client hc'
      refine .of_append ?_ (by simp only [final, errorAnswer, hb.dropped_trace hc']; rfl) (by simp)
      simp only [final, errorAnswer, hclient]
  | start hb =>
      refine .of_append ?_ (by simp only [final, handlerStarted, hb.trace]; rfl) (by simp)
      simp only [final, handlerStarted, hb.client]

theorem silent_processCompletedRequest : Makes Silent P (processCompletedRequest os env) := by
  refine makes_processCompletedRequest (fun c p _ => .of_eq rfl rfl)
    (fun p c hcgi => silent_cgiRequest os env hcgi c) (fun c p => ?_) fun c p b world response => ?_
  · exact .of_append rfl rfl (by simp)
  · exact .of_append rfl rfl (by simp)

theorem silent_parseReceived (c : Connection W) :
    Silent c (final (parseReceived os env c)) := by
  have hmakes : Makes Silent (fun t => t = c) (parseReceived os env) :=
    makes_parseReceived os env (fun c before p rest => .of_append rfl rfl (by simp))
      (fun _ => silent_processCompletedRequest os env) fun c => .of_eq rfl rfl
  exact hmakes.step .refl (fun _ _ _ => .trans) rfl

theorem tooLargeResponse_ne_continue (c : Connection W) (p : RequestParser) :
    Action.sendDirect (tooLargeResponse os env c p) ≠ .sendDirect continueText := by
  intro heq
  have hline : ResponseBuilder.statusLineOf 413 <+: tooLargeResponse os env c p :=
    tooLargeResponse_statusLine env c p
  obtain ⟨tail, hline⟩ := hline
  rw [Action.sendDirect.injEq, ← hline] at heq
  have hhead := congrArg (List.take 12) heq
  rw [List.take_append_of_le_length (by decide)] at hhead
  exact absurd hhead (by decide)

/-- Where nothing is read the parser is gone, or a fault is raised. -/
theorem handleIncomingData_unread (data : Option Segment) {c : Connection W}
    (hs : c.client.isStarted = true)
    (hunread : ∀ segment, data = some segment → bodyTooLarge c.client ≠ .ok none) :
    Silent c (final (handleIncomingData os env data c))
      ∧ ∀ c', handleIncomingData os env data c = .ok () c' → c'.client.parser = none := by
  have hparser {c : Connection W} (hs : c.client.isStarted = true) :
      c.terminated.client.parser = none := by
    rw [terminated, if_pos hs]
  have hread : Silent c (c.log c.moment .read) := .of_append rfl rfl (by simp)
  cases hlarge : bodyTooLarge c.client with
  | error fault =>
      rw [handleIncomingData_fault os env data hlarge]
      refine ⟨hread, fun c' heq => ?_⟩
      cases heq
  | ok large =>
      cases large with
      | some p =>
          rw [handleIncomingData_tooLarge env data hlarge]
          refine ⟨?_, fun c' heq => ?_⟩
          · have hrefused : Silent (c.log c.moment .read) ((c.log c.moment .read).log c.moment
                (.sendDirect (tooLargeResponse os env (c.log c.moment .read) p))) :=
              .of_append rfl rfl (tooLargeResponse_ne_continue os env _ p)
            exact hread.trans (hrefused.trans (Still.terminated _).toSilent)
          · cases heq
            exact hparser hs
      | none =>
          cases data with
          | some segment => exact absurd hlarge (hunread segment rfl)
          | none =>
              rw [handleIncomingData_closed os env hlarge]
              refine ⟨hread.trans (Still.terminated _).toSilent, fun c' heq => ?_⟩
              cases heq
              exact hparser hs

/-- What a segment that is read finds. -/
def segmentRead (c : Connection W) (segment : Segment) : Connection W :=
  expectHandled ((c.log c.moment .read).received env segment)

theorem segmentRead_head (c : Connection W) (segment : Segment) :
    (segmentRead env c segment).trace.reverse.findSome? headBuffer?
      = c.trace.reverse.findSome? headBuffer? := by
  have hread : ((c.log c.moment .read).received env segment).trace
      = c.trace ++ [(c.moment, .read)] := rfl
  unfold segmentRead expectHandled
  split
  · show (((c.log c.moment .read).received env segment).trace ++ [_]).reverse.findSome? _ = _
    rw [headBuffer?_append, hread, headBuffer?_append]
    rfl
  · rw [hread, headBuffer?_append]
    rfl

/-- An interim response is sent for the request before, once. -/
theorem interims_segmentRead {c : Connection W}
    (h : interims c.trace ≤ if c.client.continueSent then 1 else 0) (segment : Segment) :
    interims (segmentRead env c segment).trace
      ≤ if (segmentRead env c segment).client.continueSent then 1 else 0 := by
  have hread : Silent c ((c.log c.moment .read).received env segment) :=
    .of_append rfl rfl (by simp)
  unfold segmentRead expectHandled
  split
  · rename_i htest
    have hfirst : c.client.continueSent = false := by
      simpa [hread.continueSent] using (Bool.and_eq_true_iff.mp htest).2
    rw [hfirst] at h
    show interims (((c.log c.moment .read).received env segment).trace ++ [_]) ≤ 1
    rw [interims_append, hread.interims, Nat.le_zero.mp h]
    split <;> decide
  · rw [hread.interims, hread.continueSent]
    exact h

/-- No interim response is sent behind the test. -/
theorem silent_segmentRead {c : Connection W} (segment : Segment)
    (h : c.client.parser.any (fun p => p.headers.contains (lit "expect")) = true →
      c.client.continueSent = true) : Silent c (segmentRead env c segment) := by
  unfold segmentRead expectHandled
  have htest : (c.client.parser.any (fun p => p.headers.contains (lit "expect"))
      && !c.client.continueSent) = false := by
    cases hany : c.client.parser.any fun p => p.headers.contains (lit "expect") with
    | false => rfl
    | true =>
        rw [h hany]
        rfl
  rw [if_neg (by rw [Bool.not_eq_true]; exact htest)]
  exact .of_append rfl rfl (by simp)

/-! ## One segment -/

/-- The parser of a completed request is not in BODY. -/
theorem not_waits_completed {c c' : Connection W} {p : RequestParser}
    (hp : c.client.parser = some p) (hstate : p.state ≠ .body)
    (hok : processCompletedRequest os env c = .ok () c') : ¬Waits c' := by
  rintro ⟨q, hq, hbody, -⟩
  have hparser := (processCompletedRequest_input os env hp).1
  rw [hok] at hparser
  obtain rfl := Option.some.inj (hparser.symm.trans hq)
  exact hstate hbody

/-- Behind a segment no request in BODY expects an interim response, when
there was none before it, and its head leaves none. -/
theorem not_waits_received {c c' : Connection W} {segment : Segment} (hidle : ¬Waits c)
    (hsmall : bodyTooLarge c.client = .ok none)
    (hcomplete : ∀ q, HeadIn c segment q → q.state = .body →
      ¬Expects (c.client.requestBuffer ++ segment.val))
    (hok : handleIncomingData os env (some segment) c = .ok () c') : ¬Waits c' := by
  rw [handleIncomingData_eq os env segment hsmall] at hok
  have hsame : SameInput ((c.log c.moment .read).received env segment)
      (segmentRead env c segment) := sameInput_expectHandled _
  have hhead := segmentRead_head env c segment
  change parseReceived os env (segmentRead env c segment) = .ok () c' at hok
  generalize segmentRead env c segment = c₁ at hok hsame hhead
  have hparser : c₁.client.parser = c.client.parser := hsame.parser
  have hwaiting : c₁.client.waitingForCgi = c.client.waitingForCgi := hsame.waiting
  have hbuffer : c₁.client.requestBuffer = c.client.requestBuffer ++ segment.val := hsame.buffer
  have hservers : c₁.client.serverConfigs = c.client.serverConfigs := hsame.servers
  have hidle₁ : ¬Waits c₁ := by
    rintro ⟨p, hp, hstate, buffer, hfound, hexpects⟩
    exact hidle ⟨p, hparser ▸ hp, hstate, buffer, hhead ▸ hfound, hexpects⟩
  obtain rfl | ⟨before, q, rest, hparses, ⟨hstate, rfl⟩ | ⟨hstate, hdone⟩⟩ :=
    parseReceived_cases os env hok
  · exact hidle₁
  · rintro ⟨-, -, -, buffer, hlast, hexpects⟩
    rw [parsed, headBuffer?_append] at hlast
    cases hparses with
    | body hp hbody hparse =>
        have hentry : headBuffer? (c₁.moment, .parsed before q) = none := if_pos hbody
        rw [hentry] at hlast
        exact hidle₁ ⟨before, hp, hbody, buffer, hlast, hexpects⟩
    | head hatHead hfound hparse =>
        cases Option.some.inj hlast
        change Expects c₁.client.requestBuffer at hexpects
        rw [hbuffer] at hexpects hfound hparse
        rw [hservers] at hstate
        rw [hparser, hwaiting] at hatHead
        exact hcomplete _ ⟨hatHead, hfound, _, rest, hparse, rfl⟩ hstate hexpects
  · exact not_waits_completed os env rfl hstate hdone

/-- Such a head is not told to go on. -/
theorem HonoursRead.complete {c : Connection W} {segment : Segment}
    (h : HonoursRead os env (some segment) c) (hsmall : bodyTooLarge c.client = .ok none)
    {q : RequestParser} (hhead : HeadIn c segment q) (hstate : q.state = .body) :
    ¬Expects (c.client.requestBuffer ++ segment.val) := by
  intro hexpects
  obtain ⟨hatHead, hfound, p, rest, hparse, rfl⟩ := hhead
  have hsame : SameInput ((c.log c.moment .read).received env segment)
      (segmentRead env c segment) := sameInput_expectHandled _
  have hread := handleIncomingData_eq os env segment hsmall
  change _ = parseReceived os env (segmentRead env c segment) at hread
  generalize segmentRead env c segment = c₁ at hread hsame
  have hparser : c₁.client.parser = c.client.parser := hsame.parser
  have hwaiting : c₁.client.waitingForCgi = c.client.waitingForCgi := hsame.waiting
  have hbuffer : c₁.client.requestBuffer = c.client.requestBuffer ++ segment.val := hsame.buffer
  have hservers : c₁.client.serverConfigs = c.client.serverConfigs := hsame.servers
  rw [← hbuffer] at hfound hparse hexpects
  rw [← hservers] at hstate
  rw [← hparser, ← hwaiting] at hatHead
  rw [parseReceived_atHead os env hatHead, processRequestHeaders_parsed os env hfound hparse,
    if_pos hstate] at hread
  have hlast : headBuffer? (c₁.moment, .parsed {} (routed c₁.client.serverConfigs p))
      = some c₁.client.requestBuffer := rfl
  have hsent := h.sent _ hread ⟨_, rfl, hstate, _, by rw [parsed, headBuffer?_append, hlast]; rfl,
    hexpects⟩
  rw [sinceHead, parsed, List.rtakeWhile_concat, hlast] at hsent
  exact absurd hsent (Nat.lt_irrefl 0)

/-- An answered request that still expects an interim response would be
told to go on. -/
theorem HonoursRead.answered {c : Connection W} {segment : Segment}
    (h : HonoursRead os env (some segment) c) (hsmall : bodyTooLarge c.client = .ok none)
    (hexpecting : Expecting c.trace) (hbuilt : ResponseBuilt c.trace)
    (hexpect : c.client.parser.any (fun p => p.headers.contains (lit "expect")) = true) :
    c.client.continueSent = true := by
  by_contra hfirst
  rw [Bool.not_eq_true] at hfirst
  have hread : Silent c ((c.log c.moment .read).received env segment) :=
    .of_append rfl rfl (by simp)
  have htest : (((c.log c.moment .read).received env segment).client.parser.any
      (fun p => p.headers.contains (lit "expect"))
        && !((c.log c.moment .read).received env segment).client.continueSent) = true := by
    rw [hread.continueSent, hfirst]
    exact Bool.and_eq_true_iff.mpr ⟨hexpect, rfl⟩
  have hsame := h.inTime hexpecting hbuilt
  rw [handleIncomingData_eq os env segment hsmall, (silent_parseReceived os env _).interims,
    expectHandled, if_pos htest, Connection.continueSent, interims_append, hread.interims] at hsame
  have hinterim : isInterim (((c.log c.moment .read).received env segment).moment,
      .sendDirect (lit "HTTP/1.1 100 Continue\r\n\r\n")) = true := decide_eq_true rfl
  rw [hinterim, if_pos rfl] at hsame
  exact absurd hsame (Nat.succ_ne_self _)

end Input

/-! ## Runs -/

section Runs

variable {os : OS W} {c : Connection W}

/-- What every clear run keeps. -/
structure ContinueOk (c : Connection W) : Prop where
  idle : ¬Waits c
  counted : interims c.trace ≤ if c.client.continueSent then 1 else 0

theorem ContinueOk.still {c' : Connection W} (h : ContinueOk c) (hstill : Still c c') :
    ContinueOk c' := by
  refine ⟨fun hw => h.idle (hstill.waits hw), ?_⟩
  rw [hstill.interims, hstill.continueSent]
  exact h.counted

theorem interims_le_one {c : Connection W}
    (h : interims c.trace ≤ if c.client.continueSent then 1 else 0) : interims c.trace ≤ 1 := by
  refine h.trans ?_
  split <;> decide

/-- The count after a segment, or none. -/
theorem counted_handleIncomingData (os : OS W) (env : Env) (data : Option Segment)
    (hs : c.client.isStarted = true)
    (h : interims c.trace ≤ if c.client.continueSent then 1 else 0) :
    interims (final (handleIncomingData os env data c)).trace
      ≤ if (final (handleIncomingData os env data c)).client.continueSent then 1 else 0 := by
  by_cases hread : ∃ segment, data = some segment ∧ bodyTooLarge c.client = .ok none
  · obtain ⟨segment, rfl, hsmall⟩ := hread
    rw [handleIncomingData_eq os env segment hsmall]
    have hsilent := silent_parseReceived os env (segmentRead env c segment)
    change interims (final (parseReceived os env (segmentRead env c segment))).trace
      ≤ if (final (parseReceived os env (segmentRead env c segment))).client.continueSent then 1
        else 0
    rw [hsilent.interims, hsilent.continueSent]
    exact interims_segmentRead env h segment
  · have hsilent := (handleIncomingData_unread os env data hs
      fun segment hdata hsmall => hread ⟨segment, hdata, hsmall⟩).1
    rw [hsilent.interims, hsilent.continueSent]
    exact h

theorem not_waits_handleIncomingData {env : Env} {data : Option Segment} (h : ¬Waits c)
    (hs : c.client.isStarted = true)
    (hclear : ∀ segment, data = some segment → bodyTooLarge c.client = .ok none →
      ReadsClear segment c) {c' : Connection W}
    (hok : handleIncomingData os env data c = .ok () c') : ¬Waits c' := by
  by_cases hread : ∃ segment, data = some segment ∧ bodyTooLarge c.client = .ok none
  · obtain ⟨segment, rfl, hsmall⟩ := hread
    exact not_waits_received os env h hsmall (hclear segment rfl hsmall).complete hok
  · have hgone := (handleIncomingData_unread os env data hs
      fun segment hdata hsmall => hread ⟨segment, hdata, hsmall⟩).2
    rintro ⟨p, hp, -⟩
    rw [hgone c' hok] at hp
    cases hp

/-- What is read clearly is read as it should be. -/
theorem honoursRead_of (env : Env) (data : Option Segment) (h : ContinueOk c)
    (hs : c.client.isStarted = true)
    (hclear : ∀ segment, data = some segment → bodyTooLarge c.client = .ok none →
      ReadsClear segment c) : HonoursRead os env data c := by
  have hcounted := counted_handleIncomingData os env data hs h.counted
  have honce : ∀ before part after,
      (final (handleIncomingData os env data c)).trace = before ++ part ++ after →
        (∀ e ∈ part, headBuffer? e = none) → interims part ≤ 1 := by
    intro before part after htrace _
    refine le_trans ?_ (interims_le_one hcounted)
    rw [htrace, interims, interims, List.countP_append, List.countP_append]
    omega
  refine ⟨fun c' hok hw => ?_, honce, fun hexpecting hbuilt => ?_⟩
  · exact absurd hw (not_waits_handleIncomingData h.idle hs hclear hok)
  · by_cases hread : ∃ segment, data = some segment ∧ bodyTooLarge c.client = .ok none
    · obtain ⟨segment, rfl, hsmall⟩ := hread
      rw [handleIncomingData_eq os env segment hsmall, (silent_parseReceived os env _).interims]
      exact (silent_segmentRead env segment
        ((hclear segment rfl hsmall).answered hexpecting hbuilt)).interims
    · exact (handleIncomingData_unread os env data hs
        fun segment hdata hsmall => hread ⟨segment, hdata, hsmall⟩).1.interims

theorem readsClear_of {env : Env} {segment : Segment}
    (h : HonoursRead os env (some segment) c) (hsmall : bodyTooLarge c.client = .ok none) :
    ReadsClear segment c :=
  ⟨fun _ hhead hstate => h.complete os env hsmall hhead hstate, h.answered os env hsmall⟩

/-- An event whose segment is read clearly. -/
theorem ContinueOk.step {c' : Connection W} (h : ContinueOk c) {ev : Event}
    (hclear : ∀ env segment output, ev = .client env (some (some segment)) output →
      c.client.isStarted = true → bodyTooLarge c.client = .ok none → ReadsClear segment c)
    (hok : Connection.step os ev c = .ok () c') : ContinueOk c' := by
  have hrun : (Connection.step os ev).run c = .ok () c' := hok
  cases ev with
  | client env input output =>
      simp only [Connection.step, EStateM.run_bind, EStateM.run_get] at hrun
      split at hrun
      · rename_i hs
        obtain ⟨⟨⟩, c₁, hinput, houtput⟩ := ok_of_bind (x := onInput os env input) hrun
        have hinput₁ : ContinueOk c₁ := by
          cases input with
          | none =>
              cases hinput
              exact h
          | some data =>
              have hcounted := counted_handleIncomingData os env data hs h.counted
              change handleIncomingData os env data c = .ok () c₁ at hinput
              rw [hinput] at hcounted
              refine ⟨not_waits_handleIncomingData h.idle hs ?_ hinput, hcounted⟩
              intro segment hdata hsmall
              exact hclear env segment output (by rw [hdata]) hs hsmall
        have hmakes : Makes Still (fun t => t = c₁) (onOutput os env output) :=
          still_onOutput env output
        have hstill := hmakes.step .refl (fun _ _ _ => .trans) rfl
        rw [houtput] at hstill
        exact hinput₁.still hstill
      · cases hrun
        exact h
  | pipe env k ev =>
      simp only [Connection.step, EStateM.run_bind, EStateM.run_get] at hrun
      split at hrun
      · have hmakes : Makes Still (fun t => t = c) (onPipeEvent env k ev : Method W Unit) :=
          still_onPipeEvent env k ev
        have hstill := hmakes.step .refl (fun _ _ _ => .trans) rfl
        change onPipeEvent env k ev c = .ok () c' at hrun
        rw [hrun] at hstill
        exact h.still hstill
      · cases hrun
        exact h

theorem honours_iff_of : ∀ (evs : List Event) {c : Connection W}, ContinueOk c →
    (Honours os evs c ↔ Clear os evs c)
  | [], _, _ => Iff.rfl
  | ev :: evs, c, h => by
      constructor
      · rintro ⟨hread, hrest⟩
        have hclear : ∀ env segment output, ev = .client env (some (some segment)) output →
            c.client.isStarted = true → bodyTooLarge c.client = .ok none →
              ReadsClear segment c :=
          fun env segment output heq hs hsmall =>
            readsClear_of (hread env (some segment) output heq hs) hsmall
        exact ⟨hclear, fun c' hok => (honours_iff_of evs (h.step hclear hok)).mp (hrest c' hok)⟩
      · rintro ⟨hclear, hrest⟩
        refine ⟨fun env data output heq hs => honoursRead_of env data h hs ?_,
          fun c' hok => (honours_iff_of evs (h.step hclear hok)).mpr (hrest c' hok)⟩
        intro segment hdata hsmall
        exact hclear env segment output (by rw [heq, hdata]) hs hsmall

theorem continueOk_accepted (garbage continueSent : Bool) (lastActivity : Int) (fd fd' : Nat)
    (serverConfigs : ServerGroup) (world : W) :
    ContinueOk (accepted garbage continueSent lastActivity fd fd' serverConfigs world) := by
  refine ⟨?_, Nat.zero_le _⟩
  rintro ⟨p, hp, -⟩
  cases hp

end Runs

end Connection

open Connection

/-- In a run of a connection, interim responses are sent as they should be
if and only if no segment leaves a request that expects one without its
body, or finds one answered that still expects it. -/
theorem honours_iff {W : Type} (os : OS W) (garbage continueSent : Bool) (lastActivity : Int)
    (fd fd' : Nat) (serverConfigs : ServerGroup) (world : W) (evs : List Event) :
    Honours os evs (accepted garbage continueSent lastActivity fd fd' serverConfigs world)
      ↔ Clear os evs (accepted garbage continueSent lastActivity fd fd' serverConfigs world) :=
  honours_iff_of evs
    (continueOk_accepted garbage continueSent lastActivity fd fd' serverConfigs world)

/-- The head of an upload that waits for the interim response. -/
def expectHead : Bytes :=
  lit "POST /a HTTP/1.1\r\nHost: a\r\nContent-Length: 1\r\nExpect: 100-continue\r\n\r\n"

def expectParser : RequestParser :=
  ((acceptedHead expectHead).map Prod.fst).getD {}

def expectSegment : Segment := ⟨expectHead, by decide +kernel⟩

def expectEvents : List Event := [.client { now := 0 } (some (some expectSegment)) none]

theorem completeHead_expect : CompleteHead expectHead expectParser :=
  ⟨by decide +kernel, ⟨_, _, rfl, by decide +kernel, by decide +kernel⟩, by decide +kernel⟩

/-- The upload is not told to go on when its head has been read. -/
theorem not_honours :
    ¬∀ (W : Type) (os : OS W) (garbage continueSent : Bool) (lastActivity : Int)
      (fd fd' : Nat) (serverConfigs : ServerGroup) (world : W) (evs : List Event),
      Honours os evs
        (accepted garbage continueSent lastActivity fd fd' serverConfigs world) := by
  intro h
  have hread := (h Unit flatOs false false 0 3 4 scriptServers () expectEvents).1 { now := 0 }
    (some expectSegment) none rfl rfl
  have hhead : HeadIn (accepted false false 0 3 4 scriptServers ()) expectSegment
      (routed scriptServers expectParser) := by
    refine ⟨fun p hp => ?_, by decide +kernel, expectParser, [], by decide +kernel, rfl⟩
    cases hp
  exact hread.complete flatOs _ rfl hhead (by decide +kernel)
    ⟨expectHead, expectParser, List.prefix_rfl, completeHead_expect, by decide +kernel⟩

end Webserv
