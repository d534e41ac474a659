import Webserv.ConnectionRuns
import Webserv.Delivery

/-!
# Responses in request order

A connection as an outbox: the completed requests are its requests, a
pending CGI is its job, and `_response_buffer` is its buffer. A tick is a
step of the outbox or none, provided that the buffer is empty when a
response is put into it and that no request is completed while a CGI is
pending. The code checks neither.
-/

namespace Webserv

open Bytes Program Delivery

namespace Action

/-- What is sent by `sendResponseChunk`. -/
def sent : Action → Bytes
  | .send bytes => bytes
  | _ => []

/-- What the action adds to the answers so far. -/
def answer (answers : List (Answer Nat UInt8)) : Action → List (Answer Nat UInt8)
  | .dispatch _ (.answered response) => answers ++ [.built response]
  | .dispatch _ (.started h _) => answers ++ [.pending h]
  | .cgiRespond h response => answers.map (fill h response)
  | _ => answers

end Action

/-- The bytes sent out of the response buffer. -/
def sentBytes (trace : List (Moment × Action)) : Bytes :=
  (trace.map fun e => e.2.sent).flatten

/-- The completed requests, in their order, with their responses. -/
def answers (trace : List (Moment × Action)) : List (Answer Nat UInt8) :=
  trace.foldl (fun answers e => e.2.answer answers) []

/-- What has been sent is a prefix of the responses in request order. -/
def SentInOrder (trace : List (Moment × Action)) : Prop :=
  sentBytes trace <+: inOrder (answers trace)

instance decidableSentInOrder : DecidablePred SentInOrder := fun trace => by
  unfold SentInOrder
  infer_instance

/-- No request is completed while a CGI is pending, and a response is put
into an empty buffer. -/
def InTurn (e : Moment × Action) : Prop :=
  match e.2 with
  | .dispatch _ (.answered _) =>
      e.1.client.pendingCgi = none ∧ e.1.client.responseBuffer = []
  | .dispatch _ _ => e.1.client.pendingCgi = none
  | .cgiRespond _ _ => e.1.client.responseBuffer = []
  | _ => True

instance decidableInTurn : DecidablePred InTurn
  | (m, .dispatch _ (.answered _)) =>
      inferInstanceAs (Decidable (m.client.pendingCgi = none ∧ m.client.responseBuffer = []))
  | (m, .dispatch _ (.started _ _)) | (m, .dispatch _ .crashed) =>
      inferInstanceAs (Decidable (m.client.pendingCgi = none))
  | (m, .cgiRespond _ _) => inferInstanceAs (Decidable (m.client.responseBuffer = []))
  | (_, .read) | (_, .parsed _ _) | (_, .send _) | (_, .sendDirect _) | (_, .close) =>
      instDecidableTrue

namespace Connection

variable {W : Type} {os : OS W}

def outbox (c : Connection W) : Outbox Nat UInt8 where
  answers := answers c.trace
  job := c.client.pendingCgi
  buffer := c.client.responseBuffer
  sent := sentBytes c.trace
  isOpen := c.client.isStarted

theorem mem_trace (trace : List (Moment × Action)) (e : Moment × Action) :
    e ∈ trace ++ [e] :=
  List.mem_append_right _ List.mem_cons_self

theorem sentBytes_append (trace : List (Moment × Action)) (e : Moment × Action) :
    sentBytes (trace ++ [e]) = sentBytes trace ++ e.2.sent := by
  simp [sentBytes]

theorem answers_append (trace : List (Moment × Action)) (e : Moment × Action) :
    answers (trace ++ [e]) = e.2.answer (answers trace) := by
  simp [answers]

/-- The outbox does not see the change. -/
theorem outbox_eq {c c' : Connection W} (ha : answers c'.trace = answers c.trace)
    (hs : sentBytes c'.trace = sentBytes c.trace)
    (hj : c'.client.pendingCgi = c.client.pendingCgi)
    (hb : c'.client.responseBuffer = c.client.responseBuffer)
    (ho : c'.client.isStarted = c.client.isStarted) : c'.outbox = c.outbox := by
  simp only [outbox, ha, hs, hj, hb, ho]

theorem outbox_log (c : Connection W) (m : Moment) {action : Action} (hs : action.sent = [])
    (ha : ∀ as, action.answer as = as) : (c.log m action).outbox = c.outbox := by
  refine outbox_eq ?_ ?_ rfl rfl rfl
  · rw [log, answers_append, ha]
  · rw [log, sentBytes_append, hs, List.append_nil]

theorem outbox_terminated (c : Connection W) :
    c.terminated.outbox = c.outbox ∨ Step c.outbox c.terminated.outbox := by
  unfold terminated
  split
  · refine Or.inr ?_
    have h := Step.close c.outbox
    simp only [outbox, answers_append, sentBytes_append, Action.sent, Action.answer,
      List.append_nil] at h ⊢
    exact h
  · exact Or.inl rfl

/-- A tick is a step of the outbox, or the outbox does not see it. -/
theorem tick_outbox {c c' : Connection W} (hc : Sound c) (htick : Tick os c c')
    (hcond : Meeting InTurn c') : c'.outbox = c.outbox ∨ Step c.outbox c'.outbox := by
  cases htick with
  | read => exact Or.inl (outbox_log c _ rfl fun _ => rfl)
  | tooLarge => exact Or.inl (outbox_log c _ rfl fun _ => rfl)
  | crash => exact Or.inl (outbox_log c _ rfl fun _ => rfl)
  | terminate => exact outbox_terminated c
  | receive => exact Or.inl rfl
  | cleanup => exact Or.inl rfl
  | requestLine => exact Or.inl rfl
  | active => exact Or.inl rfl
  | finalize => exact Or.inl rfl
  | close => exact Or.inl rfl
  | handler => exact Or.inl rfl
  | expect =>
      refine Or.inl (outbox_eq ?_ ?_ rfl rfl rfl)
      · rw [continueSent, answers_append]
        rfl
      · rw [continueSent, sentBytes_append]
        exact List.append_nil _
  | parseBody =>
      refine Or.inl (outbox_eq ?_ ?_ rfl rfl rfl)
      · rw [parsed, answers_append]
        rfl
      · rw [parsed, sentBytes_append]
        exact List.append_nil _
  | parseHead =>
      refine Or.inl (outbox_eq ?_ ?_ rfl rfl rfl)
      · rw [parsed, answers_append]
        rfl
      · rw [parsed, sentBytes_append]
        exact List.append_nil _
  | @answer env c p hp hcgi b world response hb =>
      obtain ⟨hjob, hbuffer⟩ := hcond (c.moment, .dispatch p (.answered response)) (mem_trace _ _)
      refine Or.inr ?_
      have h := Step.answer c.outbox response (hc.started_of_parser hp.parser) hjob hbuffer
      simpa only [outbox, normalAnswer, answers_append, sentBytes_append, Action.sent,
        Action.answer, List.append_nil] using h
  | @refuse env c p hp hcgi c' c'' i b b' l hb hb' hc' code hcode =>
      obtain ⟨hjob, hbuffer⟩ := hcond (c.moment, .dispatch p (.answered _)) (mem_trace _ _)
      obtain ⟨pending, hpending, hclient⟩ := hb.dropped_client hc'
      obtain rfl : pending = c.client.pendingCgi := hpending.elim id fun h => h.trans hjob.symm
      refine Or.inr ?_
      have h := Step.answer c.outbox (errorResponse os env c''.world b' code).2
        (hc.started_of_parser hp.parser) hjob hbuffer
      simpa only [outbox, errorAnswer, hclient, hb.dropped_trace hc', answers_append,
        sentBytes_append, Action.sent, Action.answer, List.append_nil] using h
  | @start env c p hp hcgi c' i b l hb huse hroute h h' hcreate hstart =>
      have hjob := hcond (c.moment, .dispatch p (.started c'.handlers.next h'.interpreter))
        (mem_trace _ _)
      refine Or.inr ?_
      have h := Step.start c.outbox c'.handlers.next (hc.started_of_parser hp.parser) hjob
      simpa only [outbox, handlerStarted, hb.client, hb.trace, answers_append,
        sentBytes_append, Action.sent, Action.answer, List.append_nil] using h
  | @timeout env c h handler p hw hh hlive hp =>
      have hbuffer := hcond (c.moment, .cgiRespond h _) (mem_trace _ _)
      refine Or.inr ?_
      have h := Step.respond c.outbox h
        (errorResponse os env c.world (ResponseBuilder.create os c.world env p) 504).2
        (hc.started_of_parser hp) hh hbuffer
      simpa only [outbox, cgiTimedOut, answers_append, sentBytes_append, Action.sent,
        Action.answer, List.append_nil] using h
  | send env n hne =>
      refine Or.inr ?_
      have h := Step.send c.outbox n (hc.started fun h => hne h.responseBuffer)
      simpa only [outbox, chunkSent, answers_append, sentBytes_append, Action.sent,
        Action.answer] using h
  | @complete env c h i b hh hi hb =>
      have hbuffer := hcond (c.moment, .cgiRespond h _) (mem_trace _ _)
      refine Or.inr ?_
      have hopen : c.client.isStarted = true := hc.started fun hclean => by
        rw [hclean.pendingCgi] at hh
        cases hh
      have h := Step.respond c.outbox h (b.generateResponseOnly env).2 hopen hh hbuffer
      simpa only [outbox, cgiCompleted, answers_append, sentBytes_append, Action.sent,
        Action.answer, List.append_nil] using h

/-- What the runs keep: at every point of the history, what has been sent
is a prefix of the responses. -/
structure OrderKept (c : Connection W) : Prop where
  sound : Sound c
  ordered : Ordered c.outbox
  always : ∀ t, t <+: c.trace → SentInOrder t

theorem OrderKept.tick {c c' : Connection W} (h : OrderKept c) (htick : Tick os c c')
    (hcond : Meeting InTurn c') : OrderKept c' := by
  have hordered : Ordered c'.outbox := by
    rcases tick_outbox h.sound htick hcond with heq | hstep
    · rw [heq]
      exact h.ordered
    · exact h.ordered.step hstep
  refine ⟨h.sound.tick htick, hordered, fun t ht => ?_⟩
  rcases htick.extends with heq | ⟨e, heq⟩
  · exact h.always t (heq ▸ ht)
  · rw [heq, List.prefix_concat_iff] at ht
    rcases ht with rfl | ht
    · have hsent := hordered.sent
      simp only [outbox, heq] at hsent
      exact hsent
    · exact h.always t ht

theorem orderKept_accepted (garbage continueSent : Bool) (lastActivity : Int) (fd fd' : Nat)
    (serverConfigs : ServerGroup) (world : W) :
    OrderKept (accepted garbage continueSent lastActivity fd fd' serverConfigs world) where
  sound := sound_accepted ..
  ordered := .of_whole [] rfl rfl
  always := fun t ht => by
    obtain rfl := List.prefix_nil.mp ht
    exact List.prefix_rfl

end Connection

open Connection

/-- In every run in which no request is completed while a CGI is pending
and every response is put into an empty buffer, the bytes sent are at all
times a prefix of the responses in request order. -/
theorem sent_in_order {W : Type} (os : OS W) (garbage continueSent : Bool) (lastActivity : Int)
    (fd fd' : Nat) (serverConfigs : ServerGroup) (world : W) (evs : List Event)
    (h : Meeting InTurn
      (final (run os evs
        (accepted garbage continueSent lastActivity fd fd' serverConfigs world)))) :
    ∀ t, t <+: (final (run os evs
        (accepted garbage continueSent lastActivity fd fd' serverConfigs world))).trace →
      SentInOrder t :=
  (run_invariant (fun _ _ hc htick hcond => hc.tick htick hcond)
    (orderKept_accepted garbage continueSent lastActivity fd fd' serverConfigs world)
    evs h).always

def plainRequest : Bytes := lit "GET /a HTTP/1.1\r\nHost: a\r\n\r\n"

/-- Two requests, the second of which arrives behind the response to the
first. -/
def politeEvents : List Event :=
  [reads { now := 0 } plainRequest, writes { now := 0 } 10, writes { now := 0 } 1000,
    reads { now := 0 } plainRequest, writes { now := 0 } 1000]

theorem sent_in_order_polite :
    SentInOrder
      (final (run flatOs politeEvents (accepted false false 0 3 4 scriptServers ()))).trace :=
  sent_in_order flatOs false false 0 3 4 scriptServers () politeEvents (by decide +kernel) _
    List.prefix_rfl

/-- Two requests, the second of which arrives after ten bytes of the
response to the first have been sent. -/
def hurriedEvents : List Event :=
  [reads { now := 0 } plainRequest, writes { now := 0 } 10, reads { now := 0 } plainRequest,
    writes { now := 0 } 1000]

theorem not_sent_in_order :
    ¬∀ (W : Type) (os : OS W) (garbage continueSent : Bool) (lastActivity : Int)
      (fd fd' : Nat) (serverConfigs : ServerGroup) (world : W) (evs : List Event),
      ∀ t, t <+: (final (run os evs
          (accepted garbage continueSent lastActivity fd fd' serverConfigs world))).trace →
        SentInOrder t := by
  intro h
  have hsent := h Unit flatOs false false 0 3 4 scriptServers () hurriedEvents _ List.prefix_rfl
  revert hsent
  decide +kernel

end Webserv
