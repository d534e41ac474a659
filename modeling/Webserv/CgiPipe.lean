import Webserv.HandlerFrame
import Webserv.PendingCgi

/-!
# The pipe of a script

What a script writes stays in its pipe until the handler reads it, at most
`readSize` bytes for each event. `finalizeCGI` is called at the end of the
data and on EPOLLHUP, and a pipe can be hung up with bytes left in it, so
what is parsed is all that was written when the last read has emptied the
pipe.
-/

namespace Webserv

open Bytes Program Relation

/-- The pipe from a script to its handler. -/
structure Pipe where
  written : Bytes := []
  /-- the end of `written` that has not been read -/
  unread : Bytes := []
  /-- the script has closed its output -/
  closed : Bool := false

/-- `sizeof(buffer) - 1` in `CGIHandler::onEvent` -/
def readSize : Nat := 1023

namespace Pipe

def write (pipe : Pipe) (bytes : Bytes) : Pipe :=
  { pipe with written := pipe.written ++ bytes, unread := pipe.unread ++ bytes }

def close (pipe : Pipe) : Pipe := { pipe with closed := true }

/-- Behind a read of `bytes`. -/
def read (pipe : Pipe) (bytes : Bytes) : Pipe :=
  { pipe with unread := pipe.unread.drop bytes.length }

end Pipe

namespace Connection

/-- What is read at an event. -/
def PipeEvent.bytes (ev : PipeEvent) : Bytes := ev.input.getD []

/-- What the kernel reports of a pipe, and what the read then returns. A
pipe is readable while there are bytes in it and at its end, and hung up
when it is closed, both at once if there are bytes left. -/
structure Reports (pipe : Pipe) (ev : PipeEvent) : Prop where
  bytes : ev.bytes <+: pipe.unread ∧ ev.bytes.length ≤ readSize
  atEnd : ev.input = some [] → pipe.closed = true ∧ pipe.unread = []
  hup : ev.hup = true → pipe.closed = true
  readable : ev.hup = true → ev.input = none → pipe.unread = []

variable {W : Type} {os : OS W}

/-- The output the handler `h` has collected. -/
def output? (c : Connection W) (h : Nat) : Option Bytes :=
  (c.handlers.get? h).map fun handler => handler.cgiOutput

/-- One step of the script that the handler `h` runs, or of the
connection. -/
inductive ScriptStep (os : OS W) (h : Nat) : Connection W × Pipe → Connection W × Pipe → Prop where
  | write (bytes : Bytes) {c : Connection W} {pipe : Pipe} (hopen : pipe.closed = false) :
      ScriptStep os h (c, pipe) (c, pipe.write bytes)
  | close (c : Connection W) (pipe : Pipe) : ScriptStep os h (c, pipe) (c, pipe.close)
  | event (env : Env) {ev : PipeEvent} {c : Connection W} {pipe : Pipe}
      (hregistered : c.pipeRegistered h = true) (hreports : Reports pipe ev) :
      ScriptStep os h (c, pipe) (final (step os (.pipe env h ev) c), pipe.read ev.bytes)
  | other {ev : Event} (hev : ∀ env pipeEvent, ev ≠ .pipe env h pipeEvent) (c : Connection W)
      (pipe : Pipe) : ScriptStep os h (c, pipe) (final (step os ev c), pipe)

/-- In the handling of `ev` at `c`, `finalizeCGI` is called at `s`, where
it parses the output of `h`. -/
inductive Finalizes (env : Env) (h : Nat) (ev : PipeEvent) (c : Connection W) :
    Connection W → Prop where
  | atEnd (hinput : ev.input = some []) : Finalizes env h ev c c
  | hup {s : Connection W} (hinput : onPipeInput env h ev.input c = .ok () s)
      (hhup : ev.hup = true) : Finalizes env h ev c s

/-! ## The output of a handler -/

/-- The handler `h` of `c'`, if it is still there, has the output it had in
`c`. -/
def OutputLeft (h : Nat) (c c' : Connection W) : Prop :=
  ∀ handler', c'.handlers.get? h = some handler' →
    ∃ handler, c.handlers.get? h = some handler ∧ handler'.cgiOutput = handler.cgiOutput

namespace OutputLeft

variable {h : Nat} {c c' c'' : Connection W}

theorem of_eq (heq : c'.handlers.get? h = c.handlers.get? h) : OutputLeft h c c' :=
  fun handler' hlive => ⟨handler', heq ▸ hlive, rfl⟩

theorem trans (hc : OutputLeft h c c') (hc' : OutputLeft h c' c'') : OutputLeft h c c'' := by
  intro handler'' hlive
  obtain ⟨handler', hlive', heq'⟩ := hc' handler'' hlive
  obtain ⟨handler, hlive, heq⟩ := hc handler' hlive'
  exact ⟨handler, hlive, heq'.trans heq⟩

theorem of_set {handler handler' : CgiHandler} (hlive : c.handlers.get? h = some handler)
    (hh : c'.handlers = c.handlers.set h handler')
    (heq : handler'.cgiOutput = handler.cgiOutput) : OutputLeft h c c' := by
  intro handler'' hlive'
  rw [hh, Heap.get?_set_of_live hlive, if_pos rfl] at hlive'
  exact ⟨handler, hlive, Option.some.inj hlive' ▸ heq⟩

end OutputLeft

section Events

variable (env : Env) (h : Nat)

theorem outputLeft_finalizeCgi {P : Connection W → Prop} :
    Makes (OutputLeft h) P (finalizeCgi env h : Method W Unit) := by
  refine makes_finalizeCgi (fun c i b _ _ _ handler' hlive' => ?_)
    fun c handler b hlive _ => .of_set hlive rfl rfl
  rw [cgiCompleted, Heap.get?_free, if_pos rfl] at hlive'
  cases hlive'

theorem outputLeft_final {x : Method W Unit} {c : Connection W}
    (hx : Makes (OutputLeft h) (fun t => t = c) x) : OutputLeft h c (final (x c)) :=
  hx.step (fun _ => .of_eq rfl) (fun _ _ _ => .trans) rfl

theorem onPipeInput_some {c : Connection W} {handler : CgiHandler}
    (hlive : c.handlers.get? h = some handler) (bytes : Bytes) :
    onPipeInput env h (some bytes) c
      = (if bytes ≠ [] then set (c.withHandler h (handler.read bytes))
          else finalizeCgi env h : Method W Unit) c := by
  show (readCgi env h bytes).run c = _
  simp only [readCgi, EStateM.run_bind, EStateM.run_get, hlive]
  rfl

/-- The bytes of a read are behind the output. -/
theorem output_onPipeInput {c : Connection W} {handler : CgiHandler}
    (hlive : c.handlers.get? h = some handler) (ev : PipeEvent) {handler' : CgiHandler}
    (hlive' : (final (onPipeInput env h ev.input c)).handlers.get? h = some handler') :
    handler'.cgiOutput = handler.cgiOutput ++ ev.bytes := by
  unfold PipeEvent.bytes
  cases hinput : ev.input with
  | none =>
      rw [hinput] at hlive'
      obtain rfl := Option.some.inj (hlive.symm.trans hlive')
      exact (List.append_nil _).symm
  | some bytes =>
      rw [hinput, onPipeInput_some env h hlive] at hlive'
      split at hlive'
      · have hset : (c.handlers.set h (handler.read bytes)).get? h = some handler' := hlive'
        rw [Heap.get?_set_of_live hlive, if_pos rfl] at hset
        exact Option.some.inj hset ▸ rfl
      · rename_i hnil
        obtain ⟨handler₀, hlive₀, heq⟩ :=
          outputLeft_final h (outputLeft_finalizeCgi env h) handler' hlive'
        obtain rfl := Option.some.inj (hlive.symm.trans hlive₀)
        rw [heq, not_not.mp hnil]
        exact (List.append_nil _).symm

/-- An event adds what it reads to the output. -/
theorem output_onPipeEvent {c : Connection W} {handler : CgiHandler}
    (hlive : c.handlers.get? h = some handler) (ev : PipeEvent) {handler' : CgiHandler}
    (hlive' : (final (onPipeEvent env h ev c)).handlers.get? h = some handler') :
    handler'.cgiOutput = handler.cgiOutput ++ ev.bytes := by
  have hbehind : OutputLeft h (final (onPipeInput env h ev.input c))
      (final (onPipeEvent env h ev c)) := by
    refine Makes.behind (fun _ => Makes.bind ?_ fun _ => ?_) (fun _ => .of_eq rfl)
      (fun _ _ _ => .trans) c
    · split
      · exact outputLeft_finalizeCgi env h
      · exact .pure
    · split
      · exact makes_terminateCgi fun c handler hlive => .of_set hlive rfl rfl
      · exact .pure
  obtain ⟨handler₁, hlive₁, heq⟩ := hbehind handler' hlive'
  rw [heq]
  exact output_onPipeInput env h hlive ev hlive₁

end Events

theorem step_pipe {env : Env} {h : Nat} {ev : PipeEvent} {c : Connection W}
    (hregistered : c.pipeRegistered h = true) :
    step os (.pipe env h ev) c = onPipeEvent env h ev c := by
  show (step os (.pipe env h ev)).run c = _
  simp only [step, EStateM.run_bind, EStateM.run_get, hregistered, if_true]
  rfl

/-- Other events leave the handler as it is, or delete it. -/
theorem othersLeft {ev : Event} {h : Nat} (hev : ∀ env pipeEvent, ev ≠ .pipe env h pipeEvent)
    {c : Connection W} (hmade : h < c.handlers.next) :
    h < (final (step os ev c)).handlers.next ∧
      ∀ handler, (final (step os ev c)).handlers.get? h = some handler →
        c.handlers.get? h = some handler := by
  cases ev with
  | client env input output =>
      have hframe := handlersLeft_client os env input output c
      refine ⟨hmade.trans_le hframe.next, fun handler hlive => ?_⟩
      exact (hframe.left h handler hlive).resolve_right fun hnew => by omega
  | pipe env j ev =>
      have hframe := pipeLeft_pipe os env j ev c
      have hne : h ≠ j := fun heq => hev env ev (heq ▸ rfl)
      exact ⟨hframe.next ▸ hmade, fun handler hlive => hframe.others h hne ▸ hlive⟩

/-! ## What is parsed -/

/-- What the handler `h` has read and what is left in its pipe are what the
script has written. -/
structure Conserved (h : Nat) (s : Connection W × Pipe) : Prop where
  made : h < s.1.handlers.next
  output : ∀ out, s.1.output? h = some out → out ++ s.2.unread = s.2.written

theorem output?_of_get? {c : Connection W} {h : Nat} {handler : CgiHandler}
    (hlive : c.handlers.get? h = some handler) : c.output? h = some handler.cgiOutput := by
  rw [output?, hlive, Option.map_some]

theorem conserved_start {c : Connection W} {h : Nat} (hnew : c.output? h = some []) :
    Conserved h (c, {}) := by
  obtain ⟨handler, hlive, -⟩ := Option.map_eq_some_iff.mp hnew
  refine ⟨Heap.lt_next_of_get? hlive, fun out hout => ?_⟩
  obtain rfl := Option.some.inj (hnew.symm.trans hout)
  rfl

theorem Conserved.step {h : Nat} {s s' : Connection W × Pipe} (hs : Conserved h s)
    (hstep : ScriptStep os h s s') : Conserved h s' := by
  cases hstep with
  | write bytes hopen =>
      refine ⟨hs.made, fun out hout => ?_⟩
      show out ++ (_ ++ bytes) = _ ++ bytes
      rw [← List.append_assoc, hs.output out hout]
  | close c pipe => exact ⟨hs.made, hs.output⟩
  | @event env ev c pipe hregistered hreports =>
      have hframe := pipeLeft_pipe os env h ev c
      refine ⟨hframe.next.symm ▸ hs.made, fun out hout => ?_⟩
      obtain ⟨handler, hlive, -⟩ := (Option.any_eq_true _ _).mp hregistered
      obtain ⟨handler', hlive', rfl⟩ := Option.map_eq_some_iff.mp hout
      rw [step_pipe hregistered] at hlive'
      obtain ⟨rest, hrest⟩ := hreports.bytes.1
      have hdrop : pipe.unread.drop ev.bytes.length = rest := by rw [← hrest, List.drop_left]
      show handler'.cgiOutput ++ pipe.unread.drop ev.bytes.length = pipe.written
      rw [output_onPipeEvent env h hlive ev hlive', List.append_assoc, hdrop, hrest]
      exact hs.output _ (output?_of_get? hlive)
  | @other ev hev c pipe =>
      obtain ⟨hnext, hleft⟩ := othersLeft hev hs.made
      refine ⟨hnext, fun out hout => ?_⟩
      obtain ⟨handler, hlive, rfl⟩ := Option.map_eq_some_iff.mp hout
      exact hs.output _ (output?_of_get? (hleft handler hlive))

theorem Conserved.run {h : Nat} {s s' : Connection W × Pipe} (hs : Conserved h s)
    (hrun : ReflTransGen (ScriptStep os h) s s') : Conserved h s' := by
  induction hrun with
  | refl => exact hs
  | tail _ hstep ih => exact ih.step hstep

/-- When `finalizeCGI` is called, the event has added what it read. -/
theorem output_finalizes {env : Env} {h : Nat} {ev : PipeEvent} {c s : Connection W}
    (hfinal : Finalizes env h ev c s) {handler : CgiHandler}
    (hlive : c.handlers.get? h = some handler) {out : Bytes} (hout : s.output? h = some out) :
    out = handler.cgiOutput ++ ev.bytes := by
  obtain ⟨handler', hlive', rfl⟩ := Option.map_eq_some_iff.mp hout
  cases hfinal with
  | atEnd hinput =>
      obtain rfl := Option.some.inj (hlive.symm.trans hlive')
      rw [PipeEvent.bytes, hinput]
      exact (List.append_nil _).symm
  | hup hinput hhup =>
      refine output_onPipeInput env h hlive ev ?_
      rw [hinput]
      exact hlive'

/-- A new handler that is hung up behind its first read parses what was
read. -/
theorem finalizes_first_read (env : Env) {h : Nat} {c : Connection W}
    (hnew : c.output? h = some []) {bytes : Bytes} (hne : bytes ≠ []) :
    ∃ s, Finalizes env h ⟨some bytes, true, false⟩ c s ∧ s.output? h = some bytes := by
  obtain ⟨handler, hlive, hnil⟩ := Option.map_eq_some_iff.mp hnew
  refine ⟨c.withHandler h (handler.read bytes), .hup ?_ rfl, ?_⟩
  · rw [onPipeInput_some env h hlive, if_pos hne]
    rfl
  · rw [output?, withHandler, Heap.get?_set_of_live hlive, if_pos rfl]
    show some (handler.cgiOutput ++ bytes) = some bytes
    rw [hnil, List.nil_append]

theorem closed_of_finalizes {env : Env} {h : Nat} {ev : PipeEvent} {c s : Connection W}
    (hfinal : Finalizes env h ev c s) {pipe : Pipe} (hreports : Reports pipe ev) :
    pipe.closed = true := by
  cases hfinal with
  | atEnd hinput => exact (hreports.atEnd hinput).1
  | hup _ hhup => exact hreports.hup hhup

end Connection

open Connection

/-- In every run of a script and the connection, from the start of the
handler on, `finalizeCGI` is called when the script has closed its output,
and it parses all that was written exactly when the read of its event has
taken all that was left in the pipe. -/
theorem output_parsed {W : Type} (os : OS W) {h : Nat} {c c' : Connection W} {pipe : Pipe}
    (hnew : c.output? h = some []) (hrun : ReflTransGen (ScriptStep os h) (c, {}) (c', pipe))
    (hregistered : c'.pipeRegistered h = true) {env : Env} {ev : PipeEvent}
    (hreports : Reports pipe ev) {s : Connection W} (hfinal : Finalizes env h ev c' s)
    {out : Bytes} (hout : s.output? h = some out) :
    pipe.closed = true ∧ (out = pipe.written ↔ ev.bytes = pipe.unread) := by
  refine ⟨closed_of_finalizes hfinal hreports, ?_⟩
  obtain ⟨handler, hlive, -⟩ := (Option.any_eq_true _ _).mp hregistered
  have hwritten : handler.cgiOutput ++ pipe.unread = pipe.written :=
    ((conserved_start hnew).run hrun).output _ (output?_of_get? hlive)
  rw [output_finalizes hfinal hlive hout, ← hwritten]
  exact List.append_right_inj handler.cgiOutput

/-- A connection that has just started a script. -/
def scriptConnection : Connection Unit :=
  final (run flatOs [reads { now := 0 } scriptRequest]
    (accepted false false 0 3 4 scriptServers ()))

/-- The pipe of a script that has written `bytes` and is gone. -/
def exited (bytes : Bytes) : Pipe := (({} : Pipe).write bytes).close

theorem run_exited (bytes : Bytes) :
    ReflTransGen (ScriptStep flatOs 0) (scriptConnection, {}) (scriptConnection, exited bytes) :=
  .tail (.single (.write bytes rfl)) (.close _ _)

theorem reports_exited {bytes : Bytes} (rest : Bytes) (hne : bytes ≠ [])
    (hlen : bytes.length ≤ readSize) :
    Reports (exited (bytes ++ rest)) ⟨some bytes, true, false⟩ where
  bytes := ⟨List.prefix_append _ _, hlen⟩
  atEnd := fun h => absurd (Option.some.inj h) hne
  hup := fun _ => rfl
  readable := fun _ h => by cases h

theorem output_parsed_hello : (exited (lit "hello")).closed = true
    ∧ (lit "hello" = (exited (lit "hello")).written
        ↔ lit "hello" = (exited (lit "hello")).unread) := by
  have hnew : scriptConnection.output? 0 = some [] := by decide +kernel
  have hne : lit "hello" ≠ [] := by decide
  obtain ⟨s, hfinal, hout⟩ := finalizes_first_read { now := 0 } hnew hne
  have hreports : Reports (exited (lit "hello")) ⟨some (lit "hello"), true, false⟩ :=
    reports_exited [] hne (by decide)
  exact output_parsed flatOs hnew (run_exited _) (by decide +kernel) hreports hfinal hout

/-- Of 1024 bytes that a script has written when it exits, 1023 are
parsed. -/
theorem not_output_parsed :
    ¬∀ (W : Type) (os : OS W) (h : Nat) (c c' : Connection W) (pipe : Pipe),
      c.output? h = some [] → ReflTransGen (ScriptStep os h) (c, {}) (c', pipe) →
      c'.pipeRegistered h = true →
      ∀ (env : Env) (ev : PipeEvent), Reports pipe ev → ev.err = false →
      ∀ s, Finalizes env h ev c' s → ∀ out, s.output? h = some out → out = pipe.written := by
  intro h
  have hnew : scriptConnection.output? 0 = some [] := by decide +kernel
  obtain ⟨bytes, hlen⟩ : ∃ bytes : Bytes, bytes.length = readSize :=
    ⟨List.replicate readSize 65, List.length_replicate⟩
  have hne : bytes ≠ [] := List.ne_nil_of_length_pos (hlen ▸ by decide)
  obtain ⟨s, hfinal, hout⟩ := finalizes_first_read { now := 0 } hnew hne
  have hall : bytes = [] ++ (bytes ++ [65]) :=
    h Unit flatOs 0 scriptConnection scriptConnection (exited (bytes ++ [65])) hnew
      (run_exited _) (by decide +kernel) { now := 0 } _ (reports_exited [65] hne hlen.le) rfl s
      hfinal _ hout
  exact List.cons_ne_nil _ _ (List.self_eq_append_right.mp hall)

end Webserv
