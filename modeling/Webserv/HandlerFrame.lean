import Webserv.ConnectionRuns
import Webserv.MethodRules

/-!
# What events leave alone

An event of the client may make handlers and delete them, but it does
not touch one that stays. An event of a pipe touches the handler of that
pipe only, and neither opens nor closes the connection.
-/

namespace Webserv

open Program Relation

namespace Connection

variable {W : Type} {os : OS W}

/-! ## Events of the client -/

/-- A handler of `c'` is as it was in `c`, or is new and has read
nothing. -/
structure HandlersLeft (c c' : Connection W) : Prop where
  next : c.handlers.next ≤ c'.handlers.next
  left : ∀ h handler, c'.handlers.get? h = some handler →
    c.handlers.get? h = some handler ∨ c.handlers.next ≤ h ∧ handler.cgiOutput = []

namespace HandlersLeft

variable {c c' c'' : Connection W}

theorem of_eq (h : c'.handlers = c.handlers) : HandlersLeft c c' :=
  ⟨by rw [h], fun k handler hk => Or.inl (h ▸ hk)⟩

theorem trans (h : HandlersLeft c c') (h' : HandlersLeft c' c'') : HandlersLeft c c'' := by
  refine ⟨h.next.trans h'.next, fun k handler hk => ?_⟩
  rcases h'.left k handler hk with hk' | ⟨hle, hnil⟩
  · exact h.left k handler hk'
  · exact Or.inr ⟨h.next.trans hle, hnil⟩

theorem of_free {i : Nat} (h : c'.handlers = c.handlers.free i) : HandlersLeft c c' := by
  refine ⟨by rw [h, Heap.next_free], fun k handler hk => ?_⟩
  rw [h, Heap.get?_free] at hk
  split at hk
  · cases hk
  · exact Or.inl hk

theorem of_delete {i : Option Nat} (h : c'.handlers = delete c.handlers i) :
    HandlersLeft c c' := by
  cases i with
  | none => exact of_eq h
  | some i => exact of_free h

theorem of_alloc {handler : CgiHandler} (hnil : handler.cgiOutput = [])
    (h : c'.handlers = c.handlers.alloc handler) : HandlersLeft c c' := by
  refine ⟨by rw [h, Heap.next_alloc]; omega, fun k handler' hk => ?_⟩
  rw [h, Heap.get?_alloc] at hk
  split at hk
  · rename_i hnew
    exact Or.inr ⟨hnew.ge, Option.some.inj hk ▸ hnil⟩
  · exact Or.inl hk

theorem terminated (c : Connection W) : HandlersLeft c c.terminated := by
  unfold Connection.terminated
  split
  · exact of_delete rfl
  · exact of_eq rfl

end HandlersLeft

/-- A new handler has read nothing. -/
theorem cgiOutput_started {env : Env} {w : W} {p : RequestParser} {cgiPath : Bytes} {i : Nat}
    {h h' : CgiHandler} (hcreate : CgiHandler.create os env w p cgiPath i = .ok h)
    (hstart : h.startCgi env = some h') : h'.cgiOutput = [] := by
  have hnil : h.cgiOutput = [] := by
    unfold CgiHandler.create at hcreate
    split at hcreate
    · cases hcreate
    split at hcreate
    · cases hcreate
    dsimp only at hcreate
    split at hcreate
    · cases hcreate
    split at hcreate
    · cases hcreate
    · obtain rfl := Except.ok.inj hcreate
      rfl
  unfold CgiHandler.startCgi at hstart
  split at hstart
  · obtain rfl := Option.some.inj hstart
    exact hnil
  · cases hstart

theorem handlersLeft_dropped {env : Env} {c c' c'' : Connection W} {p : RequestParser} {i : Nat}
    {b : ResponseBuilder} {l : Location} (hb : CgiBuilder os env c p c' i b l)
    (h : Dropped c' c'') : HandlersLeft c c'' := by
  rcases h with rfl | rfl | rfl
  · exact .of_eq hb.handlers
  · exact .of_eq hb.handlers
  · exact (HandlersLeft.of_eq hb.handlers).trans (.of_delete rfl)

theorem handlersLeft_processCgiRequest (os : OS W) (env : Env) {p : RequestParser}
    (hcgi : p.goesToCgi = true) (c : Connection W) :
    HandlersLeft c (final (processCgiRequest os env p c)) := by
  have hresult := processCgiRequest_result os env hcgi c
  generalize processCgiRequest os env p c = r at hresult
  cases hresult with
  | crash => exact .of_eq rfl
  | @refuse c' c'' i b b' l hb _ hc' code _ =>
      have hanswer : HandlersLeft c'' (errorAnswer os env c.moment p c'' i b' code) :=
        .of_eq (by simp only [errorAnswer])
      exact (handlersLeft_dropped hb hc').trans hanswer
  | @start c' i b l hb _ _ h h' hcreate hstart =>
      have hstarted : HandlersLeft c' (handlerStarted c.moment p c' i (b.initRoutes l) h') :=
        .of_alloc (cgiOutput_started hcreate hstart) rfl
      exact (HandlersLeft.of_eq hb.handlers).trans hstarted

section Client

variable (env : Env) {P : Connection W → Prop}

theorem leaves_processCompletedRequest :
    Makes HandlersLeft P (processCompletedRequest os env) :=
  makes_processCompletedRequest (fun _ _ _ => .of_eq rfl)
    (fun _ c hcgi => handlersLeft_processCgiRequest os env hcgi c) (fun _ _ => .of_eq rfl)
    fun _ _ _ _ _ => .of_eq rfl

theorem leaves_readIncomingData (data : Option Segment) :
    Makes HandlersLeft P (readIncomingData os env data) := by
  refine Makes.get_bind fun c => .set_bind (.of_eq rfl) ?_
  split
  · exact .throw
  · have hlarge (p : RequestParser) : Makes HandlersLeft (fun t => t = c.log c.moment .read)
        (sendTooLarge os env p) :=
      Makes.get_bind fun _ => .set_bind (.of_eq rfl) (makes_terminate .terminated)
    exact (hlarge _).bind fun _ => .pure
  · cases data with
    | none => exact (makes_terminate .terminated).bind fun _ => .pure
    | some segment => exact Makes.get_bind fun _ => .set_bind (.of_eq rfl) .pure

theorem leaves_handleExpectContinue :
    Makes HandlersLeft P (handleExpectContinue : Method W Unit) := by
  refine Makes.get_bind fun c => ?_
  split
  · exact .set (.of_eq rfl)
  · exact .pure

theorem leaves_onInput (data : Option (Option Segment)) :
    Makes HandlersLeft P (onInput os env data) := by
  cases data with
  | none => exact .pure
  | some data =>
      refine (leaves_readIncomingData env data).bind fun ok => ?_
      split
      · refine leaves_handleExpectContinue.bind fun _ => ?_
        have hparsed (c : Connection W) (before p : RequestParser) (rest : Bytes) :
            HandlersLeft c (c.parsed before p rest) := .of_eq rfl
        have hcompleted (P : Connection W → Prop) :
            Makes HandlersLeft P (processCompletedRequest os env) :=
          leaves_processCompletedRequest env
        refine (makes_isParsingRequestBody hparsed hcompleted).bind fun parsing => ?_
        split
        · exact .pure
        · exact makes_processRequestHeaders hparsed hcompleted fun _ => .of_eq rfl
      · exact .pure

theorem leaves_checkCgiProgress : Makes HandlersLeft P (checkCgiProgress os env) := by
  refine makes_checkCgiProgress (fun c h p _ => .of_free (i := h) ?_) fun _ => .of_eq rfl
  simp only [cgiTimedOut]

theorem leaves_handleResponse (sent : Sent) :
    Makes HandlersLeft P (handleResponse env sent : Method W Unit) :=
  makes_handleResponse .terminated (fun _ _ => .of_eq rfl) (fun _ => .of_eq rfl)
    (fun _ => .of_eq rfl) sent

theorem leaves_onEvent (input : Option (Option Segment)) (output : Option Sent) :
    Makes HandlersLeft P (onEvent os env input output) := by
  refine (leaves_onInput env input).bind fun _ => ?_
  cases output with
  | none => exact .pure
  | some sent => exact (leaves_checkCgiProgress env).bind fun _ => leaves_handleResponse env sent

end Client

/-- An event of the client leaves the handlers that stay as they are. -/
theorem handlersLeft_client (os : OS W) (env : Env) (input : Option (Option Segment))
    (output : Option Sent) (c : Connection W) :
    HandlersLeft c (final (step os (.client env input output) c)) := by
  have h : Makes HandlersLeft (fun t => t = c) (step os (.client env input output)) := by
    refine Makes.get_bind fun s => ?_
    simp only
    split
    · exact leaves_onEvent env input output
    · exact .pure
  exact h.step (fun _ => .of_eq rfl) (fun _ _ _ => .trans) rfl

/-! ## Events of a pipe -/

/-- Nothing of `c` has changed but the handler `h`, the builders, and what
the client does next. -/
structure PipeLeft (h : Nat) (c c' : Connection W) : Prop where
  started : c'.client.isStarted = c.client.isStarted
  peer : c'.client.peerSocketFd = c.client.peerSocketFd
  next : c'.handlers.next = c.handlers.next
  others : ∀ j, j ≠ h → c'.handlers.get? j = c.handlers.get? j

namespace PipeLeft

variable {h : Nat} {c c' c'' : Connection W}

theorem refl (h : Nat) (c : Connection W) : PipeLeft h c c :=
  ⟨rfl, rfl, rfl, fun _ _ => rfl⟩

theorem trans (hc : PipeLeft h c c') (hc' : PipeLeft h c' c'') : PipeLeft h c c'' where
  started := hc'.started.trans hc.started
  peer := hc'.peer.trans hc.peer
  next := hc'.next.trans hc.next
  others := fun j hj => (hc'.others j hj).trans (hc.others j hj)

/-- The handler itself is written. -/
theorem of_set {handler handler' : CgiHandler} (hlive : c.handlers.get? h = some handler)
    (hh : c'.handlers = c.handlers.set h handler') (hs : c'.client = c.client) :
    PipeLeft h c c' where
  started := by rw [hs]
  peer := by rw [hs]
  next := by rw [hh, Heap.next_set]
  others := fun j hj => by rw [hh, Heap.get?_set_of_live hlive, if_neg hj]

end PipeLeft

theorem leaves_onPipeEvent (env : Env) (h : Nat) {P : Connection W → Prop} (ev : PipeEvent) :
    Makes (PipeLeft h) P (onPipeEvent env h ev : Method W Unit) := by
  refine makes_onPipeEvent (fun c i b _ _ _ => ⟨rfl, rfl, Heap.next_free _ _, fun j hj => ?_⟩)
    (fun c handler b hlive _ => .of_set hlive rfl rfl)
    (fun c handler handler' hlive => .of_set hlive rfl rfl) ev
  simp only [cgiCompleted, Heap.get?_free, if_neg hj]

/-- An event of a pipe leaves the other handlers and the connection as
they are. -/
theorem pipeLeft_pipe (os : OS W) (env : Env) (h : Nat) (ev : PipeEvent) (c : Connection W) :
    PipeLeft h c (final (step os (.pipe env h ev) c)) := by
  have hstep : Makes (PipeLeft h) (fun t => t = c) (step os (.pipe env h ev)) := by
    refine Makes.get_bind fun s => ?_
    simp only
    split
    · exact leaves_onPipeEvent env h ev
    · exact .pure
  exact hstep.step (.refl h) (fun _ _ _ => .trans) rfl

end Connection

end Webserv
