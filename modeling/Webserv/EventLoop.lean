import Webserv.HandlerFrame
import Webserv.IoMultiplexer
import Webserv.PendingCgi
import Webserv.SlotReuse

/-!
# The event loop

`IOMultiplexer::runEventLoop` over a server, its clients and their
scripts. The calls of `addListener` and `removeListener` stand where
`_is_started` is set and reset, and where `output_fd` is, so the table is
brought up to date behind each event. A batch of events is what one
`epoll_wait` has returned.

Left out: the shutdown, and an `epoll_wait` that fails.
-/

namespace Webserv

open Bytes Program Relation Connection

/-- The objects in `_listeners`: the server, the clients by slot, and the
CGI handlers of a client by address. -/
inductive Listener where
  | server
  | client (slot : Nat)
  | cgi (slot handler : Nat)
deriving DecidableEq

/-- The slot of the client it belongs to. -/
def Listener.slot? : Listener → Option Nat
  | .server => none
  | .client i => some i
  | .cgi i _ => some i

inductive LoopFault where
  /-- the exception of `runEventLoop` -/
  | fdNotFound
  | fault (fault : Fault)
deriving DecidableEq

/-- An event of `epoll_wait`, and what the calls of its handling return.
Each listener reads what is its own. -/
structure Ready where
  fd : Nat
  env : Env
  garbage : Bool := false
  /-- what `accept` returns -/
  clientFd : Option Nat := none
  input : Option (Option Segment) := none
  output : Option Sent := none
  /-- the read end of the pipe for a script -/
  pipeFd : Option Nat := none
  pipe : PipeEvent := ⟨none, false, false⟩

structure EventLoop (W : Type) where
  server : Server W
  io : IoMultiplexer Listener := {}
  /-- the events that were delivered, and to whom -/
  delivered : List (Nat × Listener) := []

namespace EventLoop

variable {W : Type}

abbrev Method (W α : Type) := EStateM LoopFault (EventLoop W) α

/-- The loop behind `StartServer`. -/
def start (config : List ServerConfig) (listenOnAddr : Bytes → Option Nat) (world : W) :
    EventLoop W :=
  let server := Server.startServer config listenOnAddr world
  { server := server
    io := server.socketConfigs.entries.foldl
      (fun io socket => (io.addListener .server socket.1 true).1) {} }

/-- The kernel gives out no descriptor that is in use. -/
def unused (io : IoMultiplexer Listener) (fd : Option Nat) : Option Nat :=
  fd.filter fun fd => fd ∉ io.epoll

/-- The handler `h` of the client in slot `i` has its pipe open. -/
def pipeOpen (server : Server W) (i h : Nat) : Bool :=
  server.clients[i]?.any fun c => c.pipeRegistered h

/-- The number of handlers the client in slot `i` has made. -/
def handlersMade (server : Server W) (i : Nat) : Nat :=
  (server.clients[i]?.map fun c => c.handlers.next).getD 0

/-- The client in slot `i` is connected on `fd`. -/
def connectedOn (server : Server W) (i fd : Nat) : Bool :=
  server.clients[i]?.any fun c => c.client.isStarted && c.client.peerSocketFd = fd

/-- The entries whose listeners closed their descriptors between `before`
and `after`. -/
def closes (before after : Server W) (fd : Nat) : Listener → Bool
  | .server => false
  | .client i => connectedOn before i fd && !connectedOn after i fd
  | .cgi i h => !pipeOpen after i h

section Events

variable (os : OS W)

/-- An event of the server: a client is accepted and registered. -/
def acceptEvent (s : EventLoop W) (r : Ready) : EventLoop W :=
  match unused s.io r.clientFd with
  | none => s
  | some clientFd =>
      if s.server.socketConfigs.contains r.fd then
        let added := s.io.addListener (.client s.server.slot) clientFd r.env.addListenerOk
        { s with
          server := s.server.onEvent r.garbage { r.env with addListenerOk := added.2 } r.fd clientFd
          io := added.1 }
      else s

/-- The event of a client in slot `i`, where `addListener` for the pipe of
a script returns if `ok`. -/
def clientMethod (i : Nat) (r : Ready) (pipeFd : Option Nat) (ok : Bool) :
    Server.Method W Unit :=
  Server.clientEvent os i
    (.client { r.env with pipeOk := pipeFd.isSome, addListenerOk := ok } r.input r.output)

/-- The event gets to the `addListener` of `startCGI`. -/
def startsScript (s : EventLoop W) (i : Nat) (r : Ready) (pipeFd : Nat) : Bool :=
  handlersMade (final (clientMethod os i r (some pipeFd) true s.server)) i
    ≠ handlersMade s.server i

/-- The new handler of the client in slot `i` is added for `pipeFd`. -/
def addPipe (s : EventLoop W) (i : Nat) (r : Ready) (pipeFd : Nat) :
    IoMultiplexer Listener × Bool :=
  s.io.addListener (.cgi i (handlersMade s.server i)) pipeFd r.env.addListenerOk

/-- The table with the pipe of a script, if one is started. A handler that
could not be registered is deleted. -/
def openPipe (s : EventLoop W) (i : Nat) (r : Ready) (pipeFd : Nat) : IoMultiplexer Listener :=
  if startsScript os s i r pipeFd then
    if (addPipe s i r pipeFd).2 then (addPipe s i r pipeFd).1
    else (addPipe s i r pipeFd).1.closeListener pipeFd
  else s.io

/-- The loop behind an event of a client or a script, with the table `io`. -/
def settle (s : EventLoop W) (io : IoMultiplexer Listener)
    (result : EStateM.Result Fault (Server W) Unit) : EventLoop W × Option Fault :=
  ({ s with
      server := final result
      io := io.closeAll (closes s.server (final result)) }, error? result)

def clientEvent (s : EventLoop W) (i : Nat) (r : Ready) : EventLoop W × Option Fault :=
  match unused s.io r.pipeFd with
  | none => settle s s.io (clientMethod os i r none true s.server)
  | some pipeFd =>
      settle s (openPipe os s i r pipeFd)
        (clientMethod os i r (some pipeFd) (addPipe s i r pipeFd).2 s.server)

def cgiEvent (s : EventLoop W) (i h : Nat) (r : Ready) : EventLoop W × Option Fault :=
  settle s s.io (Server.clientEvent os i (.pipe r.env h r.pipe) s.server)

/-- `it->second->onEvent` -/
def onEvent (s : EventLoop W) (r : Ready) : Listener → EventLoop W × Option Fault
  | .server => (acceptEvent s r, none)
  | .client i => clientEvent os s i r
  | .cgi i h => cgiEvent os s i h r

/-! ## The loop -/

/-- One round of the inner loop. -/
def dispatch (r : Ready) : Method W Unit := do
  let s ← get
  match s.io.listeners.get? r.fd with
  | none => throw .fdNotFound
  | some listener =>
      let result := s.onEvent os r listener
      set { result.1 with delivered := s.delivered ++ [(r.fd, listener)] }
      match result.2 with
      | some fault => throw (.fault fault)
      | none => pure ()

def runBatch : List Ready → Method W Unit
  | [] => pure ()
  | r :: rs => do
      dispatch os r
      runBatch rs

/-- What `epoll_wait` may return. -/
structure Returned (s : EventLoop W) (batch : List Ready) : Prop where
  watched : ∀ r ∈ batch, r.fd ∈ s.io.epoll
  once : (batch.map Ready.fd).Nodup

/-- The states between the batches, for batches that meet `Cond`. -/
inductive Reached (os : OS W) (Cond : EventLoop W → List Ready → Prop) (s₀ : EventLoop W) :
    EventLoop W → Prop where
  | start : Reached os Cond s₀ s₀
  | batch {s : EventLoop W} (h : Reached os Cond s₀ s) {batch : List Ready}
      (hreturned : Returned s batch) (hcond : Cond s batch) :
      Reached os Cond s₀ (final (runBatch os batch s))

/-- The event of one listener has not closed the pipe of another, a script
of its own. -/
def keepsPipe (after : Server W) : Option Listener → Option Listener → Bool
  | some (.client i), some (.cgi j h) => i ≠ j || pipeOpen after j h
  | _, _ => true

/-- No event of a client closes the pipe of a script that has an event to
come in the same batch. -/
def keepsWaiting (s : EventLoop W) : List Ready → Bool
  | [] => true
  | r :: rs =>
      let after := final (dispatch os r s)
      (rs.all fun r' => keepsPipe after.server (s.io.listeners.get? r.fd)
        (s.io.listeners.get? r'.fd))
        && keepsWaiting after rs

end Events

/-! ## The table and the listeners -/

/-- The listener of `fd` is in use. -/
def Holds (server : Server W) (fd : Nat) : Listener → Prop
  | .server => True
  | .client i => connectedOn server i fd = true
  | .cgi i h => pipeOpen server i h = true

/-- Every descriptor that is watched has a listener that is in use, and no
pipe is watched twice. -/
structure LoopOk (s : EventLoop W) : Prop where
  mirrored : s.io.Mirrored
  holds : ∀ fd l, s.io.Watches fd l → Holds s.server fd l
  onePipe : ∀ fd fd' i h, s.io.Watches fd (.cgi i h) → s.io.Watches fd' (.cgi i h) → fd = fd'

theorem unused_some {io : IoMultiplexer Listener} {fd : Option Nat} {fd' : Nat}
    (h : unused io fd = some fd') : fd' ∉ io.epoll := by
  have := (Option.filter_eq_some_iff.mp h).2
  simpa using this

theorem connectedOn_inj {server : Server W} {i fd fd' : Nat}
    (h : connectedOn server i fd = true) (h' : connectedOn server i fd' = true) : fd = fd' := by
  obtain ⟨c, hc, hfd⟩ := (Option.any_eq_true _ _).mp h
  obtain ⟨c', hc', hfd'⟩ := (Option.any_eq_true _ _).mp h'
  obtain rfl := Option.some.inj (hc.symm.trans hc')
  simp only [Bool.and_eq_true, decide_eq_true_eq] at hfd hfd'
  exact hfd.2.symm.trans hfd'.2

/-- A pipe that is open belongs to a handler that was made. -/
theorem pipeOpen_lt {server : Server W} {i h : Nat} (hopen : pipeOpen server i h = true) :
    h < handlersMade server i := by
  obtain ⟨c, hc, hreg⟩ := (Option.any_eq_true _ _).mp hopen
  obtain ⟨handler, hlive, -⟩ := (Option.any_eq_true _ _).mp hreg
  rw [handlersMade, hc]
  exact Heap.lt_next_of_get? hlive

/-- A listener that is in use does not close its descriptor. -/
theorem closes_of_holds {before after : Server W} {fd : Nat} {l : Listener}
    (h : Holds after fd l) : closes before after fd l = false := by
  cases l with
  | server => rfl
  | client i =>
      have h : connectedOn after i fd = true := h
      rw [closes, h, Bool.not_true, Bool.and_false]
  | cgi i k =>
      have h : pipeOpen after i k = true := h
      rw [closes, h, Bool.not_true]

theorem holds_of_not_closes {before after : Server W} {fd : Nat} {l : Listener}
    (hclient : ∀ i, l = .client i → Holds before fd l)
    (h : closes before after fd l = false) : Holds after fd l := by
  cases l with
  | server => trivial
  | client i =>
      have hbefore : connectedOn before i fd = true := hclient i rfl
      rw [closes, hbefore, Bool.true_and] at h
      simpa [Holds] using h
  | cgi i k => simpa [closes, Holds] using h

/-- A listener of another slot is not concerned. -/
theorem holds_congr {server server' : Server W} {fd : Nat} {l : Listener} {i : Nat}
    (hclients : ∀ j, j ≠ i → server'.clients[j]? = server.clients[j]?) (hl : l.slot? ≠ some i)
    (h : Holds server fd l) : Holds server' fd l := by
  cases l with
  | server => trivial
  | client j =>
      show (server'.clients[j]?.any _) = true
      rw [hclients j fun hj => hl (hj ▸ rfl)]
      exact h
  | cgi j k =>
      show (server'.clients[j]?.any _) = true
      rw [hclients j fun hj => hl (hj ▸ rfl)]
      exact h

/-! ## Events of clients and scripts -/

section Settle

variable {s : EventLoop W} {io : IoMultiplexer Listener}
  {result : EStateM.Result Fault (Server W) Unit}

theorem loopOk_settle (h : LoopOk s) (hmirrored : io.Mirrored)
    (hold : ∀ fd i, io.Watches fd (.client i) → s.io.Watches fd (.client i))
    (hone : ∀ fd fd' i k, io.Watches fd (.cgi i k) → io.Watches fd' (.cgi i k) → fd = fd') :
    LoopOk (settle s io result).1 where
  mirrored := hmirrored.closeAll _
  holds := fun fd l hl => by
    obtain ⟨hwatches, hcloses⟩ := IoMultiplexer.watches_closeAll.mp hl
    refine holds_of_not_closes (fun i hi => ?_) hcloses
    subst hi
    exact h.holds fd _ (hold fd i hwatches)
  onePipe := fun fd fd' i k hk hk' =>
    hone fd fd' i k (IoMultiplexer.watches_closeAll.mp hk).1
      (IoMultiplexer.watches_closeAll.mp hk').1

theorem watches_settle {fd : Nat} {l : Listener} (hl : io.Watches fd l)
    (h : Holds (final result) fd l) : (settle s io result).1.io.Watches fd l :=
  IoMultiplexer.watches_closeAll.mpr ⟨hl, closes_of_holds h⟩

end Settle

section ClientEvents

variable (os : OS W) (i : Nat) (ev : Connection.Event) (server : Server W)

/-- The client in the slot takes a step, and the others wait. -/
theorem final_clientEvent {c : Connection W} (hc : server.clients[i]? = some c) :
    final (Server.clientEvent os i ev server) = server.withClient i
      (final (Connection.step os ev { c with world := server.world })) := by
  show final ((Server.clientEvent os i ev).run server) = _
  simp only [Server.clientEvent, EStateM.run_bind, EStateM.run_get, hc, EStateM.run_set]
  cases error? (Connection.step os ev { c with world := server.world }) with
  | none => rfl
  | some fault => rfl

theorem final_clientEvent_none (hc : server.clients[i]? = none) :
    final (Server.clientEvent os i ev server) = server := by
  show final ((Server.clientEvent os i ev).run server) = _
  simp only [Server.clientEvent, EStateM.run_bind, EStateM.run_get, hc]
  rfl

theorem clients_clientEvent_of_ne {j : Nat} (hj : j ≠ i) :
    (final (Server.clientEvent os i ev server)).clients[j]? = server.clients[j]? := by
  cases hc : server.clients[i]? with
  | none => rw [final_clientEvent_none os i ev server hc]
  | some c =>
      rw [final_clientEvent os i ev server hc, Server.withClient, List.getElem?_set_ne hj.symm]

theorem clients_clientEvent_self {c : Connection W} (hc : server.clients[i]? = some c) :
    (final (Server.clientEvent os i ev server)).clients[i]?
      = some (final (Connection.step os ev { c with world := server.world })) := by
  rw [final_clientEvent os i ev server hc, Server.withClient,
    List.getElem?_set_self (List.getElem?_eq_some_iff.mp hc).1]

end ClientEvents

/-- An event of a script leaves the other listeners as they are. -/
theorem holds_cgiEvent (os : OS W) {server : Server W} {i h : Nat} (env : Env) (ev : PipeEvent)
    {fd : Nat} {l : Listener} (hl : l ≠ .cgi i h) (hholds : Holds server fd l) :
    Holds (final (Server.clientEvent os i (.pipe env h ev) server)) fd l := by
  by_cases hslot : l.slot? = some i
  · cases l with
    | server => trivial
    | client j =>
        obtain rfl : j = i := Option.some.inj hslot
        obtain ⟨c, hc, hconnected⟩ := (Option.any_eq_true _ _).mp hholds
        have hframe := pipeLeft_pipe os env h ev { c with world := server.world }
        refine (Option.any_eq_true _ _).mpr ⟨_, clients_clientEvent_self os j _ server hc, ?_⟩
        rw [hframe.started, hframe.peer]
        exact hconnected
    | cgi j k =>
        obtain rfl : j = i := Option.some.inj hslot
        obtain ⟨c, hc, hopen⟩ := (Option.any_eq_true _ _).mp hholds
        have hframe := pipeLeft_pipe os env h ev { c with world := server.world }
        refine (Option.any_eq_true _ _).mpr ⟨_, clients_clientEvent_self os j _ server hc, ?_⟩
        rw [pipeRegistered, hframe.others k fun hk => hl (hk ▸ rfl)]
        exact hopen
  · exact holds_congr (fun j hj => clients_clientEvent_of_ne os i _ server hj) hslot hholds

/-! ## One event -/

section Step

variable {os : OS W} {s : EventLoop W} {r : Ready}

theorem loopOk_cgiEvent (h : LoopOk s) (i k : Nat) (r : Ready) :
    LoopOk (cgiEvent os s i k r).1 :=
  loopOk_settle h h.mirrored (fun _ _ hl => hl) h.onePipe

theorem watches_cgiEvent (h : LoopOk s) {i k : Nat} (hl : s.io.Watches r.fd (.cgi i k))
    {fd : Nat} {l : Listener} (hfd : s.io.Watches fd l) (hne : fd ≠ r.fd) :
    (cgiEvent os s i k r).1.io.Watches fd l := by
  refine watches_settle hfd (holds_cgiEvent os r.env r.pipe ?_ (h.holds fd l hfd))
  rintro rfl
  exact hne (h.onePipe fd r.fd i k hfd hl)

section Pipe

variable {i pipeFd : Nat}

theorem openPipe_mirrored (h : LoopOk s) : (openPipe os s i r pipeFd).Mirrored := by
  have hadd : (addPipe s i r pipeFd).1.Mirrored := h.mirrored.addListener _ pipeFd _
  unfold openPipe
  split
  · split
    · exact hadd
    · exact hadd.closeListener pipeFd
  · exact h.mirrored

theorem openPipe_keeps (hfresh : pipeFd ∉ s.io.epoll) {fd : Nat} {l : Listener}
    (hl : s.io.Watches fd l) : (openPipe os s i r pipeFd).Watches fd l := by
  have hadd : (addPipe s i r pipeFd).1.Watches fd l := hl.addListener _ _
  unfold openPipe
  split
  · split
    · exact hadd
    · refine IoMultiplexer.watches_closeListener.mpr ⟨hadd, ?_⟩
      rintro rfl
      exact hfresh hl.watched
  · exact hl

/-- Only the new pipe is watched besides. -/
theorem openPipe_watches (hfresh : pipeFd ∉ s.io.epoll) {fd : Nat} {l : Listener}
    (hl : (openPipe os s i r pipeFd).Watches fd l) :
    s.io.Watches fd l ∨ fd = pipeFd ∧ l = .cgi i (handlersMade s.server i) := by
  have hadd (h : (addPipe s i r pipeFd).1.Watches fd l) :
      s.io.Watches fd l ∨ fd = pipeFd ∧ l = .cgi i (handlersMade s.server i) :=
    (IoMultiplexer.watches_addListener hfresh h).imp_right fun hnew => ⟨hnew.1, hnew.2.1⟩
  unfold openPipe at hl
  split at hl
  · split at hl
    · exact hadd hl
    · exact hadd (IoMultiplexer.watches_closeListener.mp hl).1
  · exact Or.inl hl

end Pipe

theorem loopOk_clientEvent (h : LoopOk s) (i : Nat) (r : Ready) :
    LoopOk (clientEvent os s i r).1 := by
  unfold clientEvent
  split
  · exact loopOk_settle h h.mirrored (fun _ _ hl => hl) h.onePipe
  rename_i pipeFd hfd
  have hfresh := unused_some hfd
  -- the handler of a pipe that was open is not the new one
  have hmade (fd : Nat) (hl : s.io.Watches fd (.cgi i (handlersMade s.server i))) : False :=
    Nat.lt_irrefl _ (pipeOpen_lt (h.holds fd _ hl))
  refine loopOk_settle h (openPipe_mirrored h) (fun fd j hl => ?_) fun fd fd' j k hl hl' => ?_
  · exact (openPipe_watches hfresh hl).resolve_right fun hnew => by cases hnew.2
  · rcases openPipe_watches hfresh hl with hold | ⟨rfl, hnew⟩
    · rcases openPipe_watches hfresh hl' with hold' | ⟨rfl, hnew⟩
      · exact h.onePipe fd fd' j k hold hold'
      · cases hnew
        exact (hmade fd hold).elim
    · cases hnew
      rcases openPipe_watches hfresh hl' with hold' | ⟨rfl, -⟩
      · exact (hmade fd' hold').elim
      · rfl

theorem watches_clientEvent (h : LoopOk s) {i : Nat} (hl : s.io.Watches r.fd (.client i))
    {fd : Nat} {l : Listener} (hfd : s.io.Watches fd l) (hne : fd ≠ r.fd)
    (hkeeps : keepsPipe (clientEvent os s i r).1.server (some (.client i)) (some l) = true) :
    (clientEvent os s i r).1.io.Watches fd l := by
  have hholds {method : Server.Method W Unit} {ev : Connection.Event}
      (hmethod : method = Server.clientEvent os i ev)
      (hkeeps : keepsPipe (final (method s.server)) (some (.client i)) (some l) = true) :
      Holds (final (method s.server)) fd l := by
    by_cases hslot : l.slot? = some i
    · cases l with
      | server => trivial
      | client j =>
          obtain rfl : j = i := Option.some.inj hslot
          exact absurd (connectedOn_inj (h.holds fd _ hfd) (h.holds r.fd _ hl)) hne
      | cgi j k =>
          obtain rfl : j = i := Option.some.inj hslot
          simpa [keepsPipe, Holds] using hkeeps
    · subst hmethod
      exact holds_congr (fun j hj => clients_clientEvent_of_ne os i _ _ hj) hslot
        (h.holds fd l hfd)
  unfold clientEvent at hkeeps ⊢
  split at hkeeps
  · exact watches_settle hfd (hholds rfl hkeeps)
  · rename_i pipeFd hpipe
    exact watches_settle (openPipe_keeps (unused_some hpipe) hfd) (hholds rfl hkeeps)

section Accept

variable {server : Server W} {garbage : Bool} {env : Env} {fd clientFd : Nat}
  {group : ServerGroup}

theorem clients_onEvent_of_ne (hfd : server.socketConfigs.get? fd = some group) {j : Nat}
    (hj : j ≠ server.slot) {c : Connection W} (hc : server.clients[j]? = some c) :
    (server.onEvent garbage env fd (some clientFd)).clients[j]? = some c := by
  simp only [Server.onEvent, hfd, Server.acceptPeer]
  split
  · rw [← hc]
    exact List.getElem?_set_ne hj.symm
  · rw [← hc]
    exact List.getElem?_append_left (List.getElem?_eq_some_iff.mp hc).1

theorem handlers_register (env : Env) (c : Connection W) :
    (Server.register env c).handlers = c.handlers := by
  unfold Server.register
  split
  · rfl
  · rfl

/-- A connection that is accepted leaves the listeners as they are. -/
theorem holds_onEvent (hfd : server.socketConfigs.get? fd = some group) {fd' : Nat}
    {l : Listener} (h : Holds server fd' l) :
    Holds (server.onEvent garbage env fd (some clientFd)) fd' l := by
  have hslot := Server.onEvent_slot garbage env hfd clientFd
  cases l with
  | server => trivial
  | client j =>
      obtain ⟨c, hc, hconnected⟩ := (Option.any_eq_true _ _).mp h
      have hj : j ≠ server.slot := by
        rintro rfl
        rw [Server.isStarted_slot hc, Bool.false_and] at hconnected
        cases hconnected
      exact (Option.any_eq_true _ _).mpr ⟨c, clients_onEvent_of_ne hfd hj hc, hconnected⟩
  | cgi j k =>
      obtain ⟨c, hc, hopen⟩ := (Option.any_eq_true _ _).mp h
      by_cases hj : j = server.slot
      · subst hj
        simp only [hc] at hslot
        refine (Option.any_eq_true _ _).mpr ⟨_, hslot, ?_⟩
        rw [pipeRegistered, handlers_register]
        exact hopen
      · exact (Option.any_eq_true _ _).mpr ⟨c, clients_onEvent_of_ne hfd hj hc, hopen⟩

/-- A client that could be registered is connected. -/
theorem connectedOn_onEvent (hfd : server.socketConfigs.get? fd = some group)
    (hok : env.addListenerOk = true) :
    connectedOn (server.onEvent garbage env fd (some clientFd)) server.slot clientFd = true := by
  have hslot := Server.onEvent_slot garbage env hfd clientFd
  refine (Option.any_eq_true _ _).mpr ⟨_, hslot, ?_⟩
  cases hc : server.clients[server.slot]? with
  | none => simp [Server.register, Server.newClient, ClientServer.create, hok]
  | some c => simp [Server.register, Server.setSockets, hok, Server.isStarted_slot hc]

end Accept

theorem loopOk_acceptEvent (h : LoopOk s) (r : Ready) : LoopOk (acceptEvent s r) := by
  unfold acceptEvent
  split
  · exact h
  rename_i clientFd hclient
  have hfresh := unused_some hclient
  split
  · rename_i hcontains
    obtain ⟨group, hfd⟩ := Option.isSome_iff_exists.mp hcontains
    refine ⟨h.mirrored.addListener _ _ _, fun fd l hl => ?_, fun fd fd' i k hl hl' => ?_⟩
    · rcases IoMultiplexer.watches_addListener hfresh hl with hold | ⟨rfl, rfl, hok⟩
      · exact holds_onEvent hfd (h.holds fd l hold)
      · exact connectedOn_onEvent hfd hok
    · have hold {fd : Nat} (hl : (s.io.addListener (.client s.server.slot) clientFd
          r.env.addListenerOk).1.Watches fd (.cgi i k)) : s.io.Watches fd (.cgi i k) :=
        (IoMultiplexer.watches_addListener hfresh hl).resolve_right fun hnew => by cases hnew.2.1
      exact h.onePipe fd fd' i k (hold hl) (hold hl')
  · exact h

theorem watches_acceptEvent {fd : Nat} {l : Listener} (hl : s.io.Watches fd l) :
    (acceptEvent s r).io.Watches fd l := by
  unfold acceptEvent
  split
  · exact hl
  split
  · exact hl.addListener _ _
  · exact hl

/-- An event of a listener that is in use leaves the loop as it should
be. -/
theorem loopOk_onEvent (os : OS W) (h : LoopOk s) (r : Ready) (l : Listener) :
    LoopOk (s.onEvent os r l).1 := by
  cases l with
  | server => exact loopOk_acceptEvent h r
  | client i => exact loopOk_clientEvent h i r
  | cgi i k => exact loopOk_cgiEvent h i k r

/-- The other listeners stay, but for the pipes that the event closes. -/
theorem watches_onEvent (h : LoopOk s) {l : Listener} (hl : s.io.Watches r.fd l) {fd : Nat}
    {l' : Listener} (hl' : s.io.Watches fd l') (hne : fd ≠ r.fd)
    (hkeeps : keepsPipe (s.onEvent os r l).1.server (some l) (some l') = true) :
    (s.onEvent os r l).1.io.Watches fd l' := by
  cases l with
  | server => exact watches_acceptEvent hl'
  | client i => exact watches_clientEvent h hl hl' hne hkeeps
  | cgi i k => exact watches_cgiEvent h hl hl' hne

theorem final_dispatch (os : OS W) {l : Listener} (hl : s.io.listeners.get? r.fd = some l) :
    final (dispatch os r s)
      = { (s.onEvent os r l).1 with delivered := s.delivered ++ [(r.fd, l)] } := by
  show final ((dispatch os r).run s) = _
  simp only [dispatch, EStateM.run_bind, EStateM.run_get, hl, EStateM.run_set]
  cases (s.onEvent os r l).2 with
  | none => rfl
  | some fault => rfl

theorem error_dispatch (os : OS W) {l : Listener} (hl : s.io.listeners.get? r.fd = some l) :
    error? (dispatch os r s) = (s.onEvent os r l).2.map .fault := by
  show error? ((dispatch os r).run s) = _
  simp only [dispatch, EStateM.run_bind, EStateM.run_get, hl, EStateM.run_set]
  cases (s.onEvent os r l).2 with
  | none => rfl
  | some fault => rfl

end Step

/-! ## One batch -/

/-- The listener of every event to come is the one in `table`, and is
watched. -/
structure Waiting (table : Nat → Option Listener) (s : EventLoop W) (batch : List Ready) :
    Prop where
  once : (batch.map Ready.fd).Nodup
  watched : ∀ r ∈ batch, ∃ l, table r.fd = some l ∧ s.io.Watches r.fd l

/-- No event of the batch was without a listener, and those that were
delivered, in their order, went to the listeners in `table`. -/
structure Survives (table : Nat → Option Listener) (s : EventLoop W) (batch : List Ready)
    (result : EStateM.Result LoopFault (EventLoop W) Unit) : Prop where
  found : error? result ≠ some .fdNotFound
  delivered : ∃ ds, (final result).delivered = s.delivered ++ ds
    ∧ ds.map Prod.fst <+: batch.map Ready.fd ∧ ∀ d ∈ ds, table d.1 = some d.2

section Batch

variable {os : OS W} {table : Nat → Option Listener}

theorem waiting_dispatch {s : EventLoop W} (h : LoopOk s) {r : Ready} {rs : List Ready}
    (hwait : Waiting table s (r :: rs)) (hkeeps : keepsWaiting os s (r :: rs) = true) :
    Waiting table (final (dispatch os r s)) rs := by
  have honce := List.nodup_cons.mp hwait.once
  obtain ⟨l, -, hl⟩ := hwait.watched r List.mem_cons_self
  refine ⟨honce.2, fun r' hr' => ?_⟩
  obtain ⟨l', htable, hl'⟩ := hwait.watched r' (List.mem_cons_of_mem _ hr')
  have hne : r'.fd ≠ r.fd := fun heq => honce.1 (heq ▸ List.mem_map_of_mem hr')
  have hpipe : keepsPipe (final (dispatch os r s)).server (some l) (some l') = true := by
    rw [keepsWaiting, Bool.and_eq_true, List.all_eq_true] at hkeeps
    have hkept := hkeeps.1 r' hr'
    rw [hl.listener, hl'.listener] at hkept
    exact hkept
  rw [final_dispatch os hl.listener] at hpipe ⊢
  have hstays := watches_onEvent h hl hl' hne hpipe
  exact ⟨l', htable, hstays.watched, hstays.listener⟩

theorem loopOk_dispatch (os : OS W) {s : EventLoop W} (h : LoopOk s) {r : Ready} {l : Listener}
    (hl : s.io.listeners.get? r.fd = some l) : LoopOk (final (dispatch os r s)) := by
  rw [final_dispatch os hl]
  have hstep := loopOk_onEvent os h r l
  exact ⟨hstep.mirrored, hstep.holds, hstep.onePipe⟩

theorem runBatch_survives : ∀ {batch : List Ready} {s : EventLoop W}, LoopOk s →
    Waiting table s batch → keepsWaiting os s batch = true →
    LoopOk (final (runBatch os batch s)) ∧ Survives table s batch (runBatch os batch s)
  | [], s, h, _, _ => by
      refine ⟨h, ?_, [], (List.append_nil _).symm, List.nil_prefix, fun _ hd => by cases hd⟩
      exact fun herr => by cases herr
  | r :: rs, s, h, hwait, hkeeps => by
      obtain ⟨l, htable, hl⟩ := hwait.watched r List.mem_cons_self
      have hok := loopOk_dispatch os h hl.listener
      have hwait' := waiting_dispatch h hwait hkeeps
      have hdelivered : (final (dispatch os r s)).delivered = s.delivered ++ [(r.fd, l)] := by
        rw [final_dispatch os hl.listener]
      have herror := error_dispatch os hl.listener
      have hkeeps' : keepsWaiting os (final (dispatch os r s)) rs = true := by
        rw [keepsWaiting, Bool.and_eq_true] at hkeeps
        exact hkeeps.2
      show LoopOk (final (EStateM.bind (dispatch os r) (fun _ => runBatch os rs) s)) ∧ Survives
        table s (r :: rs) (EStateM.bind (dispatch os r) (fun _ => runBatch os rs) s)
      unfold EStateM.bind
      cases hr : dispatch os r s with
      | ok a s' =>
          rw [hr] at hok hwait' hdelivered hkeeps'
          obtain ⟨hok', hfound, ds, hds, hprefix, hdstable⟩ :=
            runBatch_survives hok hwait' hkeeps'
          refine ⟨hok', hfound, (r.fd, l) :: ds, hds.trans ?_, ?_, ?_⟩
          · rw [hdelivered, List.append_assoc, List.singleton_append]
          · exact List.cons_prefix_cons.mpr ⟨rfl, hprefix⟩
          · exact List.forall_mem_cons.mpr ⟨htable, hdstable⟩
      | error e s' =>
          rw [hr] at hok hdelivered herror
          refine ⟨hok, ?_, [(r.fd, l)], hdelivered, ?_, ?_⟩
          · rw [show error? (EStateM.Result.error e s' : EStateM.Result _ _ Unit) = _ from herror]
            cases (s.onEvent os r l).2 with
            | none => exact fun hnot => by cases hnot
            | some fault => exact fun hnot => by cases hnot
          · exact List.cons_prefix_cons.mpr ⟨rfl, List.nil_prefix⟩
          · exact List.forall_mem_singleton.mpr htable

end Batch

/-! ## Runs -/

/-- Only sockets of the server are watched. -/
structure ServerOnly (io : IoMultiplexer Listener) : Prop where
  mirrored : io.Mirrored
  server : ∀ fd l, io.Watches fd l → l = .server

theorem ServerOnly.addListener {io : IoMultiplexer Listener} (h : ServerOnly io) (fd : Nat) :
    ServerOnly (io.addListener .server fd true).1 := by
  refine ⟨h.mirrored.addListener _ _ _, fun fd' l hl => ?_⟩
  by_cases hused : fd ∈ io.epoll
  · obtain ⟨l', hl'⟩ := h.mirrored fd hused
    have hcontains : io.listeners.contains fd = true := by
      rw [OrdMap.contains, hl'.listener]
      rfl
    rw [IoMultiplexer.addListener_of_contains hcontains] at hl
    exact h.server fd' l hl
  · rcases IoMultiplexer.watches_addListener hused hl with hold | ⟨-, hnew, -⟩
    · exact h.server fd' l hold
    · exact hnew

theorem ServerOnly.sockets : ∀ {sockets : List (Nat × ServerGroup)}
    {io : IoMultiplexer Listener}, ServerOnly io →
    ServerOnly (sockets.foldl (fun io socket => (io.addListener .server socket.1 true).1) io)
  | [], _, h => h
  | socket :: _, _, h => (h.addListener socket.1).sockets

theorem loopOk_start (config : List ServerConfig) (listenOnAddr : Bytes → Option Nat)
    (world : W) : LoopOk (start config listenOnAddr world) := by
  have hnone : ServerOnly ({} : IoMultiplexer Listener) :=
    ⟨(fun fd hfd => by cases hfd), fun fd l hl => by cases hl.watched⟩
  have hserver : ServerOnly (start config listenOnAddr world).io := hnone.sockets
  refine ⟨hserver.mirrored, fun fd l hl => ?_, fun fd fd' i k hl _ => ?_⟩
  · rw [hserver.server fd l hl]
    trivial
  · cases hserver.server fd _ hl

theorem waiting_returned {s : EventLoop W} (h : LoopOk s) {batch : List Ready}
    (hreturned : Returned s batch) : Waiting s.io.listeners.get? s batch := by
  refine ⟨hreturned.once, fun r hr => ?_⟩
  obtain ⟨l, hl⟩ := h.mirrored r.fd (hreturned.watched r hr)
  exact ⟨l, hl.listener, hl⟩

theorem loopOk_reached {os : OS W} {s₀ s : EventLoop W} (h₀ : LoopOk s₀)
    (h : Reached os (fun s batch => keepsWaiting os s batch = true) s₀ s) : LoopOk s := by
  induction h with
  | start => exact h₀
  | batch _ hreturned hkeeps ih =>
      exact (runBatch_survives ih (waiting_returned ih hreturned) hkeeps).1

end EventLoop

open EventLoop

/-- In every run of the loop in which no event of a client closes the pipe
of a script that has an event to come in the same batch, no batch ends for
want of a listener, and every event goes to the listener its descriptor
had when the batch was returned. -/
theorem batch_survives {W : Type} (os : OS W) (config : List ServerConfig)
    (listenOnAddr : Bytes → Option Nat) (world : W) {s : EventLoop W}
    (h : Reached os (fun s batch => keepsWaiting os s batch = true)
      (start config listenOnAddr world) s)
    {batch : List Ready} (hreturned : Returned s batch)
    (hkeeps : keepsWaiting os s batch = true) :
    Survives s.io.listeners.get? s batch (runBatch os batch s) :=
  have hok := loopOk_reached (loopOk_start config listenOnAddr world) h
  (runBatch_survives hok (waiting_returned hok hreturned) hkeeps).2

/-- A server with scripts, on descriptor 3. -/
def scriptLoop : EventLoop Unit := start [scriptServers.first] (fun _ => some 3) ()

/-- A client connects on descriptor 4. -/
def connectBatch : List Ready := [{ fd := 3, env := { now := 0 }, clientFd := some 4 }]

/-- It asks for a script, whose pipe is descriptor 5. -/
def scriptBatch : List Ready :=
  [{ fd := 4
     env := { now := 0 }
     input := some (some ⟨scriptRequest, by decide +kernel⟩)
     pipeFd := some 5 }]

/-- The script writes, and the client closes the connection. -/
def pipeEvent : Ready :=
  { fd := 5, env := { now := 0 }, pipe := ⟨some (lit "hello"), false, false⟩ }

def closeEvent : Ready := { fd := 4, env := { now := 0 }, input := some none }

def runningLoop : EventLoop Unit :=
  final (runBatch flatOs scriptBatch (final (runBatch flatOs connectBatch scriptLoop)))

theorem reached_running {Cond : EventLoop Unit → List Ready → Prop}
    (hcond : ∀ s batch, keepsWaiting flatOs s batch = true → Cond s batch) :
    Reached flatOs Cond scriptLoop runningLoop := by
  have hconnect : Returned scriptLoop connectBatch := ⟨by decide +kernel, by decide +kernel⟩
  have hscript : Returned (final (runBatch flatOs connectBatch scriptLoop)) scriptBatch :=
    ⟨by decide +kernel, by decide +kernel⟩
  exact .batch (.batch .start hconnect (hcond _ _ (by decide +kernel))) hscript
    (hcond _ _ (by decide +kernel))

theorem batch_survives_pipeFirst :
    Survives runningLoop.io.listeners.get? runningLoop [pipeEvent, closeEvent]
      (runBatch flatOs [pipeEvent, closeEvent] runningLoop) :=
  batch_survives flatOs [scriptServers.first] (fun _ => some 3) ()
    (reached_running fun _ _ h => h) ⟨by decide +kernel, by decide +kernel⟩ (by decide +kernel)

/-- The event of the script comes behind that of its client. -/
theorem not_batch_survives :
    ¬∀ (W : Type) (os : OS W) (config : List ServerConfig) (listenOnAddr : Bytes → Option Nat)
      (world : W) (s : EventLoop W),
      Reached os (fun _ _ => True) (start config listenOnAddr world) s →
      ∀ batch, Returned s batch →
        Survives s.io.listeners.get? s batch (runBatch os batch s) := by
  intro h
  have hsurvives := h Unit flatOs [scriptServers.first] (fun _ => some 3) () runningLoop
    (reached_running fun _ _ _ => trivial) [closeEvent, pipeEvent]
    ⟨by decide +kernel, by decide +kernel⟩
  have hfound := hsurvives.found
  revert hfound
  decide +kernel

end Webserv
