import Webserv.EventLoop
import Webserv.ListenDirective
import Webserv.SlotReuse

/-!
# Start-up

`StartServer` opens a socket for each address of the configuration, by
calls each of which can fail: a group whose calls fail is left out, its
socket is closed, and what it has written is left behind. An `epoll_ctl` that fails leaves the
descriptor in `_listeners`, so that no later socket can be registered
under the same number.

The server behind it is the one that `Server.startServer` makes of the
groups that have come through, and no other socket is open
(`startServer_refines`).

Left out: the log, and the `fcntl` that sets `O_NONBLOCK`.
-/

namespace Webserv

open Bytes

/-- What the calls of `listenOnAddr` return. -/
structure SocketCalls where
  /-- of `socket` -/
  fd : Option Nat
  setsockopt : Bool
  bind : Bool
  listen : Bool
  /-- of the `epoll_ctl` behind `addListener` -/
  epollCtl : Bool

/-- What start-up writes: two fields of the server, the table of listeners,
and what the kernel has: the sockets that are open, and the addresses on
which it listens. -/
structure StartUp where
  socketConfigs : OrdMap Nat ServerGroup := OrdMap.empty
  listenFds : List Nat := []
  io : IoMultiplexer Listener := {}
  openFds : List Nat := []
  bound : OrdMap Nat SockaddrIn := OrdMap.empty

namespace StartUp

/-- `socket` has returned `fd`. -/
def socket (s : StartUp) (fd : Nat) : StartUp :=
  { s with openFds := fd :: s.openFds }

def close (s : StartUp) (fd : Nat) : StartUp :=
  { s with
    io := { s.io with epoll := s.io.epoll.filter (· ≠ fd) }
    openFds := s.openFds.filter (· ≠ fd)
    bound := s.bound.erase fd }

/-- `listenOnAddr`. Behind an exception, which `StartServer` catches, the
server has what was written in front of it. -/
def listenOnAddr (s : StartUp) (calls : SocketCalls) (addr : SockaddrIn) (configs : ServerGroup) :
    StartUp :=
  match calls.fd with
  | none => s
  | some fd =>
      let s := s.socket fd
      let s := { s with socketConfigs := s.socketConfigs.insert fd configs }
      if !calls.setsockopt then s.close fd
      else if !calls.bind then s.close fd
      else if !calls.listen then s.close fd
      else
        let s := { s with bound := s.bound.insert fd addr }
        let r := s.io.addListener .server fd calls.epollCtl
        if r.2 then { s with io := r.1, listenFds := s.listenFds ++ [fd] }
        else { s with io := r.1 }.close fd

/-- The server blocks with which `onEvent` accepts on `fd`. -/
def group? (s : StartUp) (fd : Nat) : Option ServerGroup :=
  if fd ∈ s.listenFds then s.socketConfigs.get? fd else none

section Calls

variable {s : StartUp} {calls : SocketCalls} {fd : Nat} (addr : SockaddrIn) (configs : ServerGroup)

theorem listenOnAddr_none (hfd : calls.fd = none) : s.listenOnAddr calls addr configs = s := by
  simp only [listenOnAddr, hfd]

theorem listenOnAddr_refused (hfd : calls.fd = some fd)
    (hcalls : (calls.setsockopt && calls.bind && calls.listen) = false) :
    s.listenOnAddr calls addr configs
      = { s.socket fd with socketConfigs := s.socketConfigs.insert fd configs }.close fd := by
  obtain ⟨fd', setsockopt, bind, listen, epollCtl⟩ := calls
  obtain rfl : fd' = some fd := hfd
  cases setsockopt with
  | false => rfl
  | true =>
      cases bind with
      | false => rfl
      | true =>
          cases listen with
          | false => rfl
          | true => cases hcalls

/-- The socket listens before it is registered. -/
theorem listenOnAddr_listens (hfd : calls.fd = some fd)
    (hcalls : (calls.setsockopt && calls.bind && calls.listen) = true) :
    s.listenOnAddr calls addr configs
      = if (s.io.addListener .server fd calls.epollCtl).2 then
          { socketConfigs := s.socketConfigs.insert fd configs
            listenFds := s.listenFds ++ [fd]
            io := (s.io.addListener .server fd calls.epollCtl).1
            openFds := fd :: s.openFds
            bound := s.bound.insert fd addr }
        else close {
          socketConfigs := s.socketConfigs.insert fd configs
          listenFds := s.listenFds
          io := (s.io.addListener .server fd calls.epollCtl).1
          openFds := fd :: s.openFds
          bound := s.bound.insert fd addr } fd := by
  obtain ⟨⟨hsetsockopt, hbind⟩, hlisten⟩ :
      (calls.setsockopt = true ∧ calls.bind = true) ∧ calls.listen = true := by
    simpa only [Bool.and_eq_true] using hcalls
  simp only [listenOnAddr, socket, hfd, hsetsockopt, hbind, hlisten, Bool.not_true,
    Bool.false_eq_true, if_false]
  rfl

end Calls

section Config

variable (inetPton : Bytes → Int) (inetAddr : Bytes → Bytes) (calls : Bytes → SocketCalls)

/-- One round of the loop of `StartServer`. -/
def serve (s : StartUp) (group : Bytes × ServerGroup) : StartUp :=
  match getListenAddress inetPton inetAddr group.2.first with
  | .error _ => s
  | .ok addr => s.listenOnAddr (calls group.1) addr group.2

def startServer (config : List ServerConfig) : StartUp :=
  (addressGroups config).entries.foldl (serve inetPton inetAddr calls) {}

/-- The kernel gives out no descriptor of a socket that is open. -/
def Fresh : StartUp → List (Bytes × ServerGroup) → Prop
  | _, [] => True
  | s, group :: groups =>
      (∀ fd, (calls group.1).fd = some fd → fd ∉ s.openFds)
        ∧ Fresh (s.serve inetPton inetAddr calls group) groups

/-! ## Which sockets are opened -/

/-- The calls in front of `addListener` succeed. -/
def usable (group : Bytes × ServerGroup) : Bool :=
  (getListenAddress inetPton inetAddr group.2.first).isOk && (calls group.1).setsockopt
    && (calls group.1).bind && (calls group.1).listen

/-- A group in front has left `fd` in `_listeners`. -/
def poisoned (before : List (Bytes × ServerGroup)) (fd : Nat) : Bool :=
  before.any fun group => usable inetPton inetAddr calls group && (calls group.1).fd == some fd
    && !(calls group.1).epollCtl

/-- The socket of a group that has `before` in front of it. -/
def opens (before : List (Bytes × ServerGroup)) (group : Bytes × ServerGroup) : Option Nat :=
  (calls group.1).fd.filter fun fd => usable inetPton inetAddr calls group
    && (calls group.1).epollCtl && !poisoned inetPton inetAddr calls before fd

/-- What `listenOnAddr` comes to for the address `key`. -/
def opened (config : List ServerConfig) (key : Bytes) : Option Nat :=
  ((addressGroups config).get? key).bind fun group =>
    opens inetPton inetAddr calls ((addressGroups config).entries.takeWhile fun e => e.1 ≠ key)
      (key, group)

/-- What start-up has made of the groups `before`, beside the sockets that
are meant to be served. -/
structure HasServed (before : List (Bytes × ServerGroup)) (s : StartUp)
    (sockets : OrdMap Nat ServerGroup) : Prop where
  groups : ∀ fd, sockets.get? fd = s.group? fd
  listeners : ∀ fd, s.io.listeners.get? fd
    = if fd ∈ s.listenFds ∨ poisoned inetPton inetAddr calls before fd = true then some .server
      else none
  epoll : ∀ fd, fd ∈ s.io.epoll ↔ fd ∈ s.listenFds
  openFds : ∀ fd, fd ∈ s.openFds ↔ fd ∈ s.listenFds
  bound : ∀ fd addr, s.bound.get? fd = some addr → fd ∈ s.listenFds
  served : ∀ fd ∈ s.listenFds, ∃ group addr, s.socketConfigs.get? fd = some group
    ∧ getListenAddress inetPton inetAddr group.first = .ok addr ∧ s.bound.get? fd = some addr

variable {inetPton inetAddr calls} {before : List (Bytes × ServerGroup)}
  {group : Bytes × ServerGroup} {s s' : StartUp} {sockets : OrdMap Nat ServerGroup} {fd : Nat}

theorem poisoned_append (fd : Nat) :
    poisoned inetPton inetAddr calls (before ++ [group]) fd
      = (poisoned inetPton inetAddr calls before fd
        || (usable inetPton inetAddr calls group && (calls group.1).fd == some fd
          && !(calls group.1).epollCtl)) := by
  simp only [poisoned, List.any_append, List.any_cons, List.any_nil, Bool.or_false]

/-- A group that opens nothing, whose descriptor was not in use. -/
theorem HasServed.failed (h : HasServed inetPton inetAddr calls before s sockets)
    (hfd : fd ∉ s.listenFds) (hfds : s'.listenFds = s.listenFds)
    (hconfigs : ∀ fd', fd' ≠ fd → s'.socketConfigs.get? fd' = s.socketConfigs.get? fd')
    (hlisteners : ∀ fd', s'.io.listeners.get? fd' = if fd' ∈ s.listenFds
      ∨ poisoned inetPton inetAddr calls (before ++ [group]) fd' = true then some .server else none)
    (hepoll : ∀ fd', fd' ∈ s'.io.epoll ↔ fd' ∈ s.io.epoll ∧ fd' ≠ fd)
    (hopen : ∀ fd', fd' ∈ s'.openFds ↔ fd' ∈ s.openFds ∧ fd' ≠ fd)
    (hbound : ∀ fd', s'.bound.get? fd' = if fd = fd' then none else s.bound.get? fd') :
    HasServed inetPton inetAddr calls (before ++ [group]) s' sockets := by
  have hne : ∀ fd' ∈ s.listenFds, fd' ≠ fd := fun fd' hmem heq => hfd (heq ▸ hmem)
  refine ⟨fun fd' => ?_, fun fd' => ?_, fun fd' => ?_, fun fd' => ?_, fun fd' addr hget => ?_,
    fun fd' hmem => ?_⟩
  · rw [h.groups fd', group?, group?, hfds]
    split
    · rename_i hmem
      rw [hconfigs fd' (hne fd' hmem)]
    · rfl
  · rw [hlisteners fd', hfds]
  · rw [hepoll fd', h.epoll fd', hfds]
    exact ⟨fun hin => hin.1, fun hin => ⟨hin, hne fd' hin⟩⟩
  · rw [hopen fd', h.openFds fd', hfds]
    exact ⟨fun hin => hin.1, fun hin => ⟨hin, hne fd' hin⟩⟩
  · rw [hbound fd'] at hget
    split at hget
    · cases hget
    · rw [hfds]
      exact h.bound fd' addr hget
  · rw [hfds] at hmem
    obtain ⟨configs, addr, hget, haddr, hboundTo⟩ := h.served fd' hmem
    refine ⟨configs, addr, (hconfigs fd' (hne fd' hmem)).trans hget, haddr, ?_⟩
    rw [hbound fd', if_neg (hne fd' hmem).symm]
    exact hboundTo

/-- A socket that is closed again. -/
theorem mem_openFds_closed (fds : List Nat) (fd fd' : Nat) :
    fd' ∈ (fd :: fds).filter (· ≠ fd) ↔ fd' ∈ fds ∧ fd' ≠ fd := by
  rw [List.mem_filter, List.mem_cons, decide_eq_true_eq]
  exact ⟨fun h => ⟨h.1.resolve_left h.2, h.2⟩, fun h => ⟨.inr h.1, h.2⟩⟩

theorem HasServed.skipped (h : HasServed inetPton inetAddr calls before s sockets)
    (hpoisoned : ∀ fd, poisoned inetPton inetAddr calls (before ++ [group]) fd
      = poisoned inetPton inetAddr calls before fd) :
    HasServed inetPton inetAddr calls (before ++ [group]) s sockets :=
  ⟨h.groups, fun fd => by rw [hpoisoned]; exact h.listeners fd, h.epoll, h.openFds,
    h.bound, h.served⟩

theorem usable_eq {addr : SockaddrIn}
    (haddr : getListenAddress inetPton inetAddr group.2.first = .ok addr) :
    usable inetPton inetAddr calls group
      = ((calls group.1).setsockopt && (calls group.1).bind && (calls group.1).listen) := by
  rw [usable, haddr]
  rfl

theorem poisoned_unusable (h : usable inetPton inetAddr calls group = false) (fd : Nat) :
    poisoned inetPton inetAddr calls (before ++ [group]) fd
      = poisoned inetPton inetAddr calls before fd := by
  rw [poisoned_append, h, Bool.false_and, Bool.false_and, Bool.or_false]

theorem opens_unusable (h : usable inetPton inetAddr calls group = false) :
    opens inetPton inetAddr calls before group = none := by
  simp only [opens, h, Bool.false_and]
  cases (calls group.1).fd with
  | none => rfl
  | some fd => rfl

/-- The calls in front of `addListener` fail. -/
theorem HasServed.refused (h : HasServed inetPton inetAddr calls before s sockets)
    (hfd : fd ∉ s.listenFds) (husable : usable inetPton inetAddr calls group = false)
    (configs : ServerGroup) :
    HasServed inetPton inetAddr calls (before ++ [group])
      ({ s.socket fd with socketConfigs := s.socketConfigs.insert fd configs }.close fd)
      sockets := by
  refine h.failed hfd rfl (fun fd' hne => OrdMap.get?_insert_of_ne _ hne.symm _) (fun fd' => ?_)
    (fun fd' => ?_) (fun fd' => mem_openFds_closed s.openFds fd fd')
    fun fd' => OrdMap.get?_erase _ _ _
  · rw [poisoned_unusable husable]
    exact h.listeners fd'
  · simp [close, socket]

/-- `addListener` fails. -/
theorem HasServed.unregistered (h : HasServed inetPton inetAddr calls before s sockets)
    (hfd : fd ∉ s.listenFds) {io : IoMultiplexer Listener} (configs : ServerGroup)
    (addr : SockaddrIn) (hepoll : io.epoll = s.io.epoll)
    (hlisteners : ∀ fd', io.listeners.get? fd' = if fd' ∈ s.listenFds
      ∨ poisoned inetPton inetAddr calls (before ++ [group]) fd' = true then some .server
        else none) :
    HasServed inetPton inetAddr calls (before ++ [group])
      (close {
        socketConfigs := s.socketConfigs.insert fd configs
        listenFds := s.listenFds
        io := io
        openFds := fd :: s.openFds
        bound := s.bound.insert fd addr } fd) sockets := by
  refine h.failed hfd rfl (fun fd' hne => OrdMap.get?_insert_of_ne _ hne.symm _) hlisteners
    (fun fd' => ?_) (fun fd' => mem_openFds_closed s.openFds fd fd') fun fd' => ?_
  · simp [close, hepoll]
  · rw [close, OrdMap.get?_erase]
    split
    · rfl
    · rename_i hne
      exact OrdMap.get?_insert_of_ne _ hne _

/-- The socket is opened. -/
theorem HasServed.listening (h : HasServed inetPton inetAddr calls before s sockets)
    {addr : SockaddrIn} (haddr : getListenAddress inetPton inetAddr group.2.first = .ok addr)
    (hepollCtl : (calls group.1).epollCtl = true) :
    HasServed inetPton inetAddr calls (before ++ [group]) {
        socketConfigs := s.socketConfigs.insert fd group.2
        listenFds := s.listenFds ++ [fd]
        io := { listeners := s.io.listeners.insert fd .server, epoll := fd :: s.io.epoll }
        openFds := fd :: s.openFds
        bound := s.bound.insert fd addr } (sockets.insert fd group.2) := by
  have hpoisoned : ∀ fd', poisoned inetPton inetAddr calls (before ++ [group]) fd'
      = poisoned inetPton inetAddr calls before fd' := fun fd' => by
    rw [poisoned_append, hepollCtl, Bool.not_true, Bool.and_false, Bool.or_false]
  refine ⟨fun fd' => ?_, fun fd' => ?_, fun fd' => ?_, fun fd' => ?_, fun fd' addr' hget => ?_,
    fun fd' hmem => ?_⟩
  · rw [OrdMap.get?_insert, h.groups fd', group?, group?]
    by_cases heq : fd = fd'
    · subst heq
      simp
    · have hiff : fd' ∈ s.listenFds ++ [fd] ↔ fd' ∈ s.listenFds := by
        simp [Ne.symm heq]
      simp only [hiff, if_neg heq, OrdMap.get?_insert_of_ne _ heq]
  · rw [OrdMap.get?_insert, h.listeners fd', hpoisoned fd']
    by_cases heq : fd = fd'
    · subst heq
      simp
    · have hiff : fd' ∈ s.listenFds ++ [fd] ↔ fd' ∈ s.listenFds := by
        simp [Ne.symm heq]
      simp only [hiff, if_neg heq]
  · rw [List.mem_cons, h.epoll fd', List.mem_append, List.mem_singleton, or_comm]
  · rw [List.mem_cons, h.openFds fd', List.mem_append, List.mem_singleton, or_comm]
  · rw [List.mem_append, List.mem_singleton]
    by_cases heq : fd = fd'
    · exact .inr heq.symm
    · rw [OrdMap.get?_insert_of_ne _ heq] at hget
      exact .inl (h.bound fd' addr' hget)
  · by_cases heq : fd = fd'
    · subst heq
      exact ⟨group.2, addr, OrdMap.get?_insert_self _ _ _, haddr, OrdMap.get?_insert_self _ _ _⟩
    · rw [List.mem_append, List.mem_singleton] at hmem
      obtain ⟨configs, addr', hget, haddr', hbound⟩ :=
        h.served fd' (hmem.resolve_right (Ne.symm heq))
      exact ⟨configs, addr', (OrdMap.get?_insert_of_ne _ heq _).trans hget, haddr',
        (OrdMap.get?_insert_of_ne _ heq _).trans hbound⟩

/-- What `addListener` makes of the socket of a group whose other calls
succeed. -/
theorem HasServed.registers (h : HasServed inetPton inetAddr calls before s sockets)
    (hfree : fd ∉ s.listenFds) (hfd : (calls group.1).fd = some fd) {addr : SockaddrIn}
    (haddr : getListenAddress inetPton inetAddr group.2.first = .ok addr)
    (husable : usable inetPton inetAddr calls group = true) :
    HasServed inetPton inetAddr calls (before ++ [group])
      (if (s.io.addListener .server fd (calls group.1).epollCtl).2 then
          { socketConfigs := s.socketConfigs.insert fd group.2
            listenFds := s.listenFds ++ [fd]
            io := (s.io.addListener .server fd (calls group.1).epollCtl).1
            openFds := fd :: s.openFds
            bound := s.bound.insert fd addr }
        else close {
          socketConfigs := s.socketConfigs.insert fd group.2
          listenFds := s.listenFds
          io := (s.io.addListener .server fd (calls group.1).epollCtl).1
          openFds := fd :: s.openFds
          bound := s.bound.insert fd addr } fd)
      ((opens inetPton inetAddr calls before group).elim sockets
        fun fd => sockets.insert fd group.2) := by
  have hopens : opens inetPton inetAddr calls before group
      = if ((calls group.1).epollCtl && !poisoned inetPton inetAddr calls before fd) = true
        then some fd else none := by
    simp only [opens, hfd, husable, Bool.true_and, Option.filter_some]
  have hlistener := h.listeners fd
  have hpoisoned (fd' : Nat) : poisoned inetPton inetAddr calls (before ++ [group]) fd'
      = (poisoned inetPton inetAddr calls before fd'
        || (some fd == some fd' && !(calls group.1).epollCtl)) := by
    rw [poisoned_append, husable, hfd, Bool.true_and]
  cases hbefore : poisoned inetPton inetAddr calls before fd with
  | true =>
      -- the descriptor is left over from a group in front
      have hcontains : s.io.listeners.contains fd = true := by
        rw [OrdMap.contains, hlistener, if_pos (.inr hbefore)]
        rfl
      rw [hopens, hbefore, IoMultiplexer.addListener_of_contains hcontains]
      simp only [Bool.not_true, Bool.and_false, Bool.false_eq_true, if_false, Option.elim_none]
      refine h.unregistered hfree group.2 addr rfl fun fd' => ?_
      rw [h.listeners fd', hpoisoned fd']
      by_cases heq : fd = fd'
      · subst heq
        simp [hbefore]
      · simp [heq]
  | false =>
      have hcontains : ¬s.io.listeners.contains fd = true := by
        rw [OrdMap.contains, hlistener, if_neg (by simp [hfree, hbefore])]
        decide
      rw [hopens, hbefore, IoMultiplexer.addListener_of_not_contains hcontains]
      cases hctl : (calls group.1).epollCtl with
      | true =>
          simp only [Bool.not_false, Bool.and_true, if_true, Option.elim_some]
          exact h.listening haddr hctl
      | false =>
          simp only [Bool.false_and, Bool.false_eq_true, if_false, Option.elim_none]
          refine h.unregistered hfree group.2 addr rfl fun fd' => ?_
          rw [OrdMap.get?_insert, h.listeners fd', hpoisoned fd', hctl]
          by_cases heq : fd = fd'
          · subst heq
            simp
          · simp [heq]

/-- One round: the group opens the socket that it is meant to. -/
theorem HasServed.serve (h : HasServed inetPton inetAddr calls before s sockets)
    (hfresh : ∀ fd, (calls group.1).fd = some fd → fd ∉ s.openFds) :
    HasServed inetPton inetAddr calls (before ++ [group]) (s.serve inetPton inetAddr calls group)
      ((opens inetPton inetAddr calls before group).elim sockets
        fun fd => sockets.insert fd group.2) := by
  unfold StartUp.serve
  cases haddr : getListenAddress inetPton inetAddr group.2.first with
  | error text =>
      have husable : usable inetPton inetAddr calls group = false := by
        rw [usable, haddr]
        rfl
      rw [opens_unusable husable]
      exact h.skipped (poisoned_unusable husable)
  | ok addr =>
      have husable : usable inetPton inetAddr calls group = ((calls group.1).setsockopt
          && (calls group.1).bind && (calls group.1).listen) := usable_eq haddr
      cases hfd : (calls group.1).fd with
      | none =>
          have hopens : opens inetPton inetAddr calls before group = none := by
            rw [opens, hfd]
            rfl
          rw [hopens]
          simp only [listenOnAddr_none addr group.2 hfd]
          refine h.skipped fun fd => ?_
          rw [poisoned_append, hfd]
          simp
      | some fd =>
          have hfree : fd ∉ s.listenFds := fun hmem => hfresh fd hfd ((h.openFds fd).mpr hmem)
          cases hcalls : (calls group.1).setsockopt && (calls group.1).bind
              && (calls group.1).listen with
          | false =>
              rw [hcalls] at husable
              rw [opens_unusable husable]
              simp only [listenOnAddr_refused addr group.2 hfd hcalls]
              exact h.refused hfree husable group.2
          | true =>
              rw [hcalls] at husable
              simp only [listenOnAddr_listens addr group.2 hfd hcalls]
              exact h.registers hfree hfd haddr husable

/-- The loop of `StartServer` beside one that inserts what is opened. -/
theorem hasServed_foldl {all : List (Bytes × ServerGroup)}
    {f : OrdMap Nat ServerGroup → Bytes × ServerGroup → OrdMap Nat ServerGroup}
    (hf : ∀ before group after, all = before ++ group :: after → ∀ sockets, f sockets group
      = (opens inetPton inetAddr calls before group).elim sockets
        fun fd => sockets.insert fd group.2) :
    ∀ (groups before : List (Bytes × ServerGroup)) {s : StartUp} {sockets : OrdMap Nat ServerGroup},
      all = before ++ groups → Fresh inetPton inetAddr calls s groups →
      HasServed inetPton inetAddr calls before s sockets →
      HasServed inetPton inetAddr calls all (groups.foldl (StartUp.serve inetPton inetAddr calls) s)
        (groups.foldl f sockets) := by
  intro groups
  induction groups with
  | nil =>
      intro before s sockets hall _ h
      rw [hall, List.append_nil]
      exact h
  | cons group groups ih =>
      intro before s sockets hall hfresh h
      obtain ⟨hfree, hfresh'⟩ := hfresh
      rw [List.foldl_cons, List.foldl_cons, hf before group groups hall]
      exact ih (before ++ [group]) (by rw [hall, List.append_assoc]; rfl) hfresh' (h.serve hfree)

theorem opened_of_split {config : List ServerConfig} {after : List (Bytes × ServerGroup)}
    (hsplit : (addressGroups config).entries = before ++ group :: after) :
    opened inetPton inetAddr calls config group.1 = opens inetPton inetAddr calls before group := by
  have hget : (addressGroups config).get? group.1 = some group.2 := by
    refine OrdMap.mem_entries.mp ?_
    rw [hsplit]
    exact List.mem_append_right _ List.mem_cons_self
  have hkeys := OrdMap.nodup_keys (addressGroups config)
  rw [hsplit, List.map_append, List.map_cons] at hkeys
  have hbefore : ∀ e ∈ before, decide (e.1 ≠ group.1) = true := fun e he => by
    refine decide_eq_true fun heq => ?_
    have hdisjoint := (List.nodup_append.mp hkeys).2.2
    exact hdisjoint e.1 (List.mem_map_of_mem he) group.1 List.mem_cons_self heq
  rw [opened, hget, Option.bind_some, hsplit, List.takeWhile_append_of_pos hbefore,
    List.takeWhile_cons_of_neg (by simp), List.append_nil]

theorem hasServed_startServer {W : Type} {config : List ServerConfig} (world : W)
    (hfresh : Fresh inetPton inetAddr calls {} (addressGroups config).entries) :
    HasServed inetPton inetAddr calls (addressGroups config).entries
      (startServer inetPton inetAddr calls config)
      (Server.startServer config (opened inetPton inetAddr calls config) world).socketConfigs := by
  refine hasServed_foldl (fun before group after hsplit sockets => ?_) _ [] rfl hfresh
    ⟨fun fd => rfl, fun fd => rfl, fun fd => Iff.rfl, fun fd => Iff.rfl, fun fd addr h => ?_,
      fun fd h => ?_⟩
  · simp only [opened_of_split hsplit]
    cases opens inetPton inetAddr calls before group with
    | none => rfl
    | some fd => rfl
  · cases h
  · cases h

end Config

/-! ## The table of listeners -/

/-- Each socket is registered once. -/
theorem mem_epoll_sockets : ∀ (sockets : List (Nat × ServerGroup)) (io : IoMultiplexer Listener),
    (∀ fd, io.listeners.contains fd = true → fd ∈ io.epoll) → ∀ fd,
      fd ∈ (sockets.foldl (fun io socket => (io.addListener .server socket.1 true).1) io).epoll
        ↔ fd ∈ io.epoll ∨ ∃ e ∈ sockets, e.1 = fd
  | [], io, _, fd => by simp
  | socket :: sockets, io, hin, fd => by
      rw [List.foldl_cons]
      by_cases hcontains : io.listeners.contains socket.1 = true
      · have hsocket := hin socket.1 hcontains
        rw [IoMultiplexer.addListener_of_contains hcontains, mem_epoll_sockets sockets io hin,
          List.exists_mem_cons_iff]
        constructor
        · rintro (hold | hnew)
          · exact .inl hold
          · exact .inr (.inr hnew)
        · rintro (hold | rfl | hnew)
          · exact .inl hold
          · exact .inl hsocket
          · exact .inr hnew
      · have hin' : ∀ fd', (io.listeners.insert socket.1 .server).contains fd' = true →
            fd' ∈ socket.1 :: io.epoll := by
          intro fd' hcontains'
          rw [OrdMap.contains, OrdMap.get?_insert] at hcontains'
          split at hcontains'
          · rename_i heq
            exact List.mem_cons.mpr (.inl heq.symm)
          · exact List.mem_cons_of_mem _ (hin fd' hcontains')
        rw [IoMultiplexer.addListener_of_not_contains hcontains, mem_epoll_sockets sockets _ hin',
          List.exists_mem_cons_iff]
        simp only [if_true, List.mem_cons]
        rw [or_comm (a := fd = socket.1), or_assoc, eq_comm (a := fd)]

theorem watches_start {W : Type} (config : List ServerConfig) (listenOnAddr : Bytes → Option Nat)
    (world : W) (fd : Nat) (l : Listener) :
    (EventLoop.start config listenOnAddr world).io.Watches fd l
      ↔ l = .server
        ∧ ((Server.startServer config listenOnAddr world).socketConfigs.get? fd).isSome := by
  have hnone : EventLoop.ServerOnly ({} : IoMultiplexer Listener) :=
    ⟨(fun fd hfd => by cases hfd), fun fd l hl => by cases hl.watched⟩
  have hserver : EventLoop.ServerOnly (EventLoop.start config listenOnAddr world).io :=
    hnone.sockets
  have hepoll : fd ∈ (EventLoop.start config listenOnAddr world).io.epoll
      ↔ ((Server.startServer config listenOnAddr world).socketConfigs.get? fd).isSome := by
    refine (mem_epoll_sockets _ {} (fun fd h => by cases h) fd).trans ?_
    rw [Option.isSome_iff_exists]
    constructor
    · rintro (hnil | ⟨⟨fd', group⟩, hmem, rfl⟩)
      · cases hnil
      · exact ⟨group, OrdMap.mem_entries.mp hmem⟩
    · rintro ⟨group, hget⟩
      exact .inr ⟨(fd, group), OrdMap.mem_entries.mpr hget, rfl⟩
  constructor
  · intro h
    exact ⟨hserver.server fd l h, hepoll.mp h.watched⟩
  · rintro ⟨rfl, hsome⟩
    obtain ⟨l, hl⟩ := hserver.mirrored fd (hepoll.mpr hsome)
    exact hserver.server fd l hl ▸ hl

/-- Start-up has left what the loop `loop` runs on: the same groups on the
same sockets, all of them watched. The kernel listens on each at the
address of its group, and no other socket is open. -/
structure Refines {W : Type} (inetPton : Bytes → Int) (inetAddr : Bytes → Bytes) (s : StartUp)
    (loop : EventLoop W) : Prop where
  groups : ∀ fd, loop.server.socketConfigs.get? fd = s.group? fd
  watches : ∀ fd l, loop.io.Watches fd l ↔ s.io.Watches fd l
  openFds : ∀ fd, fd ∈ s.openFds ↔ ∃ group, s.group? fd = some group
  bound : ∀ fd addr, s.bound.get? fd = some addr
    ↔ ∃ group, s.group? fd = some group
      ∧ getListenAddress inetPton inetAddr group.first = .ok addr

end StartUp

open StartUp

/-- `StartServer` is the start of the event loop on the sockets that come
through: those of the groups whose address is valid and whose calls
succeed, unless an `epoll_ctl` has failed before on a socket of the same
number. -/
theorem startServer_refines {W : Type} (inetPton : Bytes → Int) (inetAddr : Bytes → Bytes)
    (calls : Bytes → SocketCalls) (config : List ServerConfig) (world : W)
    (hfresh : Fresh inetPton inetAddr calls {} (addressGroups config).entries) :
    Refines inetPton inetAddr (startServer inetPton inetAddr calls config)
      (EventLoop.start config (opened inetPton inetAddr calls config) world) := by
  have h := hasServed_startServer world hfresh
  refine ⟨h.groups, fun fd l => ?_, fun fd => ?_, fun fd addr => ?_⟩
  · rw [watches_start, h.groups fd, group?]
    constructor
    · rintro ⟨rfl, hsome⟩
      split at hsome
      · rename_i hmem
        refine ⟨(h.epoll fd).mpr hmem, ?_⟩
        rw [h.listeners fd, if_pos (.inl hmem)]
      · cases hsome
    · intro hwatches
      have hmem := (h.epoll fd).mp hwatches.watched
      have hlistener := hwatches.listener
      rw [h.listeners fd, if_pos (.inl hmem)] at hlistener
      obtain ⟨group, -, hget, -⟩ := h.served fd hmem
      refine ⟨(Option.some.inj hlistener).symm, ?_⟩
      rw [if_pos hmem, hget]
      rfl
  · rw [h.openFds fd, group?]
    constructor
    · intro hmem
      obtain ⟨group, -, hget, -⟩ := h.served fd hmem
      exact ⟨group, (if_pos hmem).trans hget⟩
    · rintro ⟨group, hget⟩
      by_contra hnot
      rw [if_neg hnot] at hget
      cases hget
  · rw [group?]
    constructor
    · intro hbound
      have hmem := h.bound fd addr hbound
      obtain ⟨group, addr', hget, haddr, hbound'⟩ := h.served fd hmem
      obtain rfl := Option.some.inj (hbound.symm.trans hbound')
      exact ⟨group, by rw [if_pos hmem, hget], haddr⟩
    · rintro ⟨group, hget, haddr⟩
      split at hget
      · rename_i hmem
        obtain ⟨group', addr', hget', haddr', hbound⟩ := h.served fd hmem
        obtain rfl := Option.some.inj (hget.symm.trans hget')
        obtain rfl := Except.ok.inj (haddr.symm.trans haddr')
        exact hbound
      · cases hget

/-- The first address cannot be bound, and the second one gets the
descriptor that is closed for it. -/
def portCalls (key : Bytes) : SocketCalls :=
  ⟨some 3, true, key ≠ lit "0.0.0.0:8080", true, true⟩

theorem startServer_refines_ports :
    Refines (fun _ => 1) id (startServer (fun _ => 1) id portCalls portServers)
      (EventLoop.start portServers (opened (fun _ => 1) id portCalls portServers) ()) := by
  refine startServer_refines (fun _ => 1) id portCalls portServers () ⟨?_, ?_, trivial⟩
  · intro fd _ h
    cases h
  · intro fd hfd
    obtain rfl := Option.some.inj hfd
    decide

end Webserv
