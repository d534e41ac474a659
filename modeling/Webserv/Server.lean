import Webserv.ConnectionRuns

/-!
# The server

`Server` as `srcs/Server/Server.cpp` has it: the listening sockets, each
with the server blocks of its address, and the pool of `ClientServer`
objects. An object whose connection is closed is used again for the next
one that is accepted, on whichever socket.

Left out: the log, and the shutdown of the server.
-/

namespace Webserv

open Bytes Program Relation

/-- The key of an address group, `host:port`. -/
def addressKey (config : ServerConfig) : Bytes :=
  config.host ++ lit ":" ++ decimal config.port

/-- The server blocks by address, in the order of the file. -/
def addressGroups (config : List ServerConfig) : OrdMap Bytes ServerGroup :=
  config.foldl (fun groups cfg =>
    groups.insert (addressKey cfg)
      (match groups.get? (addressKey cfg) with
        | some group => { group with others := group.others ++ [cfg] }
        | none => { first := cfg })) OrdMap.empty

structure Server (W : Type) where
  /-- the descriptors of `_listen_fds`, with their `_socket_configs` -/
  socketConfigs : OrdMap Nat ServerGroup
  clients : List (Connection W) := []
  world : W

namespace Server

variable {W : Type}

abbrev Method (W α : Type) := EStateM Fault (Server W) α

/-- `StartServer`: `listenOnAddr` gives the descriptor of an address, or
fails. -/
def startServer (config : List ServerConfig) (listenOnAddr : Bytes → Option Nat) (world : W) :
    Server W where
  socketConfigs := (addressGroups config).entries.foldl (fun sockets group =>
    match listenOnAddr group.1 with
    | some fd => sockets.insert fd group.2
    | none => sockets) OrdMap.empty
  world := world

/-! ## Connections -/

def setSockets (c : Connection W) (peerSocketFd serverSocketFd : Nat) : Connection W :=
  { c with
    client := { c.client with
      peerSocketFd := peerSocketFd
      serverSocketFd := serverSocketFd } }

/-- `RegisterWithIOMultiplexer` -/
def register (env : Env) (c : Connection W) : Connection W :=
  if !c.client.isStarted && env.addListenerOk then
    { c with client := { c.client with isStarted := true } }
  else c

/-- The place of the first client that is not started, or the place
behind the last. -/
def slot (s : Server W) : Nat := s.clients.findIdx fun c => !c.client.isStarted

def newClient (garbage : Bool) (env : Env) (fd clientFd : Nat) (group : ServerGroup) (world : W) :
    Connection W where
  client := ClientServer.create garbage env.now fd clientFd group
  world := world

/-- `accept_peer`, for the socket `fd` with the server blocks `group`;
`clientFd` is what `accept` returned. -/
def acceptPeer (s : Server W) (garbage : Bool) (env : Env) (fd : Nat) (group : ServerGroup)
    (clientFd : Nat) : Server W :=
  match s.clients[s.slot]? with
  | some c =>
      { s with clients := s.clients.set s.slot (register env (setSockets c clientFd fd)) }
  | none =>
      { s with
        clients := s.clients ++ [register env (newClient garbage env fd clientFd group s.world)] }

/-- `onEvent`; `clientFd` is `none` when `accept` failed. -/
def onEvent (s : Server W) (garbage : Bool) (env : Env) (fd : Nat) (clientFd : Option Nat) :
    Server W :=
  match s.socketConfigs.get? fd, clientFd with
  | some group, some clientFd => s.acceptPeer garbage env fd group clientFd
  | _, _ => s

/-- The server behind an event of the client in slot `i`. -/
def withClient (s : Server W) (i : Nat) (c : Connection W) : Server W :=
  { s with clients := s.clients.set i c, world := c.world }

/-! ## Runs -/

/-- One event of the loop. -/
inductive Event where
  | peer (garbage : Bool) (env : Env) (fd : Nat) (clientFd : Option Nat)
  | client (i : Nat) (ev : Connection.Event)

def clientEvent (os : OS W) (i : Nat) (ev : Connection.Event) : Method W Unit := do
  let s ← get
  match s.clients[i]? with
  | none => pure ()
  | some c =>
      let r := Connection.step os ev { c with world := s.world }
      set (s.withClient i (final r))
      match error? r with
      | none => pure ()
      | some fault => throw fault

def step (os : OS W) : Event → Method W Unit
  | .peer garbage env fd clientFd => do
      let s ← get
      set (s.onEvent garbage env fd clientFd)
  | .client i ev => clientEvent os i ev

def run (os : OS W) : List Event → Method W Unit
  | [] => pure ()
  | ev :: evs => do
      step os ev
      run os evs

end Server

end Webserv
