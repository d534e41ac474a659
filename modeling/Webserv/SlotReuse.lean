import Webserv.Server

/-!
# Slots that are used again

A client that is closed has lost its parser, buffers, builder and CGI,
and the accepting code sets its two sockets. What neither does is set the
server blocks, the `100 Continue` flag and the time of the last activity,
so a used slot is like a new one when these happen to be right.
-/

namespace Webserv

open Bytes Program Relation Connection

namespace Server

variable {W : Type} {os : OS W}

/-- Every client is sound. -/
def AllSound (s : Server W) : Prop := ∀ c ∈ s.clients, Sound c

/-- One change of the clients. -/
def Keeps (s s' : Server W) : Prop := AllSound s → AllSound s'

theorem sound_register {env : Env} {c : Connection W} (h : Sound c) : Sound (register env c) := by
  unfold register
  split
  · exact .of_started rfl h.live
  · exact h

theorem sound_setSockets {c : Connection W} (h : Sound c) (peerSocketFd serverSocketFd : Nat) :
    Sound (setSockets c peerSocketFd serverSocketFd) := by
  refine ⟨fun hs => ?_, h.live⟩
  obtain ⟨h₁, h₂, h₃, h₄, h₅, h₆⟩ := h.closed hs
  exact ⟨h₁, h₂, h₃, h₄, h₅, h₆⟩

theorem sound_newClient (garbage : Bool) (env : Env) (fd clientFd : Nat) (group : ServerGroup)
    (world : W) : Sound (newClient garbage env fd clientFd group world) :=
  ⟨fun _ => ⟨rfl, rfl, rfl, rfl, rfl, rfl⟩, fun i hi => by cases hi⟩

theorem allSound_set {s : Server W} (h : AllSound s) {c : Connection W} (hc : Sound c) (i : Nat) :
    ∀ c' ∈ s.clients.set i c, Sound c' := by
  intro c' hmem
  rcases List.mem_or_eq_of_mem_set hmem with hmem | rfl
  · exact h c' hmem
  · exact hc

theorem keeps_onEvent (s : Server W) (garbage : Bool) (env : Env) (fd : Nat)
    (clientFd : Option Nat) : Keeps s (s.onEvent garbage env fd clientFd) := by
  intro h
  unfold onEvent
  split
  · unfold acceptPeer
    split
    · rename_i c hc
      have hsound := h c (List.mem_of_getElem? hc)
      exact allSound_set h (sound_register (sound_setSockets hsound _ _)) _
    · intro c hc
      rcases List.mem_append.mp hc with hc | hc
      · exact h c hc
      · obtain rfl := List.mem_singleton.mp hc
        exact sound_register (sound_newClient ..)
  · exact h

theorem keeps_clientEvent (os : OS W) (i : Nat) (ev : Connection.Event) {s : Server W}
    {c : Connection W} (hc : s.clients[i]? = some c) :
    Keeps s (s.withClient i (final (Connection.step os ev { c with world := s.world }))) := by
  intro h
  have hsound := h c (List.mem_of_getElem? hc)
  have hreaches : ReflTransGen (Tick os) { c with world := s.world }
      (final (Connection.step os ev { c with world := s.world })) :=
    (ticks_step (P := fun _ => True) ev).reaches trivial
  have hstart : Sound { c with world := s.world } := ⟨hsound.closed, hsound.live⟩
  exact allSound_set h (hstart.reaches hreaches) i

theorem meets_step (os : OS W) (ev : Event) (P : Server W → Prop) :
    Meets Keeps P (step os ev) (fun _ _ => True) fun _ _ => True := by
  cases ev with
  | peer garbage env fd clientFd =>
      refine Meets.get_bind fun s _ => Meets.set (fun s' hs => ?_) trivial
      subst hs
      exact keeps_onEvent s' garbage env fd clientFd
  | client i ev =>
      refine Meets.get_bind fun s _ => ?_
      cases hc : s.clients[i]? with
      | none => exact Meets.pure fun _ _ => trivial
      | some c =>
          refine Meets.set_bind (fun s' hs => ?_) ?_
          · subst hs
            exact keeps_clientEvent os i ev hc
          · split
            · exact Meets.pure fun _ _ => trivial
            · exact Meets.throw fun _ _ => trivial

theorem meets_run (os : OS W) : ∀ (evs : List Event) (P : Server W → Prop),
    Meets Keeps P (run os evs) (fun _ _ => True) fun _ _ => True
  | [], _ => Meets.pure fun _ _ => trivial
  | ev :: evs, P => (meets_step os ev P).bind fun _ => meets_run os evs _

theorem allSound_run (os : OS W) (evs : List Event) {s : Server W} (h : AllSound s) :
    AllSound (final (run os evs s)) :=
  invariant_of_reaches (fun _ _ h hkeeps => hkeeps h)
    ((meets_run os evs fun _ => True).reaches trivial) h

/-- The client is as the constructor makes it for the socket `fd` with the
server blocks `group`, but started. -/
def AsNew (now : Int) (fd clientFd : Nat) (group : ServerGroup) (client : ClientServer) : Prop :=
  ∃ garbage, client
    = { ClientServer.create garbage now fd clientFd group with isStarted := true }

/-- The next client gets a slot of its own, or one whose last user had the
server blocks `group`, was sent no `100 Continue`, and was active at
`now`. -/
def Renewable (s : Server W) (now : Int) (group : ServerGroup) : Prop :=
  ∀ c ∈ s.clients[s.slot]?, c.client.serverConfigs = group ∧ c.client.continueSent = false
    ∧ c.client.lastActivity = now

instance decidableRenewable (s : Server W) (now : Int) (group : ServerGroup) :
    Decidable (s.Renewable now group) := by
  unfold Renewable
  infer_instance

theorem asNew_newClient {env : Env} (henv : env.addListenerOk = true) (garbage : Bool)
    (fd clientFd : Nat) (group : ServerGroup) (world : W) :
    AsNew env.now fd clientFd group
      (register env (newClient garbage env fd clientFd group world)).client := by
  refine ⟨garbage, ?_⟩
  simp [register, newClient, henv, ClientServer.create]

/-- A slot that is used again starts as an accepted connection does. -/
theorem client_setSockets {env : Env} (henv : env.addListenerOk = true) {c : Connection W}
    (hs : c.client.isStarted = false) (hclean : Clean c.client) (fd clientFd : Nat) :
    (register env (setSockets c clientFd fd)).client
      = (accepted c.client.responseReady c.client.continueSent c.client.lastActivity fd clientFd
          c.client.serverConfigs c.world).client := by
  obtain ⟨hparser, hrequest, hresponse, hbuilder, hcgi, hwaiting⟩ := hclean
  simp [register, setSockets, accepted, ClientServer.create, hs, henv, hparser, hrequest,
    hresponse, hbuilder, hcgi, hwaiting]

/-- A slot that is used again is as new as the three fields are that
nothing sets. -/
theorem asNew_setSockets {env : Env} (henv : env.addListenerOk = true) {c : Connection W}
    (hs : c.client.isStarted = false) (hclean : Clean c.client) (fd clientFd : Nat)
    (group : ServerGroup) :
    AsNew env.now fd clientFd group (register env (setSockets c clientFd fd)).client
      ↔ c.client.serverConfigs = group ∧ c.client.continueSent = false
        ∧ c.client.lastActivity = env.now := by
  rw [client_setSockets henv hs hclean]
  constructor
  · rintro ⟨garbage, heq⟩
    exact ⟨congrArg ClientServer.serverConfigs heq, congrArg ClientServer.continueSent heq,
      congrArg ClientServer.lastActivity heq⟩
  · rintro ⟨hconfigs, hcontinue, hactivity⟩
    exact ⟨c.client.responseReady, by rw [accepted, hconfigs, hcontinue, hactivity]; rfl⟩

theorem isStarted_slot {s : Server W} {c : Connection W} (hc : s.clients[s.slot]? = some c) :
    c.client.isStarted = false := by
  obtain ⟨hlt, hget⟩ := List.getElem?_eq_some_iff.mp hc
  have hfound : (!s.clients[s.slot].client.isStarted) = true := List.findIdx_getElem (w := hlt)
  rw [hget] at hfound
  simpa using hfound

/-- The slot that is used again, if there is one, is closed and clean. -/
theorem AllSound.slot {s : Server W} (h : AllSound s) {c : Connection W}
    (hc : s.clients[s.slot]? = some c) : c.client.isStarted = false ∧ Clean c.client :=
  have hs := isStarted_slot hc
  ⟨hs, (h c (List.mem_of_getElem? hc)).closed hs⟩

/-- The client that `onEvent` puts into the slot. -/
theorem onEvent_slot {s : Server W} (garbage : Bool) (env : Env) {fd : Nat}
    {group : ServerGroup} (hfd : s.socketConfigs.get? fd = some group) (clientFd : Nat) :
    (s.onEvent garbage env fd (some clientFd)).clients[s.slot]?
      = some (register env (match s.clients[s.slot]? with
          | some c => setSockets c clientFd fd
          | none => newClient garbage env fd clientFd group s.world)) := by
  simp only [onEvent, hfd, acceptPeer]
  cases hc : s.clients[s.slot]? with
  | none =>
      have hlength : s.slot = s.clients.length :=
        Nat.le_antisymm List.findIdx_le_length (List.getElem?_eq_none_iff.mp hc)
      rw [hlength]
      exact List.getElem?_concat_length
  | some c => exact List.getElem?_set_self (List.getElem?_eq_some_iff.mp hc).1

/-- The client in the slot that is used is as new exactly when the slot is
renewable. -/
theorem onEvent_asNew {s : Server W} (h : AllSound s) {env : Env}
    (henv : env.addListenerOk = true) (garbage : Bool) {fd : Nat} {group : ServerGroup}
    (hfd : s.socketConfigs.get? fd = some group) (clientFd : Nat) :
    (∃ c ∈ (s.onEvent garbage env fd (some clientFd)).clients[s.slot]?,
        AsNew env.now fd clientFd group c.client)
      ↔ s.Renewable env.now group := by
  rw [onEvent_slot garbage env hfd clientFd]
  unfold Renewable
  cases hc : s.clients[s.slot]? with
  | none =>
      have hnew := asNew_newClient henv garbage fd clientFd group s.world
      exact iff_of_true ⟨_, rfl, hnew⟩ fun c hmem => by cases hmem
  | some c =>
      obtain ⟨hs, hclean⟩ := h.slot hc
      simp only [Option.mem_some_iff, exists_eq_left', forall_eq']
      exact asNew_setSockets henv hs hclean fd clientFd group

end Server

open Server

/-- After every history of connections, a client that is accepted and
registered is as a new one exactly when its slot is new, or its last user
had the same server blocks, was sent no `100 Continue`, and was active
right now. -/
theorem accepted_asNew {W : Type} (os : OS W) (config : List ServerConfig)
    (listenOnAddr : Bytes → Option Nat) (world : W) (evs : List Server.Event) {env : Env}
    (henv : env.addListenerOk = true) (garbage : Bool) {fd : Nat} {group : ServerGroup}
    (hfd : (final (Server.run os evs
      (startServer config listenOnAddr world))).socketConfigs.get? fd = some group)
    (clientFd : Nat) :
    (∃ c ∈ ((final (Server.run os evs (startServer config listenOnAddr world))).onEvent garbage
          env fd (some clientFd)).clients[(final (Server.run os evs
            (startServer config listenOnAddr world))).slot]?,
        AsNew env.now fd clientFd group c.client)
      ↔ (final (Server.run os evs (startServer config listenOnAddr world))).Renewable
          env.now group :=
  onEvent_asNew (allSound_run os evs fun c hc => by cases hc) henv garbage hfd clientFd

def serverA : ServerConfig := { port := 8080, serverNames := [lit "a"] }

def serverB : ServerConfig := { port := 9090, serverNames := [lit "b"] }

/-- Two ports with a server each. -/
def portServers : List ServerConfig := [serverA, serverB]

def portSockets (key : Bytes) : Option Nat :=
  some (if key = lit "0.0.0.0:8080" then 3 else 4)

/-- A connection on port 8080 that the peer closes. -/
def closedEvents : List Server.Event :=
  [.peer false { now := 0 } 3 (some 5), .client 0 (reads { now := 0 } [])]

/-- The next one is on the same port. -/
theorem accepted_asNew_samePort :
    ∃ c ∈ ((final (Server.run flatOs closedEvents
          (startServer portServers portSockets ()))).onEvent false { now := 0 } 3
            (some 6)).clients[(final (Server.run flatOs closedEvents
              (startServer portServers portSockets ()))).slot]?,
      AsNew 0 3 6 { first := serverA } c.client :=
  (accepted_asNew flatOs portServers portSockets () closedEvents rfl false
    (by decide +kernel) 6).mpr (by decide +kernel)

/-- The next one is on the other port. -/
theorem not_accepted_asNew :
    ¬∀ (W : Type) (os : OS W) (config : List ServerConfig) (listenOnAddr : Bytes → Option Nat)
      (world : W) (evs : List Server.Event) (env : Env), env.addListenerOk = true →
      ∀ (garbage : Bool) (fd : Nat) (group : ServerGroup),
        (final (Server.run os evs
          (startServer config listenOnAddr world))).socketConfigs.get? fd = some group →
        ∀ clientFd : Nat,
          ∃ c ∈ ((final (Server.run os evs (startServer config listenOnAddr world))).onEvent
              garbage env fd (some clientFd)).clients[(final (Server.run os evs
                (startServer config listenOnAddr world))).slot]?,
            AsNew env.now fd clientFd group c.client := by
  intro h
  obtain ⟨c, hc, garbage, heq⟩ := h Unit flatOs portServers portSockets () closedEvents
    { now := 0 } rfl false 4 { first := serverB } (by decide +kernel) 6
  have hconfigs : ((((final (Server.run flatOs closedEvents
      (startServer portServers portSockets ()))).onEvent false { now := 0 } 4
        (some 6)).clients[(final (Server.run flatOs closedEvents
          (startServer portServers portSockets ()))).slot]?).map
      fun c => c.client.serverConfigs)
      = some { first := serverA } := by
    decide +kernel
  rw [Option.mem_def.mp hc, Option.map_some, heq] at hconfigs
  have hgroup : ({ first := serverB } : ServerGroup) = { first := serverA } :=
    Option.some.inj hconfigs
  exact absurd hgroup (by decide +kernel)

end Webserv
