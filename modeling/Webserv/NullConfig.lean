import Webserv.ParseErrors
import Webserv.ConnectionRuns

/-!
# NULL configurations

Routing sets the two configuration pointers of a parser, but a head that
is refused is not routed, and one for which no location is found has no
location. The code goes through the pointers without asking which. A
parser says itself what became of its head: `Formed` lists the three
cases, and from it follows which requests have to be kept from the code
that reads the pointers.
-/

namespace Webserv

open Bytes Program

namespace RequestParser

/-- `p` is what a refused head left, but for its request line and header
fields. -/
def HeadRefused (p : RequestParser) : Prop :=
  ∃ request q rest, ({} : RequestParser).parseRequest request = some (.returned q rest)
    ∧ q.errorCode ≠ 0 ∧ p = { q with headers := p.headers, requestLine := p.requestLine }

/-- The head of `p` was refused, or has no location. -/
def Unrouted (p : RequestParser) : Prop := HeadRefused p ∨ p.errorCode = 404

namespace HeadRefused

variable {p : RequestParser}

theorem errorCode (h : HeadRefused p) : p.errorCode ≠ 0 := by
  obtain ⟨request, q, rest, -, herr, heq⟩ := h
  rw [heq]
  exact herr

theorem state (h : HeadRefused p) : p.state = .errorParse := by
  obtain ⟨request, q, rest, hparse, herr, heq⟩ := h
  rw [heq]
  exact ((running_fresh.parseRequest hparse).resolve_left fun h => herr h.1).state

theorem serverConfig (h : HeadRefused p) : p.serverConfig = none := by
  obtain ⟨request, q, rest, hparse, -, heq⟩ := h
  rw [heq]
  exact (kept_parseRequest hparse).serverConfig

theorem copy (h : HeadRefused p) (headers : HeaderMap) (requestLine : Bytes) :
    HeadRefused { p with headers := headers, requestLine := requestLine } := by
  obtain ⟨request, q, rest, hparse, herr, heq⟩ := h
  exact ⟨request, q, rest, hparse, herr, by rw [heq]⟩

end HeadRefused

/-- The head of `p` was refused, or it was routed: `p` has a server, and a
location unless that was not found. -/
def Formed (p : RequestParser) : Prop :=
  HeadRefused p ∨ p.serverConfig.isSome ∧ (p.locationConfig.isSome ∨ p.errorCode = 404)

namespace Formed

variable {p : RequestParser}

theorem copy (h : Formed p) (headers : HeaderMap) (requestLine : Bytes) :
    Formed { p with headers := headers, requestLine := requestLine } :=
  h.imp (fun hr => hr.copy headers requestLine) id

theorem refused (h : Formed p) (hcfg : p.serverConfig = none) : HeadRefused p := by
  rcases h with hr | ⟨hsome, -⟩
  · exact hr
  · rw [hcfg] at hsome
    cases hsome

theorem unrouted (h : Formed p) (hl : p.locationConfig = none) : Unrouted p := by
  rcases h with hr | ⟨-, hsome | herr⟩
  · exact Or.inl hr
  · rw [hl] at hsome
    cases hsome
  · exact Or.inr herr

end Formed

theorem not_unrouted {p : RequestParser} (hcfg : p.serverConfig.isSome)
    (herr : p.errorCode ≠ 404) : ¬Unrouted p := by
  rintro (hr | h404)
  · rw [hr.serverConfig] at hcfg
    cases hcfg
  · exact herr h404

theorem matchLocation_formed {p : RequestParser} (herr : p.errorCode = 0)
    (servers : ServerGroup) : Formed (p.matchLocation servers) := by
  refine Or.inr ?_
  simp only [matchLocation]
  generalize selectLocation _ _ _ _ = found
  cases found with
  | some l => exact ⟨rfl, Or.inl rfl⟩
  | none =>
      cases p.locationConfig with
      | some l => simp
      | none => simp [logError, herr]

/-- A new head. -/
theorem routed_formed {p : RequestParser} {request rest : Bytes}
    (hparse : ({} : RequestParser).parseRequest request = some (.returned p rest))
    (servers : ServerGroup) : Formed (Connection.routed servers p) := by
  unfold Connection.routed
  split
  · rename_i herr
    exact matchLocation_formed herr servers
  · rename_i herr
    exact Or.inl ⟨request, p, rest, hparse, herr, rfl⟩

/-- A part of a body. A parser in BODY has been routed. -/
theorem Formed.parseBody {p p' : RequestParser} (h : Formed p) (hstate : p.state = .body)
    {request rest : Bytes} (hparse : p.parseRequest request = some (.returned p' rest)) :
    Formed p' := by
  rcases h with hr | ⟨hcfg, hl⟩
  · rw [hr.state] at hstate
    cases hstate
  · have hkept := kept_parseRequest hparse
    refine Or.inr ⟨hkept.serverConfig ▸ hcfg, hl.imp (hkept.locationConfig ▸ ·) fun h404 => ?_⟩
    rcases hkept.error with heq | ⟨hzero, -⟩
    · exact heq.trans h404
    · rw [h404] at hzero
      cases hzero

end RequestParser

open RequestParser

/-- The read path is not entered behind a refused head with a
Content-Length. No CGI request without a location gets to the code that
reads the location: neither with a new builder, nor with the builder of
an earlier request, which has to have a location itself and has to refuse
such a request before the handler is made. -/
def RoutedFirst (e : Moment × Action) : Prop :=
  match e.2 with
  | .read => ∀ p ∈ e.1.client.parser, p.hasContentLength = true → ¬HeadRefused p
  | .dispatch p _ => p.goesToCgi = true →
      (e.1.builder = none → ¬Unrouted p)
        ∧ ∀ b ∈ e.1.builder, ¬Unrouted b.request
          ∧ (Unrouted p → ∀ l ∈ b.locationConfig, l.useCgi = true →
              ((b.initRoutes l).routes.get? p.httpMethod).isSome → l.cgiPath = [])
  | _ => True

/-- What can be read off the parsers: where all of them are routed, the
condition is met. -/
def AllRouted (e : Moment × Action) : Prop :=
  match e.2 with
  | .read => ∀ p ∈ e.1.client.parser, p.serverConfig.isSome
  | .dispatch p _ => (p.serverConfig.isSome ∧ p.errorCode ≠ 404)
      ∧ ∀ b ∈ e.1.builder, b.request.serverConfig.isSome ∧ b.request.errorCode ≠ 404
  | _ => True

instance decidableAllRouted : DecidablePred AllRouted
  | (m, .read) => inferInstanceAs (Decidable (∀ p ∈ m.client.parser, p.serverConfig.isSome = true))
  | (m, .dispatch p _) =>
      inferInstanceAs (Decidable ((p.serverConfig.isSome = true ∧ p.errorCode ≠ 404)
        ∧ ∀ b ∈ m.builder, b.request.serverConfig.isSome = true ∧ b.request.errorCode ≠ 404))
  | (_, .parsed _ _) | (_, .cgiRespond _ _) | (_, .send _) | (_, .sendDirect _)
  | (_, .close) => instDecidableTrue

theorem AllRouted.routedFirst {e : Moment × Action} (h : AllRouted e) : RoutedFirst e := by
  obtain ⟨m, action⟩ := e
  cases action with
  | read =>
      intro p hp _ hr
      have hcfg := h p hp
      rw [hr.serverConfig] at hcfg
      cases hcfg
  | dispatch p o =>
      obtain ⟨⟨hcfg, herr⟩, hbuilder⟩ := h
      have hp := not_unrouted hcfg herr
      refine fun _ => ⟨fun _ => hp, fun b hb => ⟨?_, fun hu => absurd hu hp⟩⟩
      exact not_unrouted (hbuilder b hb).1 (hbuilder b hb).2
  | _ => trivial

/-- A run that is not broken off by a NULL configuration. -/
def ConfigRead {W : Type} (r : EStateM.Result Fault (Connection W) Unit) : Prop :=
  error? r ≠ some .nullServerConfig ∧ error? r ≠ some .nullLocationConfig

instance decidableConfigRead {W : Type} :
    DecidablePred (ConfigRead : EStateM.Result Fault (Connection W) Unit → Prop) := fun r =>
  inferInstanceAs
    (Decidable (error? r ≠ some .nullServerConfig ∧ error? r ≠ some .nullLocationConfig))

namespace Connection

variable {W : Type} {os : OS W}

/-- A builder answers a request that is formed, from its location. -/
def FormedBuilder (b : ResponseBuilder) : Prop :=
  Formed b.request ∧ b.locationConfig = b.request.locationConfig

theorem FormedBuilder.answered {b b' : ResponseBuilder} (h : FormedBuilder b)
    (h' : b.Answered b') : FormedBuilder b' := by
  have hformed := h.1.copy b'.request.headers b.request.requestLine
  refine ⟨?_, ?_⟩
  · rw [h'.request]
    exact hformed
  · rw [h'.locationConfig, h.2, h'.request]

/-- The parser and the requests of all builders are formed. -/
structure ConfigKept (c : Connection W) : Prop where
  parser : ParserHas Formed c
  builders : AllBuilders FormedBuilder c

theorem formedBuilder_create {c : Connection W} (h : ParserHas Formed c) (env : Env)
    {p : RequestParser} (hp : Completed c p) :
    FormedBuilder (ResponseBuilder.create os c.world env p) := by
  have hbuilt := ResponseBuilder.builtFrom_create os env c.world p
  refine ⟨?_, ?_⟩
  · rw [hbuilt.request]
    exact (h p hp.parser).copy (p.getHeaderValue (lit "cookie")).1.headers p.requestLine
  · rw [hbuilt.locationConfig, hbuilt.request]
    rfl

theorem ConfigKept.tick {c c' : Connection W} (h : ConfigKept c) (htick : Tick os c c') :
    ConfigKept c' where
  parser := h.parser.tick (fun _ _ _ hparse _ => routed_formed hparse _)
    (fun _ _ _ hp _ hstate _ hparse _ => hp.parseBody hstate hparse)
    (fun p hp => hp.copy p.headers p.setRequestLine.requestLine) htick
  builders := h.builders.tick (fun env _ hp => formedBuilder_create h.parser env hp)
    (fun _ _ hb hb' => hb.answered hb') htick

theorem configKept_accepted (garbage continueSent : Bool) (lastActivity : Int) (fd fd' : Nat)
    (serverConfigs : ServerGroup) (world : W) :
    ConfigKept (accepted garbage continueSent lastActivity fd fd' serverConfigs world) where
  parser := fun p hp => by cases hp
  builders := fun i b hb => by cases hb

/-- A request that is dispatched as the condition demands does not get to
a NULL location. -/
theorem ConfigKept.not_nullLocation {c : Connection W} (h : ConfigKept c) {p : RequestParser}
    (hp : c.client.parser = some p) {o : Outcome}
    (hcond : RoutedFirst (c.moment, .dispatch p o)) : ¬NullLocation c.moment p := by
  have hformed := h.parser p hp
  intro hnull
  cases hnull with
  | normal hcgi herr hl =>
      rcases hformed.unrouted hl with hr | h404
      · exact hr.errorCode herr
      · rw [herr] at h404
        cases h404
  | fresh hcgi hm hl => exact (hcond hcgi).1 hm (hformed.unrouted hl)
  | @reused hcgi b hm hl =>
      obtain ⟨hb, hlocation⟩ := builder?_mem h.builders hm
      exact ((hcond hcgi).2 b hm).1 (hb.unrouted (hlocation.symm.trans hl))
  | @root hcgi b l hm hb huse hroute hpath hl =>
      exact hpath (((hcond hcgi).2 b hm).2 (hformed.unrouted hl) l hb huse hroute)

end Connection

open Connection

/-- In every run that keeps unrouted requests from the code that reads
the configuration, no NULL configuration is gone through. -/
theorem config_read {W : Type} (os : OS W) (garbage continueSent : Bool) (lastActivity : Int)
    (fd fd' : Nat) (serverConfigs : ServerGroup) (world : W) (evs : List Event)
    (h : Meeting RoutedFirst
      (final (run os evs
        (accepted garbage continueSent lastActivity fd fd' serverConfigs world)))) :
    ConfigRead (run os evs
      (accepted garbage continueSent lastActivity fd fd' serverConfigs world)) := by
  have hkept : ConfigKept (final (run os evs
      (accepted garbage continueSent lastActivity fd fd' serverConfigs world))) :=
    run_invariant (fun _ _ hc htick _ => hc.tick htick)
      (configKept_accepted garbage continueSent lastActivity fd fd' serverConfigs world) evs h
  have hcause := ticks_run os evs fun _ => True
  generalize hr : run os evs
    (accepted garbage continueSent lastActivity fd fd' serverConfigs world) = r at h hkept ⊢
  cases r with
  | ok a c =>
      refine ⟨fun heq => ?_, fun heq => ?_⟩
      · cases heq
      · cases heq
  | error fault c =>
      have hcause := hcause.raised trivial hr
      refine ⟨fun heq => ?_, fun heq => ?_⟩
      · obtain rfl := Option.some.inj heq
        obtain ⟨hread, p, hp, hlength, hcfg⟩ := hcause
        exact h _ hread p hp hlength ((hkept.parser p hp).refused hcfg)
      · obtain rfl := Option.some.inj heq
        obtain ⟨p, hdispatch, hp, hnull⟩ := hcause
        exact hkept.not_nullLocation hp (h _ hdispatch) hnull

/-- A page, and a script in `/cgi`. -/
def routedEvents : List Event :=
  [reads { now := 0 } (lit "GET / HTTP/1.1\r\nHost: a\r\n\r\n"), writes { now := 0 } 1000,
    reads { now := 0 } (lit "GET /cgi/a.php HTTP/1.1\r\nHost: a\r\n\r\n")]

theorem config_read_routed :
    ConfigRead (run flatOs routedEvents (accepted false false 0 3 4 scriptServers ())) := by
  have hrouted : Meeting AllRouted (final (run flatOs routedEvents
      (accepted false false 0 3 4 scriptServers ()))) := by
    decide +kernel
  exact config_read flatOs false false 0 3 4 scriptServers () routedEvents
    fun e he => (hrouted e he).routedFirst

/-- A script is requested without a Host field. -/
def hostlessEvents : List Event := [reads { now := 0 } (lit "GET /a.php HTTP/1.1\r\n\r\n")]

/-- A body is announced without a Host field, and comes before the error
page is sent. -/
def hostlessBodyEvents : List Event :=
  [reads { now := 0 } (lit "POST / HTTP/1.1\r\nContent-Length: 5\r\n\r\n"),
    reads { now := 0 } (lit "hello")]

theorem not_config_read :
    ¬ConfigRead (run flatOs hostlessEvents (accepted false false 0 3 4 scriptServers ()))
      ∧ ¬ConfigRead
        (run flatOs hostlessBodyEvents (accepted false false 0 3 4 scriptServers ())) := by
  decide +kernel

end Webserv
