import Webserv.ConnectionRuns

/-!
# Who authorises a CGI process

`processCGIRequest` decides by the location of the builder it uses, and
it keeps a builder that is still alive from an earlier request. So a
process is started under the settings of the request's own location as
long as no builder with other settings is alive when a CGI request is
completed.
-/

namespace Webserv

open Bytes Program

/-- A process that is started runs under the location of its own request:
it uses CGI, lists the method, and names the interpreter. -/
def Authorised (e : Moment × Action) : Prop :=
  match e.2 with
  | .dispatch p (.started _ interpreter) => ∃ l ∈ p.locationConfig,
      l.useCgi = true ∧ p.httpMethod ∈ l.allowedMethods ∧ interpreter = l.cgiPath
  | _ => True

instance decidableAuthorised : DecidablePred Authorised
  | (_, .dispatch p (.started _ interpreter)) =>
      inferInstanceAs (Decidable (∃ l ∈ p.locationConfig,
        l.useCgi = true ∧ p.httpMethod ∈ l.allowedMethods ∧ interpreter = l.cgiPath))
  | (_, .dispatch _ (.answered _)) | (_, .dispatch _ .crashed) => instDecidableTrue
  | (_, .read) | (_, .parsed _ _) | (_, .cgiRespond _ _) | (_, .send _)
  | (_, .sendDirect _) | (_, .close) => instDecidableTrue

/-- The settings `processCGIRequest` reads from a location. -/
def cgiSettings (location : Option Location) : Option (Bool × List Bytes × Bytes) :=
  location.map fun l => (l.useCgi, l.allowedMethods, l.cgiPath)

/-- A builder that is alive when a CGI request is completed has the CGI
settings of that request's location. -/
def OwnSettings (e : Moment × Action) : Prop :=
  match e.2 with
  | .dispatch p _ => p.goesToCgi = true → ∀ b ∈ e.1.builder,
      cgiSettings b.locationConfig = cgiSettings p.locationConfig
  | _ => True

instance decidableOwnSettings : DecidablePred OwnSettings
  | (m, .dispatch p _) =>
      if hcgi : p.goesToCgi = true then
        decidable_of_iff
          (∀ b ∈ m.builder, cgiSettings b.locationConfig = cgiSettings p.locationConfig)
          ⟨fun h _ => h, fun h => h hcgi⟩
      else isTrue fun h => absurd h hcgi
  | (_, .read) | (_, .parsed _ _) | (_, .cgiRespond _ _) | (_, .send _)
  | (_, .sendDirect _) | (_, .close) => instDecidableTrue

/-- The routes of a builder are methods its location allows. -/
def RoutesAllowed (b : ResponseBuilder) : Prop :=
  ∀ method, (b.routes.get? method).isSome →
    ∃ l, b.locationConfig = some l ∧ method ∈ l.allowedMethods

theorem RoutesAllowed.answered {b b' : ResponseBuilder} (h : RoutesAllowed b)
    (h' : b.Answered b') : RoutesAllowed b' := by
  intro method hm
  rw [h'.locationConfig]
  rcases h'.routes method hm with hget | hl
  · exact h method hget
  · exact hl

theorem cgiSettings_some {location : Option Location} {l : Location}
    (h : cgiSettings (some l) = cgiSettings location) :
    ∃ l', location = some l' ∧ l'.useCgi = l.useCgi
      ∧ l'.allowedMethods = l.allowedMethods ∧ l'.cgiPath = l.cgiPath := by
  cases location with
  | none => cases h
  | some l' =>
      simp only [cgiSettings, Option.map_some, Option.some.injEq, Prod.mk.injEq] at h
      exact ⟨l', rfl, h.1.symm, h.2.1.symm, h.2.2.symm⟩

namespace Connection

variable {W : Type} {os : OS W}

structure AuthorisationKept (c : Connection W) : Prop where
  routes : AllBuilders RoutesAllowed c
  authorised : Meeting Authorised c

/-- The location that decides over a CGI request lets its process start
only when the request's own does. -/
theorem authorised_start {env : Env} {c c' : Connection W} {p : RequestParser} {i : Nat}
    {b : ResponseBuilder} {l : Location} (hr : AllBuilders RoutesAllowed c)
    (hb : CgiBuilder os env c p c' i b l)
    (hown : ∀ b ∈ c.builder?, cgiSettings b.locationConfig = cgiSettings p.locationConfig)
    (huse : l.useCgi = true) (hroute : ((b.initRoutes l).routes.get? p.httpMethod).isSome) :
    ∃ l' ∈ p.locationConfig, l'.useCgi = true
      ∧ p.httpMethod ∈ l'.allowedMethods ∧ l.cgiPath = l'.cgiPath := by
  have hlocation := hb.location
  rcases ensureBuilder_cases hb.used hb.live with ⟨rfl, -, hfound⟩ | ⟨-, -, hnew, -⟩
  · have hsettings := hown b hfound
    rw [hlocation] at hsettings
    obtain ⟨l', hl', huse', hallowed, hpath⟩ := cgiSettings_some hsettings
    refine ⟨l', hl', huse'.trans huse, ?_, hpath.symm⟩
    rw [hallowed]
    rcases ResponseBuilder.initRoutes_get? hroute with hget | hmem
    · obtain ⟨l₀, hl₀, hmem⟩ := builder?_mem hr hfound p.httpMethod hget
      obtain rfl := Option.some.inj (hlocation.symm.trans hl₀)
      exact hmem
    · exact hmem
  · have hbuilt := ResponseBuilder.builtFrom_create os env c.world p
    rw [← hnew] at hbuilt
    refine ⟨l, hbuilt.locationConfig.symm.trans hlocation, huse, ?_, rfl⟩
    rcases ResponseBuilder.initRoutes_get? hroute with hget | hmem
    · rw [hbuilt.routes] at hget
      cases hget
    · exact hmem

theorem AuthorisationKept.tick {c c' : Connection W} (h : AuthorisationKept c)
    (htick : Tick os c c') (hcond : Meeting OwnSettings c') : AuthorisationKept c' := by
  refine ⟨h.routes.tick ?_ (fun _ _ hb hb' => hb.answered hb') htick, ?_⟩
  · intro env p _ method hm
    rw [(ResponseBuilder.builtFrom_create os env c.world p).routes] at hm
    cases hm
  refine h.authorised.extend htick fun e he => ?_
  unfold Authorised
  split
  · rename_i p handler interpreter ho
    obtain ⟨m, action⟩ := e
    simp only at ho
    subst ho
    obtain ⟨rfl, -, hstarted⟩ := htick.action he
    obtain ⟨hcgi, env, c₁, i, b, l, hb, huse, hroute, rfl⟩ := hstarted handler interpreter rfl
    exact authorised_start h.routes hb (hcond.last he hcgi) huse hroute
  · trivial

theorem authorisationKept_accepted (garbage continueSent : Bool) (lastActivity : Int)
    (fd fd' : Nat) (serverConfigs : ServerGroup) (world : W) : AuthorisationKept
      (accepted garbage continueSent lastActivity fd fd' serverConfigs world) where
  routes := fun i b hb => by cases hb
  authorised := fun e he => by cases he

end Connection

open Connection

/-- In every run in which no builder with other CGI settings is alive when
a CGI request is completed, every process that is started is authorised
by the location of its own request. -/
theorem cgi_authorised {W : Type} (os : OS W) (garbage continueSent : Bool) (lastActivity : Int)
    (fd fd' : Nat) (serverConfigs : ServerGroup) (world : W) (evs : List Event)
    (h : Meeting OwnSettings
      (final (run os evs
        (accepted garbage continueSent lastActivity fd fd' serverConfigs world)))) :
    Meeting Authorised
      (final (run os evs
        (accepted garbage continueSent lastActivity fd fd' serverConfigs world))) :=
  (run_invariant (fun _ _ hc htick hcond => hc.tick htick hcond)
    (authorisationKept_accepted garbage continueSent lastActivity fd fd' serverConfigs world)
    evs h).authorised

/-- Two requests in `/cgi`, the second of which is for a script. -/
def sameLocationEvents : List Event :=
  [reads { now := 0 } (lit "GET /cgi HTTP/1.1\r\nHost: a\r\n\r\n"),
    reads { now := 0 } (lit "GET /cgi/a.php HTTP/1.1\r\nHost: a\r\n\r\n")]

theorem cgi_authorised_same :
    Meeting Authorised
      (final (run flatOs sameLocationEvents (accepted false false 0 3 4 scriptServers ()))) :=
  cgi_authorised flatOs false false 0 3 4 scriptServers () sameLocationEvents (by decide +kernel)

/-- A script outside of `/cgi` is requested before the response to a
request in `/cgi` is sent. -/
def borrowedEvents : List Event :=
  [reads { now := 0 } (lit "GET /cgi HTTP/1.1\r\nHost: a\r\n\r\n"),
    reads { now := 0 } (lit "GET /a.php HTTP/1.1\r\nHost: a\r\n\r\n")]

theorem not_cgi_authorised :
    ¬∀ (W : Type) (os : OS W) (garbage continueSent : Bool) (lastActivity : Int)
      (fd fd' : Nat) (serverConfigs : ServerGroup) (world : W) (evs : List Event),
      Meeting Authorised
        (final (run os evs
          (accepted garbage continueSent lastActivity fd fd' serverConfigs world))) := by
  intro h
  have hauthorised := h Unit flatOs false false 0 3 4 scriptServers () borrowedEvents
  revert hauthorised
  decide +kernel

end Webserv
