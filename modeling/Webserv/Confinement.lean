import Webserv.EventLoop
import Webserv.FileAccess
import Webserv.LocationMatch
import Webserv.NullConfig
import Webserv.RequestUri
import Webserv.ScriptSource
import Webserv.ServerConversations

/-!
# Confinement

The paths a server opens are fixed by its configuration: the error pages,
what is below the roots of its locations, and the files of their upload
directories. A run of the server is the same on two systems that agree on
these paths (`confined_run`), so whatever the clients send, it neither
depends on nor changes any other file. The one way out of a root is the
directory above it, which a target `/..?` names.
-/

namespace Webserv

open Bytes Program Relation RequestParser

/-! ## Stored URIs -/

/-- What `set_request_uri` stores: a path that stays below the root, but
for the directory above it. -/
structure StoredUri (uri : Bytes) : Prop where
  rooted : uri.head? = some slash
  inside : uri = lit "/.." ∨ staysInside 0 (uri.splitOn slash) = true

theorem staysInside_ordinary {segment : Bytes} (h : Ordinary segment) (depth : Nat)
    (segments : List Bytes) :
    staysInside depth (segment :: segments) = staysInside (depth + 1) segments := by
  have hskip : ¬(segment = [] ∨ segment = lit ".") := fun h' => h'.elim h.nonempty h.notDot
  simp only [staysInside, if_neg hskip, if_neg h.notDotDot]

theorem staysInside_last (segment : Bytes) (depth : Nat) :
    segment = lit ".." ∧ depth = 0 ∨ staysInside depth [segment] = true := by
  by_cases hskip : segment = [] ∨ segment = lit "."
  · exact Or.inr (by simp only [staysInside, if_pos hskip])
  by_cases hup : segment = lit ".."
  · cases depth with
    | zero => exact Or.inl ⟨hup, rfl⟩
    | succ depth => exact Or.inr (by simp only [staysInside, if_neg hskip, if_pos hup])
  · exact Or.inr (by simp only [staysInside, if_neg hskip, if_neg hup])

/-- The cut at the query can leave a dot segment, at the end only. -/
theorem staysInside_stored (hasTrailingSlash : Bool) : ∀ {parts : List Bytes} (depth : Nat),
    (∀ part ∈ parts, Ordinary part) →
    storedSegments hasTrailingSlash parts = [lit ".."] ∧ depth = 0
      ∨ staysInside depth (storedSegments hasTrailingSlash parts) = true
  | [], _, _ => Or.inr rfl
  | [part], depth, h => by
      rw [storedSegments]
      split
      · rcases staysInside_last (beforeQuery part) depth with ⟨hup, hdepth⟩ | hstays
        · exact Or.inl ⟨by rw [hup], hdepth⟩
        · exact Or.inr hstays
      · right
        rw [staysInside_ordinary (h part List.mem_cons_self)]
        cases hasTrailingSlash with
        | false => rfl
        | true => rfl
  | part :: part' :: parts, depth, h => by
      rw [storedSegments]
      · split
        · rcases staysInside_last (beforeQuery part) depth with ⟨hup, hdepth⟩ | hstays
          · exact Or.inl ⟨by rw [hup], hdepth⟩
          · exact Or.inr hstays
        · right
          rw [staysInside_ordinary (h part List.mem_cons_self)]
          rcases staysInside_stored hasTrailingSlash (depth + 1)
            (fun p hp => h p (List.mem_cons_of_mem _ hp)) with ⟨-, hzero⟩ | hstays
          · cases hzero
          · exact hstays

theorem storedUri_of_accepted {target joined : Bytes} (h : TargetAccepted target joined) :
    StoredUri (joined.takeWhile (· != question)) := by
  obtain ⟨hasTrailingSlash, hsplit⟩ := splitOn_requestUri h
  refine ⟨h.rooted, ?_⟩
  rcases staysInside_stored hasTrailingSlash 0 (survivingSegments_ordinary target) with
    ⟨hup, -⟩ | hstays
  · left
    have hjoin : [slash].intercalate ((joined.takeWhile (· != question)).splitOn slash)
        = joined.takeWhile (· != question) := List.intercalate_splitOn slash
    rw [← hjoin, hsplit, hup]
    rfl
  · right
    rw [hsplit]
    simpa only [staysInside, true_or, if_true] using hstays

namespace RequestParser

theorem requestUri_logError (p : RequestParser) (code : Nat) :
    (p.logError code).requestUri = p.requestUri := by
  unfold logError
  split
  · rfl
  · rfl

/-- The body does not touch the URI. -/
theorem requestUri_parseBody (p : RequestParser) (rest : Bytes) :
    (p.parseBody rest).1.requestUri = p.requestUri := by
  simp only [parseBody]
  split
  · split
    · have hrounds := chunkRounds (I := fun q => q.requestUri = p.requestUri)
        (Q := fun q => q.requestUri = p.requestUri) (fun q hq => hq)
        (fun q hq => (requestUri_logError q 400).trans hq) (fun q hq => hq)
        (fun q rest hq => hq) (fun q size read reading hq => hq)
      exact hrounds.total rfl
    · exact requestUri_logError _ 501
  split
  · simp only [parseContentLengthBody]
    split
    · exact requestUri_logError _ 400
    · simp only [readBody]
      split
      · rfl
      · rfl
  · rfl

/-- No error, and a URI that is stored or still to come. -/
structure RunsStored (p : RequestParser) : Prop where
  running : Running p
  uri : p.requestUri = [] ∨ StoredUri p.requestUri

theorem headRule_stored : HeadRule RunsStored fun p => Failed p ∨ RunsStored p where
  zero _ hq := hq.running.1
  wait _ hq := .inr hq
  error _ _ hq hcode := .inl (failed_logError hq hcode)
  field _ _ _ hq := ⟨hq.running, hq.uri⟩
  ended _ state hstate hq := by
    rcases hstate with rfl | rfl
    · exact ⟨⟨hq.running.1, ParseState.noConfusion⟩, hq.uri⟩
    · exact ⟨⟨hq.running.1, ParseState.noConfusion⟩, hq.uri⟩

theorem runsStored_parseRequestLine {p : RequestParser} (h : RunsStored p) (rest : Bytes) :
    Failed (p.parseRequestLine rest).1 ∨ RunsStored (p.parseRequestLine rest).1 := by
  rcases parseRequestLine_cases h.running.1 rest with
    ⟨-, method, heq⟩ | ⟨-, q, code, hq, hcode, heq⟩ | ⟨-, method, target, joined, -, -, hacc, heq⟩
  · rw [heq]
    exact .inr ⟨h.running, h.uri⟩
  · rw [heq]
    exact .inl (failed_logError hq hcode)
  · rw [heq]
    exact .inr ⟨⟨h.running.1, ParseState.noConfusion⟩, .inr (storedUri_of_accepted hacc)⟩

/-- The URI of a new head without an error. -/
theorem storedUri_parseRequest {request rest : Bytes} {p : RequestParser} (hne : request ≠ [])
    (hparse : ({} : RequestParser).parseRequest request = some (.returned p rest))
    (herr : p.errorCode = 0) : StoredUri p.requestUri := by
  have hbody (q : RequestParser) (rest : Bytes) (hq : RunsStored q) :
      Failed (q.parseBody rest).1 ∨ RunsStored (q.parseBody rest).1 := by
    rcases settled_parseBody hq.running rest with hrunning | hfailed
    · refine .inr ⟨hrunning, ?_⟩
      rw [requestUri_parseBody]
      exact hq.uri
    · exact .inl hfailed
  have hrounds := requestRounds (fun q hq => headRule_stored.wait q hq)
    (fun q hq hstate => hq.resolve_left fun hfailed => hstate hfailed.state)
    (fun q rest hq => runsStored_parseRequestLine hq rest)
    (fun q rest q' rest' hq hexit => headRule_stored.returned hq hexit) hbody
  have hstart : RunsStored {} := ⟨running_fresh, .inl rfl⟩
  rcases parseRequest_rounds hrounds hbody hstart hparse with hfailed | hstored
  · exact absurd herr hfailed.error
  · refine hstored.uri.resolve_left fun hnil => ?_
    rcases rootedUri_parseRequest hne hparse with hrooted | ⟨hne', -⟩
    · have huri := hrooted.uri
      rw [hnil] at huri
      cases huri
    · exact hne' herr

end RequestParser

/-! ## The configuration -/

/-- The paths a configuration opens. -/
inductive Opened (config : List ServerConfig) : Bytes → Prop where
  | errorPage {cfg : ServerConfig} (hcfg : cfg ∈ config) {code : Int} {path : Bytes}
      (hpage : cfg.errorPages.get? code = some path) : Opened config path
  | target {cfg : ServerConfig} (hcfg : cfg ∈ config) {l : Location} (hl : l ∈ cfg.locations)
      {uri : Bytes} (huri : StoredUri uri) : Opened config (l.root ++ uri)
  | index {cfg : ServerConfig} (hcfg : cfg ∈ config) {l : Location} (hl : l ∈ cfg.locations)
      {uri : Bytes} (huri : StoredUri uri) : Opened config (l.root ++ uri ++ l.index)
  | entry {cfg : ServerConfig} (hcfg : cfg ∈ config) {l : Location} (hl : l ∈ cfg.locations)
      {uri : Bytes} (huri : StoredUri uri) {name : Bytes} (hname : slash ∉ name)
      (hdots : name ∉ [lit ".", lit ".."]) : Opened config (l.root ++ uri ++ slash :: name)
  | store {cfg : ServerConfig} (hcfg : cfg ∈ config) {l : Location} (hl : l ∈ cfg.locations) :
      Opened config l.uploadStore
  | upload {cfg : ServerConfig} (hcfg : cfg ∈ config) {l : Location} (hl : l ∈ cfg.locations)
      {path : Bytes} (hpath : ResponseBuilder.DirectChild l.uploadStore path) :
      Opened config path

variable {config : List ServerConfig}

/-- The servers named are those of the configuration. -/
def Configured (config : List ServerConfig) (server : Option ServerConfig) : Prop :=
  ∀ cfg, server = some cfg → cfg ∈ config

theorem Configured.pagesIn {server : Option ServerConfig} (h : Configured config server) :
    PagesIn (Opened config) server :=
  fun cfg hcfg _ _ hpage => .errorPage (h cfg hcfg) hpage

namespace RequestParser

/-- The server and the location of a request are configured, and its URI
is a stored one. -/
structure Confined (config : List ServerConfig) (p : RequestParser) : Prop where
  server : Configured config p.serverConfig
  location : ∀ l, p.locationConfig = some l → (∃ cfg ∈ config, l ∈ cfg.locations)
    ∧ StoredUri p.requestUri

variable {p : RequestParser}

theorem Confined.opensIn (h : Confined config p) {l : Location} (hl : p.locationConfig = some l) :
    l.OpensIn (Opened config) p.requestUri := by
  obtain ⟨⟨cfg, hcfg, hmem⟩, huri⟩ := h.location l hl
  exact ⟨.target hcfg hmem huri, .index hcfg hmem huri, fun _ => .entry hcfg hmem huri,
    .store hcfg hmem, fun _ => .upload hcfg hmem⟩

theorem Confined.setRequestLine (h : Confined config p) : Confined config p.setRequestLine :=
  ⟨h.server, h.location⟩

theorem selectLocation_mem {uri : Bytes} : ∀ {locations : List Location} {bestLength : Nat}
    {best : Option Location} {l : Location},
    selectLocation uri bestLength best locations = some l → l ∈ locations ∨ best = some l
  | [], _, _, _, h => Or.inr h
  | l' :: locations, bestLength, best, l, h => by
      simp only [selectLocation] at h
      split at h
      · exact Or.inl (Option.some.inj h ▸ List.mem_cons_self)
      split at h
      · rcases selectLocation_mem h with hmem | heq
        · exact Or.inl (List.mem_cons_of_mem _ hmem)
        · exact Or.inl (Option.some.inj heq ▸ List.mem_cons_self)
      · exact (selectLocation_mem h).imp_left (List.mem_cons_of_mem _)

/-- Routing a new head. -/
theorem routed_confined {servers : ServerGroup} (hservers : ∀ cfg ∈ servers.toList, cfg ∈ config)
    {request rest : Bytes} (hne : request ≠ [])
    (hparse : ({} : RequestParser).parseRequest request = some (.returned p rest)) :
    Confined config (Connection.routed servers p) := by
  have hkept := kept_parseRequest hparse
  have hserver : p.serverConfig = none := hkept.serverConfig
  have hlocation : p.locationConfig = none := hkept.locationConfig
  unfold Connection.routed
  split
  · rename_i herr
    have hmem := hservers _ (selectServer_spec servers (hostName p)).1
    have huri := storedUri_parseRequest hne hparse herr
    rw [matchLocation_eq hlocation servers]
    generalize selectServer servers (hostName p) = server at hmem
    cases hfound : selectLocation p.requestUri 0 none server.locations with
    | some l =>
        refine ⟨fun cfg hcfg => Option.some.inj hcfg ▸ hmem, fun l' hl' => ?_⟩
        obtain rfl : l = l' := Option.some.inj hl'
        refine ⟨⟨server, hmem, ?_⟩, huri⟩
        exact (selectLocation_mem hfound).resolve_right fun hnone => by cases hnone
    | none =>
        obtain ⟨hnone, hsome⟩ := logError_locationConfig { p with serverConfig := some server } 404
        refine ⟨fun cfg hcfg => ?_, fun l hl => ?_⟩
        · rw [hsome] at hcfg
          exact Option.some.inj hcfg ▸ hmem
        · rw [hnone, show ({ p with serverConfig := some server } : RequestParser).locationConfig
            = none from hlocation] at hl
          cases hl
  · refine ⟨fun cfg hcfg => ?_, fun l hl => ?_⟩
    · rw [hserver] at hcfg
      cases hcfg
    · rw [hlocation] at hl
      cases hl

/-- A part of the body. -/
theorem Confined.parseBody {p' : RequestParser} (h : Confined config p) (hstate : p.state = .body)
    {request rest : Bytes} (hparse : p.parseRequest request = some (.returned p' rest)) :
    Confined config p' := by
  have hkept := kept_parseRequest hparse
  have huri : p'.requestUri = p.requestUri := by
    have hbody : p.parseRequest request
        = some (.returned (p.parseBody request).1 (p.parseBody request).2) := if_pos hstate
    have heq := Option.some.inj (hbody.symm.trans hparse)
    rw [ParseExit.returned.injEq] at heq
    rw [← heq.1]
    exact requestUri_parseBody p request
  refine ⟨hkept.serverConfig ▸ h.server, ?_⟩
  rw [hkept.locationConfig, huri]
  exact h.location

end RequestParser

/-! ## Connections -/

namespace Connection

open ResponseBuilder

variable {W : Type} {os os' : OS W}

/-- Routing uses the servers of the connection. -/
theorem Tick.serverConfigs {c c' : Connection W} (htick : Tick os c c') :
    c'.client.serverConfigs = c.client.serverConfigs := by
  cases htick with
  | terminate =>
      unfold terminated
      split
      · rfl
      · rfl
  | refuse env hp hcgi hb hb' hc' =>
      obtain ⟨pending, -, hclient⟩ := hb.dropped_client hc'
      simp only [errorAnswer, hclient]
  | start env hp hcgi hb => simp only [handlerStarted, hb.client]
  | timeout =>
      unfold cgiTimedOut
      rfl
  | complete =>
      unfold cgiCompleted
      rfl
  | _ => rfl

/-- The servers, the parser and the builders of a connection are those of
the configuration. -/
structure Confined (config : List ServerConfig) (c : Connection W) : Prop where
  servers : ∀ cfg ∈ c.client.serverConfigs.toList, cfg ∈ config
  parser : ParserHas (RequestParser.Confined config) c
  builders : AllBuilders (fun b => Configured config b.serverConfig) c

theorem ne_nil_of_find {pat s : Bytes} (hpat : pat ≠ []) (h : (find pat s).isSome) : s ≠ [] := by
  rintro rfl
  obtain ⟨k, hk⟩ := Option.isSome_iff_exists.mp h
  have hle := find_le hk
  have hpos := List.length_pos_iff.mpr hpat
  rw [List.length_nil] at hle
  omega

theorem Confined.tick {c c' : Connection W} (h : Confined config c) (htick : Tick os c c') :
    Confined config c' where
  servers := htick.serverConfigs ▸ h.servers
  parser := h.parser.tick
    (fun _ _ hhead hparse _ => routed_confined h.servers (ne_nil_of_find (by decide) hhead) hparse)
    (fun _ _ _ hp _ hstate _ hparse _ => hp.parseBody hstate hparse)
    (fun _ hp => hp.setRequestLine) htick
  builders := h.builders.tick
    (fun env p hp => by
      rw [(builtFrom_create os env c.world p).serverConfig]
      exact (h.parser p hp.parser).server)
    (fun _ _ hb hb' => by
      rw [hb'.serverConfig]
      exact hb) htick

theorem Confined.reaches {c c' : Connection W} (h : Confined config c)
    (hreaches : ReflTransGen (Tick os) c c') : Confined config c' :=
  invariant_of_reaches (fun _ _ h htick => h.tick htick) hreaches h

/-! ## Methods on two systems -/

section Methods

variable {p : RequestParser} {c : Connection W}

theorem processNormalRequest_agree (h : os.Agree (Opened config) os') (hnames : os.PlainNames)
    (env : Env) (hp : p.Confined config) (c : Connection W) :
    processNormalRequest os env p c = processNormalRequest os' env p c := by
  have hcreate := create_agree h env c.world hp.server.pagesIn
  have hbuilt := builtFrom_create os' env c.world p
  have hbuild : (create os' c.world env p).buildResponse os env c.world
      = (create os' c.world env p).buildResponse os' env c.world := by
    refine buildResponse_agree h hnames env c.world ?_ fun l hl => ?_
    · rw [hbuilt.serverConfig]
      exact hp.server.pagesIn
    · rw [hbuilt.locationConfig] at hl
      rw [hbuilt.request]
      exact hp.opensIn hl
  show (processNormalRequest os env p).run c = (processNormalRequest os' env p).run c
  simp only [processNormalRequest, EStateM.run_bind, EStateM.run_get, hcreate, hbuild]

theorem errorAnswer_agree (h : os.Agree (Opened config) os') (env : Env) (m : Moment)
    (p : RequestParser) (c : Connection W) (i : Nat) {b : ResponseBuilder}
    (hb : Configured config b.serverConfig) (statusCode : Int) :
    errorAnswer os env m p c i b statusCode = errorAnswer os' env m p c i b statusCode := by
  simp only [errorAnswer, errorResponse, setErrorPage_agree h c.world hb.pagesIn]

theorem startHandler_agree (h : os.Agree (Opened config) os') (env : Env) (m : Moment)
    (hp : p.Confined config) (c : Connection W) (i : Nat) {b : ResponseBuilder}
    (hb : Configured config b.serverConfig) (cgiPath : Bytes) :
    startHandler os env m p c i b cgiPath = startHandler os' env m p c i b cgiPath := by
  have hcreate := CgiHandler.create_agree h env c.world (fun l hl => hp.opensIn hl) cgiPath i
  simp only [startHandler, hcreate, errorAnswer_agree h env m p _ i hb]

theorem processCgiRequest_agree (h : os.Agree (Opened config) os') (env : Env)
    (hp : p.Confined config) (hc : AllBuilders (fun b => Configured config b.serverConfig) c) :
    processCgiRequest os env p c = processCgiRequest os' env p c := by
  have hcreate := create_agree h env c.world hp.server.pagesIn
  have hensure : ensureBuilder os env c p = ensureBuilder os' env c p := by
    simp only [ensureBuilder, hcreate]
  show (processCgiRequest os env p).run c = (processCgiRequest os' env p).run c
  simp only [processCgiRequest, EStateM.run_bind, EStateM.run_get, hensure]
  cases hused : ensureBuilder os' env c p with
  | mk c' i =>
  simp only
  cases hb : c'.builders.get? i with
  | none => rfl
  | some b =>
  have hserver : Configured config b.serverConfig := by
    rcases ensureBuilder_cases hused hb with ⟨rfl, -⟩ | ⟨-, -, rfl, -⟩
    · exact hc i b hb
    · rw [(builtFrom_create os' env c.world p).serverConfig]
      exact hp.server
  simp only
  cases hl : b.locationConfig with
  | none => rfl
  | some l =>
      have hroutes : Configured config (b.initRoutes l).serverConfig := hserver
      simp only [errorAnswer_agree h env _ p c' i hserver,
        errorAnswer_agree h env _ p c' i hroutes, startHandler_agree h env _ hp c' i hroutes]

theorem processCompletedRequest_agree (h : os.Agree (Opened config) os') (hnames : os.PlainNames)
    (env : Env) (hc : Confined config c) :
    processCompletedRequest os env c = processCompletedRequest os' env c := by
  cases hp : c.client.parser with
  | none =>
      show (processCompletedRequest os env).run c = (processCompletedRequest os' env).run c
      simp only [processCompletedRequest, EStateM.run_bind, EStateM.run_get, hp]
  | some p =>
      have hp' := (hc.parser p hp).setRequestLine
      rw [processCompletedRequest_eq os env hp, processCompletedRequest_eq os' env hp]
      split
      · exact processCgiRequest_agree h env hp' hc.builders
      · exact processNormalRequest_agree h hnames env hp' _

/-- The error page of a new builder. -/
theorem createdError_agree (h : os.Agree (Opened config) os') (env : Env) (w : W)
    (hp : p.Confined config) (code : Int) :
    errorResponse os env w (create os w env p) code
      = errorResponse os' env w (create os' w env p) code := by
  have hpages : PagesIn (Opened config) (create os' w env p).serverConfig := by
    rw [(builtFrom_create os' env w p).serverConfig]
    exact hp.server.pagesIn
  simp only [errorResponse, create_agree h env w hp.server.pagesIn, setErrorPage_agree h w hpages]

/-! ## Reading on two systems -/

theorem parser_of_bodyTooLarge {client : ClientServer}
    (h : bodyTooLarge client = .ok (some p)) : client.parser = some p := by
  unfold bodyTooLarge at h
  cases hp : client.parser with
  | none =>
      rw [hp] at h
      cases h
  | some q =>
      rw [hp] at h
      simp only at h
      split at h
      · cases hcfg : q.serverConfig with
        | none =>
            rw [hcfg] at h
            cases h
        | some cfg =>
            rw [hcfg] at h
            simp only [Except.ok.injEq] at h
            split at h
            · exact h
            · cases h
      · cases h

theorem readIncomingData_agree (h : os.Agree (Opened config) os') (env : Env)
    (data : Option Segment) (hc : Confined config c) :
    readIncomingData os env data c = readIncomingData os' env data c := by
  show (readIncomingData os env data).run c = (readIncomingData os' env data).run c
  simp only [readIncomingData, EStateM.run_bind, EStateM.run_get, EStateM.run_set]
  cases hlarge : bodyTooLarge c.client with
  | error fault => rfl
  | ok large =>
      cases large with
      | none => rfl
      | some p =>
          have hp := hc.parser p (parser_of_bodyTooLarge hlarge)
          simp only [sendTooLarge, tooLargeResponse, EStateM.run_bind, EStateM.run_get,
            createdError_agree h env _ hp]

theorem isParsingRequestBody_agree (h : os.Agree (Opened config) os') (hnames : os.PlainNames)
    (env : Env) (hc : Confined config c) :
    isParsingRequestBody os env c = isParsingRequestBody os' env c := by
  show (isParsingRequestBody os env).run c = (isParsingRequestBody os' env).run c
  simp only [isParsingRequestBody, EStateM.run_bind, EStateM.run_get]
  cases hp : c.client.parser with
  | none => rfl
  | some p =>
      simp only
      split
      · rfl
      rename_i hbody
      have hstate : p.state = .body := by
        by_contra hne
        exact hbody (Or.inl hne)
      simp only [parseRequestBody, EStateM.run_bind, EStateM.run_get]
      cases hparse : p.parseRequest c.client.requestBuffer with
      | none => rfl
      | some r =>
          cases r with
          | threw => rfl
          | returned p' rest =>
              have hparsed : Confined config (c.parsed p p' rest) := by
                refine ⟨hc.servers, fun q hq => ?_, hc.builders⟩
                obtain rfl := Option.some.inj hq
                exact (hc.parser p hp).parseBody hstate hparse
              have hcompleted : (processCompletedRequest os env).run (c.parsed p p' rest)
                  = (processCompletedRequest os' env).run (c.parsed p p' rest) :=
                processCompletedRequest_agree h hnames env hparsed
              simp only [EStateM.run_bind, EStateM.run_set]
              split
              · simp only [EStateM.run_bind, hcompleted]
              · rfl

theorem processRequestHeaders_agree (h : os.Agree (Opened config) os') (hnames : os.PlainNames)
    (env : Env) (hc : Confined config c) :
    processRequestHeaders os env c = processRequestHeaders os' env c := by
  show (processRequestHeaders os env).run c = (processRequestHeaders os' env).run c
  simp only [processRequestHeaders, EStateM.run_bind, EStateM.run_get]
  split
  · rfl
  rename_i hhead
  have hne : c.client.requestBuffer ≠ [] :=
    ne_nil_of_find (show doubleCrlf ≠ [] by decide)
      (by simpa [Option.isSome_iff_ne_none] using hhead)
  cases hparse : ({} : RequestParser).parseRequest c.client.requestBuffer with
  | none => rfl
  | some r =>
      cases r with
      | threw => rfl
      | returned p rest =>
          have hparsed : Confined config
              (c.parsed {} (routed c.client.serverConfigs p) rest) := by
            refine ⟨hc.servers, fun q hq => ?_, hc.builders⟩
            obtain rfl := Option.some.inj hq
            exact routed_confined hc.servers hne hparse
          simp only [EStateM.run_bind, EStateM.run_set]
          split
          · rfl
          · exact processCompletedRequest_agree h hnames env hparsed

/-- A read: each part of it begins in a confined state. -/
theorem handleIncomingData_agree (h : os.Agree (Opened config) os') (hnames : os.PlainNames)
    (env : Env) (data : Option Segment) (hstarted : c.client.isStarted = true)
    (hc : Confined config c) :
    handleIncomingData os env data c = handleIncomingData os' env data c := by
  unfold handleIncomingData
  refine bind_congr (readIncomingData_agree h env data hc) fun ok c₁ hread => ?_
  have hticks₁ : Ticks os (· = c) (readIncomingData os env data)
      fun ok c => ok = true → ReadOk c := ticks_readIncomingData env data fun s hs => hs ▸ hstarted
  obtain ⟨hreach₁, hok⟩ := hticks₁.ok rfl hread
  have hc₁ := hc.reaches hreach₁
  cases ok with
  | false => simp only [Bool.false_eq_true, if_false]
  | true =>
      simp only [if_true]
      refine bind_congr rfl fun _ c₂ hexpect => ?_
      have hticks₂ : Ticks os (· = c₁) handleExpectContinue fun _ c => ReadOk c :=
        ticks_handleExpectContinue fun s hs => hs ▸ hok rfl
      obtain ⟨hreach₂, hok₂⟩ := hticks₂.ok rfl hexpect
      have hc₂ := hc₁.reaches hreach₂
      refine bind_congr (isParsingRequestBody_agree h hnames env hc₂) fun parsing c₃ hparsing => ?_
      have hticks₃ : Ticks os (· = c₂) (isParsingRequestBody os env)
          fun parsing c => parsing = false → BodyHeld c :=
        ticks_isParsingRequestBody env fun s hs => hs ▸ hok₂
      obtain ⟨hreach₃, -⟩ := hticks₃.ok rfl hparsing
      cases parsing with
      | false =>
          simp only [Bool.false_eq_true, if_false]
          exact processRequestHeaders_agree h hnames env (hc₂.reaches hreach₃)
      | true => simp only [if_true]

/-! ## Events on two systems -/

theorem checkCgiProgress_agree (h : os.Agree (Opened config) os') (env : Env)
    (hc : Confined config c) : checkCgiProgress os env c = checkCgiProgress os' env c := by
  show (checkCgiProgress os env).run c = (checkCgiProgress os' env).run c
  simp only [checkCgiProgress, EStateM.run_bind, EStateM.run_get]
  split
  · rename_i k hwaiting hpending
    cases hlive : c.handlers.get? k with
    | none => rfl
    | some handler =>
        simp only
        split
        · cases hp : c.client.parser with
          | none => rfl
          | some p => simp only [cgiTimedOut, createdError_agree h env _ (hc.parser p hp)]
        · rfl
  · rfl

theorem onEvent_agree (h : os.Agree (Opened config) os') (hnames : os.PlainNames) (env : Env)
    (input : Option (Option Segment)) (output : Option Sent) (hstarted : c.client.isStarted = true)
    (hc : Confined config c) : onEvent os env input output c = onEvent os' env input output c := by
  have houtput {c' : Connection W} (hc' : Confined config c') :
      onOutput os env output c' = onOutput os' env output c' := by
    cases output with
    | none => rfl
    | some sent => exact bind_congr (checkCgiProgress_agree h env hc') fun _ _ _ => rfl
  unfold onEvent
  cases input with
  | none =>
      refine bind_congr rfl fun _ c' hok => ?_
      obtain rfl : c = c' := (EStateM.Result.ok.inj hok).2
      exact houtput hc
  | some data =>
      refine bind_congr (handleIncomingData_agree h hnames env data hstarted hc) fun _ c' hok => ?_
      have hticks : Ticks os (· = c) (handleIncomingData os env data) anywhere :=
        ticks_handleIncomingData env data fun s hs => hs ▸ hstarted
      exact houtput (hc.reaches (hticks.ok rfl hok).1)

theorem step_agree (h : os.Agree (Opened config) os') (hnames : os.PlainNames) (ev : Event)
    (hc : Confined config c) : step os ev c = step os' ev c := by
  show (step os ev).run c = (step os' ev).run c
  cases ev with
  | client env input output =>
      simp only [step, EStateM.run_bind, EStateM.run_get]
      split
      · rename_i hstarted
        exact onEvent_agree h hnames env input output hstarted hc
      · rfl
  | pipe env k ev => rfl

theorem Confined.step (ev : Event) (hc : Confined config c) :
    Confined config (final (step os ev c)) := by
  have hticks : Ticks os (· = c) (Connection.step os ev) anywhere := ticks_step ev
  exact hc.reaches (hticks.reaches rfl)

end Methods

end Connection

/-! ## Servers -/

namespace Server

variable {W : Type} {os os' : OS W}

/-- The sockets and the clients of a server are those of the configuration. -/
structure Confined (config : List ServerConfig) (s : Server W) : Prop where
  sockets : ∀ fd group, s.socketConfigs.get? fd = some group → ∀ cfg ∈ group.toList, cfg ∈ config
  clients : ∀ c ∈ s.clients, Connection.Confined config c

theorem Confined.set {s : Server W} (h : Confined config s) {c : Connection W}
    (hc : Connection.Confined config c) (i : Nat) (world : W) :
    Confined config { s with clients := s.clients.set i c, world := world } where
  sockets := h.sockets
  clients := fun c' hmem => by
    rcases List.mem_or_eq_of_mem_set hmem with hmem | rfl
    · exact h.clients c' hmem
    · exact hc

/-- A client is registered with what it has. -/
theorem confined_register {c : Connection W} (h : Connection.Confined config c) (env : Env) :
    Connection.Confined config (register env c) := by
  unfold register
  split
  · exact ⟨h.servers, h.parser, h.builders⟩
  · exact h

theorem Confined.onEvent {s : Server W} (h : Confined config s) (garbage : Bool) (env : Env)
    (fd : Nat) (clientFd : Option Nat) : Confined config (s.onEvent garbage env fd clientFd) := by
  unfold Server.onEvent
  split
  · rename_i group clientFd hgroup
    unfold acceptPeer
    split
    · rename_i c hc
      have hused := h.clients c (List.mem_of_getElem? hc)
      have hsockets : Connection.Confined config (setSockets c clientFd fd) :=
        ⟨hused.servers, hused.parser, hused.builders⟩
      exact h.set (confined_register hsockets env) s.slot s.world
    · refine ⟨h.sockets, fun c hmem => ?_⟩
      rcases List.mem_append.mp hmem with hmem | hmem
      · exact h.clients c hmem
      · obtain rfl := List.mem_singleton.mp hmem
        refine confined_register ⟨h.sockets fd group hgroup, fun p hp => ?_, fun i b hb => ?_⟩ env
        · cases hp
        · cases hb
  · exact h

theorem Confined.step {s : Server W} (h : Confined config s) (ev : Event) :
    Confined config (final (step os ev s)) := by
  cases ev with
  | peer garbage env fd clientFd => exact h.onEvent garbage env fd clientFd
  | client i ev =>
      show Confined config (final (clientEvent os i ev s))
      cases hc : s.clients[i]? with
      | none =>
          rw [EventLoop.final_clientEvent_none os i ev s hc]
          exact h
      | some c =>
          rw [EventLoop.final_clientEvent os i ev s hc]
          have hclient := h.clients c (List.mem_of_getElem? hc)
          have hstart : Connection.Confined config { c with world := s.world } :=
            ⟨hclient.servers, hclient.parser, hclient.builders⟩
          exact h.set (hstart.step ev) i _

/-- An event does the same on systems that agree on what the configuration
opens. -/
theorem step_agree (hagree : os.Agree (Opened config) os') (hnames : os.PlainNames) (ev : Event)
    {s : Server W} (h : Confined config s) : step os ev s = step os' ev s := by
  cases ev with
  | peer garbage env fd clientFd => rfl
  | client i ev =>
      show (clientEvent os i ev).run s = (clientEvent os' i ev).run s
      simp only [clientEvent, EStateM.run_bind, EStateM.run_get]
      cases hc : s.clients[i]? with
      | none => rfl
      | some c =>
          have hclient := h.clients c (List.mem_of_getElem? hc)
          have hstart : Connection.Confined config { c with world := s.world } :=
            ⟨hclient.servers, hclient.parser, hclient.builders⟩
          simp only [Connection.step_agree hagree hnames ev hstart]

theorem run_agree (hagree : os.Agree (Opened config) os') (hnames : os.PlainNames) :
    ∀ (evs : List Event) {s : Server W}, Confined config s → run os evs s = run os' evs s
  | [], _, _ => rfl
  | ev :: evs, s, h => by
      refine bind_congr (step_agree hagree hnames ev h) fun _ s' hok => ?_
      have hnext : Confined config (final (step os ev s)) := h.step ev
      rw [hok] at hnext
      exact run_agree hagree hnames evs hnext

/-! ## Starting -/

theorem addressGroups_mem (config : List ServerConfig) : ∀ key group,
    (addressGroups config).get? key = some group → ∀ cfg ∈ group.toList, cfg ∈ config := by
  unfold addressGroups
  refine List.foldlRecOn (motive := fun groups : OrdMap Bytes ServerGroup => ∀ key group,
    groups.get? key = some group → ∀ cfg ∈ group.toList, cfg ∈ config) config _ ?_ ?_
  · intro key group hget
    cases hget
  · intro groups h server hserver key group hget cfg hcfg
    rw [OrdMap.get?_insert] at hget
    split at hget
    · obtain rfl := Option.some.inj hget
      cases hold : groups.get? (addressKey server) with
      | none =>
          rw [hold] at hcfg
          obtain rfl : cfg = server := by simpa [ServerGroup.toList] using hcfg
          exact hserver
      | some old =>
          rw [hold] at hcfg
          have hmem : cfg ∈ old.toList ∨ cfg = server := by
            simpa [ServerGroup.toList, or_assoc] using hcfg
          rcases hmem with hmem | rfl
          · exact h _ old hold cfg hmem
          · exact hserver
    · exact h key group hget cfg hcfg

theorem confined_startServer (config : List ServerConfig) (listenOnAddr : Bytes → Option Nat)
    (world : W) : Confined config (startServer config listenOnAddr world) where
  sockets := by
    unfold startServer
    refine List.foldlRecOn (motive := fun sockets : OrdMap Nat ServerGroup => ∀ fd group,
      sockets.get? fd = some group → ∀ cfg ∈ group.toList, cfg ∈ config) _ _ ?_ ?_
    · intro fd group hget
      cases hget
    · intro sockets h e he fd group hget
      have hentry : ∀ cfg ∈ e.2.toList, cfg ∈ config :=
        addressGroups_mem config e.1 e.2 (OrdMap.mem_entries.mp he)
      cases hlisten : listenOnAddr e.1 with
      | none =>
          simp only [hlisten] at hget
          exact h fd group hget
      | some fd' =>
          simp only [hlisten, OrdMap.get?_insert] at hget
          split at hget
          · obtain rfl := Option.some.inj hget
            exact hentry
          · exact h fd group hget
  clients := fun _ hmem => by cases hmem

end Server

open Server

/-- A run of a server is the same on two systems that agree on the paths
its configuration opens: whatever the clients send, the server neither
depends on nor changes a file anywhere else. -/
theorem confined_run {W : Type} (os os' : OS W) (config : List ServerConfig)
    (listenOnAddr : Bytes → Option Nat) (world : W) (hagree : os.Agree (Opened config) os')
    (hnames : os.PlainNames) (evs : List Server.Event) :
    Server.run os evs (startServer config listenOnAddr world)
      = Server.run os' evs (startServer config listenOnAddr world) :=
  run_agree hagree hnames evs (confined_startServer config listenOnAddr world)

/-- The flat file system with a secret outside the configured roots. -/
def secretOs : OS Unit :=
  { flatOs with
    readFile := fun _ path => some (if path = lit "/etc/passwd" then lit "root" else []) }

theorem not_opened_secret : ¬Opened [scriptServers.first] (lit "/etc/passwd") := by
  intro h
  have hroot : ∀ {cfg : ServerConfig} {l : Location}, cfg ∈ [scriptServers.first] →
      l ∈ cfg.locations → l.root = lit "/www" ∧ l.uploadStore = [] := by
    intro cfg l hcfg hl
    obtain rfl := List.mem_singleton.mp hcfg
    simp only [scriptServers, List.mem_cons, List.not_mem_nil, or_false] at hl
    rcases hl with rfl | rfl
    · exact ⟨rfl, rfl⟩
    · exact ⟨rfl, rfl⟩
  have hhead : ∀ {l : Location} (rest : Bytes), l.root = lit "/www" →
      l.root ++ rest ≠ lit "/etc/passwd" := by
    intro l rest hl heq
    rw [hl] at heq
    cases heq
  generalize hpath : lit "/etc/passwd" = path at h
  cases h with
  | errorPage hcfg hpage =>
      obtain rfl := List.mem_singleton.mp hcfg
      cases hpage
  | target hcfg hl huri => exact hhead _ (hroot hcfg hl).1 hpath.symm
  | index hcfg hl huri =>
      rw [List.append_assoc] at hpath
      exact hhead _ (hroot hcfg hl).1 hpath.symm
  | entry hcfg hl huri hname hdots =>
      rw [List.append_assoc] at hpath
      exact hhead _ (hroot hcfg hl).1 hpath.symm
  | store hcfg hl =>
      rw [(hroot hcfg hl).2] at hpath
      cases hpath
  | upload hcfg hl hchild =>
      obtain ⟨name, hname, hslash, -⟩ := hchild
      rw [(hroot hcfg hl).2, ← hpath] at hname
      obtain rfl : name = lit "etc/passwd" := (List.cons.inj hname).2.symm
      exact hslash (by decide)

theorem agree_secret : flatOs.Agree (Opened [scriptServers.first]) secretOs where
  stat _ _ _ := rfl
  readFile _ path hpath := by
    have hne : path ≠ lit "/etc/passwd" := fun h => not_opened_secret (h ▸ hpath)
    simp only [secretOs, if_neg hne]
    rfl
  readDir _ _ _ := rfl
  writable _ _ _ := rfl
  writeFile _ _ _ _ := rfl
  remove _ _ _ := rfl
  rmdir _ _ _ := rfl

theorem confined_run_secret :
    Server.run flatOs crossedEvents (startServer [scriptServers.first] (fun _ => some 3) ())
      = Server.run secretOs crossedEvents
          (startServer [scriptServers.first] (fun _ => some 3) ()) :=
  confined_run flatOs secretOs [scriptServers.first] (fun _ => some 3) () agree_secret
    (fun _ _ _ h => by cases h) crossedEvents

end Webserv
