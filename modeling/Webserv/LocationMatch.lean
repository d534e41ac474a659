import Mathlib.Data.List.Nodup
import Webserv.RequestHead

/-!
# Location matching

The location loop of `match_location` keeps the longest prefix it has
seen and leaves at an exact match, which no other prefix of the URI is
longer than. Its result is the longest prefix of the list
(`selectLocation_spec`), so it does not depend on the order of the list.
-/

namespace Webserv

open Bytes RequestParser

/-- The path of a location block, as it is compared. -/
def collapsedPath (l : Location) : Bytes := normalizePath false l.location

/-- The path of `l` is a prefix of `uri`, and none of `locations` has a
longer one. -/
structure LongestPrefix (uri : Bytes) (locations : List Location) (l : Location) : Prop where
  mem : l ∈ locations
  isPrefixOfUri : collapsedPath l <+: uri
  longest : ∀ l' ∈ locations, collapsedPath l' <+: uri →
    (collapsedPath l').length ≤ (collapsedPath l).length

/-- No path is a prefix of `uri`. -/
def NoPrefix (uri : Bytes) (locations : List Location) : Prop :=
  ∀ l ∈ locations, ¬collapsedPath l <+: uri

/-- The host name of a request: its `Host` up to the first colon. -/
def hostName (p : RequestParser) : Bytes :=
  ((p.headers.get? (lit "host")).getD []).takeWhile (· != colon)

/-- One server block with its locations in another order. -/
structure Reordered (server server' : ServerConfig) : Prop where
  same : server' = { server with locations := server'.locations }
  perm : server.locations.Perm server'.locations

/-- The server blocks of one socket, with the locations of each in
another order. -/
structure GroupReordered (servers servers' : ServerGroup) : Prop where
  first : Reordered servers.first servers'.first
  others : List.Forall₂ Reordered servers.others servers'.others

variable {uri : Bytes} {locations : List Location} {l : Location}

/-! ## The loop -/

theorem collapsedPath_ne_nil (h : l.location ≠ []) : collapsedPath l ≠ [] := by
  unfold collapsedPath
  cases hpath : l.location with
  | nil => exact absurd hpath h
  | cons c path =>
      rw [normalizePath]
      split
      · simp
      · simp

/-- What the loop has found so far: the length and the location of the
best prefix. -/
structure BestSoFar (uri : Bytes) (bestMatchLength : Nat) (best : Option Location) : Prop where
  start : best = none → bestMatchLength = 0
  best : ∀ b, best = some b → collapsedPath b <+: uri ∧ (collapsedPath b).length = bestMatchLength

/-- The result of the loop, from what has been found so far. -/
structure LoopResult (uri : Bytes) (bestMatchLength : Nat) (best : Option Location)
    (locations : List Location) (result : Option Location) : Prop where
  found : ∀ l, result = some l → (l ∈ locations ∨ best = some l) ∧ collapsedPath l <+: uri
    ∧ bestMatchLength ≤ (collapsedPath l).length
    ∧ ∀ l' ∈ locations, collapsedPath l' <+: uri →
      (collapsedPath l').length ≤ (collapsedPath l).length
  none : result = none → best = none ∧ NoPrefix uri locations

theorem loopResult : ∀ {locations : List Location} {bestMatchLength : Nat}
    {best : Option Location}, (∀ l ∈ locations, l.location ≠ []) →
    BestSoFar uri bestMatchLength best → LoopResult uri bestMatchLength best locations
      (selectLocation uri bestMatchLength best locations)
  | [], bestMatchLength, best, _, h => by
      refine ⟨fun l hl => ?_, fun hnone => ⟨hnone, fun l hl => ?_⟩⟩
      · obtain ⟨hpre, hlength⟩ := h.best l hl
        exact ⟨Or.inr hl, hpre, hlength.ge, fun l' hl' => by cases hl'⟩
      · cases hl
  | l :: locations, bestMatchLength, best, hpaths, h => by
      have hrest : ∀ l ∈ locations, l.location ≠ [] := fun l' hl' =>
        hpaths l' (List.mem_cons_of_mem _ hl')
      have hne := collapsedPath_ne_nil (hpaths l List.mem_cons_self)
      rw [selectLocation]
      change LoopResult uri bestMatchLength best (l :: locations)
        (if uri = collapsedPath l then some l
          else if (collapsedPath l).isPrefixOf uri
              && decide (bestMatchLength < (collapsedPath l).length) then
            selectLocation uri (collapsedPath l).length (some l) locations
          else selectLocation uri bestMatchLength best locations)
      by_cases hexact : uri = collapsedPath l
      · rw [if_pos hexact]
        refine ⟨fun l₁ hl₁ => ?_, fun hnone => by cases hnone⟩
        obtain rfl := Option.some.inj hl₁
        refine ⟨Or.inl List.mem_cons_self, hexact ▸ List.prefix_rfl, ?_, fun l' _ hpre => ?_⟩
        · cases best with
          | none => rw [h.start rfl]; exact Nat.zero_le _
          | some b =>
              obtain ⟨hpre, hlength⟩ := h.best b rfl
              rw [← hlength, ← hexact]
              exact hpre.length_le
        · rw [← hexact]
          exact hpre.length_le
      rw [if_neg hexact]
      by_cases hbetter : collapsedPath l <+: uri ∧ bestMatchLength < (collapsedPath l).length
      · rw [if_pos (by simpa using hbetter)]
        have hbest : BestSoFar uri (collapsedPath l).length (some l) :=
          ⟨(fun hnone => by cases hnone), fun b hb => Option.some.inj hb ▸ ⟨hbetter.1, rfl⟩⟩
        have hloop := loopResult hrest hbest
        refine ⟨fun l₁ hl₁ => ?_, fun hnone => ?_⟩
        · obtain ⟨hmem, hpre, hlength, hall⟩ := hloop.found l₁ hl₁
          refine ⟨Or.inl ?_, hpre, by omega, fun l' hl' hpre' => ?_⟩
          · rcases hmem with hmem | hmem
            · exact List.mem_cons_of_mem _ hmem
            · exact Option.some.inj hmem ▸ List.mem_cons_self
          · rcases List.mem_cons.mp hl' with rfl | hl'
            · exact hlength
            · exact hall l' hl' hpre'
        · cases (hloop.none hnone).1
      · rw [if_neg (by simpa using hbetter)]
        have hloop := loopResult hrest h
        refine ⟨fun l₁ hl₁ => ?_, fun hnone => ?_⟩
        · obtain ⟨hmem, hpre, hlength, hall⟩ := hloop.found l₁ hl₁
          refine ⟨hmem.imp_left (List.mem_cons_of_mem _), hpre, hlength, fun l' hl' hpre' => ?_⟩
          rcases List.mem_cons.mp hl' with rfl | hl'
          · exact (Nat.not_lt.mp fun hlt => hbetter ⟨hpre', hlt⟩).trans hlength
          · exact hall l' hl' hpre'
        · obtain ⟨hbest, hno⟩ := hloop.none hnone
          refine ⟨hbest, fun l' hl' hpre' => ?_⟩
          rcases List.mem_cons.mp hl' with rfl | hl'
          · refine hbetter ⟨hpre', ?_⟩
            rw [h.start hbest]
            exact List.length_pos_iff.mpr hne
          · exact hno l' hl' hpre'

theorem selectLocation_spec (hpaths : ∀ l ∈ locations, l.location ≠ []) :
    (∀ l, selectLocation uri 0 none locations = some l → LongestPrefix uri locations l)
      ∧ (selectLocation uri 0 none locations = none → NoPrefix uri locations) := by
  have hstart : BestSoFar uri 0 none := ⟨fun _ => rfl, fun b hb => by cases hb⟩
  have hloop := loopResult hpaths hstart
  refine ⟨fun l hl => ?_, fun hnone => (hloop.none hnone).2⟩
  obtain ⟨hmem, hpre, -, hall⟩ := hloop.found l hl
  exact ⟨hmem.resolve_right (fun h => by cases h), hpre, hall⟩

/-! ## The order of the locations -/

theorem LongestPrefix.unique {l' : Location} (hdistinct : (locations.map collapsedPath).Nodup)
    (h : LongestPrefix uri locations l) (h' : LongestPrefix uri locations l') : l = l' := by
  have hlength : (collapsedPath l).length = (collapsedPath l').length :=
    Nat.le_antisymm (h'.longest l h.mem h.isPrefixOfUri) (h.longest l' h'.mem h'.isPrefixOfUri)
  have hpath : collapsedPath l = collapsedPath l' :=
    (List.prefix_of_prefix_length_le h.isPrefixOfUri h'.isPrefixOfUri hlength.le).eq_of_length
      hlength
  exact List.inj_on_of_nodup_map hdistinct h.mem h'.mem hpath

theorem LongestPrefix.perm {locations' : List Location} (hperm : locations.Perm locations')
    (h : LongestPrefix uri locations l) : LongestPrefix uri locations' l :=
  ⟨hperm.mem_iff.mp h.mem, h.isPrefixOfUri, fun l' hl' => h.longest l' (hperm.mem_iff.mpr hl')⟩

theorem selectLocation_perm {locations' : List Location} (hperm : locations.Perm locations')
    (hpaths : ∀ l ∈ locations, l.location ≠ [])
    (hdistinct : (locations.map collapsedPath).Nodup) :
    selectLocation uri 0 none locations' = selectLocation uri 0 none locations := by
  have hpaths' : ∀ l ∈ locations', l.location ≠ [] := fun l hl => hpaths l (hperm.mem_iff.mpr hl)
  obtain ⟨hfound, hnone⟩ := @selectLocation_spec uri _ hpaths
  obtain ⟨hfound', hnone'⟩ := @selectLocation_spec uri _ hpaths'
  cases hl' : selectLocation uri 0 none locations' with
  | none =>
      cases hl : selectLocation uri 0 none locations with
      | none => rfl
      | some l =>
          have hlongest := (hfound l hl).perm hperm
          exact absurd hlongest.isPrefixOfUri (hnone' hl' l hlongest.mem)
  | some l' =>
      have hlongest' := (hfound' l' hl').perm hperm.symm
      cases hl : selectLocation uri 0 none locations with
      | none => exact absurd hlongest'.isPrefixOfUri (hnone hl l' hlongest'.mem)
      | some l => exact congrArg some (hlongest'.unique hdistinct (hfound l hl))

/-! ## The server -/

/-- The server the loop over `servers` ends with, from `cfg` on. -/
theorem foldl_servers (host : Bytes) : ∀ (servers : List ServerConfig) (cfg : ServerConfig),
    let server := servers.foldl
      (fun cfg server => if host ∈ server.serverNames then server else cfg) cfg
    (server = cfg ∨ server ∈ servers)
      ∧ ((∃ s ∈ servers, host ∈ s.serverNames) → host ∈ server.serverNames)
      ∧ ((¬∃ s ∈ servers, host ∈ s.serverNames) → server = cfg)
  | [], cfg => ⟨Or.inl rfl, by simp, fun _ => rfl⟩
  | s :: servers, cfg => by
      intro server
      have hserver : server = servers.foldl
          (fun cfg server => if host ∈ server.serverNames then server else cfg)
          (if host ∈ s.serverNames then s else cfg) := rfl
      obtain ⟨hmem, hnamed, hdefault⟩ :=
        foldl_servers host servers (if host ∈ s.serverNames then s else cfg)
      rw [← hserver] at hmem hnamed hdefault
      by_cases hs : host ∈ s.serverNames
      · rw [if_pos hs] at hmem hdefault
        refine ⟨Or.inr ?_, fun _ => ?_, fun hno => absurd ⟨s, List.mem_cons_self, hs⟩ hno⟩
        · rcases hmem with h | h
          · exact h ▸ List.mem_cons_self
          · exact List.mem_cons_of_mem _ h
        · by_cases hrest : ∃ s ∈ servers, host ∈ s.serverNames
          · exact hnamed hrest
          · exact hdefault hrest ▸ hs
      · rw [if_neg hs] at hmem hdefault
        refine ⟨hmem.imp_right (List.mem_cons_of_mem _), ?_, fun hno => hdefault ?_⟩
        · rintro ⟨s', hs', hhost⟩
          rcases List.mem_cons.mp hs' with rfl | hs'
          · exact absurd hhost hs
          · exact hnamed ⟨s', hs', hhost⟩
        · rintro ⟨s', hs', hhost⟩
          exact hno ⟨s', List.mem_cons_of_mem _ hs', hhost⟩

theorem foldl_reordered (host : Bytes) {servers servers' : List ServerConfig}
    (h : List.Forall₂ Reordered servers servers') {cfg cfg' : ServerConfig}
    (hcfg : Reordered cfg cfg') :
    Reordered
      (servers.foldl (fun cfg server => if host ∈ server.serverNames then server else cfg) cfg)
      (servers'.foldl (fun cfg server => if host ∈ server.serverNames then server else cfg)
        cfg') := by
  induction h generalizing cfg cfg' with
  | nil => exact hcfg
  | @cons s s' servers servers' hs _ ih =>
      rw [List.foldl_cons, List.foldl_cons]
      refine ih ?_
      have hnames : s'.serverNames = s.serverNames := by rw [hs.same]
      rw [hnames]
      split
      · exact hs
      · exact hcfg

/-- The server is one that has the name, if there is one, and the first
one otherwise. -/
theorem selectServer_spec (servers : ServerGroup) (host : Bytes) :
    selectServer servers host ∈ servers.toList
      ∧ ((∃ s ∈ servers.toList, host ∈ s.serverNames)
        → host ∈ (selectServer servers host).serverNames)
      ∧ ((¬∃ s ∈ servers.toList, host ∈ s.serverNames)
        → selectServer servers host = servers.first) := by
  obtain ⟨hmem, hrest⟩ := foldl_servers host servers.toList servers.first
  refine ⟨?_, hrest⟩
  rcases hmem with h | h
  · exact List.mem_cons.mpr (Or.inl h)
  · exact h

theorem selectServer_reordered {servers servers' : ServerGroup}
    (h : GroupReordered servers servers') (host : Bytes) :
    Reordered (selectServer servers host) (selectServer servers' host) :=
  foldl_reordered host (.cons h.first h.others) h.first

/-! ## Routing -/

/-- What `match_location` makes of the request `p`: its server, and its
location. -/
structure RoutedTo (p : RequestParser) (servers : ServerGroup) (server : ServerConfig)
    (q : RequestParser) : Prop where
  config : q.serverConfig = some server
  mem : server ∈ servers.toList
  named : (∃ s ∈ servers.toList, hostName p ∈ s.serverNames) → hostName p ∈ server.serverNames
  fallback : (¬∃ s ∈ servers.toList, hostName p ∈ s.serverNames) → server = servers.first
  selected : ∀ l, q.locationConfig = some l → LongestPrefix p.requestUri server.locations l
  unmatched : q.locationConfig = none ↔ NoPrefix p.requestUri server.locations
  logged : q.errorCode = 404 ↔ q.locationConfig = none
  /-- the order of locations with distinct paths does not matter -/
  reordered : (server.locations.map collapsedPath).Nodup → ∀ servers',
    GroupReordered servers servers' →
    (p.matchLocation servers').locationConfig = q.locationConfig

namespace RequestParser

theorem matchLocation_eq {p : RequestParser} (hfresh : p.locationConfig = none)
    (servers : ServerGroup) :
    p.matchLocation servers =
      match selectLocation p.requestUri 0 none (selectServer servers (hostName p)).locations with
      | some l => { p with
          serverConfig := some (selectServer servers (hostName p)), locationConfig := some l }
      | none =>
          { p with serverConfig := some (selectServer servers (hostName p)) }.logError 404 := by
  simp only [matchLocation, hostName]
  cases selectLocation p.requestUri 0 none (selectServer servers
    (((p.headers.get? (lit "host")).getD []).takeWhile (· != colon))).locations with
  | none => simp [hfresh]
  | some l => rfl

theorem logError_locationConfig (p : RequestParser) (code : Nat) :
    (p.logError code).locationConfig = p.locationConfig
      ∧ (p.logError code).serverConfig = p.serverConfig := by
  unfold logError
  split
  · exact ⟨rfl, rfl⟩
  · exact ⟨rfl, rfl⟩

theorem locationConfig_matchLocation {p : RequestParser} (hfresh : p.locationConfig = none)
    (servers : ServerGroup) : (p.matchLocation servers).locationConfig
      = selectLocation p.requestUri 0 none (selectServer servers (hostName p)).locations := by
  rw [matchLocation_eq hfresh]
  split
  · rename_i hl
    exact hl.symm
  · rename_i hnone
    rw [(logError_locationConfig _ _).1, hnone]
    exact hfresh

/-- A request without an error is routed to the location with the longest
path that is a prefix of its URI. -/
theorem matchLocation_longest {p : RequestParser} (hfresh : p.locationConfig = none)
    (herr : p.errorCode = 0) {servers : ServerGroup}
    (hpaths : ∀ s ∈ servers.toList, ∀ l ∈ s.locations, l.location ≠ []) :
    ∃ server, RoutedTo p servers server (p.matchLocation servers) := by
  have hlocation := locationConfig_matchLocation hfresh servers
  have hreordered : ∀ servers', GroupReordered servers servers' →
      Reordered (selectServer servers (hostName p)) (selectServer servers' (hostName p)) :=
    fun servers' h => selectServer_reordered h _
  have heq := matchLocation_eq hfresh servers
  obtain ⟨hmem, hnamed, hfallback⟩ := selectServer_spec servers (hostName p)
  refine ⟨selectServer servers (hostName p), ?_⟩
  generalize selectServer servers (hostName p) = server at *
  have hpaths' := hpaths server hmem
  obtain ⟨hfound, hnone⟩ := @selectLocation_spec p.requestUri _ hpaths'
  rw [← hlocation] at hfound hnone
  refine ⟨?_, hmem, hnamed, hfallback, hfound, ⟨hnone, fun hno => ?_⟩, ?_, ?_⟩
  · rw [heq]
    split
    · rfl
    · exact (logError_locationConfig _ _).2
  · cases hl : (p.matchLocation servers).locationConfig with
    | none => rfl
    | some l =>
        have hlongest := hfound l hl
        exact absurd hlongest.isPrefixOfUri (hno l hlongest.mem)
  · rw [hlocation, heq]
    split
    · rename_i hl
      rw [hl]
      exact ⟨fun h => absurd (herr.symm.trans h) (by decide), fun h => by cases h⟩
    · rename_i hl
      rw [hl]
      refine ⟨fun _ => rfl, fun _ => logError_errorCode ?_ 404⟩
      exact herr
  · intro hdistinct servers' hgroup
    rw [locationConfig_matchLocation hfresh servers', hlocation]
    exact selectLocation_perm (hreordered servers' hgroup).perm hpaths' hdistinct

/-- Three nested locations, one of them with a run of slashes. -/
def nestedServers : ServerGroup where
  first := { locations := [
    { location := lit "/" }, { location := lit "/a//b" }, { location := lit "/a" }] }

def nestedRequest : RequestParser where
  requestUri := lit "/a/b/c"
  headers := OrdMap.empty.insert (lit "host") (lit "localhost:8080")

theorem matchLocation_longest_nested : ∃ server,
    RoutedTo nestedRequest nestedServers server (nestedRequest.matchLocation nestedServers) :=
  matchLocation_longest rfl rfl (by decide)

end RequestParser

end Webserv
