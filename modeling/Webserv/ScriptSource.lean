import Webserv.CgiAuthorisation
import Webserv.ContentLength
import Webserv.ErrorAnswers
import Webserv.Uploads

/-!
# Scripts as files

`is_cgi_request` looks at the URI and the name of the index, `doGET` at
the file system. A stored URI begins with a slash and a directory is
asked for with a slash at its end, so both see the same last segment: a
file that `doGET` reads has the extension of a script exactly if the
request is one for a script.
-/

namespace Webserv

open Bytes

namespace RequestParser

/-! ## The stored URI -/

/-- Behind the request line: the URI begins with a slash. -/
structure Rooted (p : RequestParser) : Prop where
  errorCode : p.errorCode = 0
  state : p.state ≠ .requestLine
  uri : p.requestUri.head? = some slash
  flag : p.isCgiRequestFlag = false

/-- The request line has been read, or there was an error. -/
def RootedUri (p : RequestParser) : Prop :=
  Rooted p ∨ p.errorCode ≠ 0 ∧ p.state = .errorParse

def RootedExit : ParseExit → Prop
  | .returned q _ => RootedUri q
  | .threw => True

theorem rootedUri_logError {p : RequestParser} (h : p.errorCode = 0) {code : Nat}
    (hc : code ≠ 0) : RootedUri (p.logError code) := by
  refine Or.inr ⟨?_, logError_state h code⟩
  rw [logError_errorCode h]
  exact hc

theorem rooted_withLine {p : RequestParser} (h : p.errorCode = 0)
    (hflag : p.isCgiRequestFlag = false) {method target joined : Bytes}
    (hacc : TargetAccepted target joined) : Rooted (p.withLine method joined) :=
  ⟨h, by simp [withLine], hacc.rooted, hflag⟩

theorem headRule_rooted : HeadRule Rooted RootedUri where
  zero _ hq := hq.errorCode
  wait _ hq := .inl hq
  error _ _ hq hcode := rootedUri_logError hq hcode
  field _ _ _ hq := ⟨hq.errorCode, hq.state, hq.uri, hq.flag⟩
  ended _ _ hstate hq := by
    rcases hstate with rfl | rfl
    · exact ⟨hq.errorCode, ParseState.noConfusion, hq.uri, hq.flag⟩
    · exact ⟨hq.errorCode, ParseState.noConfusion, hq.uri, hq.flag⟩

theorem rooted_parseBody {p : RequestParser} (h : Rooted p) (rest : Bytes) :
    RootedUri (p.parseBody rest).1 := by
  have hheader (key : Bytes) : Rooted (p.getHeaderValue key).1 :=
    ⟨h.errorCode, h.state, h.uri, h.flag⟩
  simp only [parseBody]
  split
  · split
    · exact WhileLoop.Rounds.total (chunkRounds (I := Rooted) (Q := RootedUri)
        (fun q hq => Or.inl hq) (fun q hq => rootedUri_logError hq.errorCode (by decide))
        (fun q hq => Or.inl ⟨hq.errorCode, by simp, hq.uri, hq.flag⟩)
        (fun q rest hq => ⟨hq.errorCode, hq.state, hq.uri, hq.flag⟩)
        (fun q size read reading hq => ⟨hq.errorCode, hq.state, hq.uri, hq.flag⟩)) (hheader _)
    · exact rootedUri_logError (hheader _).errorCode (by decide)
  split
  · simp only [parseContentLengthBody]
    split
    · exact rootedUri_logError (p := { (p.getHeaderValue (lit "content-length")).1 with
        contentLengthValue := _ }) h.errorCode (by decide)
    · simp only [readBody]
      split
      · exact Or.inl ⟨h.errorCode, by simp, h.uri, h.flag⟩
      · exact Or.inl ⟨h.errorCode, h.state, h.uri, h.flag⟩
  · exact Or.inl h

/-- A head is being read: its request line is still ahead, or has been
read. -/
def HeadBegun (s : RequestParser × Bytes) : Prop :=
  (∃ method, s.1 = { httpMethod := method }) ∧ s.2 ≠ [] ∨ Rooted s.1

theorem rootedUri_next {p : RequestParser} (h : RootedUri p) (rest : Bytes) :
    (∃ r, nextRound p rest = .inr r ∧ RootedExit r)
      ∨ ∃ s', nextRound p rest = .inl s' ∧ HeadBegun s' := by
  unfold nextRound
  split
  · exact Or.inl ⟨_, rfl, h⟩
  · rename_i hgo
    rcases h with h | ⟨-, herror⟩
    · exact Or.inr ⟨_, rfl, Or.inr h⟩
    · exact absurd (Or.inl herror) hgo

theorem rootedUri_rounds : WhileLoop.Rounds parseRequestIter HeadBegun RootedExit := by
  rintro ⟨p, rest⟩ (⟨⟨method, hp⟩, hne⟩ | h)
  · obtain rfl : p = { httpMethod := method } := hp
    have hne : rest ≠ [] := hne
    have hiter : parseRequestIter ({ httpMethod := method }, rest)
        = nextRound (({ httpMethod := method } : RequestParser).parseRequestLine rest).1
          (({ httpMethod := method } : RequestParser).parseRequestLine rest).2 := by
      simp [parseRequestIter, hne]
    rw [hiter]
    rcases parseRequestLine_cases (p := { httpMethod := method }) rfl rest with
      ⟨-, method', heq⟩ | ⟨-, q, code, hq, hc, heq⟩ | ⟨-, method', target, joined, -, -, hacc, heq⟩
    · rw [heq, nextRound, if_neg (by simp [hne])]
      exact Or.inr ⟨_, rfl, Or.inl ⟨⟨method', rfl⟩, hne⟩⟩
    · rw [heq]
      exact rootedUri_next (rootedUri_logError hq hc) rest
    · rw [heq]
      exact rootedUri_next (Or.inl (rooted_withLine rfl rfl hacc)) _
  have h : Rooted p := h
  simp only [parseRequestIter]
  split
  · exact Or.inl ⟨_, rfl, Or.inl h⟩
  rename_i hgo
  split
  · rename_i hstate
    exact absurd hstate h.state
  · split
    · exact Or.inl ⟨_, rfl, trivial⟩
    · rename_i q rest' heq
      exact rootedUri_next (headRule_rooted.returned h heq) rest'
  · exact rootedUri_next (rooted_parseBody h rest) _
  · exact Or.inr ⟨_, rfl, Or.inr ⟨h.errorCode, by simp, h.uri, h.flag⟩⟩

/-- What `parse_request` returns of a new head. -/
theorem rootedUri_parseRequest {request rest : Bytes} {p : RequestParser} (hne : request ≠ [])
    (h : ({} : RequestParser).parseRequest request = some (.returned p rest)) : RootedUri p := by
  have hrun : WhileLoop.run parseRequestIter 4 ({}, request) = some (.returned p rest) := h
  exact rootedUri_rounds.run (Or.inl ⟨⟨[], rfl⟩, hne⟩) hrun

theorem rootedUri_routed {p : RequestParser} (h : RootedUri p) (servers : ServerGroup) :
    RootedUri (Connection.routed servers p) := by
  rcases h with h | ⟨hne, hstate⟩
  · rw [Connection.routed, if_pos h.errorCode]
    simp only [matchLocation]
    generalize selectLocation _ _ _ _ = found
    have hrooted (cfg : Option ServerConfig) (l : Option Location) :
        Rooted { p with serverConfig := cfg, locationConfig := l } :=
      ⟨h.errorCode, h.state, h.uri, h.flag⟩
    cases found with
    | some l => exact Or.inl (hrooted _ (some l))
    | none =>
        simp only
        split
        · exact rootedUri_logError (hrooted _ p.locationConfig).errorCode (by decide)
        · exact Or.inl (hrooted _ p.locationConfig)
  · rw [Connection.routed, if_neg hne]
    exact Or.inr ⟨hne, hstate⟩

/-! ## Extensions -/

theorem rfind_append {c : UInt8} (s : Bytes) {t : Bytes} (h : c ∉ t) :
    rfind c (s ++ t) = rfind c s := by
  induction s with
  | nil =>
      induction t with
      | nil => rfl
      | cons d t ih =>
          rw [List.mem_cons, not_or] at h
          have ht : rfind c t = none := ih h.2
          show rfind c (d :: t) = none
          rw [rfind, ht]
          exact if_neg (Ne.symm h.1)
  | cons d s ih => rw [List.cons_append, rfind, rfind, ih]

theorem rfind_last {c : UInt8} (s : Bytes) {t : Bytes} (h : c ∉ t) :
    rfind c (s ++ c :: t) = some s.length := by
  have hlast : rfind c (s ++ [c]) = some s.length := by
    induction s with
    | nil => simp [rfind]
    | cons d s ih =>
        rw [List.cons_append, rfind, ih]
        rfl
  rw [List.append_cons, rfind_append _ h, hlast]

theorem rfind_of_mem {c : UInt8} {s : Bytes} (h : c ∈ s) :
    ∃ k, rfind c s = some k ∧ k < s.length := by
  induction s with
  | nil => cases h
  | cons d s ih =>
      rw [rfind]
      cases hs : rfind c s with
      | some k =>
          have hmem : c ∈ s := by
            by_contra hno
            have hnone : rfind c ([] ++ s) = none := rfind_append [] hno
            rw [List.nil_append, hs] at hnone
            cases hnone
          obtain ⟨k', hk', hlt⟩ := ih hmem
          obtain rfl := Option.some.inj (hs.symm.trans hk')
          exact ⟨k + 1, rfl, Nat.succ_lt_succ hlt⟩
      | none =>
          have hd : d = c := by
            rcases List.mem_cons.mp h with hc | hmem
            · exact hc.symm
            · obtain ⟨k, hk, -⟩ := ih hmem
              rw [hs] at hk
              cases hk
          exact ⟨0, if_pos hd, Nat.succ_pos _⟩

/-- The path of a script. -/
def IsScript (path : Bytes) : Prop := lit ".php" <:+ path ∨ lit ".py" <:+ path

/-- The test of `is_cgi_request` on a path. -/
def hasScriptExtension (path : Bytes) : Bool :=
  match rfind dot path, rfind slash path with
  | some dotPos, some slashPos =>
      decide (slashPos ≤ dotPos) && decide (path.drop dotPos ∈ [lit ".php", lit ".py"])
  | _, _ => false

theorem hasScriptExtension_append {s t : Bytes} (hs : slash ∈ s) (hdot : dot ∉ t)
    (hslash : slash ∉ t) (hmem : dot :: t ∈ [lit ".php", lit ".py"]) :
    hasScriptExtension (s ++ dot :: t) = true := by
  obtain ⟨k, hk, hlt⟩ := rfind_of_mem hs
  have hnoslash : slash ∉ dot :: t := by
    rw [List.mem_cons, not_or]
    exact ⟨by decide, hslash⟩
  rw [hasScriptExtension, rfind_last s hdot, rfind_append s hnoslash, hk]
  simp only [List.drop_left', Bool.and_eq_true, decide_eq_true_eq]
  exact ⟨Nat.le_of_lt hlt, hmem⟩

theorem mem_of_suffix {path s e : Bytes} (hroot : path.head? = some slash)
    (he : e.head? ≠ some slash) (heq : s ++ e = path) : slash ∈ s := by
  cases s with
  | nil =>
      rw [List.nil_append] at heq
      rw [heq] at he
      exact absurd hroot he
  | cons c s =>
      rw [← heq, List.cons_append, List.head?_cons] at hroot
      exact Option.some.inj hroot ▸ List.mem_cons_self

theorem isScript_iff {path : Bytes} (hroot : path.head? = some slash) :
    IsScript path ↔ hasScriptExtension path = true := by
  constructor
  · rintro (⟨s, hs⟩ | ⟨s, hs⟩)
    · have hmem := mem_of_suffix hroot (by simp [lit, slash]) hs
      rw [← hs]
      exact hasScriptExtension_append hmem (by decide) (by decide) (by decide +kernel)
    · have hmem := mem_of_suffix hroot (by simp [lit, slash]) hs
      rw [← hs]
      exact hasScriptExtension_append hmem (by decide) (by decide) (by decide +kernel)
  · intro h
    unfold hasScriptExtension at h
    split at h
    · rename_i dotPos slashPos _ _
      have hmem := of_decide_eq_true (Bool.and_eq_true_iff.mp h).2
      have hsuffix := List.drop_suffix dotPos path
      rw [List.mem_cons, List.mem_singleton] at hmem
      rcases hmem with heq | heq
      · exact Or.inl (heq ▸ hsuffix)
      · exact Or.inr (heq ▸ hsuffix)
    · cases h

/-- The path that `is_cgi_request` looks at. -/
def indexedUri (l : Location) (uri : Bytes) : Bytes :=
  if ResponseBuilder.noTrailingSlash uri then uri else uri ++ l.index

theorem Rooted.indexedUri_head {p : RequestParser} (h : Rooted p) (l : Location) :
    (indexedUri l p.requestUri).head? = some slash := by
  unfold indexedUri
  split
  · exact h.uri
  · rw [List.head?_append, h.uri]
    rfl

theorem Rooted.isCgiRequest_iff {p : RequestParser} (h : Rooted p) {l : Location}
    (hl : p.locationConfig = some l) :
    p.isCgiRequest = true ↔ IsScript (indexedUri l p.requestUri) := by
  have hpath : p.isCgiRequest = hasScriptExtension (indexedUri l p.requestUri) := by
    simp only [isCgiRequest, h.flag, hl, hasScriptExtension, indexedUri,
      ResponseBuilder.noTrailingSlash, bne_iff_ne, ne_eq, ite_not]
    rfl
  rw [hpath, isScript_iff (h.indexedUri_head l)]

end RequestParser

namespace ResponseBuilder

open RequestParser

/-! ## What a GET reads -/

section Target

variable {W : Type} (os : OS W) (w : W)

/-- The file of a path, unless its owner may not read it. -/
def readableFile (path : Bytes) (fileStat : FileStat) : Option Bytes :=
  if fileStat.ownerRead then some path else none

/-- The path that `doGET` passes to `read_file`. -/
def getTarget (l : Location) (uri : Bytes) : Option Bytes :=
  if uri = [slash] ∧ l.root = [] then none
  else
    (os.stat w (l.root ++ uri)).bind fun fileStat =>
      if fileStat.isDir then
        if noTrailingSlash uri then none
        else (os.stat w (l.root ++ uri ++ l.index)).bind (readableFile (l.root ++ uri ++ l.index))
      else readableFile (l.root ++ uri) fileStat

/-- The files of another file system with the same names. -/
def withFiles (read : W → Bytes → Option Bytes) : OS W := { os with readFile := read }

variable {os w} {read : W → Bytes → Option Bytes}

/-- The error pages of a server are the same. -/
def SamePages (os : OS W) (w : W) (read : W → Bytes → Option Bytes) (cfg : Option ServerConfig) :
    Prop :=
  ∀ c, cfg = some c → ∀ code page, c.errorPages.get? code = some page →
    read w page = os.readFile w page

theorem readFile_withFiles {filename : Bytes} (h : read w filename = os.readFile w filename)
    (b : ResponseBuilder) :
    b.readFile (withFiles os read) w filename = b.readFile os w filename := by
  simp only [readFile, withFiles, h]

theorem setErrorPage_withFiles {b : ResponseBuilder} (h : SamePages os w read b.serverConfig)
    (code : Int) : b.setErrorPage (withFiles os read) w code = b.setErrorPage os w code := by
  have hpage : (b.setStatus code).generateErrorPage (withFiles os read) w
      = (b.setStatus code).generateErrorPage os w := by
    have hcfg : (b.setStatus code).serverConfig = b.serverConfig := rfl
    simp only [generateErrorPage, hcfg]
    cases hpage : b.serverConfig.bind fun cfg =>
        cfg.errorPages.get? (b.setStatus code).statusCode with
    | none => rfl
    | some page =>
        obtain ⟨c, hc, hget⟩ := Option.bind_eq_some_iff.mp hpage
        simp only [readFile_withFiles (h c hc _ page hget)]
  simp only [setErrorPage, hpage]

theorem sendFile_withFiles {b : ResponseBuilder} (h : SamePages os w read b.serverConfig)
    {path : Bytes} {fileStat : FileStat}
    (hpath : ∀ path', readableFile path fileStat = some path' →
      read w path' = os.readFile w path') :
    sendFile (withFiles os read) w b path fileStat = sendFile os w b path fileStat := by
  simp only [sendFile, setErrorPage_withFiles h]
  cases hread : fileStat.ownerRead with
  | false => rfl
  | true =>
      have htarget : readableFile path fileStat = some path := if_pos hread
      simp only [readFile_withFiles (hpath path htarget)]

theorem doGet_withFiles {env : Env} {b : ResponseBuilder} {l : Location}
    (h : SamePages os w read b.serverConfig)
    (htarget : ∀ path, getTarget os w l b.request.requestUri = some path →
      read w path = os.readFile w path) :
    doGet (withFiles os read) env w b l = doGet os env w b l := by
  have hstat (path : Bytes) : (withFiles os read).stat w path = os.stat w path := rfl
  have hlist (path : Bytes) : b.generateDirectoryListing (withFiles os read) w env path
      = b.generateDirectoryListing os w env path := rfl
  simp only [doGet, hstat, hlist, setErrorPage_withFiles h]
  split
  · rfl
  rename_i hroot
  simp only [getTarget, if_neg hroot] at htarget
  cases hfile : os.stat w (l.root ++ b.request.requestUri) with
  | none => rfl
  | some fileStat =>
  simp only [hfile, Option.bind_some] at htarget ⊢
  split
  · rename_i hdir
    rw [if_pos hdir] at htarget
    split
    · rfl
    rename_i hslash
    rw [if_neg hslash] at htarget
    cases hindex : os.stat w (l.root ++ b.request.requestUri ++ l.index) with
    | some indexStat =>
        rw [hindex, Option.bind_some] at htarget
        simp only [sendFile_withFiles h htarget]
    | none =>
        have hlisted : SamePages os w read (b.generateDirectoryListing os w env
            (l.root ++ b.request.requestUri)).1.serverConfig := by
          have hkept := kept_generateDirectoryListing os env w (Kept.refl b)
            (l.root ++ b.request.requestUri)
          rw [hkept.serverConfig]
          exact h
        simp only [setErrorPage_withFiles hlisted]
  · rename_i hdir
    rw [if_neg hdir] at htarget
    exact sendFile_withFiles h htarget

theorem handleRedirection_withFiles {b : ResponseBuilder}
    (h : SamePages os w read b.serverConfig) :
    handleRedirection (withFiles os read) w b = handleRedirection os w b := by
  simp only [handleRedirection, setErrorPage_withFiles h]

/-- A GET answers the same from files that differ in nothing but what its
route does not read. -/
theorem buildResponse_withFiles {env : Env} {p : RequestParser} {l : Location}
    (herr : p.errorCode = 0) (hl : p.locationConfig = some l) (hget : p.httpMethod = lit "GET")
    (hpages : SamePages os w read p.serverConfig)
    (htarget : ∀ path, getTarget os w l p.requestUri = some path →
      read w path = os.readFile w path) :
    (create (withFiles os read) w env p).buildResponse (withFiles os read) env w
      = (create os w env p).buildResponse os env w := by
  have hcreate : create (withFiles os read) w env p = create os w env p := by
    simp only [create, initConfig]
    rw [setErrorPage_withFiles hpages]
  have hbuilt := builtFrom_create os env w p
  have hzero : (create os w env p).request.errorCode = 0 := by
    rw [hbuilt.request]
    exact herr
  have hsame : SameRequest p (create os w env p).request := by
    rw [hbuilt.request]
    exact .source p
  have hconfig := hbuilt.locationConfig.trans hl
  have hroute : routeOf l (create os w env p).request.httpMethod = some .doGet
      ∨ routeOf l (create os w env p).request.httpMethod = none := by
    rw [hsame.method, hget, routeOf]
    split
    · exact Or.inl (by decide +kernel)
    · exact Or.inr rfl
  have hrun : runLocation (withFiles os read) env w (create os w env p) l
      = runLocation os env w (create os w env p) l := by
    have hinit : ((create os w env p).initRoutes l).serverConfig = p.serverConfig :=
      hbuilt.serverConfig
    have hrequest : ((create os w env p).initRoutes l).request = (create os w env p).request := rfl
    simp only [runLocation, hrequest, get?_initRoutes hbuilt.routes]
    split
    · rfl
    rcases hroute with hroute | hroute
    · simp only [hroute, runRoute]
      rw [doGet_withFiles (hinit ▸ hpages)]
      rw [hrequest, hsame.uri]
      exact htarget
    · simp only [hroute]
      rw [setErrorPage_withFiles (hinit ▸ hpages)]
  have hworld : (runLocation os env w (create os w env p) l).2 = w := by
    rw [runLocation_world os env l w hbuilt.routes]
    rcases hroute with hroute | hroute
    · simp [hroute]
    · simp [hroute]
  have hserver : (runLocation os env w (create os w env p) l).1.serverConfig = p.serverConfig :=
    (answered_runLocation os env w hconfig).serverConfig.trans hbuilt.serverConfig
  rw [hcreate, buildResponse_routed os env hzero hconfig,
    buildResponse_routed (withFiles os read) env hzero hconfig, hrun, hworld,
    handleRedirection_withFiles (hserver ▸ hpages)]

end Target

end ResponseBuilder

namespace Connection

variable {W : Type} {os : OS W}

open RequestParser

/-- Every parser of a connection has read a request line, or has an error. -/
theorem Reachable.rootedUri {c : Connection W} (h : Reachable os c) :
    ParserHas RootedUri c := by
  induction h with
  | accepted => exact fun p hp => by cases hp
  | tick _ htick ih =>
      refine ih.tick (fun p rest hfind hparse _ => ?_) ?_ ?_ htick
      · refine rootedUri_routed (rootedUri_parseRequest (fun hnil => ?_) hparse) _
        rw [hnil] at hfind
        exact absurd hfind (by decide)
      · intro p p' rest hp _ hstate _ hparse _
        have hroot : Rooted p := by
          rcases hp with hp | ⟨-, herror⟩
          · exact hp
          · cases herror.symm.trans hstate
        rw [parseRequest, if_pos hstate, Option.some.injEq, ParseExit.returned.injEq] at hparse
        exact hparse.1 ▸ rooted_parseBody hroot _
      · rintro p (hp | hp)
        · exact Or.inl ⟨hp.errorCode, hp.state, hp.uri, hp.flag⟩
        · exact Or.inr hp

open ResponseBuilder

/-- A path with a slash at its end is one of a directory. -/
def SlashOfDirectory (os : OS W) : Prop :=
  ∀ w path fileStat, path.getLast? = some slash → os.stat w path = some fileStat →
    fileStat.isDir = true

theorem isScript_append (root : Bytes) {uri : Bytes} (huri : uri.head? = some slash) :
    IsScript (root ++ uri) ↔ IsScript uri := by
  have hsuffix {e : Bytes} (he : slash ∉ e) : e <:+ root ++ uri ↔ e <:+ uri := by
    refine ⟨fun h => ?_, fun h => h.trans (List.suffix_append root uri)⟩
    rcases Nat.le_total e.length uri.length with hle | hle
    · exact List.suffix_of_suffix_length_le h (List.suffix_append root uri) hle
    · have hmem := (List.suffix_of_suffix_length_le (List.suffix_append root uri) h hle).subset
        (List.mem_of_mem_head? (Option.mem_def.mpr huri))
      exact absurd hmem he
  unfold IsScript
  rw [hsuffix (by simp [lit, slash]), hsuffix (by simp [lit, slash])]

theorem noTrailingSlash_isScript {path : Bytes} (h : IsScript path) :
    path.getLast? ≠ some slash := by
  rcases h with ⟨s, rfl⟩ | ⟨s, rfl⟩
  · simp [lit, slash]
  · simp [lit, slash]

/-- The path `doGET` reads is below the root what `is_cgi_request` looks
at, or one with a slash at its end that is no directory. -/
theorem getTarget_path {w : W} {l : Location} {uri path : Bytes}
    (h : getTarget os w l uri = some path) :
    path = l.root ++ indexedUri l uri
      ∨ path.getLast? = some slash ∧ ∃ fileStat, os.stat w path = some fileStat
        ∧ fileStat.isDir = false := by
  have hreadable {path' : Bytes} {fileStat : FileStat}
      (hr : readableFile path' fileStat = some path) : path = path' := by
    unfold readableFile at hr
    split at hr
    · exact (Option.some.inj hr).symm
    · cases hr
  unfold getTarget at h
  split at h
  · cases h
  obtain ⟨fileStat, hstat, hfile⟩ := Option.bind_eq_some_iff.mp h
  split at hfile
  · split at hfile
    · cases hfile
    · rename_i hslash
      obtain ⟨indexStat, -, hindex⟩ := Option.bind_eq_some_iff.mp hfile
      refine Or.inl ?_
      rw [hreadable hindex, indexedUri, if_neg hslash, List.append_assoc]
  · rename_i hdir
    obtain rfl := hreadable hfile
    by_cases hslash : noTrailingSlash uri = true
    · exact Or.inl (by rw [indexedUri, if_pos hslash])
    · have hlast : uri.getLast? = some slash := by
        simpa [noTrailingSlash] using hslash
      refine Or.inr ⟨?_, fileStat, hstat, Bool.eq_false_iff.mpr hdir⟩
      rw [List.getLast?_append, hlast]
      rfl

/-- A request for a file that `doGET` reads is one for a script if the
file is one. -/
theorem target_script {w : W} {p : RequestParser} (hroot : Rooted p) {l : Location}
    (hl : p.locationConfig = some l) {path : Bytes}
    (h : getTarget os w l p.requestUri = some path) (hscript : IsScript path) :
    p.isCgiRequest = true := by
  rcases getTarget_path h with rfl | ⟨hlast, -⟩
  · rw [hroot.isCgiRequest_iff hl]
    exact (isScript_append l.root (hroot.indexedUri_head l)).mp hscript
  · exact absurd hlast (noTrailingSlash_isScript hscript)

theorem script_target (hos : SlashOfDirectory os) {w : W} {p : RequestParser}
    (hroot : Rooted p) {l : Location} (hl : p.locationConfig = some l) {path : Bytes}
    (h : getTarget os w l p.requestUri = some path) (hcgi : p.isCgiRequest = true) :
    IsScript path := by
  rcases getTarget_path h with rfl | ⟨hlast, fileStat, hstat, hdir⟩
  · rw [hroot.isCgiRequest_iff hl] at hcgi
    exact (isScript_append l.root (hroot.indexedUri_head l)).mpr hcgi
  · rw [hos w path fileStat hlast hstat] at hdir
    cases hdir

/-- `doGET` reads no script: neither is the path it passes to `read_file`
one, nor does the answer depend on the content of scripts that are no
error pages. And if the file system has only directories under names with
a slash at the end, `is_cgi_request` says of every request whether the
path is one of a script. -/
theorem script_not_served {c : Connection W} (hc : Reachable os c) {p : RequestParser}
    (hp : Completed c p) (herr : p.errorCode = 0) {l : Location}
    (hl : p.locationConfig = some l) (hget : p.httpMethod = lit "GET") (w : W) :
    (p.goesToCgi = false → (∀ path, getTarget os w l p.requestUri = some path → ¬IsScript path)
        ∧ ∀ read : W → Bytes → Option Bytes, SamePages os w read p.serverConfig →
          (∀ path, ¬IsScript path → read w path = os.readFile w path) →
          ∀ env, (create (withFiles os read) w env p).buildResponse (withFiles os read) env w
            = (create os w env p).buildResponse os env w)
      ∧ (SlashOfDirectory os → ∀ path, getTarget os w l p.requestUri = some path →
        (p.isCgiRequest = true ↔ IsScript path)) := by
  have hroot : Rooted p := (hc.rootedUri p hp.parser).resolve_right fun h => h.1 herr
  refine ⟨fun hnormal => ?_, fun hos path htarget =>
    ⟨script_target hos hroot hl htarget, target_script hroot hl htarget⟩⟩
  have hcgi : p.isCgiRequest = false := by
    have hmethod : (lit "GET" != lit "DELETE") = true := by decide +kernel
    rwa [goesToCgi, hget, hmethod, Bool.and_true] at hnormal
  have hno : ∀ path, getTarget os w l p.requestUri = some path → ¬IsScript path := by
    intro path htarget hscript
    rw [target_script hroot hl htarget hscript] at hcgi
    cases hcgi
  exact ⟨hno, fun read hpages hread env => buildResponse_withFiles herr hl hget hpages
    fun path htarget => hread path (hno path htarget)⟩

/-- A request for a file. -/
def fileHead : Segment := ⟨lit "GET /a.html HTTP/1.1\r\nHost: a\r\n\r\n", by decide +kernel⟩

theorem script_not_served_file : ∃ p l, (headParsed fileHead).client.parser = some p
    ∧ p.locationConfig = some l
    ∧ getTarget flatOs () l p.requestUri = some (lit "/www/a.html")
    ∧ ¬IsScript (lit "/www/a.html") := by
  have hp : (headParsed fileHead).client.parser
      = some (routed scriptServers (parsedTo {} fileHead.val).1) := rfl
  have hfacts : ((find doubleCrlf fileHead.val).isSome
        ∧ ({} : RequestParser).parseRequest fileHead.val
          = some (.returned (parsedTo {} fileHead.val).1 (parsedTo {} fileHead.val).2))
      ∧ (routed scriptServers (parsedTo {} fileHead.val).1).state ≠ .body
      ∧ (routed scriptServers (parsedTo {} fileHead.val).1).errorCode = 0
      ∧ (routed scriptServers (parsedTo {} fileHead.val).1).httpMethod = lit "GET"
      ∧ (routed scriptServers (parsedTo {} fileHead.val).1).goesToCgi = false
      ∧ (routed scriptServers (parsedTo {} fileHead.val).1).locationConfig
        = some { location := lit "/", root := lit "/www" }
      ∧ getTarget flatOs () { location := lit "/", root := lit "/www" }
        (routed scriptServers (parsedTo {} fileHead.val).1).requestUri
        = some (lit "/www/a.html") := by
    decide +kernel
  obtain ⟨⟨hhead, hparse⟩, hstate, herr, hget, hcgi, hl, htarget⟩ := hfacts
  exact ⟨_, _, hp, hl, htarget,
    ((script_not_served (reachable_headParsed hhead hparse) ⟨hp, hstate⟩ herr hl hget ()).1
      hcgi).1 _ htarget⟩

end Connection

end Webserv
