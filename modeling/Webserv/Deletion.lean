import Webserv.ErrorAnswers
import Webserv.Uploads

/-!
# DELETE

A DELETE ends in one of ten places. The file system is only changed by
`remove` and `rmdir`, and the status says whether the call succeeded:
`Deletion` pairs the statuses with what was done. The C library is what
`OS.Unlinks` states of it.
-/

namespace Webserv

open Bytes

/-! ## The C library -/

/-- `w'` is `w` without the entry `e`. -/
structure Unlinked {W E N : Type*} (node : W → E → Option N) (e : E) (w w' : W) : Prop where
  gone : node w' e = none
  others : ∀ e', e' ≠ e → node w' e' = node w e'

/-- `remove` and `rmdir` delete the entry that the path names, or do
nothing. `node w e` is what is at an entry, and `stat` fails where nothing
is. -/
structure OS.Unlinks {W E N : Type*} (os : OS W) (entry : W → Bytes → E)
    (node : W → E → Option N) : Prop where
  stat : ∀ w path, (os.stat w path).isSome → (node w (entry w path)).isSome
  removed : ∀ w path, (os.remove w path).2 = true →
    Unlinked node (entry w path) w (os.remove w path).1
  notRemoved : ∀ w path, (os.remove w path).2 = false → (os.remove w path).1 = w
  rmdirRemoved : ∀ w path, (os.rmdir w path).2 = true →
    Unlinked node (entry w path) w (os.rmdir w path).1
  notRmdirRemoved : ∀ w path, (os.rmdir w path).2 = false → (os.rmdir w path).1 = w

theorem filesOs_unlinks : (filesOs []).Unlinks (fun _ path => path) OrdMap.get? where
  stat files path h := by
    simpa [filesOs] using h
  removed files path h := by
    simp only [filesOs] at h ⊢
    split at h
    · rename_i hfile
      rw [if_pos hfile]
      exact ⟨(OrdMap.get?_erase files path path).trans (if_pos rfl), fun e he =>
        (OrdMap.get?_erase files path e).trans (if_neg he.symm)⟩
    · cases h
  notRemoved files path h := by
    simp only [filesOs] at h ⊢
    split at h
    · cases h
    · rename_i hfile
      rw [if_neg hfile]
  rmdirRemoved _ _ h := Bool.noConfusion h
  notRmdirRemoved _ _ _ := rfl

namespace ResponseBuilder

/-! ## The exits of `doDELETE` -/

/-- The statuses of a DELETE that deletes nothing. -/
def notDeleted : List Int := [301, 403, 404, 405, 409, 500]

section Handler

variable {W : Type} (os : OS W) (w : W)

/-- The directory at `path` may be removed for `uri`: the URI is written
with its slash, and the directory is empty. -/
structure EmptyDirectory (path uri : Bytes) : Prop where
  slash : uri.getLast? = some slash
  empty : ∃ names, os.readDir w path = some names ∧ ∀ name ∈ names, name ∈ [lit ".", lit ".."]

/-- The status of a DELETE of `path`, and the file system behind it. -/
inductive Deletion (path uri : Bytes) : Int → W → Prop where
  | refused {code : Int} (hcode : code ∈ notDeleted) : Deletion path uri code w
  | file {st : FileStat} (hstat : os.stat w path = some st) (hfile : st.isDir = false)
      (hok : (os.remove w path).2 = true) : Deletion path uri 204 (os.remove w path).1
  | fileKept (hfailed : (os.remove w path).2 = false) :
      Deletion path uri 500 (os.remove w path).1
  | directory {st : FileStat} (hstat : os.stat w path = some st)
      (hempty : EmptyDirectory os w path uri) (hok : (os.rmdir w path).2 = true) :
      Deletion path uri 204 (os.rmdir w path).1
  | directoryKept (hfailed : (os.rmdir w path).2 = false) :
      Deletion path uri 500 (os.rmdir w path).1

variable {os w}

theorem setErrorPage_status (b : ResponseBuilder) (code : Int) :
    (b.setErrorPage os w code).status = statusText (toShort code) := by
  obtain ⟨headers, body, hpage⟩ := setErrorPage_eq os w b code
  rw [hpage]

/-- A builder with the status of `code`, and the file system `w'`. -/
def EndsWith (P : Int → W → Prop) (r : ResponseBuilder × W) : Prop :=
  ∃ code, P code r.2 ∧ r.1.status = statusText code

theorem endsWith_refused {path uri : Bytes} {b : ResponseBuilder} {code : Int}
    (hcode : code ∈ notDeleted) (hstatus : b.status = statusText code) :
    EndsWith (Deletion os w path uri) (b, w) :=
  ⟨code, .refused hcode, hstatus⟩

theorem deletion_doDelete (b : ResponseBuilder) (l : Location) :
    EndsWith (Deletion os w (l.root ++ b.request.requestUri) b.request.requestUri)
      (doDelete os w b l) := by
  simp only [doDelete]
  cases hstat : os.stat w (l.root ++ b.request.requestUri) with
  | none => exact endsWith_refused (by decide) (setErrorPage_status b 404)
  | some pathStat =>
  simp only
  split
  · rename_i hdir
    split
    · exact endsWith_refused (show 301 ∈ notDeleted by decide) rfl
    rename_i hslash
    have hlast : b.request.requestUri.getLast? = some slash := by
      simpa [noTrailingSlash] using hslash
    cases hnames : os.readDir w (l.root ++ b.request.requestUri) with
    | none => exact endsWith_refused (by decide) (setErrorPage_status b 403)
    | some names =>
    simp only
    split
    · exact endsWith_refused (by decide) (setErrorPage_status b 409)
    rename_i hempty
    split
    · exact endsWith_refused (by decide) (setErrorPage_status b 403)
    simp only [Bool.not_eq_true', Bool.not_eq_false, List.all_eq_true, decide_eq_true_eq] at hempty
    split
    · rename_i hok
      exact ⟨204, .directory hstat ⟨hlast, names, hnames, hempty⟩ hok, rfl⟩
    · rename_i hfailed
      exact ⟨500, .directoryKept (Bool.eq_false_iff.mpr hfailed), setErrorPage_status b 500⟩
  · rename_i hdir
    split
    · rename_i hok
      exact ⟨204, .file hstat (Bool.eq_false_iff.mpr hdir) hok, rfl⟩
    · rename_i hfailed
      exact ⟨500, .fileKept (Bool.eq_false_iff.mpr hfailed), setErrorPage_status b 500⟩

variable (os w) in
theorem deletion_runLocation (env : Env) {b : ResponseBuilder} (hroutes : b.routes = OrdMap.empty)
    {l : Location} (hreturn : l.hasReturn = false)
    (hmethod : b.request.httpMethod = lit "DELETE") :
    EndsWith (Deletion os w (l.root ++ b.request.requestUri) b.request.requestUri)
      (runLocation os env w b l) := by
  have hrequest : (b.initRoutes l).request = b.request := rfl
  simp only [runLocation, hreturn, Bool.false_eq_true, if_false]
  rw [get?_initRoutes hroutes l, hrequest, hmethod, routeOf]
  by_cases hallowed : lit "DELETE" ∈ l.allowedMethods
  · rw [if_pos hallowed, show methodRoute (lit "DELETE") = some .doDelete from rfl]
    exact deletion_doDelete (b.initRoutes l) l
  · rw [if_neg hallowed]
    exact endsWith_refused (by decide) (setErrorPage_status _ 405)

/-- The status of a response says whether it is 204. -/
theorem statusLine_204 {code : Int} (hcode : code = 204 ∨ code ∈ notDeleted) {response : Bytes}
    (h : statusLineOf code <+: response) : statusLineOf 204 <+: response ↔ code = 204 := by
  have hdiffer : ∀ code ∈ notDeleted, ¬statusLineOf 204 <+: statusLineOf code
      ∧ ¬statusLineOf code <+: statusLineOf 204 := by
    decide +kernel
  constructor
  · intro hdeleted
    refine hcode.resolve_right fun hother => ?_
    rcases List.prefix_or_prefix_of_prefix hdeleted h with hpre | hpre
    · exact (hdiffer code hother).1 hpre
    · exact (hdiffer code hother).2 hpre
  · intro heq
    exact heq ▸ h

end Handler

/-! ## All or nothing -/

section Effect

variable {W : Type} {E N : Type*} {os : OS W} {entry : W → Bytes → E} {node : W → E → Option N}
  {w w' : W} {path uri : Bytes} {code : Int}

/-- What a DELETE does: with 204 it has deleted the entry, which was there
and, if a directory, an empty one that is written with its slash, and with
another status it has done nothing. -/
theorem Deletion.effect (hos : os.Unlinks entry node) (h : Deletion os w path uri code w') :
    (code = 204 ∧ (node w (entry w path)).isSome ∧ Unlinked node (entry w path) w w'
        ∧ ∀ st, os.stat w path = some st → st.isDir = true → EmptyDirectory os w path uri)
      ∨ code ∈ notDeleted ∧ w' = w := by
  have hfound {st : FileStat} (hstat : os.stat w path = some st) :
      (node w (entry w path)).isSome := hos.stat w path (by rw [hstat]; rfl)
  cases h with
  | refused hcode => exact .inr ⟨hcode, rfl⟩
  | file hstat hfile hok =>
      refine .inl ⟨rfl, hfound hstat, hos.removed w path hok, fun st hstat' hdir => ?_⟩
      obtain rfl := Option.some.inj (hstat.symm.trans hstat')
      exact absurd (hfile.symm.trans hdir) (by decide)
  | fileKept hfailed => exact .inr ⟨by decide, hos.notRemoved w path hfailed⟩
  | directory hstat hempty hok =>
      exact .inl ⟨rfl, hfound hstat, hos.rmdirRemoved w path hok, fun _ _ _ => hempty⟩
  | directoryKept hfailed => exact .inr ⟨by decide, hos.notRmdirRemoved w path hfailed⟩

end Effect

end ResponseBuilder

namespace Connection

open ResponseBuilder

variable {W : Type} {E N : Type*} {os : OS W} {entry : W → Bytes → E} {node : W → E → Option N}
  {c c' : Connection W} {path uri : Bytes}

/-- The response to a DELETE of `path` is ready, and the status says what
has become of the file system. -/
structure Deleted (os : OS W) (entry : W → Bytes → E) (node : W → E → Option N) (path uri : Bytes)
    (c c' : Connection W) : Prop where
  ready : c'.client.responseReady = true
  /-- nothing but the one entry has changed -/
  others : ∀ e, e ≠ entry c.world path → node c'.world e = node c.world e
  status : statusLineOf 204 <+: c'.client.responseBuffer
    ↔ (node c.world (entry c.world path)).isSome ∧ node c'.world (entry c.world path) = none
  directory : statusLineOf 204 <+: c'.client.responseBuffer →
    ∀ st, os.stat c.world path = some st → st.isDir = true →
      EmptyDirectory os c.world path uri
  kept : ¬statusLineOf 204 <+: c'.client.responseBuffer → c'.world = c.world

theorem deleted_of_deletion (hos : os.Unlinks entry node) {code : Int}
    (h : Deletion os c.world path uri code c'.world)
    (hline : statusLineOf code <+: c'.client.responseBuffer)
    (hready : c'.client.responseReady = true) : Deleted os entry node path uri c c' := by
  rcases h.effect hos with ⟨rfl, hfound, hunlinked, hdirectory⟩ | ⟨hcode, hworld⟩
  · exact ⟨hready, hunlinked.others, iff_of_true hline ⟨hfound, hunlinked.gone⟩,
      fun _ => hdirectory, fun hother => absurd hline hother⟩
  · have hother : ¬statusLineOf 204 <+: c'.client.responseBuffer := by
      rw [statusLine_204 (.inr hcode) hline]
      rintro rfl
      exact absurd hcode (by decide)
    refine ⟨hready, fun e _ => by rw [hworld], iff_of_false hother ?_,
      fun hdeleted => absurd hdeleted hother, fun _ => hworld⟩
    rintro ⟨hfound, hgone⟩
    rw [hworld] at hgone
    rw [hgone] at hfound
    cases hfound

/-- A DELETE without an error, for a location that neither redirects nor
returns, is all or nothing. -/
theorem delete_allOrNothing (hos : os.Unlinks entry node) (env : Env) {p : RequestParser}
    (hp : c.client.parser = some p) (herr : p.errorCode = 0)
    (hmethod : p.httpMethod = lit "DELETE") {l : Location} (hl : p.locationConfig = some l)
    (hredirect : l.isRedirect = false) (hreturn : l.hasReturn = false) :
    ∃ c', processCompletedRequest os env c = .ok () c'
      ∧ Deleted os entry node (l.root ++ p.requestUri) p.requestUri c c' := by
  have hcgi : p.goesToCgi = false := by
    rw [RequestParser.goesToCgi, hmethod]
    exact Bool.and_false _
  obtain ⟨b, hcreate⟩ : ∃ b, create os c.world env p.setRequestLine = b := ⟨_, rfl⟩
  have hbuilt : BuiltFrom p.setRequestLine b := hcreate ▸ builtFrom_create os env c.world _
  have hlocation : b.locationConfig = some l := hbuilt.locationConfig.trans hl
  have herror : b.request.errorCode = 0 := by
    rw [hbuilt.request]
    exact herr
  have huri : b.request.requestUri = p.requestUri := by
    rw [hbuilt.request]
    rfl
  have hanswered := answered_runLocation os env c.world hlocation
  obtain ⟨code, hdeletion, hstatus⟩ := deletion_runLocation os c.world env
    hbuilt.routes hreturn (by rw [hbuilt.request]; exact hmethod)
  have hbuild := buildResponse_routed os env herror hlocation c.world
  have hplain : handleRedirection os (runLocation os env c.world b l).2
      (runLocation os env c.world b l).1 = (runLocation os env c.world b l).1 := by
    simp only [handleRedirection, hanswered.locationConfig, hlocation, hredirect,
      Bool.false_eq_true, if_false]
  rw [hplain] at hbuild
  obtain ⟨tail, htail⟩ := generateResponseOnly_eq env (runLocation os env c.world b l).1
  have hline : statusLineOf code
      <+: ((runLocation os env c.world b l).1.generateResponseOnly env).2 := by
    refine ⟨tail, ?_⟩
    rw [htail, statusLine, hanswered.httpVersion, hbuilt.httpVersion, hstatus]
    rfl
  rw [huri] at hdeletion
  refine ⟨(c.withParser (some p.setRequestLine)).normalAnswer p.setRequestLine
    ((runLocation os env c.world b l).1.generateResponseOnly env).1
    (runLocation os env c.world b l).2
    ((runLocation os env c.world b l).1.generateResponseOnly env).2, ?_,
    deleted_of_deletion hos hdeletion hline rfl⟩
  rw [processCompletedRequest_eq os env hp, if_neg (by rw [hcgi]; decide)]
  show (processNormalRequest os env p.setRequestLine).run _ = _
  simp only [processNormalRequest, EStateM.run_bind, EStateM.run_get]
  rw [show (c.withParser (some p.setRequestLine)).world = c.world from rfl, hcreate, hbuild]
  rfl

/-- A location where files may be deleted. -/
def deletable : Location :=
  { location := lit "/", root := lit "/www", allowedMethods := [lit "GET", lit "DELETE"] }

/-- A DELETE of `/a` in a file system with two files. -/
def deleteRequest : Connection (OrdMap Bytes Bytes) :=
  (accepted false false 0 3 4 scriptServers
    ((OrdMap.empty.insert (lit "/www/a") (lit "x")).insert (lit "/www/b") (lit "y"))).withParser
      (some {
        httpMethod := lit "DELETE", requestUri := lit "/a", locationConfig := some deletable })

theorem delete_allOrNothing_file :
    ∃ c', processCompletedRequest (filesOs []) { now := 0 } deleteRequest = .ok () c'
      ∧ Deleted (filesOs []) (fun _ path => path) OrdMap.get? (deletable.root ++ lit "/a")
        (lit "/a") deleteRequest c' :=
  delete_allOrNothing filesOs_unlinks { now := 0 } (c := deleteRequest) rfl rfl rfl (l := deletable)
    rfl rfl rfl

end Connection

end Webserv
