import Webserv.ConfigGrammar
import Webserv.HeaderInjection
import Webserv.Uploads

/-!
# Redirecting locations

A location with a `redirect` directive answers 301 or 302 with its URL as
`Location`. `handle_redirection` runs behind the route of the request,
so an upload or a deletion is carried out before the client is sent
elsewhere; and of the configured code it asks only whether it is 301.
-/

namespace Webserv

open Bytes

namespace ResponseBuilder

section Redirection

variable {W : Type} (os : OS W) (env : Env) (w : W)

/-- A request to a location `l` asks for nothing that changes the file
system. A deletion counts if the call it makes changes something, and an
upload if what it writes does. -/
structure Harmless (l : Location) (p : RequestParser) : Prop where
  deletion : l.hasReturn = false → routeOf l p.httpMethod = some .doDelete →
    (deletesFile os l w p.requestUri = true → (os.remove w (l.root ++ p.requestUri)).1 = w)
      ∧ (deletesFile os l w p.requestUri = false → deletesDirectory os l w p.requestUri = true →
        (os.rmdir w (l.root ++ p.requestUri)).1 = w)
  upload : l.hasReturn = false → routeOf l p.httpMethod = some .doPost →
    validateUploadPath os w l.uploadStore = true → writeAll os (newFiles env l p) w = w

variable {os env w} in
theorem runLocation_unchanged {b : ResponseBuilder} {l : Location} {p : RequestParser}
    (hroutes : b.routes = OrdMap.empty) (hp : SameRequest p b.request) :
    (runLocation os env w b l).2 = w ↔ Harmless os env w l p := by
  have hrequest : (b.initRoutes l).request = b.request := rfl
  rw [runLocation_world os env l w hroutes, doPost_world, doDelete_world, hrequest, hp.method,
    hp.uri, hp.newFiles]
  cases hreturn : l.hasReturn with
  | true =>
      refine iff_of_true rfl ⟨fun h => ?_, fun h => ?_⟩
      · rw [hreturn] at h
        cases h
      · rw [hreturn] at h
        cases h
  | false =>
  simp only [Bool.false_eq_true, if_false]
  split
  · rename_i hroute
    constructor
    · refine fun h => ⟨fun _ hdelete => ?_, fun _ _ hstore => ?_⟩
      · rw [hroute] at hdelete
        cases hdelete
      · rwa [if_pos hstore] at h
    · intro h
      split
      · rename_i hstore
        exact h.upload hreturn hroute hstore
      · rfl
  rename_i hpost
  split
  · rename_i hroute
    constructor
    · refine fun h => ⟨fun _ _ => ⟨fun hfile => ?_, fun hfile hdirectory => ?_⟩,
        fun _ hpost' => absurd hpost' hpost⟩
      · rwa [if_pos hfile] at h
      · rwa [if_neg (Bool.eq_false_iff.mp hfile), if_pos hdirectory] at h
    · intro h
      obtain ⟨hfile, hdirectory⟩ := h.deletion hreturn hroute
      split
      · rename_i hdeletes
        exact hfile hdeletes
      rename_i hdeletes
      split
      · rename_i hremoves
        exact hdirectory (Bool.eq_false_iff.mpr hdeletes) hremoves
      · rfl
  · rename_i hdelete
    exact iff_of_true rfl ⟨fun _ h => absurd h hdelete, fun _ h => absurd h hpost⟩

/-- The response redirects to `url` with status `code`. -/
structure Redirects (code : Int) (url : Bytes) (b : ResponseBuilder) (response : Bytes) :
    Prop where
  statusCode : b.statusCode = code
  statusLine : statusLineOf code <+: response
  location : lit "Location" ++ lit ": " ++ url ++ crlf <:+: response

/-- The request `p` is answered with a redirection, and the file system
stays as it is. -/
def RedirectsOnly (p : RequestParser) (code : Int) (url : Bytes) : Prop :=
  ∃ b response, (create os w env p).buildResponse os env w = some (b, w, response)
    ∧ Redirects code url b response

/-- The code `handle_redirection` answers with. -/
def sentCode (l : Location) : Int := if l.isRedirectPermanent then 301 else 302

theorem toShort_sentCode (l : Location) :
    toShort (if l.isRedirectPermanent then 301 else 302) = sentCode l := by
  unfold sentCode
  split
  · rfl
  · rfl

/-- The status of a redirection. -/
theorem handleRedirection_status {b : ResponseBuilder} {l : Location}
    (hl : b.locationConfig = some l) (hredirect : l.isRedirect = true) :
    (handleRedirection os w b).statusCode = sentCode l
      ∧ (handleRedirection os w b).status = statusText (sentCode l) := by
  obtain ⟨headers, body, hpage⟩ :=
    setErrorPage_eq os w b (if l.isRedirectPermanent then 301 else 302)
  rw [toShort_sentCode] at hpage
  simp only [handleRedirection, hl, hredirect, if_true, hpage]
  exact ⟨rfl, rfl⟩

variable {os env w}

/-- The fields of a response are in its text. -/
theorem field_infix {b : ResponseBuilder} {name value : Bytes}
    (h : (name, value) ∈ b.headers.entries) :
    name ++ lit ": " ++ value ++ crlf <:+: b.generateResponseString := by
  obtain ⟨front, back, heq⟩ := List.append_of_mem h
  refine ⟨b.statusLine ++ (front.map fun e => e.1 ++ lit ": " ++ e.2 ++ crlf).flatten,
    (back.map fun e => e.1 ++ lit ": " ++ e.2 ++ crlf).flatten ++ crlf ++ b.body, ?_⟩
  simp only [generateResponseString, heq, List.map_append, List.map_cons, List.flatten_append,
    List.flatten_cons, List.append_assoc]

/-- A location that redirects answers with its URL. -/
theorem redirects_sentCode {l : Location} {p : RequestParser}
    (hl : p.locationConfig = some l) (hredirect : l.isRedirect = true) :
    Redirects (sentCode l) l.redirectUrl
      ((handleRedirection os (runLocation os env w (create os w env p) l).2
        (runLocation os env w (create os w env p) l).1).generateResponseOnly env).1
      ((handleRedirection os (runLocation os env w (create os w env p) l).2
        (runLocation os env w (create os w env p) l).1).generateResponseOnly env).2 := by
  have hbuilt := builtFrom_create os env w p
  have hcreated : (create os w env p).locationConfig = some l := hbuilt.locationConfig.trans hl
  have hanswered := answered_runLocation os env w hcreated
  obtain ⟨status, hreply, -⟩ := reply_location os env w hbuilt.routes hcreated
  have hlocation : replyLocation os env w l (create os w env p).request = some l.redirectUrl := by
    rw [replyLocation, if_pos hredirect]
  obtain ⟨hcode, hstatus⟩ := handleRedirection_status os (runLocation os env w
    (create os w env p) l).2 (hanswered.locationConfig.trans hcreated) hredirect
  have hversion : (handleRedirection os (runLocation os env w (create os w env p) l).2
      (runLocation os env w (create os w env p) l).1).httpVersion = lit "HTTP/1.1" :=
    (kept_handleRedirection os _ _).httpVersion.trans
      (hanswered.httpVersion.trans hbuilt.httpVersion)
  generalize handleRedirection os (runLocation os env w (create os w env p) l).2
    (runLocation os env w (create os w env p) l).1 = b at *
  constructor
  · have honly := headersOnly_includeRequiredHeaders env b
    exact (congrArg ResponseBuilder.statusCode honly).trans hcode
  · obtain ⟨tail, htail⟩ := generateResponseOnly_eq env b
    refine ⟨tail, ?_⟩
    rw [htail, statusLine, hversion, hstatus]
    rfl
  · exact field_infix (hreply.response_location hlocation)

/-- A location with `redirect CODE URL` redirects to `URL` with `CODE`,
and does nothing else, exactly if the code is one of the two that are sent
and the request asks for nothing that changes the file system. -/
theorem redirectsOnly_iff (path : Bytes) {ds : List LocationDirective} {code : Int} {url : Bytes}
    (hds : lastOf LocationDirective.redirect? ds = some (code, url)) {p : RequestParser}
    (herr : p.errorCode = 0) (hl : p.locationConfig = some (locationOf path ds)) :
    RedirectsOnly os env w p code url
      ↔ (code = 301 ∨ code = 302) ∧ Harmless os env w (locationOf path ds) p := by
  have hredirect : (locationOf path ds).isRedirect = true := by
    simp only [locationOf, hds, Option.isSome_some]
  have hurl : (locationOf path ds).redirectUrl = url := by
    simp only [locationOf, hds, Option.map_some, Option.getD_some]
  have hsent : sentCode (locationOf path ds) = if code = 301 then 301 else 302 := by
    simp only [sentCode, locationOf, hds, Option.any_some, decide_eq_true_eq]
  have hbuilt := builtFrom_create os env w p
  have hzero : (create os w env p).request.errorCode = 0 := by
    rw [hbuilt.request]
    exact herr
  have hsame : SameRequest p (create os w env p).request := by
    rw [hbuilt.request]
    exact .source p
  have hbuild := buildResponse_routed os env hzero (hbuilt.locationConfig.trans hl) w
  have hsends := @redirects_sentCode W os env w _ p hl hredirect
  rw [hurl, hsent] at hsends
  constructor
  · rintro ⟨b, response, hb, hr⟩
    rw [hbuild, Option.some.injEq, Prod.mk.injEq, Prod.mk.injEq] at hb
    obtain ⟨rfl, hworld, rfl⟩ := hb
    refine ⟨?_, (runLocation_unchanged hbuilt.routes hsame).mp hworld⟩
    have hcode := hr.statusCode.symm.trans hsends.statusCode
    split at hcode
    · exact Or.inl hcode
    · exact Or.inr hcode
  · rintro ⟨hcode, hharmless⟩
    have hworld := (runLocation_unchanged hbuilt.routes hsame).mpr hharmless
    refine ⟨_, _, hbuild.trans (by rw [hworld]), ?_⟩
    have heq : (if code = 301 then 301 else 302) = code := by
      rcases hcode with rfl | rfl
      · rfl
      · rfl
    rw [heq] at hsends
    rw [hworld] at hsends
    exact hsends

end Redirection

/-! ## Samples -/

theorem www_ofWord : Token.OfWord ⟨.string, lit "/www"⟩ := ⟨by simp [lit], by decide⟩

theorem new_ofWord : Token.OfWord ⟨.string, lit "/new"⟩ := ⟨by simp [lit], by decide⟩

theorem moved_ofWord : Token.OfWord ⟨.number, lit "301"⟩ := ⟨by simp [lit], by decide⟩

theorem temporary_ofWord : Token.OfWord ⟨.number, lit "307"⟩ :=
  ⟨by simp [lit], by decide⟩

/-- `root /www; redirect CODE /new;` -/
def movedDirectives (code : Word .number) : List LocationDirective :=
  [.root ⟨lit "/www", www_ofWord⟩, .redirect (some code) ⟨lit "/new", new_ofWord⟩]

/-- A request for `/a` in such a location. -/
def movedRequest (code : Word .number) (method : Bytes) : RequestParser where
  httpMethod := method
  requestUri := lit "/a"
  httpVersion := lit "HTTP/1.1"
  headers := OrdMap.empty.insert (lit "host") (lit "a")
  state := .done
  serverConfig := some {}
  locationConfig := some (locationOf (lit "/") (movedDirectives code))

def movedFiles : OrdMap Bytes Bytes := OrdMap.empty.insert (lit "/www/a") (lit "1")

theorem redirectsOnly_moved :
    RedirectsOnly (filesOs []) { now := 0 } movedFiles
      (movedRequest ⟨lit "301", moved_ofWord⟩ (lit "GET")) 301 (lit "/new") := by
  have hds : lastOf LocationDirective.redirect? (movedDirectives ⟨lit "301", moved_ofWord⟩)
      = some (301, lit "/new") := by
    decide +kernel
  refine (redirectsOnly_iff (lit "/") hds rfl rfl).mpr ⟨Or.inl rfl, ⟨fun _ h => ?_, fun _ h => ?_⟩⟩
  · exact absurd h (by decide +kernel)
  · exact absurd h (by decide +kernel)

/-- A DELETE removes the file before it is redirected, and the code 307
is answered with 302. -/
theorem not_redirectsOnly :
    ¬RedirectsOnly (filesOs []) { now := 0 } movedFiles
        (movedRequest ⟨lit "301", moved_ofWord⟩ (lit "DELETE")) 301 (lit "/new")
      ∧ ¬RedirectsOnly (filesOs []) { now := 0 } movedFiles
        (movedRequest ⟨lit "307", temporary_ofWord⟩ (lit "GET")) 307 (lit "/new") := by
  constructor
  · rintro ⟨b, response, hbuild, -⟩
    have hworld : ((create (filesOs []) movedFiles { now := 0 }
        (movedRequest ⟨lit "301", moved_ofWord⟩ (lit "DELETE"))).buildResponse (filesOs [])
          { now := 0 } movedFiles).any fun r => decide (r.2.1.get? (lit "/www/a") = none) := by
      decide +kernel
    rw [hbuild, Option.any_some, decide_eq_true_iff] at hworld
    have hfile : movedFiles.get? (lit "/www/a") = some (lit "1") := OrdMap.get?_insert_self _ _ _
    rw [hfile] at hworld
    cases hworld
  · rintro ⟨b, response, hbuild, hredirects⟩
    have hcode : ((create (filesOs []) movedFiles { now := 0 }
        (movedRequest ⟨lit "307", temporary_ofWord⟩ (lit "GET"))).buildResponse (filesOs [])
          { now := 0 } movedFiles).any fun r => decide (r.1.statusCode = 302) := by
      decide +kernel
    rw [hbuild, Option.any_some, decide_eq_true_iff, hredirects.statusCode] at hcode
    cases hcode

end ResponseBuilder

end Webserv
