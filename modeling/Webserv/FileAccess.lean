import Webserv.FormData

/-!
# The paths behind a response

What a builder answers, and what it does to the files, depends on the
system only at the error pages of its server, at the path of the request
and what stands behind it, and in the upload directory: two systems that
agree there are not told apart.
-/

namespace Webserv

open Bytes

namespace OS

variable {W : Type}

/-- Two systems that do the same at the paths in `P`. -/
structure Agree (P : Bytes → Prop) (os os' : OS W) : Prop where
  stat : ∀ w path, P path → os.stat w path = os'.stat w path
  readFile : ∀ w path, P path → os.readFile w path = os'.readFile w path
  readDir : ∀ w path, P path → os.readDir w path = os'.readDir w path
  writable : ∀ w path, P path → os.writable w path = os'.writable w path
  writeFile : ∀ w path content, P path →
    os.writeFile w path content = os'.writeFile w path content
  remove : ∀ w path, P path → os.remove w path = os'.remove w path
  rmdir : ∀ w path, P path → os.rmdir w path = os'.rmdir w path

/-- The name of a directory entry has no slash. -/
def PlainNames (os : OS W) : Prop :=
  ∀ w path names, os.readDir w path = some names → ∀ name ∈ names, slash ∉ name

end OS

/-- The error pages of the server are in `P`. -/
def PagesIn (P : Bytes → Prop) (config : Option ServerConfig) : Prop :=
  ∀ cfg, config = some cfg → ∀ code path, cfg.errorPages.get? code = some path → P path

/-- The paths that a location makes of a URI are in `P`. -/
structure Location.OpensIn (P : Bytes → Prop) (l : Location) (uri : Bytes) : Prop where
  target : P (l.root ++ uri)
  index : P (l.root ++ uri ++ l.index)
  entry : ∀ name, slash ∉ name → name ∉ [lit ".", lit ".."] →
    P (l.root ++ uri ++ slash :: name)
  store : P l.uploadStore
  upload : ∀ path, ResponseBuilder.DirectChild l.uploadStore path → P path

namespace ResponseBuilder

variable {W : Type} {P : Bytes → Prop} {os os' : OS W} {b : ResponseBuilder} {l : Location}

/-! ## Pages -/

theorem readFile_agree (h : os.Agree P os') (w : W) (b : ResponseBuilder) {filename : Bytes}
    (hfile : P filename) : b.readFile os w filename = b.readFile os' w filename := by
  unfold readFile
  rw [h.readFile w filename hfile]

theorem generateErrorPage_agree (h : os.Agree P os') (w : W) (hb : PagesIn P b.serverConfig) :
    b.generateErrorPage os w = b.generateErrorPage os' w := by
  simp only [generateErrorPage]
  cases hpage : b.serverConfig.bind fun cfg => cfg.errorPages.get? b.statusCode with
  | none => rfl
  | some path =>
      obtain ⟨cfg, hcfg, hget⟩ := Option.bind_eq_some_iff.mp hpage
      simp only [readFile_agree h w b (hb cfg hcfg _ path hget)]

theorem setErrorPage_agree (h : os.Agree P os') (w : W) (hb : PagesIn P b.serverConfig)
    (code : Int) : b.setErrorPage os w code = b.setErrorPage os' w code := by
  have hpage := generateErrorPage_agree h w (b := b.setStatus code) hb
  simp only [setErrorPage, hpage]

/-- The listing looks at the directory and its entries. -/
theorem generateDirectoryListing_agree (h : os.Agree P os') (hnames : os.PlainNames) (env : Env)
    (w : W) (b : ResponseBuilder) {path : Bytes} (hpath : P path)
    (hentry : ∀ name, slash ∉ name → name ∉ [lit ".", lit ".."] → P (path ++ slash :: name)) :
    b.generateDirectoryListing os w env path = b.generateDirectoryListing os' w env path := by
  simp only [generateDirectoryListing, ← h.readDir w path hpath]
  cases hread : os.readDir w path with
  | none => rfl
  | some names =>
      have hstat : ∀ name ∈ names.filter fun name => decide (name ∉ [lit ".", lit ".."]),
          os.stat w (path ++ slash :: name) = os'.stat w (path ++ slash :: name) := by
        intro name hname
        obtain ⟨hmem, hdots⟩ := List.mem_filter.mp hname
        exact h.stat w _ (hentry name (hnames w path names hread name hmem)
          (of_decide_eq_true hdots))
      have hentries := List.map_congr_left (f := fun entryName => listingEntry env.httpDate
          entryName (if (os.stat w (path ++ slash :: entryName)).any fun st => st.isDir
            then [slash] else []))
        (g := fun entryName => listingEntry env.httpDate
          entryName (if (os'.stat w (path ++ slash :: entryName)).any fun st => st.isDir
            then [slash] else [])) fun name hname => by rw [hstat name hname]
      simp only [hentries]

theorem create_agree (h : os.Agree P os') (env : Env) (w : W) {p : RequestParser}
    (hp : PagesIn P p.serverConfig) : create os w env p = create os' w env p := by
  have hpage := setErrorPage_agree h w
    (b := { request := p, statusCode := env.garbage, serverConfig := p.serverConfig,
            locationConfig := p.locationConfig }) hp 404
  simp only [create, initConfig, hpage]

/-! ## Methods -/

theorem sendFile_agree (h : os.Agree P os') (w : W) (hb : PagesIn P b.serverConfig)
    {path : Bytes} (hpath : P path) (fileStat : FileStat) :
    sendFile os w b path fileStat = sendFile os' w b path fileStat := by
  simp only [sendFile, setErrorPage_agree h w hb 403, readFile_agree h w b hpath]

theorem doGet_agree (h : os.Agree P os') (hnames : os.PlainNames) (env : Env) (w : W)
    (hb : PagesIn P b.serverConfig) (hl : l.OpensIn P b.request.requestUri) :
    doGet os env w b l = doGet os' env w b l := by
  have hlisting := generateDirectoryListing_agree h hnames env w b hl.target hl.entry
  have hconfig : PagesIn P (b.generateDirectoryListing os' w env
      (l.root ++ b.request.requestUri)).1.serverConfig := by
    rw [(kept_generateDirectoryListing os' env w (.refl b) _).serverConfig]
    exact hb
  simp only [doGet, h.stat w _ hl.target, h.stat w _ hl.index, hlisting,
    sendFile_agree h w hb hl.target, sendFile_agree h w hb hl.index, setErrorPage_agree h w hb,
    setErrorPage_agree h w hconfig]

theorem savePart_agree (h : os.Agree P os') (env : Env)
    (hl : ∀ path, DirectChild l.uploadStore path → P path) (b : ResponseBuilder) (w : W)
    (headers content : Bytes) :
    savePart os env l b w headers content = savePart os' env l b w headers content := by
  unfold savePart
  cases partFilename headers with
  | none => rfl
  | some filename =>
      by_cases hvalid : invalidFilename filename = true
      · simp only [hvalid, if_true]
      have hslash : slash ∉ filename := fun hmem => hvalid (by simp [invalidFilename, hmem])
      have hwrite := h.writeFile w (uploadPath env l filename) content
        (hl _ (directChild_uploadPath env l hslash))
      simp only [uploadPath, safeName] at hwrite
      simp only [hvalid, hwrite, Bool.false_eq_true, if_false]

/-! ## Uploads -/

theorem multipartIter_agree (h : os.Agree P os') (env : Env)
    (hl : ∀ path, DirectChild l.uploadStore path → P path) (boundary body : Bytes) :
    multipartIter os env l boundary body = multipartIter os' env l boundary body := by
  funext s
  simp only [multipartIter, savePart_agree h env hl]

theorem handleMultipartFormData_agree (h : os.Agree P os') (env : Env)
    (hl : ∀ path, DirectChild l.uploadStore path → P path) (b : ResponseBuilder) (w : W)
    (contentType reqBody : Bytes) :
    handleMultipartFormData os env l b w contentType reqBody
      = handleMultipartFormData os' env l b w contentType reqBody := by
  have hloop (boundary : Bytes) :
      multipartLoop os env l boundary reqBody b w = multipartLoop os' env l boundary reqBody b w :=
    WhileLoop.total_congr (multipartIter_agree h env hl boundary reqBody) _ _ _
  simp only [handleMultipartFormData, hloop]

theorem slash_notMem_timestampStr (tm : Tm) : slash ∉ timestampStr tm := by
  have hyear : slash ∉ decimal (tm.year + 1900) := fun h =>
    absurd (isdigit_decimal _ slash h) (by decide)
  simp only [timestampStr, List.mem_append, slash_notMem_decimal2, hyear, or_self,
    not_false_iff]

theorem directChild_upload (l : Location) {name : Bytes} (h : slash ∉ name) :
    DirectChild l.uploadStore (l.uploadStore ++ lit "/" ++ (lit "upload_" ++ name)) := by
  have hcstr : cstr (lit "upload_" ++ name) = 117 :: cstr (lit "pload_" ++ name) := rfl
  refine ⟨_, rfl, ?_, ?_⟩
  · rw [List.mem_append, not_or]
    exact ⟨by decide, h⟩
  rw [hcstr]
  refine ⟨List.cons_ne_nil _ _, fun hdot => ?_, fun hdots => ?_⟩
  · exact absurd (List.cons.inj hdot).1 (by decide)
  · exact absurd (List.cons.inj hdots).1 (by decide)

theorem doPost_agree (h : os.Agree P os') (env : Env) (w : W) (hb : PagesIn P b.serverConfig)
    {uri : Bytes} (hl : l.OpensIn P uri) : doPost os env w b l = doPost os' env w b l := by
  have hvalidate : validateUploadPath os w l.uploadStore
      = validateUploadPath os' w l.uploadStore := by
    rw [validateUploadPath, validateUploadPath, h.stat w _ hl.store]
  have hname : slash ∉ timestampStr env.localTime ++ lit ".bin" := by
    rw [List.mem_append, not_or]
    exact ⟨slash_notMem_timestampStr _, by decide⟩
  have hwrite (content : Bytes) := h.writeFile w _ content
    (hl.upload _ (directChild_upload l hname))
  rw [← List.append_assoc (lit "upload_")] at hwrite
  generalize hasked : b.request.getHeaderValue (lit "content-type") = asked
  obtain ⟨request, contentType⟩ := asked
  have herror (w : W) (code : Int) :=
    setErrorPage_agree h w (b := { b with request := request }) hb code
  have hparts := handleMultipartFormData_agree h env hl.upload { b with request := request } w
    contentType request.body
  have hsaved : PagesIn P (handleMultipartFormData os' env l { b with request := request } w
      contentType request.body).1.serverConfig := by
    rw [(kept_handleMultipartFormData os' env l _ w contentType request.body).serverConfig]
    exact hb
  simp only [doPost, hasked, hvalidate, herror, hparts, hwrite, setErrorPage_agree h _ hsaved]

/-! ## Deletion -/

theorem doDelete_agree (h : os.Agree P os') (w : W) (hb : PagesIn P b.serverConfig)
    (hl : l.OpensIn P b.request.requestUri) : doDelete os w b l = doDelete os' w b l := by
  simp only [doDelete, h.stat w _ hl.target, h.readDir w _ hl.target, h.writable w _ hl.target,
    h.rmdir w _ hl.target, h.remove w _ hl.target, setErrorPage_agree h _ hb]

/-! ## The response -/

theorem runRoute_agree (h : os.Agree P os') (hnames : os.PlainNames) (env : Env) (route : Route)
    (w : W) (hb : PagesIn P b.serverConfig) (hl : l.OpensIn P b.request.requestUri) :
    runRoute os env route w b l = runRoute os' env route w b l := by
  cases route with
  | doGet => simp only [runRoute, doGet_agree h hnames env w hb hl]
  | doPost => exact doPost_agree h env w hb hl
  | doDelete => exact doDelete_agree h w hb hl

theorem runLocation_agree (h : os.Agree P os') (hnames : os.PlainNames) (env : Env) (w : W)
    (hb : PagesIn P b.serverConfig) (hl : l.OpensIn P b.request.requestUri) :
    runLocation os env w b l = runLocation os' env w b l := by
  have herror := setErrorPage_agree h w (b := b.initRoutes l) hb
  have hroute (route : Route) := runRoute_agree h hnames env route w (b := b.initRoutes l) hb hl
  simp only [runLocation, herror, hroute]

/-- What `build_response` does depends on these paths only. -/
theorem buildResponse_agree (h : os.Agree P os') (hnames : os.PlainNames) (env : Env) (w : W)
    (hb : PagesIn P b.serverConfig)
    (hl : ∀ l, b.locationConfig = some l → l.OpensIn P b.request.requestUri) :
    b.buildResponse os env w = b.buildResponse os' env w := by
  unfold buildResponse
  split
  · simp only [setErrorPage_agree h w hb]
  cases hloc : b.locationConfig with
  | none => rfl
  | some l =>
      have hrun := runLocation_agree h hnames env w hb (hl l hloc)
      have hpages : PagesIn P (runLocation os' env w b l).1.serverConfig := by
        rw [(answered_runLocation os' env w hloc).serverConfig]
        exact hb
      have hredirect : handleRedirection os (runLocation os' env w b l).2
            (runLocation os' env w b l).1
          = handleRedirection os' (runLocation os' env w b l).2 (runLocation os' env w b l).1 := by
        simp only [handleRedirection, setErrorPage_agree h _ hpages]
      simp only [hrun, hredirect]

end ResponseBuilder

/-- The constructor of a handler looks at the script and at the index
behind it. -/
theorem CgiHandler.create_agree {W : Type} {P : Bytes → Prop} {os os' : OS W}
    (h : os.Agree P os') (env : Env) (w : W) {p : RequestParser}
    (hl : ∀ l, p.locationConfig = some l → l.OpensIn P p.requestUri) (cgiPath : Bytes)
    (response : Nat) :
    create os env w p cgiPath response = create os' env w p cgiPath response := by
  unfold create
  cases hloc : p.locationConfig with
  | none => rfl
  | some l =>
      simp only [h.stat w _ (hl l hloc).target, h.stat w _ (hl l hloc).index]

end Webserv
