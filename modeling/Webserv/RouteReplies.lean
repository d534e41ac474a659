import Webserv.Multipart

/-!
# What a request is answered with

Status and header fields behind `build_response`, in front of
`include_required_headers`. The handlers set a status they know, with one
exception: a multipart upload that saves nothing sets none. Apart from
`Location` they set header fields with fixed values only, and `Location`
gets the target of a redirection, the URI of a directory or the name of
an upload.
-/

namespace Webserv

open Bytes

namespace ResponseBuilder

/-! ## Header fields and status -/

/-- The values of `Content-Type` on pages and files. -/
def contentTypes : List Bytes :=
  lit "text/html" :: lit "text/plain" :: lit "application/octet-stream"
    :: mimeTypes.map fun entry => entry.2

theorem detectMimeType_mem (path : Bytes) : detectMimeType path ∈ contentTypes := by
  have hdefault : lit "application/octet-stream" ∈ contentTypes := by
    simp [contentTypes]
  unfold detectMimeType
  split
  · split
    · rename_i entry hfind
      have hmem := List.mem_map_of_mem (f := fun entry => entry.2) (List.mem_of_find?_eq_some hfind)
      exact List.mem_cons_of_mem _ (List.mem_cons_of_mem _ (List.mem_cons_of_mem _ hmem))
    · exact hdefault
  · exact hdefault

/-- The header fields that handlers set beside `Location`. -/
inductive PageField : Bytes → Bytes → Prop where
  | contentType {value : Bytes} (h : value ∈ contentTypes) :
      PageField (lit "Content-Type") value
  | acceptRanges : PageField (lit "Accept-Ranges") (lit "bytes")

/-- `set_status` has a text for the code. -/
def KnownStatus (code : Int) : Prop := ∃ entry ∈ statusTable, entry.1 = code

instance decidableKnownStatus : DecidablePred KnownStatus := fun code =>
  inferInstanceAs (Decidable (∃ entry ∈ statusTable, entry.1 = code))

/-- `b'` is `b` with the status of code `status`, if there is one, with
`location` as its `Location`, if there is one, and with fixed fields. -/
structure Reply (status : Option Int) (location : Option Bytes) (b b' : ResponseBuilder) :
    Prop where
  status : b'.status = (status.map statusText).getD b.status
  location : b'.headers.get? (lit "Location")
    = location.or (b.headers.get? (lit "Location"))
  fields : ∀ name value, b'.headers.get? name = some value → name = lit "Location"
    ∨ b.headers.get? name = some value ∨ PageField name value

namespace Reply

variable {b b' b'' : ResponseBuilder} {status status' : Option Int}
  {location location' : Option Bytes}

theorem of_eq (hstatus : b'.status = b.status) (hheaders : b'.headers = b.headers) :
    Reply none none b b' where
  status := hstatus
  location := by rw [hheaders]; rfl
  fields := fun name value h => Or.inr (Or.inl (hheaders ▸ h))

theorem refl (b : ResponseBuilder) : Reply none none b b := of_eq rfl rfl

theorem trans (h : Reply status location b b') (h' : Reply status' location' b' b'') :
    Reply (status'.or status) (location'.or location) b b'' where
  status := by
    rw [h'.status, h.status]
    cases status' <;> rfl
  location := by rw [h'.location, h.location, Option.or_assoc]
  fields := fun name value hget => by
    rcases h'.fields name value hget with hname | hget' | hfield
    · exact Or.inl hname
    · exact h.fields name value hget'
    · exact Or.inr (Or.inr hfield)

/-- One more fixed field. -/
theorem field (h : Reply status location b b') {name value : Bytes}
    (hfield : PageField name value) : Reply status location b (b'.setHeaders name value) where
  status := h.status
  location := by
    have hne : name ≠ lit "Location" := by
      cases hfield <;> decide +kernel
    rw [← h.location]
    exact OrdMap.get?_insert_of_ne b'.headers hne value
  fields := fun name' value' hget => by
    simp only [setHeaders, OrdMap.get?_insert] at hget
    split at hget
    · rename_i heq
      subst heq
      exact Or.inr (Or.inr (Option.some.inj hget ▸ hfield))
    · exact h.fields name' value' hget

theorem setBody (h : Reply status location b b') (body : Bytes) :
    Reply status location b (b'.setBody body) :=
  ⟨h.status, h.location, h.fields⟩

theorem setStatus (h : Reply status location b b') (code : Int) :
    Reply (some (toShort code)) location b (b'.setStatus code) := by
  by_cases hok : toShort code = 200
  · have hranges := h.field .acceptRanges
    refine ⟨rfl, ?_, ?_⟩
    · rw [← hranges.location]
      simp only [ResponseBuilder.setStatus, if_pos hok, setHeaders]
    · simp only [ResponseBuilder.setStatus, if_pos hok]
      exact hranges.fields
  · refine ⟨rfl, ?_, ?_⟩
    · rw [← h.location]
      simp only [ResponseBuilder.setStatus, if_neg hok]
    · simp only [ResponseBuilder.setStatus, if_neg hok]
      exact h.fields

theorem setLocation (h : Reply status location b b') (value : Bytes) :
    Reply status (some value) b (b'.setHeaders (lit "Location") value) where
  status := h.status
  location := OrdMap.get?_insert_self b'.headers _ value
  fields := fun name value' hget => by
    simp only [setHeaders, OrdMap.get?_insert] at hget
    split at hget
    · rename_i heq
      exact Or.inl heq.symm
    · exact h.fields name value' hget

theorem page (h : Reply status location b b') :
    Reply status location b (b'.setHeaders (lit "Content-Type") (lit "text/html")) :=
  h.field (.contentType List.mem_cons_self)

section Pages

variable {W : Type} {os : OS W} {env : Env} {w : W}

theorem readFile (h : Reply status location b b') (filename : Bytes) :
    Reply status location b (b'.readFile os w filename).1 := by
  unfold ResponseBuilder.readFile
  split
  · exact h
  · exact h.field (.contentType (detectMimeType_mem filename))

theorem generateErrorPage (h : Reply status location b b') :
    Reply status location b (b'.generateErrorPage os w).1 := by
  simp only [ResponseBuilder.generateErrorPage]
  split
  · rename_i name _
    split
    · exact h.readFile name
    · exact (h.readFile name).page
  · split
    · exact h
    · exact h.page

theorem setErrorPage (h : Reply status location b b') (code : Int) :
    Reply (some (toShort code)) location b (b'.setErrorPage os w code) := by
  simp only [ResponseBuilder.setErrorPage]
  exact (h.setStatus code).generateErrorPage.setBody _

theorem generateDirectoryListing (h : Reply status location b b') (path : Bytes) :
    Reply status location b (b'.generateDirectoryListing os w env path).1 := by
  unfold ResponseBuilder.generateDirectoryListing
  split
  · exact h
  · exact h.page

end Pages

end Reply

/-- `b'` is `b` with a known status. -/
def KnownReply (location : Option Bytes) (b b' : ResponseBuilder) : Prop :=
  ∃ code, KnownStatus code ∧ Reply (some code) location b b'

/-! ## Requests -/

/-- The value of a request's Content-Type, empty without one. -/
def contentTypeOf (p : RequestParser) : Bytes := (p.headers.get? (lit "content-type")).getD []

theorem contentType_getHeaderValue (p : RequestParser) :
    (p.getHeaderValue (lit "content-type")).2 = contentTypeOf p := by
  unfold RequestParser.getHeaderValue OrdMap.getOrInsert contentTypeOf
  cases p.headers.get? (lit "content-type") <;> rfl

/-- What separates the parts of a multipart body. -/
def uploadBoundary (p : RequestParser) : Option Bytes :=
  if (find (lit "multipart/form-data") (contentTypeOf p)).isSome then
    (find (lit "boundary=") (contentTypeOf p)).map fun boundaryPos =>
      lit "--" ++ (contentTypeOf p).drop (boundaryPos + 9)
  else none

/-- `q` is `p` as far as the handlers go. -/
structure SameRequest (p q : RequestParser) : Prop where
  method : q.httpMethod = p.httpMethod
  uri : q.requestUri = p.requestUri
  contentType : contentTypeOf q = contentTypeOf p
  body : q.body = p.body

namespace SameRequest

/-- The builder answers the request it was created with. -/
theorem source (p : RequestParser) : SameRequest p (sourceRequest p) where
  method := rfl
  uri := rfl
  contentType := by
    unfold contentTypeOf sourceRequest RequestParser.getHeaderValue OrdMap.getOrInsert
    cases p.headers.get? (lit "cookie") with
    | some cookie => rfl
    | none =>
        simp only
        rw [OrdMap.get?_insert_of_ne _ (by decide +kernel)]
  body := rfl

theorem requestLine (p : RequestParser) : SameRequest p p.setRequestLine := ⟨rfl, rfl, rfl, rfl⟩

theorem uploadBoundary {p q : RequestParser} (h : SameRequest p q) :
    uploadBoundary q = uploadBoundary p := by
  simp only [ResponseBuilder.uploadBoundary, h.contentType]

end SameRequest

section Handlers

variable {W : Type} {os : OS W} {env : Env} {w : W} {status : Option Int}
  {location : Option Bytes} {b b' : ResponseBuilder}

theorem Reply.known (h : Reply status location b b') {code : Int}
    (hcode : KnownStatus (toShort code)) : KnownReply location b (b'.setStatus code) :=
  ⟨_, hcode, h.setStatus code⟩

theorem Reply.knownPage (h : Reply status location b b') {code : Int}
    (hcode : KnownStatus (toShort code)) : KnownReply location b (b'.setErrorPage os w code) :=
  ⟨_, hcode, h.setErrorPage code⟩

theorem KnownReply.setBody (h : KnownReply location b b') (body : Bytes) :
    KnownReply location b (b'.setBody body) := by
  obtain ⟨code, hcode, hreply⟩ := h
  exact ⟨code, hcode, hreply.setBody body⟩

theorem KnownReply.setLocation (h : KnownReply location b b') (value : Bytes) :
    KnownReply (some value) b (b'.setHeaders (lit "Location") value) := by
  obtain ⟨code, hcode, hreply⟩ := h
  exact ⟨code, hcode, hreply.setLocation value⟩

/-! ## GET and DELETE -/

theorem settled_sendFile (path : Bytes) (fileStat : FileStat) :
    KnownReply none b (sendFile os w b path fileStat) := by
  unfold sendFile
  split
  · exact (Reply.refl b).knownPage (by decide)
  · exact (((Reply.refl b).readFile path).setBody _).known (by decide)

variable (os w) in
/-- A directory is asked for without the slash at its end. -/
def directoryRedirect (l : Location) (uri : Bytes) : Bool :=
  (os.stat w (l.root ++ uri)).any (fun st => st.isDir) && noTrailingSlash uri

variable (os w) in
/-- The `Location` of a GET or DELETE. -/
def directoryLocation (l : Location) (uri : Bytes) : Option Bytes :=
  if directoryRedirect os w l uri then some (uri ++ lit "/") else none

theorem directoryLocation_none {l : Location} {uri : Bytes}
    (h : directoryRedirect os w l uri = false) : directoryLocation os w l uri = none := by
  rw [directoryLocation, h]
  rfl

theorem settled_doGet (l : Location) :
    KnownReply (directoryLocation os w l b.request.requestUri) b (doGet os env w b l) := by
  have h := Reply.refl b
  simp only [doGet]
  split
  · rename_i hroot
    rw [directoryLocation_none (by simp [directoryRedirect, noTrailingSlash, hroot.1])]
    exact (h.page.setBody _).known (by decide)
  cases hstat : os.stat w (l.root ++ b.request.requestUri) with
  | none =>
      rw [directoryLocation_none (by simp [directoryRedirect, hstat])]
      exact h.knownPage (by decide)
  | some fileStat =>
  simp only
  split
  · rename_i hdir
    split
    · rename_i hslash
      have hredirect : directoryRedirect os w l b.request.requestUri = true := by
        simp [directoryRedirect, hstat, hdir, hslash]
      rw [directoryLocation, if_pos hredirect]
      exact (h.knownPage (by decide)).setLocation _
    · rename_i hslash
      rw [directoryLocation_none (by simp [directoryRedirect, hslash])]
      split
      · exact settled_sendFile _ _
      · split
        · have hlist : Reply none none b
              (b.generateDirectoryListing os w env (l.root ++ b.request.requestUri)).1 :=
            h.generateDirectoryListing _
          split
          · exact hlist.knownPage (by decide)
          · exact (hlist.setBody _).known (by decide)
        · exact h.knownPage (by decide)
  · rename_i hdir
    rw [directoryLocation_none (by simp [directoryRedirect, hstat, hdir])]
    exact settled_sendFile _ _

theorem settled_doDelete (l : Location) :
    KnownReply (directoryLocation os w l b.request.requestUri) b (doDelete os w b l).1 := by
  have h := Reply.refl b
  simp only [doDelete]
  cases hstat : os.stat w (l.root ++ b.request.requestUri) with
  | none =>
      rw [directoryLocation_none (by simp [directoryRedirect, hstat])]
      exact h.knownPage (by decide)
  | some pathStat =>
  simp only
  split
  · rename_i hdir
    split
    · rename_i hslash
      have hredirect : directoryRedirect os w l b.request.requestUri = true := by
        simp [directoryRedirect, hstat, hdir, hslash]
      rw [directoryLocation, if_pos hredirect]
      exact ((h.known (by decide)).setLocation _).setBody _
    rename_i hslash
    rw [directoryLocation_none (by simp [directoryRedirect, hslash])]
    split
    · exact h.knownPage (by decide)
    split
    · exact h.knownPage (by decide)
    split
    · exact h.knownPage (by decide)
    split
    · exact (h.known (by decide)).setBody _
    · exact h.knownPage (by decide)
  · rename_i hdir
    rw [directoryLocation_none (by simp [directoryRedirect, hstat, hdir])]
    split
    · exact (h.known (by decide)).setBody _
    · exact h.knownPage (by decide)

/-! ## POST -/

variable (os env w) in
/-- The names a POST of `p` saves parts of a multipart body under. -/
def savedUploads (l : Location) (p : RequestParser) : List Bytes :=
  (uploadBoundary p).elim [] fun boundary => uploads os env l boundary p.body w

variable (os env w) in
/-- The `Location` of a POST. -/
def postLocation (l : Location) (p : RequestParser) : Option Bytes :=
  if validateUploadPath os w l.uploadStore then
    (savedUploads os env w l p).getLast?.map (uploadPath env l)
  else none

variable (os env w) in
/-- A multipart upload that saves nothing. -/
structure NothingSaved (l : Location) (p : RequestParser) : Prop where
  store : validateUploadPath os w l.uploadStore = true
  form : (uploadBoundary p).isSome
  saved : savedUploads os env w l p = []

variable (env) in
theorem reply_uploaded (l : Location) (b : ResponseBuilder) (filename : Bytes) :
    Reply (some 201) (some (uploadPath env l filename)) b (uploaded env l b filename) :=
  (((Reply.refl b).setLocation _).setStatus 201).page.setBody _

variable (env) in
theorem reply_uploads (l : Location) : ∀ (names : List Bytes) (b : ResponseBuilder),
    Reply (if names = [] then none else some 201) (names.getLast?.map (uploadPath env l)) b
      (names.foldl (uploaded env l) b)
  | [], b => .refl b
  | name :: names, b => by
      have h := (reply_uploaded env l b name).trans
        (reply_uploads l names (uploaded env l b name))
      cases names with
      | nil => exact h
      | cons name' names =>
          rw [List.getLast?_cons_cons]
          exact h

theorem handleMultipartFormData_none {l : Location} {p : RequestParser}
    (h : find (lit "boundary=") (contentTypeOf p) = none) :
    handleMultipartFormData os env l b w (contentTypeOf p) p.body = (b, w, false) := by
  unfold handleMultipartFormData
  split
  · rfl
  · rename_i hfound
    rw [h] at hfound
    cases hfound

variable (os env w b) in
theorem handleMultipartFormData_some (l : Location) {p : RequestParser} {boundary : Bytes}
    (h : uploadBoundary p = some boundary) :
    ∃ w', handleMultipartFormData os env l b w (contentTypeOf p) p.body
      = ((savedUploads os env w l p).foldl (uploaded env l) b, w', true) := by
  rw [savedUploads, h, Option.elim_some]
  unfold uploadBoundary at h
  split at h
  · obtain ⟨boundaryPos, hpos, rfl⟩ := Option.map_eq_some_iff.mp h
    rw [handleMultipartFormData_found os env l hpos, foldl_savePart]
    exact ⟨_, rfl⟩
  · cases h

variable (os env w b) in
/-- Only an upload that saves nothing leaves the status as it is. -/
theorem reply_doPost (l : Location) :
    ∃ status, Reply status (postLocation os env w l b.request) b (doPost os env w b l).1
      ∧ ((∃ code, status = some code ∧ KnownStatus code)
        ↔ ¬NothingSaved os env w l b.request) := by
  have hlookup : Reply none none b { b with
      request := (b.request.getHeaderValue (lit "content-type")).1 } := .of_eq rfl rfl
  have hbody : (b.request.getHeaderValue (lit "content-type")).1.body = b.request.body := rfl
  simp only [doPost, contentType_getHeaderValue, hbody]
  generalize ({ b with
    request := (b.request.getHeaderValue (lit "content-type")).1 } : ResponseBuilder) = b'
    at hlookup ⊢
  have hknown {location : Option Bytes} {b'' : ResponseBuilder}
      (h : KnownReply location b b'') (hsaved : ¬NothingSaved os env w l b.request) :
      ∃ status, Reply status location b b'' ∧ ((∃ code, status = some code ∧ KnownStatus code)
        ↔ ¬NothingSaved os env w l b.request) := by
    obtain ⟨code, hcode, hreply⟩ := h
    exact ⟨some code, hreply, iff_of_true ⟨code, rfl, hcode⟩ hsaved⟩
  unfold postLocation
  cases hstore : validateUploadPath os w l.uploadStore with
  | false =>
      refine hknown (hlookup.knownPage (by decide)) fun h => ?_
      exact absurd (hstore.symm.trans h.store) (by decide)
  | true =>
  simp only [Bool.not_true, Bool.false_eq_true, if_false, if_true]
  split
  · rename_i hform
    cases hboundary : find (lit "boundary=") (contentTypeOf b.request) with
    | none =>
        have hnone : uploadBoundary b.request = none := by
          simp [uploadBoundary, hform, hboundary]
        rw [handleMultipartFormData_none hboundary, savedUploads, hnone]
        refine hknown (hlookup.knownPage (by decide)) fun h => ?_
        exact absurd (hnone ▸ h.form) (by decide)
    | some boundaryPos =>
        have hsome : (uploadBoundary b.request).isSome := by
          simp [uploadBoundary, hform, hboundary]
        obtain ⟨boundary, hsome'⟩ := Option.isSome_iff_exists.mp hsome
        obtain ⟨w', hr⟩ := handleMultipartFormData_some os env w b' l hsome'
        have hupload := hlookup.trans
          (reply_uploads env l (savedUploads os env w l b.request) b')
        rw [Option.or_none, Option.or_none] at hupload
        rw [hr]
        simp only [Bool.not_true, Bool.false_eq_true, if_false]
        refine ⟨_, hupload, ?_⟩
        split
        · rename_i hnil
          refine iff_of_false ?_ (not_not.mpr ⟨hstore, hsome, hnil⟩)
          rintro ⟨code, heq, -⟩
          cases heq
        · rename_i hne
          exact iff_of_true ⟨201, rfl, by decide⟩ fun h => hne h.saved
  · rename_i hform
    have hnone : uploadBoundary b.request = none := by
      simp [uploadBoundary, hform]
    have hnot : ¬NothingSaved os env w l b.request :=
      fun h => absurd (hnone ▸ h.form) (by decide)
    rw [savedUploads, hnone]
    split
    · exact hknown (hlookup.knownPage (by decide)) hnot
    · obtain ⟨code, hcode, hreply⟩ : KnownReply none b (b'.setStatus 201) :=
        hlookup.known (by decide)
      exact hknown ⟨code, hcode, hreply.page.setBody _⟩ hnot

/-! ## The location -/

/-- The handler of a method. -/
def methodRoute (method : Bytes) : Option Route :=
  (methodTable.find? fun entry => entry.1 = method).map fun entry => entry.2

/-- The route of a method at a location. -/
def routeOf (l : Location) (method : Bytes) : Option Route :=
  if method ∈ l.allowedMethods then methodRoute method else none

theorem get?_foldl_routeOf {method : Bytes}
    {f : OrdMap Bytes Route → Bytes → OrdMap Bytes Route}
    (hf : ∀ routes m, (f routes m).get? method
      = (routes.get? method).or (if m = method then methodRoute method else none)) :
    ∀ (methods : List Bytes) (routes : OrdMap Bytes Route),
    (methods.foldl f routes).get? method
      = (routes.get? method).or (if method ∈ methods then methodRoute method else none)
  | [], routes => by simp
  | m :: methods, routes => by
      rw [List.foldl_cons, get?_foldl_routeOf hf methods, hf, Option.or_assoc]
      by_cases hm : m = method
      · rw [if_pos hm, if_pos (List.mem_cons.mpr (Or.inl hm.symm))]
        congr 1
        split
        · exact Option.or_self
        · exact Option.or_none
      · have hmem : method ∈ m :: methods ↔ method ∈ methods := by
          rw [List.mem_cons, or_iff_right (Ne.symm hm)]
        rw [if_neg hm, Option.none_or]
        simp only [hmem]

/-- The routes of a new builder. -/
theorem get?_initRoutes {b : ResponseBuilder} (hroutes : b.routes = OrdMap.empty) (l : Location)
    (method : Bytes) : (b.initRoutes l).routes.get? method = routeOf l method := by
  refine (get?_foldl_routeOf (fun routes m => ?_) l.allowedMethods b.routes).trans ?_
  · by_cases hm : m = method
    · subst hm
      rw [if_pos rfl, methodRoute]
      cases hentry : methodTable.find? fun entry => entry.1 = m with
      | none => simp
      | some entry => cases hget : routes.get? m <;> simp [hget]
    · rw [if_neg hm, Option.or_none]
      split
      · split
        · exact OrdMap.get?_insert_of_ne _ hm _
        · rfl
      · rfl
  · rw [hroutes]
    rfl

variable (os env w) in
/-- The `Location` that the route of a request sets. -/
def routeLocation (l : Location) (p : RequestParser) : Option Bytes :=
  match routeOf l p.httpMethod with
  | none => none
  | some .doPost => postLocation os env w l p
  | some .doGet | some .doDelete => directoryLocation os w l p.requestUri

variable (os env w) in
/-- The `Location` of the answer to a request. -/
def replyLocation (l : Location) (p : RequestParser) : Option Bytes :=
  if l.isRedirect then some l.redirectUrl
  else if l.hasReturn then none
  else routeLocation os env w l p

variable (os env w) in
/-- A request that is answered with a status: the location redirects, it
returns a known code, or something else is done than an upload that saves
nothing. -/
def StatusSet (l : Location) (p : RequestParser) : Prop :=
  l.isRedirect = true
    ∨ l.hasReturn = true ∧ KnownStatus (toShort l.returnCode)
    ∨ l.hasReturn = false
      ∧ ¬(routeOf l p.httpMethod = some .doPost ∧ NothingSaved os env w l p)

/-- `status` is a code that `set_status` knows. -/
def SetsKnown (status : Option Int) : Prop := ∃ code, status = some code ∧ KnownStatus code

namespace SameRequest

variable {p q : RequestParser}

theorem savedUploads (h : SameRequest p q) (l : Location) :
    savedUploads os env w l q = savedUploads os env w l p := by
  simp only [ResponseBuilder.savedUploads, h.uploadBoundary, h.body]

theorem statusSet (h : SameRequest p q) (l : Location) :
    StatusSet os env w l q ↔ StatusSet os env w l p := by
  have hsaved : NothingSaved os env w l q ↔ NothingSaved os env w l p :=
    ⟨fun hn => ⟨hn.store, h.uploadBoundary ▸ hn.form, (h.savedUploads l).symm.trans hn.saved⟩,
      fun hn => ⟨hn.store, h.uploadBoundary.symm ▸ hn.form, (h.savedUploads l).trans hn.saved⟩⟩
  unfold StatusSet
  rw [hsaved, h.method]

theorem replyLocation (h : SameRequest p q) (l : Location) :
    replyLocation os env w l q = replyLocation os env w l p := by
  simp only [ResponseBuilder.replyLocation, routeLocation, postLocation, h.savedUploads, h.method,
    h.uri]

end SameRequest

theorem KnownReply.reply (h : KnownReply location b b') {P : Prop} (hP : P) :
    ∃ status, Reply status location b b' ∧ (SetsKnown status ↔ P) := by
  obtain ⟨code, hcode, hreply⟩ := h
  exact ⟨some code, hreply, iff_of_true ⟨code, rfl, hcode⟩ hP⟩

variable (os env w b) in
theorem reply_runRoute (l : Location) (route : Route)
    (hroute : routeOf l b.request.httpMethod = some route) :
    ∃ status, Reply status (routeLocation os env w l b.request) b (runRoute os env route w b l).1
      ∧ (SetsKnown status ↔ ¬(routeOf l b.request.httpMethod = some .doPost
        ∧ NothingSaved os env w l b.request)) := by
  rw [routeLocation, hroute]
  cases route with
  | doGet => exact (settled_doGet l).reply fun h => by cases h.1
  | doDelete => exact (settled_doDelete l).reply fun h => by cases h.1
  | doPost =>
      obtain ⟨status, hreply, hset⟩ := reply_doPost os env w b l
      exact ⟨status, hreply, hset.trans (by simp)⟩

variable (os env w) in
theorem reply_runLocation (l : Location) (hroutes : b.routes = OrdMap.empty) :
    ∃ status, Reply status
        (if l.hasReturn then none else routeLocation os env w l b.request) b
        (runLocation os env w b l).1
      ∧ (SetsKnown status ↔ l.hasReturn = true ∧ KnownStatus (toShort l.returnCode)
        ∨ l.hasReturn = false ∧ ¬(routeOf l b.request.httpMethod = some .doPost
          ∧ NothingSaved os env w l b.request)) := by
  unfold runLocation
  cases hreturn : l.hasReturn with
  | true =>
      simp only [if_true, true_and, Bool.true_eq_false, false_and, or_false]
      have h := ((Reply.refl b).setStatus l.returnCode).setBody l.returnMessage
      refine ⟨some (toShort l.returnCode), ?_, ?_⟩
      · split
        · exact h.field (.contentType (List.mem_cons_of_mem _ List.mem_cons_self))
        · exact h
      · exact ⟨fun ⟨code, heq, hcode⟩ => Option.some.inj heq ▸ hcode, fun h => ⟨_, rfl, h⟩⟩
  | false =>
      simp only [Bool.false_eq_true, if_false, false_and, false_or, true_and]
      have hinit : Reply none none b (b.initRoutes l) := .of_eq rfl rfl
      have hrequest : (b.initRoutes l).request = b.request := rfl
      rw [get?_initRoutes hroutes l, hrequest]
      cases hroute : routeOf l b.request.httpMethod with
      | none =>
          have hnone : routeLocation os env w l b.request = none := by
            rw [routeLocation, hroute]
          rw [hnone]
          have hpage : KnownReply none b ((b.initRoutes l).setErrorPage os w 405) :=
            hinit.knownPage (by decide)
          refine hpage.reply ?_
          rintro ⟨heq, -⟩
          cases heq
      | some route =>
          obtain ⟨status, hreply, hset⟩ := reply_runRoute os env w (b.initRoutes l) l route hroute
          have hreply := hinit.trans hreply
          rw [Option.or_none, Option.or_none] at hreply
          rw [hrequest, hroute] at hset
          exact ⟨status, hreply, hset⟩

variable (os env w) in
/-- The builder in front of `include_required_headers`. -/
theorem reply_location {l : Location} (hroutes : b.routes = OrdMap.empty)
    (hl : b.locationConfig = some l) :
    ∃ status, Reply status (replyLocation os env w l b.request) b
        (handleRedirection os (runLocation os env w b l).2 (runLocation os env w b l).1)
      ∧ (SetsKnown status ↔ StatusSet os env w l b.request) := by
  obtain ⟨status, hreply, hset⟩ := reply_runLocation os env w l hroutes
  have hl' := (answered_runLocation os env w hl).locationConfig.trans hl
  simp only [handleRedirection, hl', replyLocation, StatusSet]
  cases hredirect : l.isRedirect with
  | false =>
      simp only [Bool.false_eq_true, if_false, false_or]
      exact ⟨status, hreply, hset⟩
  | true =>
      have hcode : KnownStatus (toShort (if l.isRedirectPermanent then 301 else 302)) := by
        cases l.isRedirectPermanent <;> decide
      simp only [if_true, true_or, iff_true]
      obtain ⟨code, hknown, hpage⟩ := (hreply.knownPage hcode).setLocation l.redirectUrl
      exact ⟨some code, hpage, code, rfl, hknown⟩

/-! ## A new builder -/

/-- The value of the session cookie. -/
def sessionCookie (env : Env) : Bytes :=
  lit "session_id" ++ lit "=" ++ generateSessionId env ++ (lit "; Max-Age=" ++ decimal 3600)
    ++ lit "; Path=/" ++ lit "; HttpOnly; SameSite=Strict"

theorem processSessionCookie_reply (b : ResponseBuilder) :
    (b.processSessionCookie env).status = b.status
      ∧ ((b.processSessionCookie env).headers = b.headers
        ∨ (b.processSessionCookie env).headers
          = b.headers.insert (lit "Set-Cookie") (sessionCookie env)) := by
  have hage : (3600 : Nat) > 0 := by decide
  simp only [processSessionCookie]
  split
  · refine ⟨rfl, Or.inr ?_⟩
    simp only [setCookie, setHeaders, if_pos hage, sessionCookie]
  · exact ⟨rfl, Or.inl rfl⟩

variable (os env w) in
/-- The constructor leaves the status unset where it finds a
configuration, and sets the fields of an error page where it finds none;
then it may set the session cookie. -/
theorem create_reply (p : RequestParser) : ∃ b₀ b : ResponseBuilder, b₀.headers = OrdMap.empty
    ∧ b₀.status = [] ∧ (∃ status, Reply status none b₀ b)
    ∧ (p.serverConfig.isSome → p.locationConfig.isSome → b.status = [])
    ∧ (create os w env p).status = b.status
    ∧ ((create os w env p).headers = b.headers
      ∨ (create os w env p).headers
        = b.headers.insert (lit "Set-Cookie") (sessionCookie env)) := by
  let b₀ : ResponseBuilder := {
    request := p
    statusCode := env.garbage
    serverConfig := p.serverConfig
    locationConfig := p.locationConfig }
  have hconfig : ∃ b, ({ request := p, statusCode := env.garbage } : ResponseBuilder).initConfig
      os w = b ∧ (∃ status, Reply status none b₀ b)
      ∧ (p.serverConfig.isSome → p.locationConfig.isSome → b.status = []) := by
    simp only [initConfig]
    split
    · rename_i hnone
      refine ⟨_, rfl, ⟨_, (Reply.refl b₀).setErrorPage 404⟩, fun hcfg hl => ?_⟩
      simp [Option.isSome_iff_ne_none] at hnone hcfg hl
      exact absurd hnone (not_or.mpr ⟨hcfg, hl⟩)
    · exact ⟨_, rfl, ⟨none, .refl b₀⟩, fun _ _ => rfl⟩
  obtain ⟨b, hb, hreply, hstatus⟩ := hconfig
  refine ⟨b₀, b, rfl, rfl, hreply, hstatus, ?_⟩
  simp only [create, hb]
  exact processSessionCookie_reply b

variable (os env w) in
theorem create_status {p : RequestParser} (hcfg : p.serverConfig.isSome)
    (hl : p.locationConfig.isSome) : (create os w env p).status = [] := by
  obtain ⟨b₀, b, -, -, -, hunset, hstatus, -⟩ := create_reply os env w p
  rw [hstatus, hunset hcfg hl]

variable (os env w) in
/-- The header fields of a new builder. -/
theorem create_fields (p : RequestParser) {name value : Bytes}
    (h : (create os w env p).headers.get? name = some value) :
    PageField name value ∨ name = lit "Set-Cookie" ∧ value = sessionCookie env := by
  obtain ⟨b₀, b, hempty, -, ⟨status, hreply⟩, -, -, hheaders⟩ := create_reply os env w p
  have hpage {name value : Bytes} (hget : b.headers.get? name = some value) :
      PageField name value := by
    rcases hreply.fields name value hget with hname | hget' | hfield
    · rw [hname, hreply.location, hempty] at hget
      cases hget
    · rw [hempty] at hget'
      cases hget'
    · exact hfield
  rcases hheaders with heq | heq
  · exact Or.inl (hpage (heq ▸ h))
  · rw [heq, OrdMap.get?_insert] at h
    split at h
    · rename_i hname
      exact Or.inr ⟨hname.symm, (Option.some.inj h).symm⟩
    · exact Or.inl (hpage h)

end Handlers

end ResponseBuilder

end Webserv
