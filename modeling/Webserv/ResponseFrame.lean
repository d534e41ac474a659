import Webserv.CgiHandler

/-!
# What building a response leaves alone

The methods of a builder write its status, header fields and body. The
request it was created with, the configuration it answers from and the
routes are only written by the constructor, `init_routes` and the lookup
of a header field.
-/

universe u

namespace Webserv

open Bytes

namespace ResponseBuilder

/-! ## Header fields -/

/-- `b'` is `b` with other header fields. -/
def HeadersOnly (b b' : ResponseBuilder) : Prop := b' = { b with headers := b'.headers }

namespace HeadersOnly

variable {b b' b'' : ResponseBuilder}

theorem refl (b : ResponseBuilder) : HeadersOnly b b := rfl

theorem trans (h : HeadersOnly b b') (h' : HeadersOnly b' b'') : HeadersOnly b b'' := by
  unfold HeadersOnly at *
  rw [h', h]

theorem setHeaders (h : HeadersOnly b b') (key value : Bytes) :
    HeadersOnly b (b'.setHeaders key value) :=
  h.trans rfl

theorem ite {c : Prop} [Decidable c] (h : HeadersOnly b b') (h' : HeadersOnly b b'') :
    HeadersOnly b (if c then b' else b'') := by
  split
  · exact h
  · exact h'

end HeadersOnly

section Pages

variable {W : Type u} (os : OS W) (env : Env) (w : W)

theorem headersOnly_readFile (b : ResponseBuilder) (filename : Bytes) :
    HeadersOnly b (b.readFile os w filename).1 := by
  unfold readFile
  split
  · exact .refl b
  · exact (HeadersOnly.refl b).setHeaders _ _

theorem headersOnly_generateErrorPage (b : ResponseBuilder) :
    HeadersOnly b (b.generateErrorPage os w).1 := by
  simp only [generateErrorPage]
  split
  · rename_i name _
    split
    · exact headersOnly_readFile os w b name
    · exact (headersOnly_readFile os w b name).setHeaders _ _
  · split
    · exact .refl b
    · exact (HeadersOnly.refl b).setHeaders _ _

theorem headersOnly_includeRequiredHeaders (b : ResponseBuilder) :
    HeadersOnly b (b.includeRequiredHeaders env) := by
  unfold includeRequiredHeaders
  extract_lets server date contentType framing connection
  have hdate : HeadersOnly b date := ((HeadersOnly.refl b).setHeaders _ _).setHeaders _ _
  have htype : HeadersOnly b contentType := (hdate.setHeaders _ _).ite hdate
  have hframing : HeadersOnly b framing := by
    simp only [framing]
    split
    · have herase : HeadersOnly b { contentType with
          headers := contentType.headers.erase (lit "Content-Length") } := htype.trans rfl
      exact herase.ite htype
    · exact htype.setHeaders _ _
  have hconnection : HeadersOnly b connection := (hframing.setHeaders _ _).ite hframing
  split
  · exact (hconnection.setHeaders _ _).ite hconnection
  · exact hconnection

theorem setErrorPage_eq (b : ResponseBuilder) (code : Int) :
    ∃ headers body, b.setErrorPage os w code = { b with
      headers := headers
      body := body
      status := statusText (toShort code)
      statusCode := toShort code } := by
  have h := headersOnly_generateErrorPage os w (b.setStatus code)
  refine ⟨((b.setStatus code).generateErrorPage os w).1.headers,
    ((b.setStatus code).generateErrorPage os w).2, ?_⟩
  unfold HeadersOnly at h
  simp only [setErrorPage, setBody]
  rw [h]
  rfl

/-! ## The status line -/

theorem generateResponseOnly_eq (b : ResponseBuilder) :
    ∃ tail, (b.generateResponseOnly env).2 = b.statusLine ++ tail := by
  have h := headersOnly_includeRequiredHeaders env b
  have hline : (b.includeRequiredHeaders env).statusLine = b.statusLine := by
    rw [h]
    rfl
  simp only [generateResponseOnly, generateResponseString, hline, List.append_assoc]
  exact ⟨_, rfl⟩

/-- The status line of a response with status `code`. -/
def statusLineOf (code : Int) : Bytes :=
  lit "HTTP/1.1" ++ space :: statusText code ++ crlf

/-- An error page is sent under its status. -/
theorem setErrorPage_statusLine {b : ResponseBuilder} (hb : b.httpVersion = lit "HTTP/1.1")
    (code : Int) :
    statusLineOf (toShort code) <+: ((b.setErrorPage os w code).generateResponseOnly env).2 := by
  obtain ⟨tail, htail⟩ := generateResponseOnly_eq env (b.setErrorPage os w code)
  obtain ⟨headers, body, hpage⟩ := setErrorPage_eq os w b code
  refine ⟨tail, ?_⟩
  rw [htail, hpage, statusLine, hb]
  rfl

end Pages

/-! ## Request, configuration and routes -/

/-- `b'` is `b` with another response. -/
structure Kept (b b' : ResponseBuilder) : Prop where
  request : b'.request = b.request
  httpVersion : b'.httpVersion = b.httpVersion
  serverConfig : b'.serverConfig = b.serverConfig
  locationConfig : b'.locationConfig = b.locationConfig
  routes : b'.routes = b.routes

namespace Kept

variable {b b' b'' : ResponseBuilder}

theorem refl (b : ResponseBuilder) : Kept b b := ⟨rfl, rfl, rfl, rfl, rfl⟩

theorem trans (h : Kept b b') (h' : Kept b' b'') : Kept b b'' :=
  ⟨h'.request.trans h.request, h'.httpVersion.trans h.httpVersion,
    h'.serverConfig.trans h.serverConfig, h'.locationConfig.trans h.locationConfig,
    h'.routes.trans h.routes⟩

theorem of_headersOnly (h : HeadersOnly b b') : Kept b b' := by
  unfold HeadersOnly at h
  rw [h]
  exact ⟨rfl, rfl, rfl, rfl, rfl⟩

theorem setStatus (h : Kept b b') (code : Int) : Kept b (b'.setStatus code) :=
  h.trans ⟨rfl, rfl, rfl, rfl, rfl⟩

theorem setHeaders (h : Kept b b') (key value : Bytes) : Kept b (b'.setHeaders key value) :=
  h.trans ⟨rfl, rfl, rfl, rfl, rfl⟩

theorem setBody (h : Kept b b') (body : Bytes) : Kept b (b'.setBody body) :=
  h.trans ⟨rfl, rfl, rfl, rfl, rfl⟩

variable {W : Type u} {os : OS W} {env : Env} {w : W}

theorem readFile (h : Kept b b') (filename : Bytes) : Kept b (b'.readFile os w filename).1 :=
  h.trans (.of_headersOnly (headersOnly_readFile os w b' filename))

theorem generateDefaultRoot (h : Kept b b') : Kept b b'.generateDefaultRoot.1 :=
  h.setHeaders _ _

theorem generateUploadSuccessPage (h : Kept b b') (filename : Bytes) :
    Kept b (b'.generateUploadSuccessPage filename).1 :=
  h.setHeaders _ _

theorem setErrorPage (h : Kept b b') (code : Int) : Kept b (b'.setErrorPage os w code) := by
  obtain ⟨headers, body, heq⟩ := setErrorPage_eq os w b' code
  rw [heq]
  exact h.trans ⟨rfl, rfl, rfl, rfl, rfl⟩

theorem generateResponseOnly (h : Kept b b') : Kept b (b'.generateResponseOnly env).1 :=
  h.trans (.of_headersOnly (headersOnly_includeRequiredHeaders env b'))

end Kept

section Methods

variable {W : Type u} (os : OS W) (env : Env)

theorem kept_sendFile (w : W) {b b' : ResponseBuilder} (h : Kept b b') (path : Bytes)
    (fileStat : FileStat) : Kept b (sendFile os w b' path fileStat) := by
  unfold sendFile
  split
  · exact h.setErrorPage 403
  · exact ((h.readFile path).setBody _).setStatus 200

theorem kept_generateDirectoryListing (w : W) {b b' : ResponseBuilder} (h : Kept b b')
    (path : Bytes) : Kept b (b'.generateDirectoryListing os w env path).1 := by
  unfold generateDirectoryListing
  split
  · exact h
  · exact h.setHeaders _ _

theorem kept_doGet (w : W) (b : ResponseBuilder) (l : Location) :
    Kept b (doGet os env w b l) := by
  have h := Kept.refl b
  simp only [doGet]
  split
  · exact (h.generateDefaultRoot.setBody _).setStatus 200
  split
  · exact h.setErrorPage 404
  split
  · split
    · exact (h.setErrorPage 301).setHeaders _ _
    · split
      · exact kept_sendFile os w h _ _
      · split
        · have hlist := kept_generateDirectoryListing os env w h (l.root ++ b.request.requestUri)
          split
          · exact hlist.setErrorPage 403
          · exact (hlist.setBody _).setStatus 200
        · exact h.setErrorPage 403
  · exact kept_sendFile os w h _ _

theorem kept_savePart (l : Location) {b b' : ResponseBuilder} (h : Kept b b') (w : W)
    (headers content : Bytes) : Kept b (savePart os env l b' w headers content).1 := by
  unfold savePart
  split
  · exact h
  split
  · exact h
  · simp only
    split
    · exact h
    · exact (((h.setHeaders _ _).setStatus 201).generateUploadSuccessPage _).setBody _

theorem kept_handleMultipartFormData (l : Location) (b : ResponseBuilder) (w : W)
    (contentType reqBody : Bytes) :
    Kept b (handleMultipartFormData os env l b w contentType reqBody).1 := by
  unfold handleMultipartFormData
  split
  · exact .refl b
  rename_i boundaryPos _
  extract_lets boundary r
  have hloop : ∀ x, multipartLoop os env l boundary reqBody b w = some x → Kept b x.1 := by
    refine WhileLoop.total_invariant (I := fun s : MultipartLoop W => Kept b s.b)
      (Q := fun r : Option (ResponseBuilder × W) => ∀ x, r = some x → Kept b x.1)
      ?_ ?_ (.refl b)
    · intro s r hs hr x hx
      rcases multipartIter_cases os env l boundary reqBody s with hr' | ⟨t, _, _, ht, -⟩
      · rw [hr'] at hr
        obtain rfl := Option.some.inj ((Sum.inr.inj hr).trans hx)
        exact hs
      · rw [ht] at hr
        cases hr
    · intro s s' hs hs'
      rcases multipartIter_cases os env l boundary reqBody s with
        hr' | ⟨t, headers, content, ht, hb, -⟩
      · rw [hr'] at hs'
        cases hs'
      · obtain rfl := Sum.inl.inj (ht.symm.trans hs')
        rw [hb]
        exact kept_savePart os env l hs s.w headers content
  exact hloop r (Option.some_get _).symm

theorem kept_doDelete (w : W) (b : ResponseBuilder) (l : Location) :
    Kept b (doDelete os w b l).1 := by
  have h := Kept.refl b
  simp only [doDelete]
  split
  · exact h.setErrorPage 404
  split
  · split
    · exact ((h.setStatus 301).setHeaders _ _).setBody _
    split
    · exact h.setErrorPage 403
    split
    · exact h.setErrorPage 409
    split
    · exact h.setErrorPage 403
    split
    · exact (h.setStatus 204).setBody _
    · exact h.setErrorPage 500
  · split
    · exact (h.setStatus 204).setBody _
    · exact h.setErrorPage 500

end Methods

/-! ## Construction and `build_response` -/

/-- `b'` is `b` behind an answer: the request may have gained header
fields, and the routes are those of the location. -/
structure Answered (b b' : ResponseBuilder) : Prop where
  request : b'.request = { b.request with headers := b'.request.headers }
  httpVersion : b'.httpVersion = b.httpVersion
  serverConfig : b'.serverConfig = b.serverConfig
  locationConfig : b'.locationConfig = b.locationConfig
  routes : ∀ method, (b'.routes.get? method).isSome → (b.routes.get? method).isSome
    ∨ ∃ l, b.locationConfig = some l ∧ method ∈ l.allowedMethods

namespace Answered

variable {b b' b'' : ResponseBuilder}

theorem kept (h : Answered b b') (h' : Kept b' b'') : Answered b b'' where
  request := by rw [h'.request]; exact h.request
  httpVersion := h'.httpVersion.trans h.httpVersion
  serverConfig := h'.serverConfig.trans h.serverConfig
  locationConfig := h'.locationConfig.trans h.locationConfig
  routes := by rw [h'.routes]; exact h.routes

theorem trans (h : Answered b b') (h' : Answered b' b'') : Answered b b'' where
  request := by rw [h'.request, h.request]
  httpVersion := h'.httpVersion.trans h.httpVersion
  serverConfig := h'.serverConfig.trans h.serverConfig
  locationConfig := h'.locationConfig.trans h.locationConfig
  routes := fun method hm => by
    rcases h'.routes method hm with hget | ⟨l, hl, hmem⟩
    · exact h.routes method hget
    · exact Or.inr ⟨l, h.locationConfig ▸ hl, hmem⟩

theorem of_kept (h : Kept b b') : Answered b b' :=
  (⟨rfl, rfl, rfl, rfl, fun _ h => Or.inl h⟩ : Answered b b).kept h

end Answered

theorem get?_foldl_routes {method : Bytes}
    {f : OrdMap Bytes Route → Bytes → OrdMap Bytes Route}
    (hf : ∀ routes m, ((f routes m).get? method).isSome →
      (routes.get? method).isSome ∨ m = method) :
    ∀ (methods : List Bytes) (routes : OrdMap Bytes Route),
    ((methods.foldl f routes).get? method).isSome →
    (routes.get? method).isSome ∨ method ∈ methods
  | [], _, h => Or.inl h
  | m :: methods, routes, h => by
      rcases get?_foldl_routes hf methods (f routes m) h with hget | hmem
      · rcases hf routes m hget with hroute | rfl
        · exact Or.inl hroute
        · exact Or.inr List.mem_cons_self
      · exact Or.inr (List.mem_cons_of_mem m hmem)

theorem initRoutes_get? {b : ResponseBuilder} {l : Location} {method : Bytes}
    (h : ((b.initRoutes l).routes.get? method).isSome) :
    (b.routes.get? method).isSome ∨ method ∈ l.allowedMethods := by
  refine get?_foldl_routes (fun routes m hget => ?_) l.allowedMethods b.routes h
  split at hget
  · split at hget
    · rw [OrdMap.get?_insert] at hget
      split at hget
      · rename_i heq
        exact Or.inr heq
      · exact Or.inl hget
    · exact Or.inl hget
  · exact Or.inl hget

theorem answered_initRoutes {b : ResponseBuilder} {l : Location}
    (hl : b.locationConfig = some l) : Answered b (b.initRoutes l) :=
  ⟨rfl, rfl, rfl, rfl, fun _ h => (initRoutes_get? h).imp_right fun hm => ⟨l, hl, hm⟩⟩

section Building

variable {W : Type u} (os : OS W) (env : Env)

/-- The request a builder is created with: the look-up of the session
cookie adds an empty field where there is none. -/
def sourceRequest (p : RequestParser) : RequestParser := (p.getHeaderValue (lit "cookie")).1

/-- `b` is built from the request `p`, and has no routes yet. -/
structure BuiltFrom (p : RequestParser) (b : ResponseBuilder) : Prop where
  request : b.request = sourceRequest p
  httpVersion : b.httpVersion = lit "HTTP/1.1"
  serverConfig : b.serverConfig = p.serverConfig
  locationConfig : b.locationConfig = p.locationConfig
  routes : b.routes = OrdMap.empty

theorem builtFrom_create (w : W) (p : RequestParser) : BuiltFrom p (create os w env p) := by
  unfold create
  extract_lets b
  generalize hconfig : b.initConfig os w = b'
  have h : b'.request = p ∧ b'.httpVersion = lit "HTTP/1.1"
      ∧ b'.serverConfig = p.serverConfig ∧ b'.locationConfig = p.locationConfig
      ∧ b'.routes = OrdMap.empty := by
    rw [← hconfig]
    simp only [initConfig]
    split
    · obtain ⟨headers, body, heq⟩ := setErrorPage_eq os w
        { b with
          serverConfig := b.request.serverConfig
          locationConfig := b.request.locationConfig }
        404
      rw [heq]
      exact ⟨rfl, rfl, rfl, rfl, rfl⟩
    · exact ⟨rfl, rfl, rfl, rfl, rfl⟩
  obtain ⟨hrequest, hversion, hserver, hlocation, hroutes⟩ := h
  have hcookie : (getCookie b'.request (lit "session_id")).1 = sourceRequest p := by
    rw [hrequest]
    simp only [getCookie, sourceRequest]
    split
    · rfl
    · rfl
  simp only [processSessionCookie]
  split
  · exact ⟨hcookie, hversion, hserver, hlocation, hroutes⟩
  · exact ⟨hcookie, hversion, hserver, hlocation, hroutes⟩

/-- Beside the look-up of the content type, `doPOST` leaves the request. -/
theorem kept_doPost (w : W) (b : ResponseBuilder) (l : Location) :
    Kept { b with request := (b.request.getHeaderValue (lit "content-type")).1 }
      (doPost os env w b l).1 := by
  simp only [doPost]
  generalize ({ b with
    request := (b.request.getHeaderValue (lit "content-type")).1 } : ResponseBuilder) = b'
  have h := Kept.refl b'
  split
  · exact h.setErrorPage 500
  split
  · split
    · exact (kept_handleMultipartFormData os env l b' w _ _).setErrorPage 403
    · exact kept_handleMultipartFormData os env l b' w _ _
  · split
    · exact h.setErrorPage 403
    · exact ((h.setStatus 201).generateUploadSuccessPage _).setBody _

theorem answered_doPost (w : W) (b : ResponseBuilder) (l : Location) :
    Answered b (doPost os env w b l).1 := by
  have hlookup : Answered b { b with
      request := (b.request.getHeaderValue (lit "content-type")).1 } :=
    ⟨rfl, rfl, rfl, rfl, fun _ h => Or.inl h⟩
  exact hlookup.kept (kept_doPost os env w b l)

theorem answered_runRoute (route : Route) (w : W) (b : ResponseBuilder) (l : Location) :
    Answered b (runRoute os env route w b l).1 := by
  cases route with
  | doGet => exact .of_kept (kept_doGet os env w b l)
  | doPost => exact answered_doPost os env w b l
  | doDelete => exact .of_kept (kept_doDelete os w b l)

theorem kept_handleRedirection (w : W) (b : ResponseBuilder) :
    Kept b (handleRedirection os w b) := by
  unfold handleRedirection
  split
  · split
    · exact ((Kept.refl b).setErrorPage _).setHeaders _ _
    · exact .refl b
  · exact .refl b

/-- A request with an error is answered with its code, and nothing else is
done. -/
theorem buildResponse_error {b : ResponseBuilder} (h : b.request.errorCode ≠ 0) (w : W) :
    b.buildResponse os env w = some
      (((b.setErrorPage os w b.request.errorCode).generateResponseOnly env).1, w,
        ((b.setErrorPage os w b.request.errorCode).generateResponseOnly env).2) := by
  rw [buildResponse, if_pos h]

theorem buildResponse_eq_none {b : ResponseBuilder} {w : W}
    (h : b.buildResponse os env w = none) :
    b.request.errorCode = 0 ∧ b.locationConfig = none := by
  unfold buildResponse at h
  split at h
  · cases h
  · rename_i herr
    split at h
    · rename_i hl
      exact ⟨not_not.mp herr, hl⟩
    · cases h

theorem answered_runLocation (w : W) {b : ResponseBuilder} {l : Location}
    (hl : b.locationConfig = some l) : Answered b (runLocation os env w b l).1 := by
  unfold runLocation
  split
  · extract_lets b'
    have h : Kept b b' := ((Kept.refl b).setStatus _).setBody _
    split
    · exact .of_kept (h.setHeaders _ _)
    · exact .of_kept h
  · have h := answered_initRoutes hl
    simp only
    split
    · exact h.kept ((Kept.refl _).setErrorPage 405)
    · exact h.trans (answered_runRoute os env _ w _ l)

theorem buildResponse_routed {b : ResponseBuilder} (h : b.request.errorCode = 0) {l : Location}
    (hl : b.locationConfig = some l) (w : W) :
    b.buildResponse os env w = some
      (((handleRedirection os (runLocation os env w b l).2
          (runLocation os env w b l).1).generateResponseOnly env).1,
        (runLocation os env w b l).2,
        ((handleRedirection os (runLocation os env w b l).2
          (runLocation os env w b l).1).generateResponseOnly env).2) := by
  simp only [buildResponse, if_neg (not_not.mpr h), hl]

theorem buildResponse_answered {b b' : ResponseBuilder} {w w' : W} {response : Bytes}
    (h : b.buildResponse os env w = some (b', w', response)) : Answered b b' := by
  by_cases herr : b.request.errorCode = 0
  · cases hl : b.locationConfig with
    | none => simp [buildResponse, herr, hl] at h
    | some l =>
        rw [buildResponse_routed os env herr hl, Option.some.injEq, Prod.mk.injEq] at h
        rw [← h.1]
        exact (answered_runLocation os env w hl).kept
          (kept_handleRedirection os _ _).generateResponseOnly
  · rw [buildResponse_error os env herr, Option.some.injEq, Prod.mk.injEq] at h
    rw [← h.1]
    exact .of_kept ((Kept.refl b).setErrorPage _).generateResponseOnly

end Building

end ResponseBuilder

/-! ## The output of a script -/

namespace CgiHandler

open ResponseBuilder

theorem kept_outputHeaderLine {b : ResponseBuilder} {s : OutputLoop} (h : Kept b s.b)
    (line : Bytes) : Kept b (outputHeaderLine s line).b := by
  unfold outputHeaderLine
  extract_lets line colonPos headerName headerValue
  split
  · exact h
  split
  · exact h
  split
  · split
    · exact h.setStatus _
    · exact h
  · exact h.setHeaders _ _

theorem kept_processCgiOutput (cgiOutput : Bytes) (b : ResponseBuilder) :
    Kept b (processCgiOutput cgiOutput b) := by
  have hlines : ∀ (lines : List Bytes) (s : OutputLoop), Kept b s.b →
      Kept b (lines.foldl outputHeaderLine s).b := by
    intro lines
    induction lines with
    | nil => exact fun s h => h
    | cons line lines ih => exact fun s h => ih _ (kept_outputHeaderLine h line)
  unfold processCgiOutput
  extract_lets b₀
  have h₀ : Kept b b₀ := (Kept.refl b).setStatus 200
  split
  rename_i headers body _
  extract_lets s b₁
  have hs : Kept b s.b := hlines _ _ h₀
  have h₁ : Kept b b₁ := by
    simp only [b₁]
    split
    · exact hs
    · exact hs.setStatus 200
  exact (h₁.setHeaders _ _).setBody body

end CgiHandler

end Webserv
