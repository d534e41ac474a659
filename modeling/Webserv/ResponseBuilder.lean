import Webserv.System
import Webserv.RequestParser

/-!
# The response builder

`ResponseBuilder` as `srcs/ReqRes/ResponseBuilder.cpp` has it, with
`SessionCookieHandler`. A method that reads files takes the file system,
one that writes files returns it. A method behind `init_routes` takes
the `Location` that `location_config` points to.

Left out: the log, `response`, which nothing sets, and the local
`content_length` of `handleMultipartFormData`, which nothing reads.
-/

universe u

namespace Webserv

open Bytes

def crlf : Bytes := [cr, lf]

/-- `WEBSERV_NAME` -/
def webservName : Bytes := lit "Not Nginx/4.2"

/-- The texts of `set_status`. -/
def statusTable : List (Int × Bytes) :=
  [
    (100, lit "100 Continue"),
    (101, lit "101 Switching Protocols"),
    (102, lit "102 Processing"),
    (200, lit "200 OK"),
    (201, lit "201 Created"),
    (202, lit "202 Accepted"),
    (203, lit "203 Non-authoritative Information"),
    (204, lit "204 No Content"),
    (205, lit "205 Reset Content"),
    (206, lit "206 Partial Content"),
    (207, lit "207 Multi-Status"),
    (208, lit "208 Already Reported"),
    (226, lit "226 IM Used"),
    (300, lit "300 Multiple Choices"),
    (301, lit "301 Moved Permanently"),
    (302, lit "302 Found"),
    (303, lit "303 See Other"),
    (304, lit "304 Not Modified"),
    (305, lit "305 Use Proxy"),
    (307, lit "307 Temporary Redirect"),
    (308, lit "308 Permanent Redirect"),
    (400, lit "400 Bad Request"),
    (401, lit "401 Unauthorized"),
    (402, lit "402 Payment Required"),
    (403, lit "403 Forbidden"),
    (404, lit "404 Not Found"),
    (405, lit "405 Method Not Allowed"),
    (406, lit "406 Not Acceptable"),
    (407, lit "407 Proxy Authentication Required"),
    (408, lit "408 Request Timeout"),
    (409, lit "409 Conflict"),
    (410, lit "410 Gone"),
    (411, lit "411 Length Required"),
    (412, lit "412 Precondition Failed"),
    (413, lit "413 Payload Too Large"),
    (414, lit "414 Request-URI Too Long"),
    (415, lit "415 Unsupported Media Type"),
    (416, lit "416 Requested Range Not Satisfiable"),
    (417, lit "417 Expectation Failed"),
    (418, lit "418 I'm a teapot"),
    (421, lit "421 Misdirected Request"),
    (422, lit "422 Unprocessable Entity"),
    (423, lit "423 Locked"),
    (424, lit "424 Failed Dependency"),
    (426, lit "426 Upgrade Required"),
    (429, lit "429 Too Many Requests"),
    (431, lit "431 Request Header Fields Too Large"),
    (444, lit "444 Connection Closed Without Response"),
    (451, lit "451 Unavailable For Legal Reasons"),
    (499, lit "499 Client Closed Request"),
    (500, lit "500 Internal Server Error"),
    (501, lit "501 Not Implemented"),
    (502, lit "502 Bad Gateway"),
    (503, lit "503 Service Unavailable"),
    (504, lit "504 Gateway Timeout"),
    (505, lit "505 HTTP Version Not Supported"),
    (506, lit "506 Variant Also Negotiates"),
    (507, lit "507 Insufficient Storage"),
    (508, lit "508 Loop Detected"),
    (510, lit "510 Not Extended"),
    (511, lit "511 Network Authentication Required"),
    (599, lit "599 Network Connect Timeout Error")]

def statusText (code : Int) : Bytes :=
  match statusTable.find? fun entry => entry.1 = code with
  | some entry => entry.2
  | none => lit "UNDEFINED HTTP STATUS CODE"

def mimeTypes : List (Bytes × Bytes) :=
  [
    (lit ".html", lit "text/html"),
    (lit ".htm", lit "text/html"),
    (lit ".css", lit "text/css"),
    (lit ".js", lit "application/javascript"),
    (lit ".json", lit "application/json"),
    (lit ".xml", lit "application/xml"),
    (lit ".txt", lit "text/plain"),
    (lit ".jpg", lit "image/jpeg"),
    (lit ".jpeg", lit "image/jpeg"),
    (lit ".png", lit "image/png"),
    (lit ".gif", lit "image/gif"),
    (lit ".svg", lit "image/svg+xml"),
    (lit ".ico", lit "image/x-icon"),
    (lit ".webp", lit "image/webp"),
    (lit ".mp4", lit "video/mp4"),
    (lit ".webm", lit "video/webm"),
    (lit ".ogg", lit "video/ogg"),
    (lit ".mp3", lit "audio/mpeg"),
    (lit ".wav", lit "audio/wav"),
    (lit ".pdf", lit "application/pdf"),
    (lit ".csv", lit "text/csv"),
    (lit ".doc", lit "application/msword"),
    (lit ".docx", lit "application/vnd.openxmlformats-officedocument.wordprocessingml.document"),
    (lit ".xls", lit "application/vnd.ms-excel"),
    (lit ".xlsx", lit "application/vnd.openxmlformats-officedocument.spreadsheetml.sheet"),
    (lit ".ppt", lit "application/vnd.ms-powerpoint"),
    (lit ".pptx", lit "application/vnd.openxmlformats-officedocument.presentationml.presentation"),
    (lit ".zip", lit "application/zip"),
    (lit ".rar", lit "application/x-rar-compressed"),
    (lit ".tar", lit "application/x-tar"),
    (lit ".gz", lit "application/gzip"),
    (lit ".iso", lit "application/x-iso9660-image"),
    (lit ".bin", lit "application/octet-stream"),
    (lit ".apk", lit "application/vnd.android.package-archive"),
    (lit ".exe", lit "application/x-msdownload")]

def detectMimeType (path : Bytes) : Bytes :=
  match rfind dot path with
  | some extPos =>
      match mimeTypes.find? fun entry => entry.1 = path.drop extPos with
      | some entry => entry.2
      | none => lit "application/octet-stream"
  | none => lit "application/octet-stream"

/-- An `int` stored in a `short`. -/
def toShort (n : Int) : Int := (n + 32768) % 65536 - 32768

/-- The values of the `routes` map. -/
inductive Route where
  | doGet
  | doPost
  | doDelete
deriving DecidableEq, Repr

structure ResponseBuilder where
  request : RequestParser
  httpVersion : Bytes := lit "HTTP/1.1"
  status : Bytes := []
  headers : HeaderMap := OrdMap.empty
  body : Bytes := []
  statusCode : Int
  routes : OrdMap Bytes Route := OrdMap.empty
  serverConfig : Option ServerConfig := none
  locationConfig : Option Location := none
deriving DecidableEq

namespace ResponseBuilder

def setStatus (b : ResponseBuilder) (statusCode : Int) : ResponseBuilder :=
  let code := toShort statusCode
  { b with
    statusCode := code
    status := statusText code
    headers :=
      if code = 200 then b.headers.insert (lit "Accept-Ranges") (lit "bytes")
      else b.headers }

def setHeaders (b : ResponseBuilder) (key value : Bytes) : ResponseBuilder :=
  { b with headers := b.headers.insert key value }

def setBody (b : ResponseBuilder) (body : Bytes) : ResponseBuilder :=
  { b with body := body }

/-! ## Pages -/

section Pages

variable {W : Type u} (os : OS W) (w : W)

def readFile (b : ResponseBuilder) (filename : Bytes) : ResponseBuilder × Bytes :=
  match os.readFile w filename with
  | none => (b, [])
  | some content =>
      (b.setHeaders (lit "Content-Type") (detectMimeType filename), content)

/-- The built-in page of `generate_error_page`. -/
def defaultErrorPage (status : Bytes) : Bytes :=
  lit "<html>\n<head>\n<title>" ++ status ++ lit "</title>\n</head>\n"
    ++ lit "<body style=\"font-family:sans-serif;\">\n<center><h1>" ++ status
    ++ lit "</h1></center><hr />\n"
    ++ lit "<center>" ++ webservName ++ lit "</center>\n"
    ++ lit "</body>\n</html>\n"

def generateErrorPage (b : ResponseBuilder) : ResponseBuilder × Bytes :=
  let errorPage := b.serverConfig.bind fun cfg => cfg.errorPages.get? b.statusCode
  let (b, errorPageFile) :=
    match errorPage with
    | some errorPageName => b.readFile os w errorPageName
    | none => (b, [])
  if errorPageFile ≠ [] then (b, errorPageFile)
  else (b.setHeaders (lit "Content-Type") (lit "text/html"), defaultErrorPage b.status)

/-- `set_status(code)`, then the error page as the body. -/
def setErrorPage (b : ResponseBuilder) (code : Int) : ResponseBuilder :=
  let (b, page) := (b.setStatus code).generateErrorPage os w
  b.setBody page

def generateDefaultRoot (b : ResponseBuilder) : ResponseBuilder × Bytes :=
  (b.setHeaders (lit "Content-Type") (lit "text/html"),
    lit "<html>\n<head>\n<title>Welcome to Webserv!</title>\n</head>\n"
      ++ lit "<body style=\"font-family:sans-serif;\">\n<center><h1>Welcome to Webserv!</h1></center>\n"
      ++ lit "<center><p style=\"font-size:20px;\">If you see this page, the web server is successfully compiled and working. Further configuration is required.<br />Thank you for testing our web server.</p></center>\n"
      ++ lit "</body>\n</html>\n")

/-- The line of one entry of a directory listing; `suffix` is a slash
behind a directory. -/
def listingEntry (httpDate entryName suffix : Bytes) : Bytes :=
  lit "<li style=\"letter-spacing:1.5;font-size:18px;\"><a href=\"" ++ entryName ++ suffix
    ++ lit "\">" ++ entryName ++ suffix ++ lit "</a>&emsp;&emsp;&emsp;" ++ httpDate
    ++ lit "&emsp;&emsp;&emsp;-</li><br>\n"

def generateDirectoryListing (env : Env) (b : ResponseBuilder) (path : Bytes) :
    ResponseBuilder × Bytes :=
  match os.readDir w path with
  | none => (b, [])
  | some names =>
      let entries := (names.filter fun name => name ∉ [lit ".", lit ".."]).map fun entryName =>
        let isDir := (os.stat w (path ++ slash :: entryName)).any fun st => st.isDir
        listingEntry env.httpDate entryName (if isDir then [slash] else [])
      (b.setHeaders (lit "Content-Type") (lit "text/html"),
        lit "<html>\n<head>\n<title>Directory Listing</title>\n</head>\n"
          ++ lit "<body>\n<h1 style=\"color:#4b4b4b;font-family:sans-serif;\">Directory Listing for "
          ++ path ++ lit "</h1><hr>\n" ++ lit "<ul>\n" ++ entries.flatten
          ++ lit "</ul>\n</body>\n</html>")

def generateUploadSuccessPage (b : ResponseBuilder) (filename : Bytes) :
    ResponseBuilder × Bytes :=
  (b.setHeaders (lit "Content-Type") (lit "text/html"),
    lit "<html>\n" ++ lit "<head>\n<title>Upload Successful</title>\n</head>\n" ++ lit "<body>\n"
      ++ lit "<h1 style=\"color:#4b4b4b;font-family:sans-serif;\">File Upload Successful</h1>\n"
      ++ lit "<p>Your file has been uploaded successfully.</p>\n"
      ++ lit "<p><strong>Saved as:</strong> " ++ filename ++ lit "</p>\n"
      ++ lit "</body>\n" ++ lit "</html>\n")

/-! ## Construction -/

/-- `SessionCookieHandler::get_cookie`: the text behind the first
occurrence of `name=`, up to a semicolon. -/
def getCookie (request : RequestParser) (name : Bytes) : RequestParser × Bytes :=
  let (request, cookieHeader) := request.getHeaderValue (lit "cookie")
  match find (name ++ lit "=") cookieHeader with
  | none => (request, [])
  | some startPos =>
      (request, (cookieHeader.drop (startPos + name.length + 1)).takeWhile (· != semicolon))

/-- `SessionCookieHandler::set_cookie` -/
def setCookie (b : ResponseBuilder) (name value : Bytes) (maxAgeSeconds : Nat) :
    ResponseBuilder :=
  b.setHeaders (lit "Set-Cookie")
    (name ++ lit "=" ++ value
      ++ (if maxAgeSeconds > 0 then lit "; Max-Age=" ++ decimal maxAgeSeconds else [])
      ++ lit "; Path=/" ++ lit "; HttpOnly; SameSite=Strict")

def initConfig (b : ResponseBuilder) : ResponseBuilder :=
  let b := { b with
    serverConfig := b.request.serverConfig
    locationConfig := b.request.locationConfig }
  if b.serverConfig.isNone || b.locationConfig.isNone then b.setErrorPage os w 404 else b

def processSessionCookie (env : Env) (b : ResponseBuilder) : ResponseBuilder :=
  let (request, sessionId) := getCookie b.request (lit "session_id")
  let b := { b with request := request }
  if sessionId = [] then b.setCookie (lit "session_id") (generateSessionId env) 3600 else b

/-- The constructor. `status_code` is only written by `set_status`. -/
def create (env : Env) (rawRequest : RequestParser) : ResponseBuilder :=
  let b : ResponseBuilder := { request := rawRequest, statusCode := env.garbage }
  (b.initConfig os w).processSessionCookie env

end Pages

/-! ## Routes -/

def methodTable : List (Bytes × Route) :=
  [(lit "GET", .doGet), (lit "POST", .doPost), (lit "DELETE", .doDelete)]

def initRoutes (b : ResponseBuilder) (l : Location) : ResponseBuilder :=
  { b with
    routes := l.allowedMethods.foldl (fun routes method =>
      match methodTable.find? fun entry => entry.1 = method with
      | some entry =>
          if (routes.get? method).isNone then routes.insert method entry.2 else routes
      | none => routes) b.routes }

section Methods

variable {W : Type u} (os : OS W) (env : Env)

/-- The last byte of `uri` is no slash. -/
def noTrailingSlash (uri : Bytes) : Bool := uri.getLast? != some slash

/-- The end of `doGET`, for a path with the `stat` result it is left
with. -/
def sendFile (w : W) (b : ResponseBuilder) (path : Bytes) (fileStat : FileStat) :
    ResponseBuilder :=
  if !fileStat.ownerRead then b.setErrorPage os w 403
  else
    let (b, content) := b.readFile os w path
    (b.setBody content).setStatus 200

def doGet (w : W) (b : ResponseBuilder) (l : Location) : ResponseBuilder :=
  let uri := b.request.requestUri
  if uri = [slash] ∧ l.root = [] then
    let (b, page) := b.generateDefaultRoot
    (b.setBody page).setStatus 200
  else
    let path := l.root ++ uri
    match os.stat w path with
    | none => b.setErrorPage os w 404
    | some fileStat =>
        if fileStat.isDir then
          if noTrailingSlash uri then
            (b.setErrorPage os w 301).setHeaders (lit "Location") (uri ++ lit "/")
          else
            match os.stat w (path ++ l.index) with
            | some fileStat => sendFile os w b (path ++ l.index) fileStat
            | none =>
                if l.autoindex then
                  let (b, page) := b.generateDirectoryListing os w env path
                  if page = [] then b.setErrorPage os w 403
                  else (b.setBody page).setStatus 200
                else b.setErrorPage os w 403
        else sendFile os w b path fileStat

/-! ## Uploads -/

def validateUploadPath (w : W) (uploadPath : Bytes) : Bool :=
  (os.stat w uploadPath).any fun st => st.isDir

/-- `s.find(pat, pos)` -/
def findFrom (pat s : Bytes) (pos : Nat) : Option Nat :=
  if pos ≤ s.length then (find pat (s.drop pos)).map (· + pos) else none

/-- `s.substr(pos, n)`; `none` is `std::out_of_range`. -/
def substr (s : Bytes) (pos n : Nat) : Option Bytes :=
  if pos ≤ s.length then some ((s.drop pos).take n) else none

/-- The file name of a part, if its headers have one. -/
def partFilename (headers : Bytes) : Option Bytes :=
  match find (lit "filename=\"") headers with
  | none => none
  | some filenamePos =>
      match findFrom (lit "\"") headers (filenamePos + 10) with
      | none => none
      | some filenameEnd =>
          substr headers (filenamePos + 10) (filenameEnd - (filenamePos + 10))

def invalidFilename (filename : Bytes) : Bool :=
  filename = [] || (find (lit "..") filename).isSome || decide (slash ∈ filename)

/-- The end of the loop body of `handleMultipartFormData`: one part saved
or passed over. -/
def savePart (l : Location) (b : ResponseBuilder) (w : W) (headers content : Bytes) :
    ResponseBuilder × W :=
  match partFilename headers with
  | none => (b, w)
  | some filename =>
      if invalidFilename filename then (b, w)
      else
        let safeName := lit "upload_" ++ timestampStr env.localTime ++ lit "_" ++ filename
        let fullPath := l.uploadStore ++ lit "/" ++ safeName
        let (w, saved) := os.writeFile w fullPath content
        if !saved then (b, w)
        else
          let b := (b.setHeaders (lit "Location") fullPath).setStatus 201
          let (b, page) := b.generateUploadSuccessPage safeName
          (b.setBody page, w)

/-- The variables of the loop of `handleMultipartFormData`. -/
structure MultipartLoop (W : Type u) where
  b : ResponseBuilder
  w : W
  pos : Nat

/-- One part; the loop is left with `none` by `std::out_of_range`. -/
def multipartIter (l : Location) (boundary body : Bytes) (s : MultipartLoop W) :
    MultipartLoop W ⊕ Option (ResponseBuilder × W) :=
  match findFrom boundary body s.pos with
  | none => .inr (some (s.b, s.w))
  | some nextPos =>
      let pos := nextPos + boundary.length
      match substr body pos 2 with
      | none => .inr none
      | some two =>
          if pos < body.length ∧ two = lit "--" then .inr (some (s.b, s.w))
          else
            let pos := if two = crlf then pos + 2 else pos
            match findFrom doubleCrlf body pos with
            | none => .inr (some (s.b, s.w))
            | some headerEnd =>
                match substr body pos (headerEnd - pos) with
                | none => .inr none
                | some headers =>
                    let pos := headerEnd + 4
                    match findFrom boundary body pos with
                    | none => .inr (some (s.b, s.w))
                    | some partEnd =>
                        match substr body pos (partEnd - pos) with
                        | none => .inr none
                        | some content =>
                            let r := savePart os env l s.b s.w headers content
                            .inl { b := r.1, w := r.2, pos := pos }

theorem findFrom_le {pat s : Bytes} {pos k : Nat} (h : findFrom pat s pos = some k) :
    pos ≤ k ∧ k + pat.length ≤ s.length := by
  unfold findFrom at h
  split at h
  · rename_i hpos
    obtain ⟨k', hk', rfl⟩ := Option.map_eq_some_iff.mp h
    have := find_le hk'
    rw [List.length_drop] at this
    omega
  · cases h

theorem substr_of_le {s : Bytes} {pos : Nat} (h : pos ≤ s.length) (n : Nat) :
    substr s pos n = some ((s.drop pos).take n) :=
  if_pos h

theorem substr_take_le {s t : Bytes} {pos : Nat} (h : substr s pos 2 = some t)
    (ht : t = crlf) : pos + 2 ≤ s.length := by
  unfold substr at h
  split at h
  · have hlen := congrArg List.length ((Option.some.inj h).trans ht)
    simp only [List.length_take, List.length_drop, crlf, List.length_cons, List.length_nil]
      at hlen
    omega
  · cases h

/-- A round never throws, and one that continues has handled a part and
moved on within the body. -/
theorem multipartIter_cases (l : Location) (boundary body : Bytes) (s : MultipartLoop W) :
    multipartIter os env l boundary body s = .inr (some (s.b, s.w))
      ∨ ∃ s' headers content, multipartIter os env l boundary body s = .inl s'
        ∧ s'.b = (savePart os env l s.b s.w headers content).1
        ∧ s.pos < s'.pos ∧ s'.pos ≤ body.length := by
  simp only [multipartIter]
  cases hnext : findFrom boundary body s.pos with
  | none => exact Or.inl rfl
  | some nextPos =>
  obtain ⟨hle, hin⟩ := findFrom_le hnext
  simp only
  cases htwo : substr body (nextPos + boundary.length) 2 with
  | none =>
      rw [substr_of_le hin] at htwo
      cases htwo
  | some two =>
  simp only
  split
  · exact Or.inl rfl
  generalize hpos : (if two = crlf then nextPos + boundary.length + 2
    else nextPos + boundary.length) = pos
  have hpos_le : nextPos + boundary.length ≤ pos ∧ pos ≤ body.length := by
    rw [← hpos]
    split
    · rename_i hcrlf
      exact ⟨by omega, substr_take_le htwo hcrlf⟩
    · exact ⟨Nat.le_refl _, hin⟩
  cases hheader : findFrom doubleCrlf body pos with
  | none => exact Or.inl rfl
  | some headerEnd =>
  obtain ⟨hle', hin'⟩ := findFrom_le hheader
  have hfour : doubleCrlf.length = 4 := rfl
  rw [hfour] at hin'
  simp only [substr_of_le hpos_le.2]
  cases findFrom boundary body (headerEnd + 4) with
  | none => exact Or.inl rfl
  | some partEnd =>
      simp only [substr_of_le hin']
      exact Or.inr ⟨_, _, _, rfl, rfl, by simp only; omega, hin'⟩

theorem multipartIter_lt (l : Location) (boundary body : Bytes) (s s' : MultipartLoop W)
    (h : multipartIter os env l boundary body s = .inl s') :
    body.length - s'.pos < body.length - s.pos := by
  rcases multipartIter_cases os env l boundary body s with hr | ⟨t, _, _, ht, -, hlt, hle⟩
  · rw [hr] at h
    cases h
  · obtain rfl := Sum.inl.inj (ht.symm.trans h)
    omega

/-- The loop of `handleMultipartFormData` from the start of the body;
`none` is `std::out_of_range`. -/
def multipartLoop (l : Location) (boundary body : Bytes) (b : ResponseBuilder) (w : W) :
    Option (ResponseBuilder × W) :=
  WhileLoop.total (multipartIter os env l boundary body) (fun s => body.length - s.pos)
    (multipartIter_lt os env l boundary body) { b := b, w := w, pos := 0 }

/-- No offset of the loop is out of range. -/
theorem multipartLoop_isSome (l : Location) (boundary body : Bytes) (b : ResponseBuilder)
    (w : W) : (multipartLoop os env l boundary body b w).isSome := by
  refine WhileLoop.total_invariant (I := fun _ : MultipartLoop W => True)
    (Q := fun r : Option (ResponseBuilder × W) => r.isSome) ?_ (fun _ _ _ _ => trivial) trivial
  intro s r _ hr
  rcases multipartIter_cases os env l boundary body s with hr' | ⟨t, _, _, ht, -⟩
  · obtain rfl := Sum.inr.inj (hr'.symm.trans hr)
    rfl
  · rw [ht] at hr
    cases hr

/-- `handleMultipartFormData`; `false` when there is no boundary. -/
def handleMultipartFormData (l : Location) (b : ResponseBuilder) (w : W)
    (contentType reqBody : Bytes) : ResponseBuilder × W × Bool :=
  match find (lit "boundary=") contentType with
  | none => (b, w, false)
  | some boundaryPos =>
      let boundary := lit "--" ++ contentType.drop (boundaryPos + 9)
      let r := (multipartLoop os env l boundary reqBody b w).get
        (multipartLoop_isSome os env l boundary reqBody b w)
      (r.1, r.2, true)

def doPost (w : W) (b : ResponseBuilder) (l : Location) : ResponseBuilder × W :=
  let (request, contentType) := b.request.getHeaderValue (lit "content-type")
  let b := { b with request := request }
  let reqBody := b.request.body
  if !validateUploadPath os w l.uploadStore then (b.setErrorPage os w 500, w)
  else if (find (lit "multipart/form-data") contentType).isSome then
    let (b, w, ok) := handleMultipartFormData os env l b w contentType reqBody
    if !ok then (b.setErrorPage os w 403, w) else (b, w)
  else
    let filename := lit "upload_" ++ timestampStr env.localTime ++ lit ".bin"
    let fullPath := l.uploadStore ++ lit "/" ++ filename
    let (w, saved) := os.writeFile w fullPath reqBody
    if !saved then (b.setErrorPage os w 403, w)
    else
      let (b, page) := (b.setStatus 201).generateUploadSuccessPage filename
      (b.setBody page, w)

/-! ## Deletion -/

def doDelete (w : W) (b : ResponseBuilder) (l : Location) : ResponseBuilder × W :=
  let uri := b.request.requestUri
  let path := l.root ++ uri
  match os.stat w path with
  | none => (b.setErrorPage os w 404, w)
  | some pathStat =>
      if pathStat.isDir then
        if noTrailingSlash uri then
          (((b.setStatus 301).setHeaders (lit "Location") (uri ++ lit "/")).setBody [], w)
        else
          match os.readDir w path with
          | none => (b.setErrorPage os w 403, w)
          | some names =>
              let isEmpty := names.all fun name => name ∈ [lit ".", lit ".."]
              if !isEmpty then (b.setErrorPage os w 409, w)
              else if !os.writable w path then (b.setErrorPage os w 403, w)
              else
                let (w, ok) := os.rmdir w path
                if ok then ((b.setStatus 204).setBody [], w) else (b.setErrorPage os w 500, w)
      else
        let (w, ok) := os.remove w path
        if ok then ((b.setStatus 204).setBody [], w) else (b.setErrorPage os w 500, w)

/-! ## The response -/

def runRoute (route : Route) (w : W) (b : ResponseBuilder) (l : Location) :
    ResponseBuilder × W :=
  match route with
  | .doGet => (doGet os env w b l, w)
  | .doPost => doPost os env w b l
  | .doDelete => doDelete os w b l

def handleRedirection (w : W) (b : ResponseBuilder) : ResponseBuilder :=
  match b.locationConfig with
  | some l =>
      if l.isRedirect then
        (b.setErrorPage os w (if l.isRedirectPermanent then 301 else 302)).setHeaders
          (lit "Location") l.redirectUrl
      else b
  | none => b

/-- The values joined with `, ` for the `Allow` field. -/
def joinMethods : List Bytes → Bytes
  | [] => []
  | [method] => method
  | method :: methods => method ++ lit ", " ++ joinMethods methods

def includeRequiredHeaders (b : ResponseBuilder) : ResponseBuilder :=
  let b := b.setHeaders (lit "Server") webservName
  let b := b.setHeaders (lit "Date") env.httpDate
  let b :=
    if (b.headers.get? (lit "Content-Type")).isNone && !b.request.isCgiRequest then
      b.setHeaders (lit "Content-Type") (detectMimeType b.request.requestUri)
    else b
  let b :=
    match b.headers.get? (lit "Transfer-Encoding") with
    | some coding =>
        if coding = lit "chunked" then
          { b with headers := b.headers.erase (lit "Content-Length") }
        else b
    | none => b.setHeaders (lit "Content-Length") (decimal b.body.length)
  let b :=
    if (b.headers.get? (lit "Connection")).isNone then
      b.setHeaders (lit "Connection")
        (if b.request.isConnectionClose then lit "close" else lit "keep-alive")
    else b
  match b.locationConfig with
  | some l =>
      if b.statusCode = 405 && (b.headers.get? (lit "Allow")).isNone then
        b.setHeaders (lit "Allow") (joinMethods l.allowedMethods)
      else b
  | none => b

def statusLine (b : ResponseBuilder) : Bytes :=
  b.httpVersion ++ space :: b.status ++ crlf

def generateResponseString (b : ResponseBuilder) : Bytes :=
  b.statusLine
    ++ (b.headers.entries.map fun e => e.1 ++ lit ": " ++ e.2 ++ crlf).flatten
    ++ crlf ++ b.body

def generateResponseOnly (b : ResponseBuilder) : ResponseBuilder × Bytes :=
  let b := b.includeRequiredHeaders env
  (b, b.generateResponseString)

/-- The `return` directive, or the route of the method. -/
def runLocation (w : W) (b : ResponseBuilder) (l : Location) : ResponseBuilder × W :=
  if l.hasReturn then
    let b := (b.setStatus l.returnCode).setBody l.returnMessage
    (if l.returnMessage ≠ [] then b.setHeaders (lit "Content-Type") (lit "text/plain") else b, w)
  else
    let b := b.initRoutes l
    match b.routes.get? b.request.httpMethod with
    | none => (b.setErrorPage os w 405, w)
    | some route => runRoute os env route w b l

/-- `build_response`; `none` where it goes through a NULL
`location_config`. -/
def buildResponse (w : W) (b : ResponseBuilder) : Option (ResponseBuilder × W × Bytes) :=
  if b.request.errorCode ≠ 0 then
    let (b, response) := (b.setErrorPage os w b.request.errorCode).generateResponseOnly env
    some (b, w, response)
  else
    match b.locationConfig with
    | none => none
    | some l =>
        let (b, w) := runLocation os env w b l
        let (b, response) := (handleRedirection os w b).generateResponseOnly env
        some (b, w, response)

end Methods

end ResponseBuilder

end Webserv
