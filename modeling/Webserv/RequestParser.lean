import Webserv.WhileLoop
import Webserv.Config

/-!
# The request parser

`RequestParser` as `srcs/ReqRes/RequestParser.cpp` has it. A pair of
pointers `pos`, `end` into the buffer is the list of the bytes between
them, so a returned position is the list of the bytes still unread, and
`pos == end` is the empty list. Each `while` loop is a `WhileLoop` whose
body is a definition of its own, named after the method with `Iter`.

Left out: the log (`LOG_ERROR` texts), `port`, `cgi_script` and
`print_request`, which no method modelled here reads.
-/

namespace Webserv

open Bytes

def maxRequestLineLength : Nat := 8192
def maxUriLength : Nat := 2048
def maxHeaderLength : Nat := 8192
def maxHeaderCount : Nat := 100

/-- `DOUBLE_CRLF` -/
def doubleCrlf : Bytes := [cr, lf, cr, lf]

inductive ParseState where
  | requestLine
  | headers
  | body
  | done
  | errorParse
deriving DecidableEq, Repr

abbrev HeaderMap := OrdMap Bytes Bytes

/-- The fields of the class, with the values of its constructor. -/
structure RequestParser where
  state : ParseState := .requestLine
  requestLine : Bytes := []
  httpMethod : Bytes := []
  requestUri : Bytes := []
  queryString : Bytes := []
  httpVersion : Bytes := []
  headers : HeaderMap := OrdMap.empty
  body : Bytes := []
  errorCode : Nat := 0
  serverConfig : Option ServerConfig := none
  locationConfig : Option Location := none
  readingChunkData : Bool := false
  currentChunkSize : Nat := 0
  currentChunkRead : Nat := 0
  isCgiRequestFlag : Bool := false
  contentLengthValue : Nat := 0
  hasContentLength : Bool := false
  hasTransferEncoding : Bool := false
deriving DecidableEq

/-- How a parsing method is left: with the parser and the unread bytes,
or by the `std::length_error` that `std::string` throws on an inverted
range. -/
inductive ParseExit where
  | returned (p : RequestParser) (rest : Bytes)
  | threw
deriving DecidableEq

/-- `line_end - pos` for the position `find_line_end` returns: behind
the first CRLF, or one byte before the end when there is none. -/
def findLineEnd : Bytes → Nat
  | a :: b :: rest =>
      if a = cr ∧ b = lf then 2 else findLineEnd (b :: rest) + 1
  | _ => 0

namespace RequestParser

/-- `log_error`: only the first error is kept. -/
def logError (p : RequestParser) (errorCode : Nat) : RequestParser :=
  if p.errorCode = 0 then
    { p with
      errorCode := errorCode
      headers :=
        if errorCode = 0 then p.headers
        else p.headers.insert (lit "connection") (lit "close")
      state := .errorParse }
  else p

/-- `get_header_value`, that is `headers[key]`: a missing field is added
empty. -/
def getHeaderValue (p : RequestParser) (key : Bytes) : RequestParser × Bytes :=
  let r := p.headers.getOrInsert key []
  ({ p with headers := r.1 }, r.2)

def isConnectionClose (p : RequestParser) : Bool :=
  p.headers.get? (lit "connection") == some (lit "close")

/-! ## The request line -/

/-- The bytes of a percent-encoded string; `none` on a bad triplet and
on `%00`. A `%` in one of the last two places stands for itself. -/
def percentDecode : Bytes → Option Bytes
  | [] => some []
  | c :: h1 :: h2 :: s =>
      if c = percent then
        if isxdigit h1 && isxdigit h2 then
          let value := xdigitVal h1 * 16 + xdigitVal h2
          if value = 0 then none
          else (percentDecode s).map (UInt8.ofNat value :: ·)
        else none
      else (percentDecode (h1 :: h2 :: s)).map (c :: ·)
  | c :: s => (percentDecode s).map (c :: ·)

def decodePercentEncoding (p : RequestParser) (str : Bytes) :
    RequestParser × Bytes :=
  match percentDecode str with
  | some decoded => (p, decoded)
  | none => (p.logError 400, [])

/-- The segment loop of `normalize_uri`: the `parts` left, or `none` when
`..` has nothing to remove. -/
def foldSegments (isAbsolute : Bool) : List Bytes → List Bytes → Option (List Bytes)
  | parts, [] => some parts
  | parts, segment :: rest =>
      if segment = [] ∨ segment = lit "." then foldSegments isAbsolute parts rest
      else if segment = lit ".." then
        if !isAbsolute || parts.isEmpty then none
        else foldSegments isAbsolute parts.dropLast rest
      else foldSegments isAbsolute (parts ++ [segment]) rest

/-- The output loop of `normalize_uri`. -/
def writeParts (hasTrailingSlash : Bool) : List Bytes → Bytes
  | [] => []
  | [part] => part ++ if hasTrailingSlash then [slash] else []
  | part :: parts => part ++ slash :: writeParts hasTrailingSlash parts

/-- The string `normalize_uri` returns for its `parts`. -/
def joinParts (isAbsolute hasTrailingSlash : Bool) (parts : List Bytes) : Bytes :=
  let normalized :=
    (if isAbsolute then [slash] else []) ++ writeParts hasTrailingSlash parts
  if normalized = [] then [slash] else normalized

def normalizeUri (p : RequestParser) (uri : Bytes) : RequestParser × Bytes :=
  let (p, decoded) := p.decodePercentEncoding uri
  if decoded = [] then (p, [])
  else
    let isAbsolute := decoded.head? == some slash
    let hasTrailingSlash := decoded.getLast? == some slash
    match foldSegments isAbsolute [] (split slash decoded) with
    | none => (p.logError 400, [])
    | some parts => (p, joinParts isAbsolute hasTrailingSlash parts)

def httpMethods : List Bytes := [lit "GET", lit "POST", lit "DELETE"]

def setHttpMethod (p : RequestParser) (httpMethod : Bytes) : RequestParser × Bool :=
  if httpMethod ∈ httpMethods then
    ({ p with httpMethod := httpMethod }, true)
  else if httpMethod ∈ [lit "HEAD", lit "OPTIONS", lit "TRACE", lit "PUT",
      lit "PATCH", lit "CONNECT"] then
    (p.logError 501, false)
  else (p.logError 400, false)

/-- The characters `set_request_uri` refuses by name. -/
def invalidUriChars : Bytes := lit " \t\r\n<>\"\x7b\x7d|\\^`"

/-- A target with a refused character, a control character, DEL or, as
`char` is signed, a byte from 128 on. -/
def hasInvalidUriChar (requestUri : Bytes) : Bool :=
  requestUri.any (fun c => decide (c ∈ invalidUriChars))
    || requestUri.any fun c => decide (schar c ≤ 31) || c == 127

def setQueryString (p : RequestParser) (queryString : Bytes) : RequestParser :=
  { p with queryString := queryString }

def setRequestUri (p : RequestParser) (requestUri : Bytes) : RequestParser × Bool :=
  if hasInvalidUriChar requestUri then (p.logError 400, false)
  else
    let uri := requestUri.takeWhile (· != hash)
    let (p, uri) := p.normalizeUri uri
    if uri = [] then (p, false)
    else
      let (p, uri) :=
        if question ∈ uri then
          (p.setQueryString (uri.dropWhile (· != question)).tail,
            uri.takeWhile (· != question))
        else (p, uri)
      if uri.head? != some slash then (p.logError 400, false)
      else if maxUriLength < uri.length then (p.logError 414, false)
      else ({ p with requestUri := uri }, true)

def setHttpVersion (p : RequestParser) (httpVersion : Bytes) : RequestParser × Bool :=
  if httpVersion = lit "HTTP/1.1" then ({ p with httpVersion := httpVersion }, true)
  else if httpVersion = lit "HTTP/0.9" ∨ httpVersion = lit "HTTP/1.0" then
    (p.logError 505, false)
  else (p.logError 400, false)

/-- The chain of setters of `parse_request_line`, each only called when
the ones before it succeeded. -/
def setRequestLineParts (p : RequestParser) (method uri version : Bytes) :
    RequestParser × Bool :=
  let (p, ok) := p.setHttpMethod method
  if !ok then (p, false)
  else
    let (p, ok) := p.setRequestUri uri
    if !ok then (p, false)
    else p.setHttpVersion version

def parseRequestLine (p : RequestParser) (rest : Bytes) : RequestParser × Bytes :=
  let lineEnd := findLineEnd rest
  if lineEnd = rest.length then (p, rest)
  else if maxRequestLineLength < lineEnd then (p.logError 414, rest)
  else
    match split space (rest.take (lineEnd - 2)) with
    | [method, uri, version] =>
        let (p, ok) := p.setRequestLineParts method uri version
        if ok then ({ p with state := .headers }, rest.drop lineEnd) else (p, rest)
    | _ => (p.logError 400, rest)

/-! ## The header fields -/

def isNumeric (str : Bytes) : Bool := str.all isdigit

def isValidHeaderName (name : Bytes) : Bool :=
  name.all fun c => isalnum c || c == 45 || c == 95

def isValidHeaderValue (value : Bytes) : Bool :=
  value.all fun c => !((decide (schar c < 32) || c == 127) && c != tab && c != space)

/-- The variables of the loop of `parse_headers`: the parser, the unread
bytes and the two locals. -/
structure HeaderLoop where
  p : RequestParser
  rest : Bytes
  hasHost : Bool := false
  contentLengthValue : Bytes := []
deriving DecidableEq

/-- A refused header line: the parser so far and the code to log. -/
abbrev Reject := RequestParser × Nat

def handleContentLength (l : HeaderLoop) (key value : Bytes) :
    Except Reject HeaderLoop :=
  if key = lit "content-length" then
    if !isNumeric value || (l.p.hasContentLength && l.contentLengthValue != value) then
      .error (l.p, 400)
    else
      .ok { l with
        p := { l.p with hasContentLength := true }
        contentLengthValue := value }
  else .ok l

/-- The values of `Transfer-Encoding` that are taken; only the first is
decoded later. -/
def transferCodings : List Bytes :=
  [lit "chunked", lit "compress", lit "deflate", lit "gzip"]

def handleTransferEncoding (l : HeaderLoop) (key value : Bytes) :
    Except Reject HeaderLoop :=
  if key = lit "transfer-encoding" then
    if value ∈ transferCodings then
      .ok { l with p := { l.p with hasTransferEncoding := true } }
    else .error (l.p, 400)
  else .ok l

def handleHost (l : HeaderLoop) (key : Bytes) : Except Reject HeaderLoop :=
  if key = lit "host" then
    if l.hasHost then .error (l.p, 400) else .ok { l with hasHost := true }
  else .ok l

/-- The value to store: an `Expect` value is lower-cased and has to be
`100-continue`. -/
def handleExpect (l : HeaderLoop) (key value : Bytes) : Except Reject Bytes :=
  if key = lit "expect" then
    if value.map tolower = lit "100-continue" then .ok (value.map tolower)
    else .error (l.p, 417)
  else .ok value

/-- One header line without its CRLF: the special fields in their order,
then the field count, then `headers[key] = value`. -/
def storeHeader (l : HeaderLoop) (key value : Bytes) : Except Reject HeaderLoop := do
  let l ← handleContentLength l key value
  let l ← handleTransferEncoding l key value
  let l ← handleHost l key
  let value ← handleExpect l key value
  if maxHeaderCount ≤ l.p.headers.size then .error (l.p, 431)
  else .ok { l with p := { l.p with headers := l.p.headers.insert key value } }

def parseHeaderLine (l : HeaderLoop) (headerLine : Bytes) : Except Reject HeaderLoop :=
  let colonPos := headerLine.idxOf colon
  if colonPos = headerLine.length ∨ colonPos = 0
      ∨ headerLine[colonPos - 1]? = some space then
    .error (l.p, 400)
  else
    let key := (headerLine.take colonPos).map tolower
    let value := trim (lit " \t") (headerLine.drop (colonPos + 1))
    if !isValidHeaderName key || !isValidHeaderValue value then .error (l.p, 400)
    else storeHeader l key value

/-- The empty line: what `parse_headers` decides at the end of the head. -/
def endOfHeaders (l : HeaderLoop) (headerEnd : Bytes) : ParseExit :=
  let p := l.p
  if !l.hasHost then .returned (p.logError 400) l.rest
  else if p.hasContentLength && p.hasTransferEncoding then
    .returned (p.logError 400) l.rest
  else if !p.hasContentLength && !p.hasTransferEncoding then
    if p.httpMethod = lit "POST" then .returned (p.logError 411) l.rest
    else .returned { p with state := .done } headerEnd
  else .returned { p with state := .body } headerEnd

def parseHeadersIter (l : HeaderLoop) : HeaderLoop ⊕ ParseExit :=
  if l.rest = [] then .inr (.returned l.p l.rest)
  else
    let headerEnd := findLineEnd l.rest
    if headerEnd = 2 then .inr (endOfHeaders l (l.rest.drop headerEnd))
    else if l.rest.head? = some space ∨ l.rest.head? = some tab then
      .inr (.returned (l.p.logError 400) l.rest)
    else if maxHeaderLength < headerEnd then .inr (.returned (l.p.logError 431) l.rest)
    else if headerEnd < 2 then .inr .threw
    else
      match parseHeaderLine l (l.rest.take (headerEnd - 2)) with
      | .error (p, code) => .inr (.returned (p.logError code) l.rest)
      | .ok l' => .inl { l' with rest := l.rest.drop headerEnd }

theorem parseHeadersIter_inl {l l' : HeaderLoop} (h : parseHeadersIter l = .inl l') :
    2 < findLineEnd l.rest ∧ l.rest ≠ [] ∧ l'.rest = l.rest.drop (findLineEnd l.rest)
      ∧ ∃ l₁, parseHeaderLine l (l.rest.take (findLineEnd l.rest - 2)) = .ok l₁
        ∧ l' = { l₁ with rest := l.rest.drop (findLineEnd l.rest) } := by
  unfold parseHeadersIter at h
  by_cases hnil : l.rest = []
  · rw [if_pos hnil] at h; cases h
  rw [if_neg hnil] at h
  by_cases h2 : findLineEnd l.rest = 2
  · simp [h2] at h
  by_cases hsp : l.rest.head? = some space ∨ l.rest.head? = some tab
  · simp [h2, hsp] at h
  by_cases hmax : maxHeaderLength < findLineEnd l.rest
  · simp [h2, hsp, hmax] at h
  by_cases hlt : findLineEnd l.rest < 2
  · simp [h2, hsp, hmax, hlt] at h
  simp only [h2, hsp, hmax, hlt, if_false] at h
  cases hline : parseHeaderLine l (l.rest.take (findLineEnd l.rest - 2)) with
  | error e => rw [hline] at h; cases h
  | ok l₁ =>
      rw [hline] at h
      obtain rfl := Sum.inl.inj h
      exact ⟨by omega, hnil, rfl, l₁, rfl, rfl⟩

theorem parseHeadersIter_lt (l l' : HeaderLoop) (h : parseHeadersIter l = .inl l') :
    l'.rest.length < l.rest.length := by
  obtain ⟨hoff, hne, hrest, -⟩ := parseHeadersIter_inl h
  have := List.length_pos_iff.mpr hne
  rw [hrest, List.length_drop]
  omega

def parseHeaders (p : RequestParser) (rest : Bytes) : ParseExit :=
  WhileLoop.total parseHeadersIter (fun l => l.rest.length) parseHeadersIter_lt
    { p := p, rest := rest }

/-! ## The body -/

/-- The size line of a chunk: `strtoul` on the trimmed line, whose
`*endptr` has to be the terminator. -/
def chunkSize (line : Bytes) : Option Nat :=
  let r := strtoul 16 (trim (lit "\r\n \t") line)
  if r.2 = [] then some r.1 else none

/-- The copy of the data of the current chunk, as far as it has come. -/
def readChunkData (p : RequestParser) (rest : Bytes) : RequestParser × Bytes :=
  let remaining := wsub p.currentChunkSize p.currentChunkRead
  let toRead := min remaining rest.length
  ({ p with
      body := p.body ++ rest.take toRead
      currentChunkRead := p.currentChunkRead + toRead }, rest.drop toRead)

/-- Behind the copy: a complete chunk has to be followed by CRLF. -/
def finishChunk (p : RequestParser) (rest : Bytes) :
    (RequestParser × Bytes) ⊕ (RequestParser × Bytes) :=
  if p.currentChunkRead = p.currentChunkSize then
    if rest.length < 2 then .inr (p, rest)
    else if rest.take 2 ≠ [cr, lf] then .inr (p.logError 400, rest)
    else
      .inl ({ p with
        currentChunkRead := 0
        currentChunkSize := 0
        readingChunkData := false }, rest.drop 2)
  else .inr (p, rest)

/-- The size line of the next chunk; size zero ends the body with one
more CRLF. -/
def startChunk (p : RequestParser) (rest : Bytes) :
    (RequestParser × Bytes) ⊕ (RequestParser × Bytes) :=
  let lineEnd := findLineEnd rest
  if lineEnd = rest.length then .inr (p, rest)
  else
    match chunkSize (rest.take lineEnd) with
    | none => .inr (p.logError 400, rest)
    | some parsed =>
        let p := { p with currentChunkSize := parsed }
        let rest := rest.drop lineEnd
        if parsed = 0 then
          if rest.length < 2 then .inr (p, rest)
          else if rest.take 2 ≠ [cr, lf] then .inr (p.logError 400, rest)
          else .inr ({ p with state := .done }, rest.drop 2)
        else .inl ({ p with currentChunkRead := 0, readingChunkData := true }, rest)

def parseChunkedBodyIter (s : RequestParser × Bytes) :
    (RequestParser × Bytes) ⊕ (RequestParser × Bytes) :=
  let (p, rest) := s
  if rest = [] then .inr (p, rest)
  else if p.readingChunkData then
    let (p, rest) := p.readChunkData rest
    p.finishChunk rest
  else p.startChunk rest

theorem chunkSize_nil : chunkSize [] = some 0 := by decide

theorem finishChunk_inl {p : RequestParser} {rest : Bytes} {s' : RequestParser × Bytes}
    (h : p.finishChunk rest = .inl s') : 2 ≤ rest.length ∧ s'.2 = rest.drop 2 := by
  simp only [finishChunk] at h
  split at h
  · split at h
    · cases h
    · split at h
      · cases h
      · obtain rfl := Sum.inl.inj h
        exact ⟨by omega, rfl⟩
  · cases h

theorem startChunk_inl {p : RequestParser} {rest : Bytes} {s' : RequestParser × Bytes}
    (h : p.startChunk rest = .inl s') :
    findLineEnd rest ≠ 0 ∧ s'.2 = rest.drop (findLineEnd rest) := by
  simp only [startChunk] at h
  split at h
  · cases h
  · cases hsize : chunkSize (rest.take (findLineEnd rest)) with
    | none => rw [hsize] at h; cases h
    | some parsed =>
        rw [hsize] at h
        simp only at h
        split at h
        · split at h
          · cases h
          · split at h <;> cases h
        · rename_i hne
          obtain rfl := Sum.inl.inj h
          refine ⟨fun h0 => ?_, rfl⟩
          rw [h0, List.take_zero, chunkSize_nil] at hsize
          exact hne (Option.some.inj hsize).symm

theorem parseChunkedBodyIter_lt (s s' : RequestParser × Bytes)
    (h : parseChunkedBodyIter s = .inl s') : s'.2.length < s.2.length := by
  obtain ⟨p, rest⟩ := s
  simp only [parseChunkedBodyIter] at h
  by_cases hnil : rest = []
  · rw [if_pos hnil] at h; cases h
  have hpos : 0 < rest.length := List.length_pos_iff.mpr hnil
  rw [if_neg hnil] at h
  by_cases hr : p.readingChunkData = true
  · rw [if_pos hr] at h
    obtain ⟨hlen, hrest⟩ := finishChunk_inl h
    simp only [readChunkData, List.length_drop] at hlen
    rw [hrest]
    simp only [readChunkData, List.length_drop]
    omega
  · rw [if_neg hr] at h
    obtain ⟨hend, hrest⟩ := startChunk_inl h
    simp only [hrest, List.length_drop]
    omega

def parseChunkedBody (p : RequestParser) (rest : Bytes) : RequestParser × Bytes :=
  WhileLoop.total parseChunkedBodyIter (fun s => s.2.length) parseChunkedBodyIter_lt
    (p, rest)

/-- The bytes of a Content-Length body, as far as they have come. -/
def readBody (p : RequestParser) (contentLength : Nat) (rest : Bytes) :
    RequestParser × Bytes :=
  let bytesToRead := min (wsub contentLength p.body.length) rest.length
  let p := { p with body := p.body ++ rest.take bytesToRead }
  (if p.body.length = contentLength then { p with state := .done } else p,
    rest.drop bytesToRead)

def parseContentLengthBody (p : RequestParser) (rest : Bytes) :
    RequestParser × Bytes :=
  let (p, contentLengthStr) := p.getHeaderValue (lit "content-length")
  let (contentLength, endptr) := strtoul 10 contentLengthStr
  let p := { p with contentLengthValue := contentLength }
  if endptr ≠ [] ∨ contentLength = 0 then (p.logError 400, rest)
  else p.readBody contentLength rest

def parseBody (p : RequestParser) (rest : Bytes) : RequestParser × Bytes :=
  if p.hasTransferEncoding then
    let (p, coding) := p.getHeaderValue (lit "transfer-encoding")
    if coding = lit "chunked" then p.parseChunkedBody rest
    else (p.logError 501, rest)
  else if p.hasContentLength then p.parseContentLengthBody rest
  else (p, rest)

/-! ## The request -/

/-- The end of each `case` of `parse_request`: return on an error or at
the end of the buffer, else the next round. -/
def nextRound (p : RequestParser) (rest : Bytes) :
    (RequestParser × Bytes) ⊕ ParseExit :=
  if p.state = .errorParse ∨ rest = [] then .inr (.returned p rest) else .inl (p, rest)

def parseRequestIter (s : RequestParser × Bytes) :
    (RequestParser × Bytes) ⊕ ParseExit :=
  let (p, rest) := s
  if rest = [] ∨ p.state = .done ∨ p.state = .errorParse then .inr (.returned p rest)
  else
    match p.state with
    | .requestLine =>
        let (p, rest) := p.parseRequestLine rest
        nextRound p rest
    | .headers =>
        match p.parseHeaders rest with
        | .threw => .inr .threw
        | .returned p rest => nextRound p rest
    | .body =>
        let (p, rest) := p.parseBody rest
        nextRound p rest
    | _ => .inl ({ p with state := .errorParse }, rest)

/-- The call `parse_request(request)`: how it is left, or `none` when its
loop is never left. A request line, a head and a body take a round each
and the exit test one more, so a call that is still running after four
rounds does not end (`parseRequest_eq_none`). -/
def parseRequest (p : RequestParser) (request : Bytes) : Option ParseExit :=
  if p.state = .body then
    let (p, rest) := p.parseBody request
    some (.returned p rest)
  else WhileLoop.run parseRequestIter 4 (p, request)

/-! ## Routing -/

/-- `path` with every run of slashes collapsed to one. -/
def normalizePath (lastWasSlash : Bool) : Bytes → Bytes
  | [] => []
  | c :: path =>
      if c = slash then
        if lastWasSlash then normalizePath true path
        else slash :: normalizePath true path
      else c :: normalizePath false path

/-- The server loop of `match_location`: the last block with the name. -/
def selectServer (servers : ServerGroup) (host : Bytes) : ServerConfig :=
  servers.toList.foldl
    (fun cfg server => if host ∈ server.serverNames then server else cfg) servers.first

/-- The location loop of `match_location`. -/
def selectLocation (requestUri : Bytes) :
    Nat → Option Location → List Location → Option Location
  | _, bestPrefixMatch, [] => bestPrefixMatch
  | bestMatchLength, bestPrefixMatch, l :: locations =>
      let path := normalizePath false l.location
      if requestUri = path then some l
      else if path.isPrefixOf requestUri && decide (bestMatchLength < path.length) then
        selectLocation requestUri path.length (some l) locations
      else selectLocation requestUri bestMatchLength bestPrefixMatch locations

def matchLocation (p : RequestParser) (servers : ServerGroup) : RequestParser :=
  let host := (p.headers.get? (lit "host")).getD []
  let server := selectServer servers (host.takeWhile (· != colon))
  let p := { p with serverConfig := some server }
  let p :=
    match selectLocation p.requestUri 0 none server.locations with
    | some l => { p with locationConfig := some l }
    | none => p
  if p.locationConfig.isNone then p.logError 404 else p

def isCgiRequest (p : RequestParser) : Bool :=
  if p.isCgiRequestFlag then true
  else
    let path :=
      match p.locationConfig with
      | some l => if p.requestUri.getLast? = some slash then p.requestUri ++ l.index
          else p.requestUri
      | none => p.requestUri
    match rfind dot path, rfind slash path with
    | some dotPos, some slashPos =>
        decide (slashPos ≤ dotPos) &&
          decide (path.drop dotPos ∈ [lit ".php", lit ".py"])
    | _, _ => false

def setRequestLine (p : RequestParser) : RequestParser :=
  { p with
    requestLine := p.httpMethod ++ space :: p.requestUri ++ space :: p.httpVersion }

end RequestParser

end Webserv
