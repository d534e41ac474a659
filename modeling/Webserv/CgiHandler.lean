import Webserv.ResponseBuilder

/-!
# The CGI handler

`CGIHandler` as `srcs/CGI/CGIHandler.cpp` has it: construction, the
start of the child, and the interpretation of its output. The events of
the pipe are methods of the connection, since they reach into the
client. A pointer to a `ResponseBuilder` is its address.

Left out: the log, `keepClientAlive`, and the child's side of `fork`
behind its argument vector and environment.
-/

universe u

namespace Webserv

open Bytes

structure CgiHandler where
  scriptPath : Bytes
  method : Bytes
  uri : Bytes
  queryString : Bytes
  headers : HeaderMap
  rootPath : Bytes
  /-- a child has been forked and not been waited for -/
  pid : Bool := false
  /-- the read end of the pipe is open and registered -/
  outputFd : Bool := false
  cgiOutput : Bytes := []
  responseBuilder : Nat
  isCompleted : Bool := false
  startTime : Int := 0
  interpreter : Bytes
  /-- the temporary file with the request body is open -/
  bodyFd : Bool := false
  contentType : Bytes
deriving DecidableEq

/-- How the constructor fails: by a `std::runtime_error`, or through a
NULL `location_config` of the request. -/
inductive CgiFailure where
  | runtimeError
  | nullLocationConfig
deriving DecidableEq, Repr

namespace CgiHandler

section Construction

variable {W : Type u} (os : OS W) (env : Env)

def create (w : W) (request : RequestParser) (cgiPath : Bytes) (response : Nat) :
    Except CgiFailure CgiHandler :=
  if cgiPath = [] then .error .runtimeError
  else
    match request.locationConfig with
    | none => .error .nullLocationConfig
    | some l =>
        let scriptPath := l.root ++ request.requestUri
        match os.stat w scriptPath with
        | none => .error .runtimeError
        | some fileStat =>
            let indexPath := scriptPath ++ l.index
            let scriptPath :=
              if fileStat.isDir && (os.stat w indexPath).isSome then indexPath
              else scriptPath
            if request.body ≠ [] ∧ !env.openOk then .error .runtimeError
            else
              .ok {
                scriptPath := scriptPath
                method := request.httpMethod
                uri := request.requestUri
                queryString := request.queryString
                headers := request.headers
                rootPath := l.root
                responseBuilder := response
                interpreter := cgiPath
                bodyFd := decide (request.body ≠ [])
                contentType := (request.headers.get? (lit "content-type")).getD
                  (lit "application/x-www-form-urlencoded") }

end Construction

/-- `startCGI` in the parent; `none` is a `std::runtime_error`. -/
def startCgi (env : Env) (h : CgiHandler) : Option CgiHandler :=
  if env.pipeOk && env.forkOk && env.addListenerOk then
    some { h with startTime := env.now, pid := true, outputFd := true, bodyFd := false }
  else none

section Construction

variable {W : Type u} {os : OS W} {env : Env} {w : W} {p : RequestParser} {cgiPath : Bytes}
  {i : Nat}

theorem create_nullLocation (h : create os env w p cgiPath i = .error .nullLocationConfig) :
    cgiPath ≠ [] ∧ p.locationConfig = none := by
  unfold create at h
  split at h
  · cases h
  rename_i hpath
  cases hl : p.locationConfig with
  | none => exact ⟨hpath, rfl⟩
  | some l =>
      rw [hl] at h
      simp only at h
      cases hstat : os.stat w (l.root ++ p.requestUri) with
      | none => simp [hstat] at h
      | some fileStat =>
          rw [hstat] at h
          simp only at h
          split at h <;> cases h

/-- What the constructor makes. -/
theorem create_eq_ok {h : CgiHandler} (hok : create os env w p cgiPath i = .ok h) :
    ∃ l scriptPath, p.locationConfig = some l ∧ h = {
      scriptPath := scriptPath
      method := p.httpMethod
      uri := p.requestUri
      queryString := p.queryString
      headers := p.headers
      rootPath := l.root
      responseBuilder := i
      interpreter := cgiPath
      bodyFd := decide (p.body ≠ [])
      contentType := (p.headers.get? (lit "content-type")).getD
        (lit "application/x-www-form-urlencoded") } := by
  unfold create at hok
  split at hok
  · cases hok
  cases hl : p.locationConfig with
  | none => simp [hl] at hok
  | some l =>
      rw [hl] at hok
      simp only at hok
      cases hstat : os.stat w (l.root ++ p.requestUri) with
      | none => simp [hstat] at hok
      | some fileStat =>
          rw [hstat] at hok
          simp only at hok
          split at hok
          · cases hok
          · exact ⟨l, _, rfl, (Except.ok.inj hok).symm⟩

theorem create_ok {h : CgiHandler} (hok : create os env w p cgiPath i = .ok h) :
    h.interpreter = cgiPath ∧ h.responseBuilder = i := by
  obtain ⟨l, scriptPath, -, rfl⟩ := create_eq_ok hok
  exact ⟨rfl, rfl⟩

theorem startCgi_some {h h' : CgiHandler} (hs : h.startCgi env = some h') :
    h'.interpreter = h.interpreter ∧ h'.responseBuilder = h.responseBuilder := by
  unfold startCgi at hs
  split at hs
  · obtain rfl := Option.some.inj hs
    exact ⟨rfl, rfl⟩
  · cases hs

end Construction

/-- Behind the clean-up of `finalizeCGI`. -/
def closed (h : CgiHandler) : CgiHandler :=
  { h with outputFd := false, pid := false, isCompleted := true }

/-- Behind a `read` of `bytes` from the pipe. -/
def read (h : CgiHandler) (bytes : Bytes) : CgiHandler :=
  { h with cgiOutput := h.cgiOutput ++ bytes }

/-- `setupEnvironment`; `bodySize` is the body size of the request in the
response builder the handler refers to. -/
def setupEnvironment (h : CgiHandler) (bodySize : Nat) : List Bytes :=
  [lit "REQUEST_METHOD=" ++ h.method,
    lit "QUERY_STRING=" ++ h.queryString,
    lit "CONTENT_LENGTH=" ++ decimal bodySize,
    lit "CONTENT_TYPE=" ++ h.contentType,
    lit "SCRIPT_FILENAME=" ++ h.scriptPath,
    lit "SCRIPT_NAME=" ++ h.uri,
    lit "DOCUMENT_ROOT=" ++ h.rootPath,
    lit "PHP_SELF=" ++ h.uri,
    lit "PATH_TRANSLATED=" ++ h.scriptPath,
    lit "REQUEST_URI=" ++ h.uri,
    lit "SERVER_PROTOCOL=HTTP/1.1",
    lit "GATEWAY_INTERFACE=CGI/1.1",
    lit "SERVER_SOFTWARE=" ++ webservName,
    lit "REDIRECT_STATUS=200",
    lit "PYTHONIOENCODING=UTF-8"]
    ++ (if (find (lit "multipart/form-data") h.contentType).isSome then
        [lit "UPLOAD_TMPDIR=/tmp"] else [])
    ++ ((h.headers.get? (lit "host")).map (lit "HTTP_HOST=" ++ ·)).toList
    ++ ((h.headers.get? (lit "user-agent")).map (lit "HTTP_USER_AGENT=" ++ ·)).toList
    ++ ((h.headers.get? (lit "cookie")).map (lit "HTTP_COOKIE=" ++ ·)).toList

/-! ## The output of the script -/

/-- The variables of the header loop of `processCGIOutput`. -/
structure OutputLoop where
  b : ResponseBuilder
  contentType : Bytes := lit "text/html"
  statusSet : Bool := false

/-- The code of a `Status` line: `atoi` on at most three characters from
the first digit on. -/
def statusOfLine (line : Bytes) : Option Nat :=
  let codeStr := (line.dropWhile fun c => !isdigit c).take 3
  if codeStr = [] then none
  else
    let code := (readDigits 10 0 codeStr).1
    if 100 ≤ code ∧ code < 600 then some code else none

def outputHeaderLine (s : OutputLoop) (line : Bytes) : OutputLoop :=
  let line := if line.getLast? = some cr then line.dropLast else line
  let colonPos := line.idxOf colon
  if colonPos = line.length then s
  else
    let headerName := line.take colonPos
    let headerValue := trim (lit " \t") (line.drop (colonPos + 1))
    if headerName = lit "Content-Type" then { s with contentType := headerValue }
    else if headerName = lit "Status" then
      match statusOfLine line with
      | some code => { s with b := s.b.setStatus code, statusSet := true }
      | none => s
    else { s with b := s.b.setHeaders headerName headerValue }

/-- `processCGIOutput` on the builder of the handler. -/
def processCgiOutput (cgiOutput : Bytes) (b : ResponseBuilder) : ResponseBuilder :=
  let b := b.setStatus 200
  let (headers, body) :=
    match find doubleCrlf cgiOutput with
    | some headerEnd => (cgiOutput.take headerEnd, cgiOutput.drop (headerEnd + 4))
    | none => ([], cgiOutput)
  let s := (split lf headers).foldl outputHeaderLine { b := b }
  let b := if s.statusSet then s.b else s.b.setStatus 200
  (b.setHeaders (lit "Content-Type") s.contentType).setBody body

end CgiHandler

end Webserv
