import Webserv.CgiHandler
import Webserv.Heap
import Webserv.Program

/-!
# A client connection

`ClientServer` as `srcs/Server/ClientServer.cpp` has it, with the event
methods of its CGI handlers. A `Connection` is the client object, the
response builders and CGI handlers it has made, by address, the file
system, and the history of what it has done. A method is a program over
the connection; the faults are the undefined behaviour it can run into,
and a `std::exception` is handled where the source catches it.

Left out: the log, the client's address and `_epoll_ev`.
-/

namespace Webserv

open Bytes

def timeOutSeconds : Int := 10

def rdSize : Nat := 1024

/-- What one `recv` returns. -/
abbrev Segment := { bytes : Bytes // bytes ≠ [] ∧ bytes.length ≤ rdSize }

/-- The undefined behaviour a connection can run into, and a
`parse_request` that does not return. -/
inductive Fault where
  | nullServerConfig
  | nullLocationConfig
  | nullBuilder
  | nullParser
  | useAfterFree
  | hang
deriving DecidableEq, Repr

/-- The fields of the class. -/
structure ClientServer where
  isStarted : Bool
  serverSocketFd : Nat
  peerSocketFd : Nat
  parser : Option RequestParser
  requestBuffer : Bytes
  responseBuffer : Bytes
  responseReady : Bool
  lastActivity : Int
  continueSent : Bool
  pendingCgi : Option Nat
  waitingForCgi : Bool
  responseBuilder : Option Nat
  serverConfigs : ServerGroup
deriving DecidableEq

/-- The constructor. It leaves `_response_ready` as it finds it. -/
def ClientServer.create (garbage : Bool) (now : Int) (serverSocketFd peerSocketFd : Nat)
    (serverConfigs : ServerGroup) : ClientServer where
  isStarted := false
  serverSocketFd := serverSocketFd
  peerSocketFd := peerSocketFd
  parser := none
  requestBuffer := []
  responseBuffer := []
  responseReady := garbage
  lastActivity := now
  continueSent := false
  pendingCgi := none
  waitingForCgi := false
  responseBuilder := none
  serverConfigs := serverConfigs

/-- How the dispatch of a completed request goes. -/
inductive Outcome where
  /-- its response is made ready -/
  | answered (response : Bytes)
  /-- a CGI process is started for it -/
  | started (handler : Nat) (interpreter : Bytes)
  /-- it runs into undefined behaviour -/
  | crashed
deriving DecidableEq

inductive Action where
  /-- `readIncomingData` is entered -/
  | read
  /-- `parse_request`, and routing behind a head, turn one parser into the
  next -/
  | parsed (before after : RequestParser)
  | dispatch (request : RequestParser) (outcome : Outcome)
  /-- the response of the request of a handler is made ready -/
  | cgiRespond (handler : Nat) (response : Bytes)
  /-- bytes sent by `sendResponseChunk` -/
  | send (bytes : Bytes)
  /-- bytes sent past the response buffer -/
  | sendDirect (bytes : Bytes)
  | close
deriving DecidableEq

/-- What is in view when a connection acts: the client, and the builder
`_responseBuilder` points to. -/
structure Moment where
  client : ClientServer
  builder : Option ResponseBuilder
deriving DecidableEq

structure Connection (W : Type) where
  client : ClientServer
  builders : Heap ResponseBuilder := Heap.empty
  handlers : Heap CgiHandler := Heap.empty
  world : W
  /-- the actions so far, each with the moment before it -/
  trace : List (Moment × Action) := []

abbrev Method (W α : Type) := EStateM Fault (Connection W) α

namespace RequestParser

/-- The test of `processCompletedRequest` for a CGI request. -/
def goesToCgi (p : RequestParser) : Bool :=
  p.isCgiRequest && p.httpMethod != lit "DELETE"

end RequestParser

namespace Connection

variable {W : Type}

/-- `delete` of a pointer, NULL or not. -/
def delete {α : Type} (objects : Heap α) : Option Nat → Heap α
  | some i => objects.free i
  | none => objects

/-- The live object `_responseBuilder` points to. -/
def builder? (c : Connection W) : Option ResponseBuilder :=
  c.client.responseBuilder.bind c.builders.get?

def moment (c : Connection W) : Moment := ⟨c.client, c.builder?⟩

def log (c : Connection W) (m : Moment) (action : Action) : Connection W :=
  { c with trace := c.trace ++ [(m, action)] }

/-! ## Closing -/

def terminated (c : Connection W) : Connection W :=
  if c.client.isStarted then
    { c with
      client := { c.client with
        isStarted := false
        parser := none
        responseBuilder := none
        pendingCgi := none
        requestBuffer := []
        responseBuffer := []
        responseReady := false
        waitingForCgi := false }
      builders := delete c.builders c.client.responseBuilder
      handlers := delete c.handlers c.client.pendingCgi
      trace := c.trace ++ [(c.moment, .close)] }
  else c

def terminate : Method W Unit := do
  let c ← get
  set c.terminated

def withParser (c : Connection W) (parser : Option RequestParser) : Connection W :=
  { c with client := { c.client with parser := parser } }

def cleanupParser : Method W Unit := do
  let c ← get
  set (c.withParser none)

section Methods

variable (os : OS W) (env : Env)

/-! ## Dispatch -/

/-- The response of `b` with an error page, and `b` afterwards. -/
def errorResponse (w : W) (b : ResponseBuilder) (statusCode : Int) : ResponseBuilder × Bytes :=
  (b.setErrorPage os w statusCode).generateResponseOnly env

/-- The end of `processNormalRequest`, for the builder and the file system
behind `build_response`. -/
def normalAnswer (c : Connection W) (p : RequestParser) (b : ResponseBuilder) (world : W)
    (response : Bytes) : Connection W :=
  { c with
    client := { c.client with
      responseBuilder := some c.builders.next
      responseBuffer := response
      responseReady := true }
    builders := (delete c.builders c.client.responseBuilder).alloc b
    world := world
    trace := c.trace ++ [(c.moment, .dispatch p (.answered response))] }

def processNormalRequest (p : RequestParser) : Method W Unit := do
  let c ← get
  match (ResponseBuilder.create os c.world env p).buildResponse os env c.world with
  | none =>
      set (c.log c.moment (.dispatch p .crashed))
      throw .nullLocationConfig
  | some (b, world, response) => set (c.normalAnswer p b world response)

/-- The connection with `_responseBuilder` set, and its address; an
existing builder is kept. -/
def ensureBuilder (c : Connection W) (p : RequestParser) : Connection W × Nat :=
  match c.client.responseBuilder with
  | some i => (c, i)
  | none =>
      ({ c with
          client := { c.client with responseBuilder := some c.builders.next }
          builders := c.builders.alloc (ResponseBuilder.create os c.world env p) },
        c.builders.next)

/-- The error page of `b`, at address `i`, as the response to the request
`p` that was dispatched at `m`. -/
def errorAnswer (m : Moment) (p : RequestParser) (c : Connection W) (i : Nat)
    (b : ResponseBuilder) (statusCode : Int) : Connection W :=
  let r := errorResponse os env c.world b statusCode
  { c with
    client := { c.client with responseBuffer := r.2, responseReady := true }
    builders := c.builders.set i r.1
    trace := c.trace ++ [(m, .dispatch p (.answered r.2))] }

/-- `_pendingCgi = NULL` -/
def forgetPending (c : Connection W) : Connection W :=
  { c with client := { c.client with pendingCgi := none } }

/-- `delete _pendingCgi`, then `_pendingCgi = NULL` -/
def deletePending (c : Connection W) : Connection W :=
  { c.forgetPending with handlers := delete c.handlers c.client.pendingCgi }

/-- The handler `h`, just started, is the pending one. -/
def handlerStarted (m : Moment) (p : RequestParser) (c : Connection W) (i : Nat)
    (b : ResponseBuilder) (h : CgiHandler) : Connection W :=
  { c with
    client := { c.client with
      pendingCgi := some c.handlers.next
      waitingForCgi := true }
    builders := c.builders.set i b
    handlers := c.handlers.alloc h
    trace := c.trace ++ [(m, .dispatch p (.started c.handlers.next h.interpreter))] }

/-- The end of `processCGIRequest`: a handler is made and started. -/
def startHandler (m : Moment) (p : RequestParser) (c : Connection W) (i : Nat)
    (b : ResponseBuilder) (cgiPath : Bytes) : Method W Unit :=
  match CgiHandler.create os env c.world p cgiPath i with
  | .error .nullLocationConfig => do
      set (c.log m (.dispatch p .crashed))
      throw .nullLocationConfig
  -- the constructor has thrown, so `_pendingCgi` still has its old value
  | .error .runtimeError => set (errorAnswer os env m p c.deletePending i b 500)
  | .ok h =>
      match h.startCgi env with
      | none => set (errorAnswer os env m p c.forgetPending i b 500)
      | some h => set (handlerStarted m p c i b h)

def processCgiRequest (p : RequestParser) : Method W Unit := do
  let c ← get
  let m := c.moment
  let (c', i) := ensureBuilder os env c p
  match c'.builders.get? i with
  | none =>
      set (c.log m (.dispatch p .crashed))
      throw .useAfterFree
  | some b =>
      match b.locationConfig with
      | none =>
          set (c.log m (.dispatch p .crashed))
          throw .nullLocationConfig
      | some l =>
          if !l.useCgi then set (errorAnswer os env m p c' i b 405)
          else if ((b.initRoutes l).routes.get? p.httpMethod).isNone then
            set (errorAnswer os env m p c' i (b.initRoutes l) 405)
          else startHandler os env m p c' i (b.initRoutes l) l.cgiPath

def processCompletedRequest : Method W Unit := do
  let c ← get
  match c.client.parser with
  | none => throw .nullParser
  | some p =>
      let p := p.setRequestLine
      set (c.withParser (some p))
      if p.goesToCgi then processCgiRequest os env p else processNormalRequest os env p

/-! ## Reading -/

def tooLargeResponse (c : Connection W) (p : RequestParser) : Bytes :=
  (errorResponse os env c.world (ResponseBuilder.create os c.world env p) 413).2

/-- `sendErrorResponse(413, …)` -/
def sendTooLarge (p : RequestParser) : Method W Unit := do
  let c ← get
  set (c.log c.moment (.sendDirect (tooLargeResponse os env c p)))
  terminate

/-- The test at the start of `readIncomingData`: the parser whose
recorded Content-Length is over the limit. -/
def bodyTooLarge (client : ClientServer) : Except Fault (Option RequestParser) :=
  match client.parser with
  | none => .ok none
  | some p =>
      if p.hasContentLength then
        match p.serverConfig with
        | none => .error .nullServerConfig
        | some cfg =>
            .ok (if cfg.clientMaxBodySize < p.contentLengthValue then some p else none)
      else .ok none

def received (c : Connection W) (segment : Segment) : Connection W :=
  { c with
    client := { c.client with
      lastActivity := env.now
      requestBuffer := c.client.requestBuffer ++ segment.val } }

def receive (data : Option Segment) : Method W Bool := do
  match data with
  | none =>
      terminate
      pure false
  | some segment =>
      let c ← get
      set (c.received env segment)
      pure true

def readIncomingData (data : Option Segment) : Method W Bool := do
  let c ← get
  set (c.log c.moment .read)
  match bodyTooLarge c.client with
  | .error fault => throw fault
  | .ok (some p) =>
      sendTooLarge os env p
      pure false
  | .ok none => receive env data

def continueSent (c : Connection W) : Connection W :=
  { c with
    client := { c.client with continueSent := true }
    trace := c.trace ++ [(c.moment, .sendDirect (lit "HTTP/1.1 100 Continue\r\n\r\n"))] }

def handleExpectContinue : Method W Unit := do
  let c ← get
  if c.client.parser.any (fun p => p.headers.contains (lit "expect"))
      && !c.client.continueSent then
    set c.continueSent

/-- The connection with `p` as its parser and `rest` as its buffer. -/
def parsed (c : Connection W) (before p : RequestParser) (rest : Bytes) : Connection W :=
  { c with
    client := { c.client with parser := some p, requestBuffer := rest }
    trace := c.trace ++ [(c.moment, .parsed before p)] }

/-- The body of `isParsingRequestBody` behind its test. -/
def parseRequestBody (p : RequestParser) : Method W Bool := do
  let c ← get
  match p.parseRequest c.client.requestBuffer with
  | none => throw .hang
  | some .threw => pure false
  | some (.returned p' rest) =>
      set (c.parsed p p' rest)
      if p'.state = .done ∨ p'.state = .errorParse then
        processCompletedRequest os env
        pure true
      else pure true

def isParsingRequestBody : Method W Bool := do
  let c ← get
  match c.client.parser with
  | none => pure false
  | some p =>
      if p.state ≠ .body ∨ c.client.waitingForCgi then pure false
      else parseRequestBody os env p

/-- The parser `parseHeaders` installs. -/
def routed (serverConfigs : ServerGroup) (p : RequestParser) : RequestParser :=
  if p.errorCode = 0 then p.matchLocation serverConfigs else p

/-- `processRequestHeaders`, with `parseHeaders` in its place. -/
def processRequestHeaders : Method W Unit := do
  let c ← get
  if (find doubleCrlf c.client.requestBuffer).isNone then pure ()
  else
    match ({} : RequestParser).parseRequest c.client.requestBuffer with
    | none => throw .hang
    | some .threw => cleanupParser
    | some (.returned p rest) =>
        let p := routed c.client.serverConfigs p
        set (c.parsed {} p rest)
        if p.state = .body then pure () else processCompletedRequest os env

def handleIncomingData (data : Option Segment) : Method W Unit := do
  let ok ← readIncomingData os env data
  if ok then
    handleExpectContinue
    let parsing ← isParsingRequestBody os env
    if parsing then pure () else processRequestHeaders os env
  else pure ()

/-! ## Writing -/

/-- The end of `checkCGIProgress`, for a handler that ran for too long. -/
def cgiTimedOut (c : Connection W) (h : Nat) (p : RequestParser) : Connection W :=
  let response := (errorResponse os env c.world (ResponseBuilder.create os c.world env p) 504).2
  { c with
    client := { c.client with
      lastActivity := env.now
      pendingCgi := none
      waitingForCgi := false
      responseBuffer := response
      responseReady := true }
    handlers := c.handlers.free h
    trace := c.trace ++ [(c.moment, .cgiRespond h response)] }

def active (c : Connection W) : Connection W :=
  { c with client := { c.client with lastActivity := env.now } }

def checkCgiProgress : Method W Unit := do
  let c ← get
  match c.client.waitingForCgi, c.client.pendingCgi with
  | true, some h =>
      match c.handlers.get? h with
      | none => throw .useAfterFree
      | some handler =>
          if env.now - handler.startTime > timeOutSeconds then
            match c.client.parser with
            | none => throw .nullParser
            | some p => set (cgiTimedOut os env c h p)
          else set (c.active env)
  | _, _ => pure ()

def shouldKeepAlive (client : ClientServer) : Bool :=
  client.parser.any fun p => !p.isConnectionClose

def builderDeleted (c : Connection W) : Connection W :=
  { c with
    client := { c.client with responseReady := false, responseBuilder := none }
    builders := delete c.builders c.client.responseBuilder }

def finalizeResponse : Method W Unit := do
  let c ← get
  set c.builderDeleted
  if !shouldKeepAlive c.client then terminate
  else if c.client.parser.any (fun p => p.errorCode ≠ 0) then cleanupParser
  else pure ()

/-- The result of `send`: an error, or the number of bytes the socket
takes at most. -/
abbrev Sent := Option { n : Nat // 0 < n }

/-- The connection after `n` bytes of its response buffer are gone. -/
def chunkSent (c : Connection W) (n : Nat) : Connection W :=
  { c with
    client := { c.client with
      lastActivity := env.now
      responseBuffer := c.client.responseBuffer.drop n }
    trace := c.trace ++ [(c.moment, .send (c.client.responseBuffer.take n))] }

def sendResponseChunk (sent : Sent) : Method W Bool := do
  match sent with
  | none =>
      terminate
      pure false
  | some n =>
      let c ← get
      set (c.chunkSent env n.val)
      pure true

def hasTimeOut (client : ClientServer) : Bool :=
  decide (env.now - client.lastActivity > timeOutSeconds)

/-- `handleResponse` behind its tests. -/
def sendResponse (sent : Sent) : Method W Unit := do
  let ok ← sendResponseChunk env sent
  let c ← get
  if ok && c.client.responseBuffer = [] then finalizeResponse else pure ()

def handleResponse (sent : Sent) : Method W Unit := do
  let c ← get
  if !(c.client.responseReady && c.client.responseBuffer ≠ []) then pure ()
  else if hasTimeOut env c.client then terminate
  else sendResponse env sent

/-- The EPOLLIN branch of `onEvent`: `data` is the result of `recv`. -/
def onInput (data : Option (Option Segment)) : Method W Unit :=
  match data with
  | some data => handleIncomingData os env data
  | none => pure ()

/-- The EPOLLOUT branch: `sent` is the result of `send`. -/
def onOutput (sent : Option Sent) : Method W Unit :=
  match sent with
  | some sent => do
      checkCgiProgress os env
      handleResponse env sent
  | none => pure ()

def onEvent (data : Option (Option Segment)) (sent : Option Sent) : Method W Unit := do
  onInput os env data
  onOutput os env sent

/-! ## The pipe of a CGI handler -/

/-- The connection after `onCGIComplete` for its pending handler `h`,
with the builder `b` at address `i`. -/
def cgiCompleted (c : Connection W) (h i : Nat) (b : ResponseBuilder) : Connection W :=
  let r := b.generateResponseOnly env
  { c with
    client := { c.client with
      responseBuffer := r.2
      responseReady := true
      waitingForCgi := false
      pendingCgi := none }
    builders := c.builders.set i r.1
    handlers := c.handlers.free h
    trace := c.trace ++ [(c.moment, .cgiRespond h r.2)] }

def onCgiComplete (h : Nat) : Method W Unit := do
  let c ← get
  if c.client.pendingCgi = some h then
    match c.client.responseBuilder with
    | none => throw .nullBuilder
    | some i =>
        match c.builders.get? i with
        | none => throw .useAfterFree
        | some b => set (c.cgiCompleted env h i b)
  else pure ()

/-- The connection after the clean-up of `finalizeCGI`, for the handler
`handler` at `h` and its builder `b`. -/
def cgiClosed (c : Connection W) (h : Nat) (handler : CgiHandler) (b : ResponseBuilder) :
    Connection W :=
  { c with
    builders := c.builders.set handler.responseBuilder
      (CgiHandler.processCgiOutput handler.cgiOutput b)
    handlers := c.handlers.set h handler.closed }

def finalizeCgi (h : Nat) : Method W Unit := do
  let c ← get
  match c.handlers.get? h with
  | none => throw .useAfterFree
  | some handler =>
      match c.builders.get? handler.responseBuilder with
      | none => throw .useAfterFree
      | some b =>
          set (c.cgiClosed h handler b)
          onCgiComplete env h

def withHandler (c : Connection W) (h : Nat) (handler : CgiHandler) : Connection W :=
  { c with handlers := c.handlers.set h handler }

/-- `CGIHandler::terminate`, as EPOLLERR calls it. -/
def terminateCgi (h : Nat) : Method W Unit := do
  let c ← get
  match c.handlers.get? h with
  | none => throw .useAfterFree
  | some handler =>
      if c.client.isStarted then set (c.withHandler h { handler.closed with bodyFd := false })
      else pure ()

/-- The EPOLLIN branch of `CGIHandler::onEvent`: `bytes` is what `read`
returned, empty at the end of the data or on an error. -/
def readCgi (h : Nat) (bytes : Bytes) : Method W Unit := do
  let c ← get
  match c.handlers.get? h with
  | none => throw .useAfterFree
  | some handler =>
      if bytes ≠ [] then set (c.withHandler h (handler.read bytes))
      else finalizeCgi env h

/-- An event on the pipe of a handler. -/
structure PipeEvent where
  input : Option Bytes
  hup : Bool
  err : Bool

def onPipeInput (h : Nat) (input : Option Bytes) : Method W Unit :=
  match input with
  | some bytes => readCgi env h bytes
  | none => pure ()

def onPipeEvent (h : Nat) (ev : PipeEvent) : Method W Unit := do
  onPipeInput env h ev.input
  (if ev.hup then finalizeCgi env h else pure ())
  if ev.err then terminateCgi h else pure ()

end Methods

/-! ## Runs -/

/-- One event of the loop. -/
inductive Event where
  | client (env : Env) (input : Option (Option Segment)) (output : Option Sent)
  | pipe (env : Env) (handler : Nat) (ev : PipeEvent)

/-- The handler is registered with the event loop. -/
def pipeRegistered (c : Connection W) (h : Nat) : Bool :=
  (c.handlers.get? h).any fun handler => handler.outputFd

/-- An event is delivered to an object that is registered for it. -/
def step (os : OS W) (ev : Event) : Method W Unit := do
  let c ← get
  match ev with
  | .client env input output =>
      if c.client.isStarted then onEvent os env input output else pure ()
  | .pipe env h ev => if c.pipeRegistered h then onPipeEvent env h ev else pure ()

def run (os : OS W) : List Event → Method W Unit
  | [] => pure ()
  | ev :: evs => do
      step os ev
      run os evs

/-- A connection that has just been accepted and registered. A slot that
is used again keeps what its last connection left in `_continue_sent` and
`_last_activity`. -/
def accepted (garbage continueSent : Bool) (lastActivity : Int)
    (serverSocketFd peerSocketFd : Nat) (serverConfigs : ServerGroup) (world : W) :
    Connection W where
  client :=
    { ClientServer.create garbage lastActivity serverSocketFd peerSocketFd serverConfigs with
      isStarted := true
      continueSent := continueSent }
  world := world

end Connection

end Webserv
