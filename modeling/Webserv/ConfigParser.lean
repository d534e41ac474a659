import Webserv.RecursiveDescent
import Webserv.ResponseBuilder
import Webserv.Tokenize

/-!
# The parser of the configuration file

`Parser` over the tokens of `tokenize`, and `ConfigManager::loadConfig`.
The pointer `_currentServer` is the index of the server it points to. A
function that takes a `Location` by reference returns the new one.
`inetPton` is the `inet_pton` of the system for `AF_INET`, and loops run
for at most `fuel` rounds.
-/

namespace Webserv

open Bytes RecursiveDescent

namespace Parser

/-- `_servers` and `_currentServer`. -/
structure Built where
  servers : List ServerConfig := []
  currentServer : Option Nat := none

/-- `if (_currentServer) *_currentServer = f(*_currentServer)`. -/
def Built.modifyCurrent (f : ServerConfig → ServerConfig) (b : Built) : Built :=
  match b.currentServer with
  | some i => { b with servers := b.servers.modify i f }
  | none => b

end Parser

/-- The member functions of `Parser`; they throw the text of a
`std::runtime_error`. -/
abbrev Parser (α : Type) := Parse Token Parser.Built Bytes α

namespace Parser

def isType (type : TokenType) (t : Token) : Bool := decide (t.type = type)

def unexpectedToken (t : Token) : Bytes := lit "Syntax Error: Unexpected token " ++ t.value

def consume (expected : TokenType) : Parser Token := consumeIf (isType expected) unexpectedToken

def modifyCurrent (f : ServerConfig → ServerConfig) : Parser Unit :=
  modifyState (Built.modifyCurrent f)

def throwing {α : Type} : Except Bytes α → Parser α
  | .ok a => pure a
  | .error what => throw (.threw what)

/-- `if (_currentServer)` around code that may throw. -/
def ifCurrent (body : Parser Unit) : Parser Unit := do
  let b ← getState
  if b.currentServer.isSome then body else pure ()

/-- The largest `uint16_t`. -/
def portMax : Nat := 65535

section Parse

variable (inetPton : Bytes → Int)

def isValidAddr (addr : Bytes) : Bool := inetPton (cstr addr) == 1

def listenDirective (directive : Token) : Except Bytes (Bytes × Nat) :=
  let port := extractUnsigned portMax directive.value
  if port.eof then .ok (lit "0.0.0.0", port.value)
  else
    match find [colon] directive.value with
    | some colon =>
        let host := directive.value.take colon
        let port := extractUnsigned portMax (directive.value.drop (colon + 1))
        if port.fail || !port.eof then .error (unexpectedToken directive)
        else if isValidAddr inetPton host then .ok (host, port.value)
        else .error (lit "Syntax Error: Unexpected token " ++ host)
    | none =>
        if isValidAddr inetPton directive.value then .ok (directive.value, port.value)
        else .error (unexpectedToken directive)

def parseListenDirective : Parser Unit := do
  let _ ← consume .listen
  let value ← consume .number
  let _ ← consume .semicolon
  ifCurrent do
    let listen ← throwing (listenDirective inetPton value)
    modifyCurrent fun server => { server with host := listen.1, port := listen.2 }

/-- The multiplier of a unit, which is 1 for the capital letters. -/
def multiplier (unit : UInt8) : Nat :=
  if unit = 107 then 1024
  else if unit = 109 then 1024 * 1024
  else if unit = 103 then 1024 * 1024 * 1024
  else 1

def parseSize (sizeStr : Bytes) (unit : UInt8) : Except Bytes Nat :=
  let size := extractUnsigned (word - 1) sizeStr
  if size.fail then .error (lit "Invalid size format: " ++ sizeStr)
  else .ok (size.value * multiplier unit % word)

def parseClientMaxBodySizeDirective : Parser Unit := do
  let _ ← consume .clientMaxBodySize
  let size ← consume .number
  let unit ← consume .clientMaxBodySizeMul
  ifCurrent do
    let clientMaxBodySize ← throwing (parseSize size.value (unit.value.headD nul))
    modifyCurrent fun server => { server with clientMaxBodySize := clientMaxBodySize }
  let _ ← consume .semicolon
  pure ()

def parseUploadStoreDirective (location : Location) : Parser Location := do
  let _ ← consume .uploadStore
  let path ← consume .string
  let _ ← consume .semicolon
  pure { location with uploadStore := path.value }

/-- The optional code of a redirection. -/
def redirectStatus : Parser Int := do
  let t ← peek
  if isType .number t then do
    let code ← consume .number
    pure (atoi code.value)
  else
    pure 302

def parseRedirectDirective (location : Location) : Parser Location := do
  let _ ← consume .redirect
  let statusCode ← redirectStatus
  let url ← consume .string
  let _ ← consume .semicolon
  pure { location with
    isRedirectPermanent := decide (statusCode = 301)
    redirectCode := statusCode
    isRedirect := true
    redirectUrl := url.value }

variable (fuel : Nat)

def parseServerNameDirective : Parser Unit := do
  let _ ← consume .serverName
  let first ← consume .string
  let serverNames ← whileNext (isType .string) (fun serverNames => do
    let serverName ← consume .string
    pure (serverNames ++ [serverName.value])) fuel [first.value]
  let _ ← consume .semicolon
  modifyCurrent fun server => { server with serverNames := serverNames }

def parseErrorPageDirective : Parser Unit := do
  let _ ← consume .errorPage
  let errorCodes ← whileNext (isType .number) (fun errorCodes => do
    let errCode ← consume .number
    pure (errorCodes ++ [atoi errCode.value])) fuel []
  let file ← consume .string
  let _ ← consume .semicolon
  modifyCurrent fun server => { server with
    errorPages := errorCodes.foldl (fun errorPages code =>
      errorPages.insert (toShort code) file.value) server.errorPages }

def switchValue (value : Bytes) : Except Bytes Bool :=
  if value = lit "on" then .ok true
  else if value = lit "off" then .ok false
  else .error (lit "Syntax Error: Expected 'on' or 'off' after 'cgi', got '" ++ value ++ lit "'")

/-- The value of a `cgi` directive. -/
def cgiSwitch : Parser Bool := do
  let t ← peek
  if isType .string t then do
    let value ← consume .string
    throwing (switchValue value.value)
  else
    throw (.threw (lit "Syntax Error: Expected 'on' or 'off' after 'cgi'"))

def parseCgiDirective (location : Location) : Parser Location := do
  let _ ← consume .cgi
  let useCgi ← cgiSwitch
  let _ ← consume .semicolon
  whileNext (isType .cgiPath) (fun location => do
    let _ ← consume .cgiPath
    let path ← consume .string
    let _ ← consume .semicolon
    pure { location with cgiPath := path.value }) fuel { location with useCgi := useCgi }

def parseReturnDirective (location : Location) : Parser Location := do
  let _ ← consume .return
  let code ← consume .number
  let location ← whileNext (isType .string) (fun location => do
    let message ← consume .string
    pure { location with
      returnMessage := location.returnMessage
        ++ if location.returnMessage = [] then message.value else lit " " ++ message.value })
    fuel { location with hasReturn := true, returnCode := atoi code.value }
  let _ ← consume .semicolon
  pure location

/-- A directive of a location block. -/
def parseLocationDirective (location : Location) : Parser Location := do
  let t ← peek
  match t.type with
  | .root => do
      let _ ← consume .root
      let root ← consume .string
      let _ ← consume .semicolon
      pure { location with root := root.value }
  | .errorPage => do
      let _ ← consume .errorPage
      let _ ← consume .number
      let _ ← consume .string
      let _ ← consume .semicolon
      pure location
  | .autoindex => do
      let _ ← consume .autoindex
      let value ← consume .string
      let _ ← consume .semicolon
      pure { location with autoindex := decide (value.value = lit "on") }
  | .index => do
      let _ ← consume .index
      let value ← consume .string
      let _ ← consume .semicolon
      pure { location with index := value.value }
  | .allowedMethods => do
      let _ ← consume .allowedMethods
      let location ← whileNext (isType .string) (fun location => do
        let allowedMethod ← consume .string
        pure { location with
          allowedMethods := location.allowedMethods ++ [allowedMethod.value] })
        fuel { location with allowedMethods := [] }
      let _ ← consume .semicolon
      pure location
  | .redirect => parseRedirectDirective location
  | .cgi => parseCgiDirective fuel location
  | .uploadStore => parseUploadStoreDirective location
  | .return => parseReturnDirective fuel location
  | _ =>
      throw (.threw (lit "Syntax Error: Unknown directive in location block: " ++ t.value))

def parseLocationBlock : Parser Unit := do
  let _ ← consume .location
  let path ← consume .string
  let _ ← consume .lbrace
  let location ← whileNext (fun t => !isType .rbrace t) (parseLocationDirective fuel) fuel
    { location := path.value }
  let _ ← consume .rbrace
  modifyCurrent fun server => { server with locations := server.locations ++ [location] }

def parseDirecive : Parser Unit := do
  let directiveToken ← peek
  match directiveToken.type with
  | .listen => parseListenDirective inetPton
  | .serverName => parseServerNameDirective fuel
  | .root =>
      throw (.threw (lit
        "Configuration Error: 'root' directive is only allowed in location blocks"))
  | .errorPage => parseErrorPageDirective fuel
  | .location => parseLocationBlock fuel
  | .clientMaxBodySize => parseClientMaxBodySizeDirective
  | _ => throw (.threw (lit "Syntax Error : Unknown directive " ++ directiveToken.value))

def parseServerBlock : Parser Unit := do
  let _ ← consume .server
  let _ ← consume .lbrace
  modifyState fun b =>
    { servers := b.servers ++ [{}], currentServer := some b.servers.length }
  whileNext (fun t => !isType .rbrace t) (fun _ => parseDirecive inetPton fuel) fuel ()
  let _ ← consume .rbrace
  modifyState fun b => { b with currentServer := none }

def parseConfig : Parser Unit :=
  whileNext (fun t => !isType .end t) (fun _ => parseServerBlock inetPton fuel) fuel ()

end Parse

/-- The state `Parser(tokens)` starts in. -/
def start (tokens : List Token) : Cursor Token Built := ⟨tokens, 0, {}⟩

/-- `parseConfig()` and then `getServers()`. -/
def parse (inetPton : Bytes → Int) (fuel : Nat) (tokens : List Token) :
    Except (Stop Bytes) (List ServerConfig) :=
  match parseConfig inetPton fuel (start tokens) with
  | .ok _ c => .ok c.state.servers
  | .error s _ => .error s

end Parser

/-! ## Loading a file -/

structure ConfigManager where
  servers : List ServerConfig := []
  checkOpen : Bool := false

/-- `loadConfig` on a file with the text `config`, or on one that cannot
be opened, with what it returns; `none` if the parser is stuck. -/
def ConfigManager.loadConfig (inetPton : Bytes → Int) (fuel : Nat) (file : Option Bytes)
    (m : ConfigManager) : Option (Bool × ConfigManager) :=
  match file with
  | none => some (false, { m with checkOpen := false })
  | some config =>
      match tokenize config with
      | .error _ => some (false, { m with checkOpen := true })
      | .ok tokens =>
          match Parser.parse inetPton fuel tokens with
          | .ok servers => some (true, { servers := servers, checkOpen := true })
          | .error (.threw _) => some (false, { m with checkOpen := true })
          | .error _ => none

end Webserv
