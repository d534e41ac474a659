import Webserv.ConfigParser

/-!
# The grammar of the configuration file

`Block` is the syntax tree of a server block, with the tokens it is
written with (`tokens`) and the `ServerConfig` it describes (`config`):
in it, a field has the value of the last directive that sets it. The
parser accepts the tokens of a list of blocks and nothing else, and
builds what the blocks describe.
-/

namespace Webserv

open Bytes RecursiveDescent

/-! ## Syntax trees -/

/-- A word of the type. -/
structure Word (type : TokenType) where
  value : Bytes
  ofWord : Token.OfWord ⟨type, value⟩

def Word.token {type : TokenType} (w : Word type) : Token := ⟨type, w.value⟩

/-- The token of a keyword or a mark. -/
def mark (type : TokenType) : Token := ⟨type, spelling type⟩

inductive LocationDirective where
  | root (path : Word .string)
  | errorPage (code : Word .number) (file : Word .string)
  | autoindex (value : Word .string)
  | index (file : Word .string)
  | allowedMethods (methods : List (Word .string))
  | redirect (code : Option (Word .number)) (url : Word .string)
  | cgi (on : Bool) (paths : List (Word .string))
  | uploadStore (path : Word .string)
  | return (code : Word .number) (messages : List (Word .string))

inductive Directive where
  | listen (port : Word .number)
  | serverName (first : Word .string) (others : List (Word .string))
  | errorPage (codes : List (Word .number)) (file : Word .string)
  | clientMaxBodySize (size : Word .number) (unit : Word .clientMaxBodySizeMul)
  | location (path : Word .string) (directives : List LocationDirective)

/-- A server block. -/
structure Block where
  directives : List Directive

/-- The token of `on` or `off`. -/
def switchToken (on : Bool) : Token := ⟨.string, if on then lit "on" else lit "off"⟩

/-- A line `cgi_path path;`. -/
def cgiPathLine (path : Word .string) : List Token :=
  [mark .cgiPath, path.token, mark .semicolon]

def LocationDirective.tokens : LocationDirective → List Token
  | .root path => [mark .root, path.token, mark .semicolon]
  | .errorPage code file => [mark .errorPage, code.token, file.token, mark .semicolon]
  | .autoindex value => [mark .autoindex, value.token, mark .semicolon]
  | .index file => [mark .index, file.token, mark .semicolon]
  | .allowedMethods methods => mark .allowedMethods :: methods.map Word.token ++ [mark .semicolon]
  | .redirect code url =>
      mark .redirect :: code.toList.map Word.token ++ [url.token, mark .semicolon]
  | .cgi on paths =>
      [mark .cgi, switchToken on, mark .semicolon] ++ paths.flatMap cgiPathLine
  | .uploadStore path => [mark .uploadStore, path.token, mark .semicolon]
  | .return code messages =>
      mark .return :: code.token :: messages.map Word.token ++ [mark .semicolon]

def Directive.tokens : Directive → List Token
  | .listen port => [mark .listen, port.token, mark .semicolon]
  | .serverName first others =>
      mark .serverName :: first.token :: others.map Word.token ++ [mark .semicolon]
  | .errorPage codes file =>
      mark .errorPage :: codes.map Word.token ++ [file.token, mark .semicolon]
  | .clientMaxBodySize size unit =>
      [mark .clientMaxBodySize, size.token, unit.token, mark .semicolon]
  | .location path directives =>
      [mark .location, path.token, mark .lbrace]
        ++ directives.flatMap LocationDirective.tokens ++ [mark .rbrace]

def Block.tokens (b : Block) : List Token :=
  [mark .server, mark .lbrace] ++ b.directives.flatMap Directive.tokens ++ [mark .rbrace]

def LocationDirective.keyword : LocationDirective → TokenType
  | .root _ => .root
  | .errorPage _ _ => .errorPage
  | .autoindex _ => .autoindex
  | .index _ => .index
  | .allowedMethods _ => .allowedMethods
  | .redirect _ _ => .redirect
  | .cgi _ _ => .cgi
  | .uploadStore _ => .uploadStore
  | .return _ _ => .return

/-- The lines `cgi_path` behind a directive `cgi` belong to it. -/
def LocationDirective.Before : LocationDirective → Token → Prop
  | .cgi _ _, t => t.type ≠ .cgiPath
  | _, _ => True

def Directive.keyword : Directive → TokenType
  | .listen _ => .listen
  | .serverName _ _ => .serverName
  | .errorPage _ _ => .errorPage
  | .clientMaxBodySize _ _ => .clientMaxBodySize
  | .location _ _ => .location

theorem LocationDirective.tokens_head (d : LocationDirective) :
    ∃ w, d.tokens = mark d.keyword :: w := by
  cases d <;> exact ⟨_, rfl⟩

theorem Directive.tokens_head (d : Directive) : ∃ w, d.tokens = mark d.keyword :: w := by
  cases d <;> exact ⟨_, rfl⟩

/-! ## What they describe -/

/-- What the last item that says something says. -/
def lastOf {δ α : Type} (f : δ → Option α) (items : List δ) : Option α :=
  (items.filterMap f).getLast?

namespace LocationDirective

def root? : LocationDirective → Option Bytes
  | .root path => some path.value
  | _ => none

def autoindex? : LocationDirective → Option Bool
  | .autoindex value => some (decide (value.value = lit "on"))
  | _ => none

def index? : LocationDirective → Option Bytes
  | .index file => some file.value
  | _ => none

def allowedMethods? : LocationDirective → Option (List Bytes)
  | .allowedMethods methods => some (methods.map Word.value)
  | _ => none

/-- The code, or 302, and the URL. -/
def redirect? : LocationDirective → Option (Int × Bytes)
  | .redirect code url => some ((code.map fun c => atoi c.value).getD 302, url.value)
  | _ => none

def useCgi? : LocationDirective → Option Bool
  | .cgi on _ => some on
  | _ => none

def cgiPaths : LocationDirective → List Bytes
  | .cgi _ paths => paths.map Word.value
  | _ => []

def uploadStore? : LocationDirective → Option Bytes
  | .uploadStore path => some path.value
  | _ => none

def returnCode? : LocationDirective → Option Int
  | .return code _ => some (atoi code.value)
  | _ => none

def messages : LocationDirective → List Bytes
  | .return _ messages => messages.map Word.value
  | _ => []

end LocationDirective

open LocationDirective in
/-- The location of a block with this path and these directives. -/
def locationOf (path : Bytes) (ds : List LocationDirective) : Location where
  location := path
  allowedMethods := (lastOf allowedMethods? ds).getD [lit "GET", lit "POST", lit "DELETE"]
  root := (lastOf root? ds).getD []
  autoindex := (lastOf autoindex? ds).getD false
  index := (lastOf index? ds).getD (lit "index.html")
  isRedirect := (lastOf redirect? ds).isSome
  redirectUrl := ((lastOf redirect? ds).map Prod.snd).getD []
  isRedirectPermanent := (lastOf redirect? ds).any fun r => decide (r.1 = 301)
  redirectCode := ((lastOf redirect? ds).map Prod.fst).getD 0
  useCgi := (lastOf useCgi? ds).getD false
  cgiPath := ((ds.flatMap cgiPaths).getLast?).getD []
  uploadStore := (lastOf uploadStore? ds).getD []
  hasReturn := (lastOf returnCode? ds).isSome
  returnCode := (lastOf returnCode? ds).getD 0
  returnMessage := [space].intercalate (ds.flatMap messages)

namespace Directive

/-- The value of the number, cut off at the largest port. -/
def port? : Directive → Option Nat
  | .listen port => some (extractUnsigned Parser.portMax port.value).value
  | _ => none

def serverNames? : Directive → Option (List Bytes)
  | .serverName first others => some (first.value :: others.map Word.value)
  | _ => none

def clientMaxBodySize? : Directive → Option Nat
  | .clientMaxBodySize size unit =>
      some ((extractUnsigned (word - 1) size.value).value
        * Parser.multiplier (unit.value.headD nul) % word)
  | _ => none

/-- The codes, as `short`, with the file. -/
def errorPages : Directive → List (Int × Bytes)
  | .errorPage codes file => codes.map fun code => (toShort (atoi code.value), file.value)
  | _ => []

def location? : Directive → Option Location
  | .location path directives => some (locationOf path.value directives)
  | _ => none

end Directive

/-- The map with the later of two entries with one key. -/
def merged (entries : List (Int × Bytes)) : OrdMap Int Bytes :=
  entries.foldl (fun m e => m.insert e.1 e.2) OrdMap.empty

open Directive in
def Block.config (b : Block) : ServerConfig where
  port := (lastOf port? b.directives).getD 80
  host := lit "0.0.0.0"
  serverNames := (lastOf serverNames? b.directives).getD [lit "localhost"]
  errorPages := merged (b.directives.flatMap errorPages)
  clientMaxBodySize := (lastOf clientMaxBodySize? b.directives).getD defaultClientMaxBodySize
  locations := b.directives.filterMap location?

section LastOf

variable {δ α : Type} (f : δ → Option α)

@[simp] theorem lastOf_nil : lastOf f [] = none := rfl

theorem lastOf_append_singleton (items : List δ) (d : δ) :
    lastOf f (items ++ [d]) = (f d).or (lastOf f items) := by
  cases h : f d with
  | none => simp [lastOf, h]
  | some a => simp [lastOf, h]

end LastOf

theorem get?_merged (entries : List (Int × Bytes)) (code : Int) :
    (merged entries).get? code
      = lastOf (fun e => if e.1 = code then some e.2 else none) entries := by
  induction entries using List.reverseRecOn with
  | nil => rfl
  | append_singleton entries e ih =>
      rw [merged, List.foldl_append, List.foldl_cons, List.foldl_nil, OrdMap.get?_insert,
        lastOf_append_singleton, ← ih]
      by_cases h : e.1 = code
      · rw [if_pos h, if_pos h]
        rfl
      · rw [if_neg h, if_neg h]
        rfl

/-! ## One directive after another -/

/-- What a `return` directive adds to the message. -/
def addMessage (returnMessage message : Bytes) : Bytes :=
  returnMessage ++ if returnMessage = [] then message else lit " " ++ message

def LocationDirective.apply : LocationDirective → Location → Location
  | .root path, l => { l with root := path.value }
  | .errorPage _ _, l => l
  | .autoindex value, l => { l with autoindex := decide (value.value = lit "on") }
  | .index file, l => { l with index := file.value }
  | .allowedMethods methods, l => { l with allowedMethods := methods.map Word.value }
  | .redirect code url, l =>
      { l with
        isRedirectPermanent := decide ((code.map fun c => atoi c.value).getD 302 = 301)
        redirectCode := (code.map fun c => atoi c.value).getD 302
        isRedirect := true
        redirectUrl := url.value }
  | .cgi on paths, l =>
      { l with
        useCgi := on
        cgiPath := ((paths.map Word.value).getLast?).getD l.cgiPath }
  | .uploadStore path, l => { l with uploadStore := path.value }
  | .return code messages, l =>
      { l with
        hasReturn := true
        returnCode := atoi code.value
        returnMessage := (messages.map Word.value).foldl addMessage l.returnMessage }

def Directive.apply : Directive → ServerConfig → ServerConfig
  | .listen port, c =>
      { c with
        host := lit "0.0.0.0"
        port := (extractUnsigned Parser.portMax port.value).value }
  | .serverName first others, c => { c with serverNames := first.value :: others.map Word.value }
  | .errorPage codes file, c =>
      { c with
        errorPages := codes.foldl (fun m code =>
          m.insert (toShort (atoi code.value)) file.value) c.errorPages }
  | .clientMaxBodySize size unit, c =>
      { c with
        clientMaxBodySize := (extractUnsigned (word - 1) size.value).value
          * Parser.multiplier (unit.value.headD nul) % word }
  | .location path directives, c =>
      { c with locations := c.locations ++ [locationOf path.value directives] }

theorem intercalate_append_singleton (s m : Bytes) : ∀ {ms : List Bytes}, ms ≠ [] →
    s.intercalate (ms ++ [m]) = s.intercalate ms ++ (s ++ m)
  | [], h => absurd rfl h
  | [w], _ => by
      rw [List.singleton_append, List.intercalate_cons_cons, List.intercalate_singleton,
        List.intercalate_singleton, List.append_assoc]
  | w :: w' :: ms, _ => by
      have ih := intercalate_append_singleton s m (List.cons_ne_nil w' ms)
      rw [List.cons_append, List.cons_append, List.intercalate_cons_cons, ← List.cons_append, ih,
        List.intercalate_cons_cons, List.append_assoc, List.append_assoc, List.append_assoc]

/-- Messages are words, so a blank stands between any two of them. -/
theorem addMessage_intercalate {ms : List Bytes} (hms : ∀ m ∈ ms, m ≠ []) (m : Bytes) :
    addMessage ([space].intercalate ms) m = [space].intercalate (ms ++ [m]) := by
  cases ms with
  | nil =>
      rw [List.nil_append, List.intercalate_singleton]
      rfl
  | cons w ms =>
      have hne : [space].intercalate (w :: ms) ≠ [] := by
        have hw := hms w List.mem_cons_self
        cases ms with
        | nil =>
            rw [List.intercalate_singleton]
            exact hw
        | cons w' ms =>
            rw [List.intercalate_cons_cons, List.append_assoc]
            exact List.append_ne_nil_of_left_ne_nil hw _
      have hblank : lit " " = [space] := by simp [lit]
      rw [intercalate_append_singleton _ _ (List.cons_ne_nil w ms), addMessage, if_neg hne, hblank]

theorem foldl_addMessage : ∀ {ms' ms : List Bytes}, (∀ m ∈ ms, m ≠ []) → (∀ m ∈ ms', m ≠ []) →
    ms'.foldl addMessage ([space].intercalate ms) = [space].intercalate (ms ++ ms')
  | [], ms, _, _ => by
      rw [List.append_nil]
      rfl
  | m :: ms', ms, hms, hms' => by
      have hms₁ : ∀ m' ∈ ms ++ [m], m' ≠ [] := by
        intro m' hm'
        rcases List.mem_append.mp hm' with hm' | hm'
        · exact hms m' hm'
        · obtain rfl := List.mem_singleton.mp hm'
          exact hms' m' List.mem_cons_self
      rw [List.foldl_cons, addMessage_intercalate hms,
        foldl_addMessage hms₁ fun m' hm' => hms' m' (List.mem_cons_of_mem m hm'),
        List.append_assoc, List.singleton_append]

theorem messages_ne_nil (d : LocationDirective) : ∀ m ∈ d.messages, m ≠ [] := by
  intro m hm
  cases d with
  | «return» code messages =>
      obtain ⟨w, -, rfl⟩ := List.mem_map.mp hm
      exact w.ofWord.1
  | _ => cases hm

open LocationDirective in
theorem locationOf_append_singleton (path : Bytes) (ds : List LocationDirective)
    (d : LocationDirective) :
    locationOf path (ds ++ [d]) = d.apply (locationOf path ds) := by
  have hpaths : ((ds ++ [d]).flatMap cgiPaths).getLast?.getD []
      = d.cgiPaths.getLast?.getD ((ds.flatMap cgiPaths).getLast?.getD []) := by
    rw [List.flatMap_append, List.flatMap_singleton, List.getLast?_append]
    cases d.cgiPaths.getLast? <;> rfl
  have hmessages : [space].intercalate ((ds ++ [d]).flatMap messages)
      = d.messages.foldl addMessage ([space].intercalate (ds.flatMap messages)) := by
    rw [List.flatMap_append, List.flatMap_singleton, foldl_addMessage _ (messages_ne_nil d)]
    intro m hm
    obtain ⟨d', -, hm⟩ := List.mem_flatMap.mp hm
    exact messages_ne_nil d' m hm
  simp only [locationOf, lastOf_append_singleton, hpaths, hmessages]
  cases d <;> rfl

/-- Each field is as the last directive sets it. -/
theorem foldl_locationDirectives (path : Bytes) (ds : List LocationDirective) :
    ds.foldl (fun l d => d.apply l) { location := path } = locationOf path ds := by
  induction ds using List.reverseRecOn with
  | nil => rfl
  | append_singleton ds d ih =>
      rw [List.foldl_append, ih, locationOf_append_singleton]
      rfl

open Directive in
theorem config_append_singleton (ds : List Directive) (d : Directive) :
    (Block.mk (ds ++ [d])).config = d.apply (Block.mk ds).config := by
  have hpages : merged ((ds ++ [d]).flatMap errorPages)
      = d.errorPages.foldl (fun m e => m.insert e.1 e.2) (merged (ds.flatMap errorPages)) := by
    rw [List.flatMap_append, List.flatMap_singleton, merged, List.foldl_append]
    rfl
  simp only [Block.config, lastOf_append_singleton, hpages, List.filterMap_append]
  cases d with
  | location path directives => rfl
  | errorPage codes file =>
      rw [List.filterMap_cons_none rfl, List.filterMap_nil, List.append_nil]
      simp only [errorPages, List.foldl_map]
      rfl
  | _ =>
      rw [List.filterMap_cons_none rfl, List.filterMap_nil, List.append_nil]
      rfl

theorem foldl_directives (ds : List Directive) :
    ds.foldl (fun c d => d.apply c) {} = (Block.mk ds).config := by
  induction ds using List.reverseRecOn with
  | nil => rfl
  | append_singleton ds d ih =>
      rw [List.foldl_append, ih, config_append_singleton]
      rfl

end Webserv
