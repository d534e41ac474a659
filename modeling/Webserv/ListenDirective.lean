import Webserv.TextPlaces

/-!
# What a `listen` directive binds

The value of a `listen` directive is one word. `parseListenDirective`
takes a number only, so the part of `listenDirective` that reads an
address is never run; the number is read as a `uint16_t` that saturates,
and `getListenAddress` makes a socket address of what is stored.
-/

namespace Webserv

open Bytes

/-! ## The socket address -/

/-- A number as it lies in the memory of a little-endian host. -/
def littleEndian : Nat → Nat → Bytes
  | 0, _ => []
  | size + 1, n => UInt8.ofNat (n % 256) :: littleEndian size (n / 256)

/-- `htons` of a little-endian host. -/
def htons (port : Nat) : Nat := port % 256 * 256 + port / 256 % 256

def afInet : Nat := 2

def inaddrAny : Nat := 0

def inaddrLoopback : Nat := 0x7f000001

/-- A `sockaddr_in`; the port and the address are the bytes in memory. -/
structure SockaddrIn where
  family : Nat
  port : Bytes
  addr : Bytes
deriving DecidableEq

/-- `inetAddr` is what `inet_pton` writes. -/
def getListenAddress (inetPton : Bytes → Int) (inetAddr : Bytes → Bytes) (conf : ServerConfig) :
    Except Bytes SockaddrIn :=
  let port := littleEndian 2 (htons conf.port)
  if conf.host = lit "0.0.0.0" then .ok ⟨afInet, port, littleEndian 4 inaddrAny⟩
  else if conf.host = lit "127.0.0.1" then .ok ⟨afInet, port, littleEndian 4 inaddrLoopback⟩
  else if inetPton (cstr conf.host) ≠ 1 then
    .error (lit "Invalid host listen addresse : " ++ conf.host)
  else .ok ⟨afInet, port, inetAddr (cstr conf.host)⟩

/-! ## Values -/

/-- The word of four numbers with dots between them. -/
def dottedQuad (quad : Fin 4 → UInt8) : Bytes :=
  [dot].intercalate ((List.ofFn quad).map fun n => decimal n.toNat)

/-- A decimal numeral. -/
def Numeral (word : Bytes) (n : Nat) : Prop :=
  word ≠ [] ∧ (∀ c ∈ word, isdigit c = true) ∧ number 10 word = n

/-- A number behind an optional sign, and nothing else. -/
def Signed (word : Bytes) (neg : Bool) (n : Nat) : Prop := scanNumber word = (neg, some n, [])

/-- An address and a port. -/
def AddressPort (value : Bytes) (quad : Fin 4 → UInt8) (port : Nat) : Prop :=
  ∃ digits, value = dottedQuad quad ++ colon :: digits ∧ Numeral digits port

/-- The port of the value is above the largest one. -/
def PortAbove (value : Bytes) : Prop :=
  (∃ n, Signed value false n ∧ 65535 < n)
    ∨ ∃ host port n, value = host ++ colon :: port ∧ Signed port false n ∧ 65535 < n

/-- The value is no number, and what stands in front of its colon is no
address. -/
def InvalidAddress (value : Bytes) : Prop :=
  (∀ neg n, ¬Signed value neg n) ∧ ∀ quad, value.takeWhile (· != colon) ≠ dottedQuad quad

/-! ## Tokens behind `listen` -/

/-- A number and a mark stand behind each `listen`. -/
def ListenFollowed : List Token → Prop
  | [] => True
  | t :: tokens => (t.type = .listen →
      ∃ (port : Word .number) (rest : List Token), tokens = port.token :: mark .semicolon :: rest)
      ∧ ListenFollowed tokens

theorem ListenFollowed.behind : ∀ {front : List Token} {t : Token} {rest : List Token},
    ListenFollowed (front ++ t :: rest) → t.type = .listen →
    ∃ (port : Word .number) (rest' : List Token), rest = port.token :: mark .semicolon :: rest'
  | [], _, _, h, ht => h.1 ht
  | _ :: _, _, _, h, ht => ListenFollowed.behind h.2 ht

theorem ListenFollowed.append : ∀ {tokens rest : List Token},
    (∀ t ∈ tokens, t.type ≠ .listen) → ListenFollowed rest → ListenFollowed (tokens ++ rest)
  | [], _, _, h => h
  | t :: _, _, hno, h =>
      ⟨fun ht => absurd ht (hno t List.mem_cons_self),
        ListenFollowed.append (fun t' ht' => hno t' (List.mem_cons_of_mem t ht')) h⟩

theorem locationDirective_no_listen (d : LocationDirective) :
    ∀ t ∈ d.tokens, t.type ≠ .listen := by
  have hwords {type : TokenType} (ws : List (Word type)) (hne : type ≠ .listen) :
      ∀ t ∈ ws.map Word.token, t.type ≠ .listen := by
    intro t ht
    obtain ⟨w, -, rfl⟩ := List.mem_map.mp ht
    exact hne
  have hswitch (on : Bool) : (switchToken on).type ≠ .listen := by
    cases on <;> exact TokenType.noConfusion
  have hpaths (paths : List (Word .string)) : ∀ t ∈ paths.flatMap cgiPathLine,
      t.type ≠ .listen := by
    intro t ht
    obtain ⟨path, -, ht⟩ := List.mem_flatMap.mp ht
    simp only [cgiPathLine, List.mem_cons, List.not_mem_nil, or_false] at ht
    rcases ht with rfl | rfl | rfl <;> exact TokenType.noConfusion
  intro t ht
  cases d with
  | allowedMethods methods =>
      simp only [LocationDirective.tokens, List.cons_append, List.mem_cons, List.mem_append,
        List.not_mem_nil, or_false] at ht
      rcases ht with rfl | ht | rfl
      · exact TokenType.noConfusion
      · exact hwords methods TokenType.noConfusion t ht
      · exact TokenType.noConfusion
  | redirect code url =>
      simp only [LocationDirective.tokens, List.cons_append, List.mem_cons, List.mem_append,
        List.not_mem_nil, or_false] at ht
      rcases ht with rfl | ht | rfl | rfl
      · exact TokenType.noConfusion
      · exact hwords code.toList TokenType.noConfusion t ht
      · exact TokenType.noConfusion
      · exact TokenType.noConfusion
  | cgi on paths =>
      simp only [LocationDirective.tokens, List.cons_append, List.mem_cons, List.nil_append] at ht
      rcases ht with rfl | rfl | rfl | ht
      · exact TokenType.noConfusion
      · exact hswitch on
      · exact TokenType.noConfusion
      · exact hpaths paths t ht
  | «return» code messages =>
      simp only [LocationDirective.tokens, List.cons_append, List.mem_cons, List.mem_append,
        List.not_mem_nil, or_false] at ht
      rcases ht with rfl | rfl | ht | rfl
      · exact TokenType.noConfusion
      · exact TokenType.noConfusion
      · exact hwords messages TokenType.noConfusion t ht
      · exact TokenType.noConfusion
  | _ =>
      simp only [LocationDirective.tokens, List.mem_cons, List.not_mem_nil, or_false] at ht
      rcases ht with rfl | rfl | rfl | rfl | rfl <;> exact TokenType.noConfusion

theorem directive_listenFollowed (d : Directive) {rest : List Token} (h : ListenFollowed rest) :
    ListenFollowed (d.tokens ++ rest) := by
  have hwords {type : TokenType} (ws : List (Word type)) (hne : type ≠ .listen) :
      ∀ t ∈ ws.map Word.token, t.type ≠ .listen := by
    intro t ht
    obtain ⟨w, -, rfl⟩ := List.mem_map.mp ht
    exact hne
  cases d with
  | listen port =>
      refine ⟨fun _ => ⟨port, rest, rfl⟩, fun ht => ?_, fun ht => ?_, h⟩ <;> cases ht
  | serverName first others =>
      refine ListenFollowed.append (fun t ht => ?_) h
      simp only [Directive.tokens, List.cons_append, List.mem_cons, List.mem_append,
        List.not_mem_nil, or_false] at ht
      rcases ht with rfl | rfl | ht | rfl
      · exact TokenType.noConfusion
      · exact TokenType.noConfusion
      · exact hwords others TokenType.noConfusion t ht
      · exact TokenType.noConfusion
  | errorPage codes file =>
      refine ListenFollowed.append (fun t ht => ?_) h
      simp only [Directive.tokens, List.cons_append, List.mem_cons, List.mem_append,
        List.not_mem_nil, or_false] at ht
      rcases ht with rfl | ht | rfl | rfl
      · exact TokenType.noConfusion
      · exact hwords codes TokenType.noConfusion t ht
      · exact TokenType.noConfusion
      · exact TokenType.noConfusion
  | clientMaxBodySize size unit =>
      refine ListenFollowed.append (fun t ht => ?_) h
      simp only [Directive.tokens, List.mem_cons, List.not_mem_nil, or_false] at ht
      rcases ht with rfl | rfl | rfl | rfl <;> exact TokenType.noConfusion
  | location path directives =>
      refine ListenFollowed.append (fun t ht => ?_) h
      simp only [Directive.tokens, List.cons_append, List.mem_cons, List.mem_append,
        List.nil_append, List.not_mem_nil, or_false, List.mem_flatMap] at ht
      rcases ht with rfl | rfl | rfl | ⟨d, -, ht⟩ | rfl
      · exact TokenType.noConfusion
      · exact TokenType.noConfusion
      · exact TokenType.noConfusion
      · exact locationDirective_no_listen d t ht
      · exact TokenType.noConfusion

theorem directives_listenFollowed : ∀ (ds : List Directive) {rest : List Token},
    ListenFollowed rest → ListenFollowed (ds.flatMap Directive.tokens ++ rest)
  | [], _, h => h
  | d :: ds, rest, h => by
      rw [List.flatMap_cons, List.append_assoc]
      exact directive_listenFollowed d (directives_listenFollowed ds h)

/-- In a list of blocks a number and a mark stand behind each `listen`. -/
theorem blocks_listenFollowed : ∀ bs : List Block,
    ListenFollowed (bs.flatMap Block.tokens ++ [endToken])
  | [] => ⟨TokenType.noConfusion, trivial⟩
  | b :: bs => by
      have hrest : ListenFollowed (mark .rbrace :: (bs.flatMap Block.tokens ++ [endToken])) :=
        ⟨TokenType.noConfusion, blocks_listenFollowed bs⟩
      have hblock := directives_listenFollowed b.directives hrest
      rw [List.flatMap_cons, Block.tokens, List.append_assoc, List.append_assoc, List.append_assoc]
      exact ⟨TokenType.noConfusion, TokenType.noConfusion, hblock⟩

/-! ## Words that are numbers -/

theorem tokenType_number_iff {word : Bytes} (hword : ∀ c ∈ word, WordChar c) :
    tokenType word = .ok .number
      ↔ ∃ neg n, Signed word neg n ∧ n ≤ intMax ∧ (neg = true → n = 0) := by
  constructor
  · intro h
    have hofWord : (⟨.number, word⟩ : Token).OfWord ∨ word = [] := by
      by_cases hnil : word = []
      · exact .inr hnil
      · exact .inl ⟨hnil, h⟩
    rcases hofWord with hofWord | rfl
    · obtain ⟨hfail, heof, hneg⟩ := hofWord.number rfl
      change (extractInt word).fail = false at hfail
      change (extractInt word).eof = true at heof
      change 0 ≤ (extractInt word).value at hneg
      unfold extractInt at hfail heof hneg
      revert hfail heof hneg
      generalize hscan : scanNumber word = r
      obtain ⟨neg, digits, rest⟩ := r
      cases digits with
      | none =>
          intro hfail
          cases hfail
      | some n =>
          cases neg with
          | true =>
              simp only [if_true]
              split
              · intro hfail
                cases hfail
              · intro _ heof hneg
                obtain rfl := List.isEmpty_iff.mp heof
                have hzero : n = 0 := by
                  have hneg : 0 ≤ -(n : Int) := hneg
                  omega
                exact ⟨true, n, hscan, by rw [hzero]; decide, fun _ => hzero⟩
          | false =>
              simp only [Bool.false_eq_true, if_false]
              split
              · intro hfail
                cases hfail
              · rename_i hle
                intro _ heof _
                obtain rfl := List.isEmpty_iff.mp heof
                exact ⟨false, n, hscan, Nat.not_lt.mp hle, fun h => by cases h⟩
    · exact absurd h (by decide)
  · rintro ⟨neg, n, hscan, hle, hneg⟩
    obtain ⟨sign, digits, hdrop, -, hne, hdigits⟩ := scanNumber_end hscan
    obtain ⟨c, hc⟩ := List.exists_mem_of_ne_nil digits hne
    have hmem : c ∈ word :=
      (List.dropWhile_suffix isspace).subset (hdrop ▸ List.mem_append_right sign hc)
    rw [tokenType_digit hmem (hdigits c hc), extractInt, hscan]
    cases neg with
    | true =>
        obtain rfl := hneg rfl
        rfl
    | false =>
        simp only [Bool.false_eq_true, if_false]
        rw [if_neg (Nat.not_lt.mpr hle)]
        simp

/-- A word that is a number has no colon and no unit in it. -/
theorem Signed.chars {word : Bytes} (hword : ∀ c ∈ word, WordChar c) {neg : Bool} {n : Nat}
    (h : Signed word neg n) : ∀ c ∈ word, isdigit c = true ∨ c = 43 ∨ c = 45 := by
  obtain ⟨sign, digits, hdrop, hsign, -, hdigits⟩ := scanNumber_end h
  have hsame : word.dropWhile isspace = word := by
    cases word with
    | nil => rfl
    | cons c word =>
        rw [List.dropWhile_cons, (hword c List.mem_cons_self).1]
        rfl
  rw [hsame] at hdrop
  intro c hc
  rw [hdrop, List.mem_append] at hc
  rcases hc with hc | hc
  · exact .inr (hsign c hc)
  · exact .inl (hdigits c hc)

theorem Signed.parts {word : Bytes} (hne : word ≠ []) (hword : ∀ c ∈ word, WordChar c) {neg : Bool}
    {n : Nat} (h : Signed word neg n) : Webserv.parts word = [word] := by
  refine parts_whole hne hword ?_
  rintro ⟨a, d, u, b, rfl, -, hunit⟩
  rcases h.chars hword u (by simp) with hdigit | rfl | rfl
  · rw [not_isdigit_multiplier hunit] at hdigit
    cases hdigit
  · exact absurd hunit (by decide)
  · exact absurd hunit (by decide)

theorem Signed.no_colon {word : Bytes} (hword : ∀ c ∈ word, WordChar c) {neg : Bool} {n : Nat}
    (h : Signed word neg n) : colon ∉ word := by
  intro hcolon
  rcases h.chars hword colon hcolon with hdigit | hplus | hminus
  · exact absurd hdigit (by decide)
  · exact absurd hplus (by decide)
  · exact absurd hminus (by decide)

/-! ## A value between the parts of a text -/

/-- The value of a directive: a word in which no comment begins. -/
structure ListenValue (value : Bytes) : Prop where
  nonempty : value ≠ []
  chars : ∀ c ∈ value, WordChar c
  noComment : hash ∉ value

def listenText (front gap value rest : Bytes) : Bytes := front ++ (gap ++ (value ++ rest))

/-- A text is accepted if there is a good value between its parts: `front`
ends with a keyword `listen`, and the rest begins with the mark behind the
value. No other `listen` directive follows in the block. -/
structure ListenPlace (front gap rest : Bytes) (block : Nat) : Prop where
  gap : gap ≠ [] ∧ ∀ c ∈ gap, isspace c = true
  separated : Separated rest
  accepted : ∃ (bs₁ bs₂ : List Block) (ds₁ ds₂ : List Directive), block = bs₁.length
    ∧ (∀ c text, isspace c = true → ReadUpTo front (c :: text)
      (bs₁.flatMap Block.tokens ++ ([mark .server, mark .lbrace]
        ++ (ds₁.flatMap Directive.tokens ++ [mark .listen]))))
    ∧ tokenize rest = .ok (mark .semicolon :: (ds₂.flatMap Directive.tokens
      ++ mark .rbrace :: (bs₂.flatMap Block.tokens ++ [endToken])))
    ∧ ∀ d ∈ ds₂, Directive.port? d = none

/-- The text is accepted, and the server of the block is bound to the
address and the port, which lie in memory in network byte order. -/
def BindsTo (inetPton : Bytes → Int) (inetAddr : Bytes → Bytes) (text : Bytes) (block : Nat)
    (quad : Fin 4 → UInt8) (port : Nat) : Prop :=
  ∃ servers config, Accepts inetPton text servers ∧ servers[block]? = some config
    ∧ getListenAddress inetPton inetAddr config
      = .ok ⟨afInet, [UInt8.ofNat (port / 256), UInt8.ofNat (port % 256)], List.ofFn quad⟩

/-- The text is rejected by an exception. -/
def Rejected (inetPton : Bytes → Int) (text : Bytes) : Prop :=
  (∃ what, tokenize text = .error what)
    ∨ ∃ tokens, tokenize text = .ok tokens ∧ ∀ fuel, tokens.length ≤ fuel →
      ∃ what, Parser.parse inetPton fuel tokens = .error (.threw what)

/-- A value binds the address and the port it says, or is rejected. -/
structure ListenSays (inetPton : Bytes → Int) (inetAddr : Bytes → Bytes) (text : Bytes)
    (block : Nat) (value : Bytes) : Prop where
  port : ∀ n, Numeral value n → n ≤ 65535 →
    BindsTo inetPton inetAddr text block (fun _ => 0) n
  addressPort : ∀ quad n, AddressPort value quad n → n ≤ 65535 →
    BindsTo inetPton inetAddr text block quad n
  invalid : PortAbove value ∨ InvalidAddress value → Rejected inetPton text

section Place

variable {front gap rest value : Bytes} {block : Nat}

theorem streamWords_gap : ∀ {gap : Bytes} (stream : Bytes), (∀ c ∈ gap, isspace c = true) →
    streamWords (gap ++ stream) = streamWords stream
  | [], _, _ => rfl
  | c :: gap, stream, h => by
      rw [List.cons_append, streamWords_space _ (h c List.mem_cons_self),
        streamWords_gap stream fun d hd => h d (List.mem_cons_of_mem c hd)]

/-- The tokens of the value stand between the others, which are those of
a list of blocks if the value is a number. -/
theorem ListenPlace.tokens (h : ListenPlace front gap rest block) (hvalue : ListenValue value) :
    ∃ (before after : List Token) (bs₁ bs₂ : List Block) (ds₁ ds₂ : List Directive),
      tokenize (listenText front gap value rest) = (wordTokens (parts value)).map (fun tokens =>
        before ++ mark .listen :: (tokens ++ mark .semicolon :: after))
      ∧ block = bs₁.length ∧ (∀ d ∈ ds₂, Directive.port? d = none)
      ∧ ∀ port : Word .number, before ++ mark .listen :: port.token :: mark .semicolon :: after
        = (bs₁ ++ ⟨ds₁ ++ .listen port :: ds₂⟩ :: bs₂).flatMap Block.tokens ++ [endToken] := by
  obtain ⟨bs₁, bs₂, ds₁, ds₂, hblock, hread, hrest, hport⟩ := h.accepted
  refine ⟨bs₁.flatMap Block.tokens ++ ([mark .server, mark .lbrace]
    ++ ds₁.flatMap Directive.tokens), ds₂.flatMap Directive.tokens
    ++ mark .rbrace :: (bs₂.flatMap Block.tokens ++ [endToken]), bs₁, bs₂, ds₁, ds₂, ?_, hblock,
    hport, ?_⟩
  · obtain ⟨c, gap', hgap⟩ := List.exists_cons_of_ne_nil h.gap.1
    have hplace := hread c (gap' ++ (value ++ rest)) (h.gap.2 c (hgap ▸ List.mem_cons_self))
    rw [← List.cons_append, ← hgap] at hplace
    have hexits := exits_tokenize (listenText front gap value rest)
    rw [listenText, hplace.exits] at hexits
    have hlast := h.gap.2 _ (List.getLast_mem h.gap.1)
    rw [sanitizeInput_plain gap _ _ fun c hc => .inl (h.gap.2 c hc),
      List.getLast?_eq_getLast_of_ne_nil h.gap.1, Option.some_or,
      sanitizeInput_behind (isspace_plain hlast).2.2, sanitizeInput_append,
      h.separated.sanitizeInput, ← List.append_assoc] at hexits
    have hwords : streamWords (gap ++ sanitizeInput none value) = parts value :=
      streamWords_gap _ h.gap.2
    have hboth := hexits.unique
      (exits_words h.separated hrest _ _ hwords (comment_not_mem hvalue.noComment))
    simpa [listenText] using hboth
  · intro port
    simp [Block.tokens, Directive.tokens]

variable (inetPton : Bytes → Int) (inetAddr : Bytes → Bytes)

/-- The value is a word that is a number. -/
def NumberValue (value : Bytes) : Prop := parts value = [value] ∧ tokenType value = .ok .number

theorem wordTokens_values : ∀ {ws : List Bytes} {tokens : List Token}, wordTokens ws = .ok tokens →
    tokens.map Token.value = ws
  | [], tokens, h => by
      obtain rfl := Except.ok.inj h
      rfl
  | word :: ws, tokens, h => by
      obtain ⟨type, rest, -, hrest, rfl⟩ := wordTokens_cons.mp h
      rw [List.map_cons, wordTokens_values hrest]

/-- Any other value is rejected. -/
theorem rejected_of_not_number (h : ListenPlace front gap rest block) (hvalue : ListenValue value)
    (hnumber : ¬NumberValue value) : Rejected inetPton (listenText front gap value rest) := by
  obtain ⟨before, after, -, -, -, -, htokens, -, -, -⟩ := h.tokens hvalue
  cases hparts : wordTokens (parts value) with
  | error what =>
      rw [hparts] at htokens
      exact .inl ⟨what, htokens⟩
  | ok tokens =>
      rw [hparts] at htokens
      refine .inr ⟨_, htokens, ?_⟩
      intro fuel hfuel
      cases hparse : Parser.parse inetPton fuel _ with
      | error s =>
          obtain ⟨what, rfl⟩ := Parser.parse_throws inetPton htokens hfuel hparse
          exact ⟨what, rfl⟩
      | ok servers =>
          refine absurd ?_ hnumber
          obtain ⟨bs, hbs, -⟩ := (Parser.parse_ok_iff inetPton htokens hfuel servers).mp hparse
          have hfollowed := blocks_listenFollowed bs
          rw [← hbs] at hfollowed
          obtain ⟨port, rest', hbehind⟩ := hfollowed.behind rfl
          have hvalues := wordTokens_values hparts
          cases tokens with
          | nil =>
              have htype := congrArg Token.type (List.cons_eq_cons.mp hbehind).1
              cases htype
          | cons t tokens =>
              obtain ⟨rfl, hmore⟩ := List.cons_eq_cons.mp hbehind
              cases tokens with
              | nil =>
                  have hone : parts value = [port.value] := hvalues.symm
                  have hpair : ¬HasSizePair value := by
                    intro hpair
                    have hlt := length_parts_pair hpair
                    rw [hone] at hlt
                    exact Nat.lt_irrefl 1 hlt
                  have hwhole := parts_whole hvalue.nonempty hvalue.chars hpair
                  have hsame : port.value = value :=
                    (List.cons_eq_cons.mp (hone.symm.trans hwhole)).1
                  exact ⟨hwhole, hsame ▸ port.ofWord.2⟩
              | cons t' tokens =>
                  obtain ⟨rfl, -⟩ := List.cons_eq_cons.mp hmore
                  have hsemicolon : (mark .semicolon).value ∈ parts value := by
                    rw [← hvalues]
                    simp
                  have hnot : (59 : UInt8) ∉ value := fun hmem =>
                    (hvalue.chars 59 hmem).2 (by decide)
                  exact absurd (by decide)
                    (not_mem_streamWords hnot (by decide) (by decide) _ hsemicolon)

/-- A number is accepted, and the port saturates. -/
theorem accepts_number (h : ListenPlace front gap rest block) (hvalue : ListenValue value)
    (hnumber : NumberValue value) :
    ∃ servers config, Accepts inetPton (listenText front gap value rest) servers
      ∧ servers[block]? = some config ∧ config.host = lit "0.0.0.0"
      ∧ config.port = (extractUnsigned Parser.portMax value).value := by
  obtain ⟨before, after, bs₁, bs₂, ds₁, ds₂, htokens, rfl, hport, hblocks⟩ := h.tokens hvalue
  let port : Word .number := ⟨value, hvalue.nonempty, hnumber.2⟩
  have hword : wordTokens (parts value) = .ok [port.token] := by
    rw [hnumber.1]
    exact wordTokens_cons.mpr ⟨_, [], hnumber.2, rfl, rfl⟩
  rw [hword] at htokens
  have haccepts := accepts_blocks inetPton (htokens.trans (congrArg Except.ok (hblocks port)))
  refine ⟨_, Block.config ⟨ds₁ ++ .listen port :: ds₂⟩, haccepts, by simp, rfl, ?_⟩
  show (lastOf Directive.port? (ds₁ ++ .listen port :: ds₂)).getD 80 = _
  rw [lastOf_behind (f := Directive.port?) rfl hport]
  rfl

theorem Accepts.not_rejected {text : Bytes} {servers : List ServerConfig}
    (h : Accepts inetPton text servers) : ¬Rejected inetPton text := by
  obtain ⟨tokens, htokens, hparse⟩ := h
  rintro (⟨what, herror⟩ | ⟨tokens', htokens', herror⟩)
  · rw [htokens] at herror
    cases herror
  · obtain rfl := Except.ok.inj (htokens.symm.trans htokens')
    obtain ⟨what, hwhat⟩ := herror _ (Nat.le_refl _)
    rw [hparse _ (Nat.le_refl _)] at hwhat
    cases hwhat

theorem BindsTo.not_rejected {text : Bytes} {quad : Fin 4 → UInt8} {port : Nat}
    (h : BindsTo inetPton inetAddr text block quad port) : ¬Rejected inetPton text := by
  obtain ⟨servers, config, haccepts, -⟩ := h
  exact haccepts.not_rejected

/-- A port that fits is bound on all addresses. -/
theorem bindsTo_number (h : ListenPlace front gap rest block) (hvalue : ListenValue value) {n : Nat}
    (hnumber : Numeral value n) (hle : n ≤ 65535) :
    BindsTo inetPton inetAddr (listenText front gap value rest) block (fun _ => 0) n := by
  obtain ⟨hne, hdigits, rfl⟩ := hnumber
  have hmax : number 10 value ≤ intMax := Nat.le_trans hle (by decide)
  have hsigned : Signed value false (number 10 value) := scanNumber_digits hne hdigits
  have htype := tokenType_digits hne hdigits hmax
  obtain ⟨servers, config, haccepts, hblock, hhost, hport⟩ :=
    accepts_number inetPton h hvalue ⟨hsigned.parts hne hvalue.chars, htype⟩
  refine ⟨servers, config, haccepts, hblock, ?_⟩
  rw [extractUnsigned_digits _ hne hdigits, if_neg (show ¬Parser.portMax < _ by
    rw [Parser.portMax]
    omega)] at hport
  change config.port = number 10 value at hport
  have hhigh : number 10 value / 256 % 256 = number 10 value / 256 :=
    Nat.mod_eq_of_lt (by omega)
  have hlow : (number 10 value % 256 * 256 + number 10 value / 256) % 256
      = number 10 value / 256 := by omega
  have hswap : (number 10 value % 256 * 256 + number 10 value / 256) / 256 % 256
      = number 10 value % 256 := by omega
  simp only [getListenAddress, hhost, if_true, hport, littleEndian, htons, hhigh, hlow, hswap]
  rfl

/-- A value whose number is no `int` is rejected, and so is a value with a
colon. -/
theorem numberValue_iff (hvalue : ListenValue value) : NumberValue value
    ↔ ∃ neg n, Signed value neg n ∧ n ≤ intMax ∧ (neg = true → n = 0) := by
  rw [NumberValue, tokenType_number_iff hvalue.chars]
  refine ⟨And.right, fun h => ⟨?_, h⟩⟩
  obtain ⟨neg, n, hsigned, -⟩ := h
  exact hsigned.parts hvalue.nonempty hvalue.chars

theorem not_numberValue_colon (hvalue : ListenValue value) (hcolon : colon ∈ value) :
    ¬NumberValue value := by
  intro hnumber
  obtain ⟨neg, n, hsigned, -⟩ := (numberValue_iff hvalue).mp hnumber
  exact hsigned.no_colon hvalue.chars hcolon

end Place

/-! ## What a value binds -/

/-- A value binds what it says if and only if it is neither an address
with a port nor the number of a larger port that is an `int`. -/
theorem listen_binds (inetPton : Bytes → Int) (inetAddr : Bytes → Bytes)
    {front gap rest value : Bytes} {block : Nat} (h : ListenPlace front gap rest block)
    (hvalue : ListenValue value) :
    ListenSays inetPton inetAddr (listenText front gap value rest) block value
      ↔ (∀ quad n, AddressPort value quad n → 65535 < n)
        ∧ ∀ n, Signed value false n → 65535 < n → intMax < n := by
  constructor
  · intro hvalid
    constructor
    · intro quad n haddress
      by_contra hle
      have hbinds := hvalid.addressPort quad n haddress (Nat.not_lt.mp hle)
      obtain ⟨digits, rfl, -⟩ := haddress
      have hcolon : colon ∈ dottedQuad quad ++ colon :: digits := by simp
      exact hbinds.not_rejected inetPton inetAddr
        (rejected_of_not_number inetPton h hvalue (not_numberValue_colon hvalue hcolon))
    · intro n hsigned habove
      by_contra hle
      have hnumber : NumberValue value := (numberValue_iff hvalue).mpr
        ⟨false, n, hsigned, Nat.not_lt.mp hle, fun hneg => by cases hneg⟩
      obtain ⟨servers, config, haccepts, -⟩ := accepts_number inetPton h hvalue hnumber
      exact haccepts.not_rejected inetPton (hvalid.invalid (.inl (.inl ⟨n, hsigned, habove⟩)))
  · rintro ⟨haddress, hnumber⟩
    refine ⟨fun n hnumeral hle => bindsTo_number inetPton inetAddr h hvalue hnumeral hle,
      fun quad n hquad hle => absurd (haddress quad n hquad) (Nat.not_lt.mpr hle), ?_⟩
    intro hinvalid
    refine rejected_of_not_number inetPton h hvalue ?_
    intro hvalueNumber
    obtain ⟨neg, n, hsigned, hle, hzero⟩ := (numberValue_iff hvalue).mp hvalueNumber
    rcases hinvalid with (⟨m, hm, habove⟩ | ⟨host, port, m, hsplit, -⟩) | hinvalid
    · obtain ⟨rfl, hm⟩ := Prod.mk.inj (hsigned.symm.trans hm)
      obtain rfl := Option.some.inj (Prod.mk.inj hm).1
      exact absurd (hnumber n hsigned habove) (Nat.not_lt.mpr hle)
    · refine not_numberValue_colon hvalue ?_ hvalueNumber
      rw [hsplit]
      simp
    · exact hinvalid.1 neg n hsigned

/-! ## A block with a directive -/

def listenFront : Bytes := lit "server \x7b " ++ lit "listen"

theorem listenPlace : ListenPlace listenFront [space] (lit "; \x7d") 0 where
  gap := by decide
  separated := fun c hc => .inr (Option.some.inj hc ▸ by decide)
  accepted := by
    refine ⟨[], [], [], [], rfl, ?_, by decide +kernel, fun d hd => by cases hd⟩
    intro c text hc
    exact readUpTo_keyword text hc (by decide) (by decide) (by decide)
      (tokenType_keyword (by simp [keywords]))

theorem listenValue_of {value : Bytes} (hne : value ≠ [])
    (h : ∀ c ∈ value, (isspace c = false ∧ c ∉ lit ";\x7b\x7d") ∧ c ≠ hash) : ListenValue value :=
  ⟨hne, fun c hc => (h c hc).1, fun hmem => (h hash hmem).2 rfl⟩

/-- A port. -/
theorem listen_binds_port : ListenSays (fun _ => 0) (fun _ => [])
    (lit "server \x7b listen 8080; \x7d") 0 (lit "8080") := by
  have hvalue : ListenValue (lit "8080") := listenValue_of (by decide) (by decide)
  have hscan : scanNumber (lit "8080") = (false, some 8080, []) := by decide
  refine (listen_binds (fun _ => 0) (fun _ => []) listenPlace hvalue).mpr ⟨?_, ?_⟩
  · rintro quad n ⟨digits, hsplit, -⟩
    have hcolon : colon ∈ lit "8080" := by
      rw [hsplit]
      simp
    exact absurd hcolon (by decide)
  · intro n hsigned habove
    obtain rfl := Option.some.inj (Prod.mk.inj (Prod.mk.inj (hscan.symm.trans hsigned)).2).1
    exact absurd habove (by decide)

def loopback (i : Fin 4) : UInt8 := if i = 0 then 127 else if i = 3 then 1 else 0

/-- An address with a port is rejected. -/
theorem not_listen_binds : ¬∀ (inetPton : Bytes → Int) (inetAddr : Bytes → Bytes)
    (front gap rest value : Bytes) (block : Nat), ListenPlace front gap rest block →
    ListenValue value →
    ListenSays inetPton inetAddr (listenText front gap value rest) block value := by
  intro h
  have hvalue : ListenValue (lit "127.0.0.1:8080") := listenValue_of (by decide) (by decide)
  have hvalid := h (fun _ => 1) (fun _ => [127, 0, 0, 1]) _ _ _ _ _ listenPlace hvalue
  have hnot := not_numberValue_colon hvalue (by decide)
  refine (hvalid.addressPort loopback 8080 ?_ (by decide)).not_rejected _ _
    (rejected_of_not_number _ listenPlace hvalue hnot)
  exact ⟨lit "8080", by decide +kernel, by decide, by decide, by decide⟩

end Webserv
