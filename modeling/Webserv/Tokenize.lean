import Webserv.Bytes
import Webserv.WhileLoop

/-!
# The tokens of a configuration file

`tokenize` reads the words of a text and gives each a type: a keyword, a
mark, a size multiplier, a number that fits an `int`, or a string. The
last token is the end mark, and no other token is one. Numbers are read
by the extraction operators of a stream and by `atoi`.
-/

namespace Bytes

/-! ## Numbers in a stream -/

/-- A number behind white space and an optional sign: whether the sign is
a minus, the value of the digits, if there are any, and what follows. -/
def scanNumber (s : Bytes) : Bool × Option Nat × Bytes :=
  let t := s.dropWhile isspace
  let neg := t.head? == some 45
  let t := if neg || t.head? == some 43 then t.tail else t
  let r := readDigits 10 0 t
  (neg, if r.2.length = t.length then none else some r.1, r.2)

/-- What `stream >> n` does on a stream with the text `s`: the value of
`n`, `fail()` and `eof()`. -/
structure Extracted (α : Type) where
  value : α
  fail : Bool
  eof : Bool

def intMax : Nat := 2147483647

/-- `stream >> n` for an `int`. -/
def extractInt (s : Bytes) : Extracted Int :=
  let (neg, digits, rest) := scanNumber s
  match digits with
  | none => ⟨0, true, rest.isEmpty⟩
  | some v =>
      if neg then
        if intMax + 1 < v then ⟨-((intMax : Int) + 1), true, rest.isEmpty⟩
        else ⟨-(v : Int), false, rest.isEmpty⟩
      else
        if intMax < v then ⟨intMax, true, rest.isEmpty⟩
        else ⟨v, false, rest.isEmpty⟩

/-- `stream >> n` for an unsigned type with the largest value `max`. -/
def extractUnsigned (max : Nat) (s : Bytes) : Extracted Nat :=
  let (neg, digits, rest) := scanNumber s
  match digits with
  | none => ⟨0, true, rest.isEmpty⟩
  | some v =>
      if max < v then ⟨max, true, rest.isEmpty⟩
      else ⟨if neg then (max + 1 - v) % (max + 1) else v, false, rest.isEmpty⟩

/-- `atoi(s.c_str())`, for a number that fits an `int`. -/
def atoi (s : Bytes) : Int :=
  let (neg, digits, _) := scanNumber (cstr s)
  let v := digits.getD 0
  if neg then -(v : Int) else v

/-- Digits are a number up to their end. -/
theorem scanNumber_digits {digits : Bytes} (hne : digits ≠ [])
    (h : ∀ c ∈ digits, isdigit c = true) :
    scanNumber digits = (false, some (number 10 digits), []) := by
  have hread := readDigits_digits 0 fun c hc => isDigit_ten (h c hc)
  obtain ⟨c, digits, rfl⟩ := List.exists_cons_of_ne_nil hne
  obtain ⟨-, hspace, hplus, hminus, -⟩ := isxdigit_not (isDigit_ten (h c List.mem_cons_self)).1
  have hneg : (c == 45) = false := beq_eq_false_iff_ne.mpr hminus
  simp only [scanNumber, List.dropWhile_cons, hspace, number]
  simp [hplus, hneg, hread]

theorem isdigit_of_isDigit {c : UInt8} (h : IsDigit 10 c) : isdigit c = true := by
  by_contra hdigit
  have hval := h.2
  rw [xdigitVal, if_neg hdigit] at hval
  omega

theorem readDigits_end {base : Nat} : ∀ {s : Bytes} {acc : Nat}, (readDigits base acc s).2 = [] →
    ∀ c ∈ s, IsDigit base c
  | [], _, _ => fun _ h => by cases h
  | c :: s, acc, h => by
      rw [readDigits] at h
      cases hval : digitVal base c with
      | none =>
          rw [hval] at h
          cases h
      | some d =>
          rw [hval] at h
          have hdigit : IsDigit base c := by
            unfold digitVal at hval
            split at hval
            · rename_i hc
              rw [Bool.and_eq_true, decide_eq_true_eq] at hc
              exact hc
            · cases hval
          intro c' hc'
          rcases List.mem_cons.mp hc' with rfl | hc'
          · exact hdigit
          · exact readDigits_end h c' hc'

/-- A text that is a number and nothing else. -/
theorem scanNumber_end {s : Bytes} {neg : Bool} {n : Nat} (h : scanNumber s = (neg, some n, [])) :
    ∃ sign digits, s.dropWhile isspace = sign ++ digits ∧ (∀ c ∈ sign, c = 43 ∨ c = 45)
      ∧ digits ≠ [] ∧ ∀ c ∈ digits, isdigit c = true := by
  unfold scanNumber at h
  extract_lets t neg' t' r at h
  obtain ⟨-, h⟩ := Prod.mk.inj h
  obtain ⟨hsome, hend⟩ := Prod.mk.inj h
  have hdigits : ∀ c ∈ t', isdigit c = true := fun c hc =>
    isdigit_of_isDigit (readDigits_end hend c hc)
  have hne : t' ≠ [] := by
    intro hnil
    rw [if_pos (by rw [hend, hnil])] at hsome
    cases hsome
  by_cases hsign : (neg' || t.head? == some 43) = true
  · have htail : t' = t.tail := if_pos hsign
    cases ht : t with
    | nil =>
        rw [htail, ht] at hne
        exact absurd rfl hne
    | cons c rest =>
        refine ⟨[c], t', ?_, ?_, hne, hdigits⟩
        · show t = _
          rw [htail, ht]
          rfl
        · intro d hd
          obtain rfl := List.mem_singleton.mp hd
          rw [Bool.or_eq_true] at hsign
          rcases hsign with hminus | hplus
          · have hminus : (t.head? == some 45) = true := hminus
            rw [ht] at hminus
            exact .inr (by simpa using hminus)
          · rw [ht] at hplus
            exact .inl (by simpa using hplus)
  · have hsame : t' = t := if_neg hsign
    exact ⟨[], t', hsame.symm, fun c hc => absurd hc List.not_mem_nil, hne, hdigits⟩

theorem extractInt_digits {digits : Bytes} (hne : digits ≠ [])
    (h : ∀ c ∈ digits, isdigit c = true) :
    extractInt digits = if intMax < number 10 digits then ⟨intMax, true, true⟩
      else ⟨number 10 digits, false, true⟩ := by
  rw [extractInt, scanNumber_digits hne h]
  rfl

theorem extractUnsigned_digits (max : Nat) {digits : Bytes} (hne : digits ≠ [])
    (h : ∀ c ∈ digits, isdigit c = true) :
    extractUnsigned max digits = if max < number 10 digits then ⟨max, true, true⟩
      else ⟨number 10 digits, false, true⟩ := by
  rw [extractUnsigned, scanNumber_digits hne h]
  rfl

theorem eof_extractUnsigned (max : Nat) (s : Bytes) :
    (extractUnsigned max s).eof = (extractInt s).eof := by
  unfold extractUnsigned extractInt
  obtain ⟨neg, digits, rest⟩ := scanNumber s
  cases digits with
  | none => rfl
  | some v =>
      simp only
      split <;> split <;> split <;> rfl

/-- A number that is no negative `int` is read as the larger types read
it. -/
theorem extractUnsigned_of_int {max : Nat} {s : Bytes} (hmax : intMax ≤ max)
    (hfail : (extractInt s).fail = false) (hneg : 0 ≤ (extractInt s).value) :
    (extractUnsigned max s).fail = false
      ∧ ((extractUnsigned max s).value : Int) = (extractInt s).value := by
  unfold extractInt at hfail hneg ⊢
  unfold extractUnsigned
  revert hfail hneg
  obtain ⟨neg, digits, rest⟩ := scanNumber s
  cases digits with
  | none =>
      intro hfail
      cases hfail
  | some v =>
      cases neg with
      | true =>
          simp only [if_true]
          split
          · intro hfail
            cases hfail
          · intro _ hneg
            obtain rfl : v = 0 := by
              have hneg : 0 ≤ -(v : Int) := hneg
              omega
            simp
      | false =>
          simp only [Bool.false_eq_true, if_false]
          split
          · intro hfail
            cases hfail
          · intro _ _
            rw [if_neg (by omega)]
            exact ⟨rfl, rfl⟩

end Bytes

namespace Webserv

open Bytes

/-! ## Tokens -/

inductive TokenType where
  | server
  | listen
  | serverName
  | root
  | errorPage
  | location
  | lbrace
  | rbrace
  | semicolon
  | number
  | string
  | end
  | autoindex
  | index
  | clientMaxBodySize
  | clientMaxBodySizeMul
  | allowedMethods
  | redirect
  | return
  | cgi
  | cgiPath
  | uploadStore
deriving DecidableEq

structure Token where
  type : TokenType
  value : Bytes
deriving DecidableEq

/-- The token behind all words. -/
def endToken : Token := ⟨.end, []⟩

def isSizeMultiplier (c : UInt8) : Bool := (lit "kmg").contains (tolower c)

/-- `SanitizeInput`: blanks around marks, and around a size multiplier
behind a digit. `before` is the byte in front of the text. -/
def sanitizeInput (before : Option UInt8) : Bytes → Bytes
  | [] => []
  | c :: input =>
      if c ∈ lit ";\x7b\x7d" then
        space :: c :: space :: sanitizeInput (some space) input
      else if isSizeMultiplier c && before.any isdigit then
        space :: tolower c :: space :: sanitizeInput (some space) input
      else
        c :: sanitizeInput (some c) input

/-- `stream >> word`: the word and the rest of the stream. -/
def readWord (stream : Bytes) : Option (Bytes × Bytes) :=
  let s := stream.dropWhile isspace
  if s = [] then none
  else some (s.takeWhile fun c => !isspace c, s.dropWhile fun c => !isspace c)

/-- `stream.ignore` up to the next line feed. -/
def ignoreLine (stream : Bytes) : Bytes :=
  (stream.dropWhile fun c => decide (c ≠ lf)).drop 1

/-- The words with a type of their own. -/
def keywords : List (Bytes × TokenType) :=
  [
    (lit "server", .server),
    (lit "listen", .listen),
    (lit "root", .root),
    (lit "error_page", .errorPage),
    (lit "location", .location),
    (lit "autoindex", .autoindex),
    (lit "index", .index),
    (lit "client_max_body_size", .clientMaxBodySize),
    (lit "allowed_methods", .allowedMethods),
    (lit "redirect", .redirect),
    (lit "cgi", .cgi),
    (lit "cgi_path", .cgiPath),
    (lit "upload_store", .uploadStore),
    (lit "server_name", .serverName),
    (lit "\x7b", .lbrace),
    (lit "\x7d", .rbrace),
    (lit ";", .semicolon),
    (lit "return", .return)
  ]

/-- The type `tokenize` gives a word. -/
def tokenType (word : Bytes) : Except Bytes TokenType :=
  match keywords.find? fun k => decide (k.1 = word) with
  | some k => .ok k.2
  | none =>
      if word.length = 1 ∧ isSizeMultiplier (word.headD nul) then
        .ok .clientMaxBodySizeMul
      else if !(extractInt word).fail && (extractInt word).eof then
        if (extractInt word).value < 0 then .error (lit "Negative values is forbiden")
        else .ok .number
      else
        .ok .string

/-- A round of the loop over the words, with the stream and the tokens so
far. -/
def tokenizeRound (s : Bytes × List Token) :
    (Bytes × List Token) ⊕ Except Bytes (List Token) :=
  match readWord s.1 with
  | none => .inr (.ok (s.2 ++ [endToken]))
  | some (word, rest) =>
      if word = lit "#" then .inl (ignoreLine rest, s.2)
      else
        match tokenType word with
        | .error what => .inr (.error what)
        | .ok type => .inl (rest, s.2 ++ [⟨type, word⟩])

theorem readWord_some {stream word rest : Bytes} (h : readWord stream = some (word, rest)) :
    word ≠ [] ∧ rest.length < stream.length := by
  unfold readWord at h
  extract_lets s at h
  split at h
  · cases h
  · rename_i hne
    obtain ⟨rfl, rfl⟩ := Prod.mk.inj (Option.some.inj h)
    have hle : s.length ≤ stream.length := (List.dropWhile_suffix isspace).length_le
    cases hs : s with
    | nil => exact absurd hs hne
    | cons c t =>
        have hc : isspace c = false := by
          have hhead := List.head?_dropWhile_not isspace stream
          rw [show stream.dropWhile isspace = c :: t from hs] at hhead
          simpa using hhead
        simp only [List.takeWhile_cons, List.dropWhile_cons, hc, Bool.not_false, if_true]
        refine ⟨List.cons_ne_nil _ _, ?_⟩
        have hrest : (t.dropWhile fun c => !isspace c).length ≤ t.length :=
          (List.dropWhile_suffix _).length_le
        rw [hs, List.length_cons] at hle
        omega

section Words

variable {stream word rest : Bytes} (hread : readWord stream = some (word, rest))
  (hword : word ≠ lit "#") (before : List Token)

include hread hword

/-- A round that reads a word has its token. -/
theorem tokenizeRound_word {type : TokenType} (htype : tokenType word = .ok type) :
    tokenizeRound (stream, before) = .inl (rest, before ++ [⟨type, word⟩]) := by
  simp only [tokenizeRound, hread, if_neg hword, htype]

theorem tokenizeRound_badWord {what : Bytes} (htype : tokenType word = .error what) :
    tokenizeRound (stream, before) = .inr (.error what) := by
  simp only [tokenizeRound, hread, if_neg hword, htype]

end Words

theorem length_ignoreLine (stream : Bytes) : (ignoreLine stream).length ≤ stream.length := by
  unfold ignoreLine
  rw [List.length_drop]
  have hle := (List.dropWhile_suffix (l := stream) fun c => decide (c ≠ lf)).length_le
  omega

theorem tokenizeRound_decreases (s s' : Bytes × List Token) (h : tokenizeRound s = .inl s') :
    s'.1.length < s.1.length := by
  unfold tokenizeRound at h
  split at h
  · cases h
  · rename_i word rest hword
    have hlt := (readWord_some hword).2
    split at h
    · obtain rfl := Sum.inl.inj h
      exact Nat.lt_of_le_of_lt (length_ignoreLine rest) hlt
    · split at h
      · cases h
      · obtain rfl := Sum.inl.inj h
        exact hlt

def tokenize (input : Bytes) : Except Bytes (List Token) :=
  WhileLoop.total tokenizeRound (fun s => s.1.length) tokenizeRound_decreases
    (sanitizeInput none input, [])

/-! ## What `tokenize` makes -/

/-- The token of a word. -/
def Token.OfWord (t : Token) : Prop := t.value ≠ [] ∧ tokenType t.value = .ok t.type

theorem tokenize_ofWord {input : Bytes} {tokens : List Token} (h : tokenize input = .ok tokens) :
    ∃ words, tokens = words ++ [endToken] ∧ ∀ t ∈ words, t.OfWord := by
  have hexit (s : Bytes × List Token) (r : Except Bytes (List Token))
      (hs : ∀ t ∈ s.2, t.OfWord) (hround : tokenizeRound s = .inr r) :
      r = .ok tokens → ∃ words, tokens = words ++ [endToken] ∧ ∀ t ∈ words, t.OfWord := by
    intro hr
    unfold tokenizeRound at hround
    split at hround
    · obtain rfl := Sum.inr.inj hround
      obtain rfl := Except.ok.inj hr
      exact ⟨s.2, rfl, hs⟩
    · split at hround
      · cases hround
      · split at hround
        · obtain rfl := Sum.inr.inj hround
          cases hr
        · cases hround
  have hnext (s s' : Bytes × List Token) (hs : ∀ t ∈ s.2, t.OfWord)
      (hround : tokenizeRound s = .inl s') : ∀ t ∈ s'.2, t.OfWord := by
    unfold tokenizeRound at hround
    split at hround
    · cases hround
    · rename_i word rest hword
      split at hround
      · obtain rfl := Sum.inl.inj hround
        exact hs
      · split at hround
        · cases hround
        · rename_i type htype
          obtain rfl := Sum.inl.inj hround
          intro t ht
          rcases List.mem_append.mp ht with ht | ht
          · exact hs t ht
          · obtain rfl := List.mem_singleton.mp ht
            exact ⟨(readWord_some hword).1, htype⟩
  have hstart : ∀ t ∈ ([] : List Token), t.OfWord := fun t ht => by cases ht
  revert h
  exact WhileLoop.total_invariant (I := fun s : Bytes × List Token => ∀ t ∈ s.2, t.OfWord) hexit
    hnext hstart

/-- The word of a keyword or a mark. -/
def spelling (type : TokenType) : Bytes :=
  ((keywords.find? fun k => decide (k.2 = type)).map Prod.fst).getD []

theorem spelling_keywords : ∀ k ∈ keywords, spelling k.2 = k.1 := by
  simp [keywords, spelling]

theorem tokenType_cases {word : Bytes} {type : TokenType} (h : tokenType word = .ok type) :
    (word, type) ∈ keywords ∨ type = .clientMaxBodySizeMul
      ∨ type = .number ∧ (extractInt word).fail = false ∧ (extractInt word).eof = true
        ∧ 0 ≤ (extractInt word).value
      ∨ type = .string := by
  unfold tokenType at h
  split at h
  · rename_i k hfind
    obtain rfl := Except.ok.inj h
    have hword : k.1 = word := by simpa using List.find?_some hfind
    exact Or.inl (hword ▸ List.mem_of_find?_eq_some hfind)
  · split at h
    · exact Or.inr (Or.inl (Except.ok.inj h).symm)
    · split at h
      · rename_i hnum
        rw [Bool.and_eq_true, Bool.not_eq_true'] at hnum
        split at h
        · cases h
        · rename_i hneg
          exact Or.inr (Or.inr (Or.inl ⟨(Except.ok.inj h).symm, hnum.1, hnum.2, not_lt.mp hneg⟩))
      · exact Or.inr (Or.inr (Or.inr (Except.ok.inj h).symm))

/-- A word that is no keyword and no number is a string. -/
theorem tokenType_string {word : Bytes} (hkey : ∀ k ∈ keywords, k.1 ≠ word)
    (hlen : word.length ≠ 1) (hfail : (extractInt word).fail = true) :
    tokenType word = .ok .string := by
  have hnone : keywords.find? (fun k => decide (k.1 = word)) = none :=
    List.find?_eq_none.mpr fun k hk => by simpa using hkey k hk
  rw [tokenType, hnone, hfail]
  simp [hlen]

theorem Token.OfWord.number {t : Token} (h : t.OfWord) (ht : t.type = .number) :
    (extractInt t.value).fail = false ∧ (extractInt t.value).eof = true
      ∧ 0 ≤ (extractInt t.value).value := by
  rcases tokenType_cases h.2 with hkey | hmul | ⟨-, hnum⟩ | hstring
  · rw [ht] at hkey
    simp [keywords] at hkey
  · rw [ht] at hmul
    cases hmul
  · exact hnum
  · rw [ht] at hstring
    cases hstring

theorem Token.OfWord.keyword {t : Token} (h : t.OfWord)
    (ht : t.type ≠ .clientMaxBodySizeMul ∧ t.type ≠ .number ∧ t.type ≠ .string) :
    t = ⟨t.type, spelling t.type⟩ := by
  rcases tokenType_cases h.2 with hkey | hmul | ⟨hnum, -⟩ | hstring
  · rw [spelling_keywords _ hkey]
  · exact absurd hmul ht.1
  · exact absurd hnum ht.2.1
  · exact absurd hstring ht.2.2

/-- No word is the end mark. -/
theorem Token.OfWord.ne_end {t : Token} (h : t.OfWord) : t.type ≠ .end := by
  intro ht
  rcases tokenType_cases h.2 with hkey | hmul | ⟨hnum, -⟩ | hstring
  · rw [ht] at hkey
    simp [keywords] at hkey
  · rw [ht] at hmul
    cases hmul
  · rw [ht] at hnum
    cases hnum
  · rw [ht] at hstring
    cases hstring

end Webserv
