import Webserv.ConfigAccepts
import Webserv.ConfigWords

/-!
# Places in a configuration text

What `tokenize` does with a piece of a text that stands between others. A
blank or a mark separates the piece from what follows, and a stream that
begins with a blank is where a word of the stream in front of it ends.
-/

namespace Webserv

open Bytes WhileLoop

/-! ## Separators -/

/-- A stream that is at its end or begins with white space. -/
def SpaceStart (stream : Bytes) : Prop := ∀ c, stream.head? = some c → isspace c = true

/-- A text that is at its end or begins with white space or a mark. -/
def Separated (text : Bytes) : Prop :=
  ∀ c, text.head? = some c → isspace c = true ∨ c ∈ lit ";\x7b\x7d"

theorem spaceStart_blank {c : UInt8} (hc : isspace c = true) (stream : Bytes) :
    SpaceStart (c :: stream) := by
  intro d hd
  obtain rfl := Option.some.inj hd
  exact hc

theorem Separated.spaceStart {text : Bytes} (h : Separated text) :
    SpaceStart (sanitizeInput none text) := by
  have hspace : isspace space = true := by decide
  cases text with
  | nil => exact fun c hc => by cases hc
  | cons d text =>
      rw [sanitizeInput_cons]
      rcases h d rfl with hd | hd
      · rw [piece_space _ hd]
        exact spaceStart_blank hd _
      · rw [piece, if_pos hd]
        exact spaceStart_blank hspace _

/-- A separator is no unit. -/
theorem Separated.sanitizeInput {text : Bytes} (h : Separated text) (before : Option UInt8) :
    Webserv.sanitizeInput before text = Webserv.sanitizeInput none text := by
  cases text with
  | nil => rfl
  | cons d text =>
      have hpiece : piece before d = piece none d := by
        rcases h d rfl with hd | hd
        · rw [piece_space _ hd, piece_space _ hd]
        · rw [piece, piece, if_pos hd, if_pos hd]
      rw [sanitizeInput_cons, sanitizeInput_cons, hpiece]

theorem sanitizeInput_plain : ∀ (run text : Bytes) (before : Option UInt8),
    (∀ c ∈ run, isspace c = true ∨ isdigit c = true) →
    sanitizeInput before (run ++ text) = run ++ sanitizeInput (run.getLast?.or before) text
  | [], text, before, _ => rfl
  | c :: run, text, before, h => by
      have hpiece : piece before c = [c] := by
        rcases h c List.mem_cons_self with hspace | hdigit
        · exact piece_space before hspace
        · exact piece_digit before hdigit
      rw [List.cons_append, sanitizeInput_cons, hpiece,
        sanitizeInput_plain run text (some c) fun d hd => h d (List.mem_cons_of_mem c hd),
        List.getLast?_cons]
      cases run.getLast? <;> rfl

/-! ## Words in front of a blank -/

theorem SpaceStart.takeWhile {tail : Bytes} (h : SpaceStart tail) :
    tail.takeWhile (fun c => !isspace c) = [] ∧ tail.dropWhile (fun c => !isspace c) = tail := by
  cases tail with
  | nil => exact ⟨rfl, rfl⟩
  | cons c tail =>
      have hspace := h c rfl
      simp [hspace]

theorem readWord_run {gap run tail : Bytes} (hgap : ∀ c ∈ gap, isspace c = true) (hne : run ≠ [])
    (hrun : ∀ c ∈ run, isspace c = false) (htail : SpaceStart tail) :
    readWord (gap ++ (run ++ tail)) = some (run, tail) := by
  have hnot : ∀ c ∈ run, (!isspace c) = true := by
    intro c hc
    rw [hrun c hc]
    rfl
  have hdrop : (gap ++ (run ++ tail)).dropWhile isspace = run ++ tail := by
    rw [List.dropWhile_append_of_pos hgap]
    obtain ⟨c, run, rfl⟩ := List.exists_cons_of_ne_nil hne
    rw [List.cons_append, List.dropWhile_cons, hrun c List.mem_cons_self]
    rfl
  simp only [readWord, hdrop]
  rw [if_neg (List.append_ne_nil_of_left_ne_nil hne tail), List.takeWhile_append_of_pos hnot,
    List.dropWhile_append_of_pos hnot, htail.takeWhile.1, htail.takeWhile.2, List.append_nil]

/-- A word is a token, unless it begins a comment. -/
theorem exits_word {stream word rest : Bytes} {before tokens : List Token} (hword : word ≠ lit "#")
    (hread : readWord stream = some (word, rest))
    (h : Exits tokenizeRound (stream, before) (.ok tokens)) :
    ∃ type, Exits tokenizeRound (rest, before ++ [⟨type, word⟩]) (.ok tokens) := by
  cases htype : tokenType word with
  | error what => cases h.unique (exits_inr (tokenizeRound_badWord hread hword before htype))
  | ok type => exact ⟨type, (exits_inl (tokenizeRound_word hread hword before htype)).mp h⟩

/-- A word that is read stands behind white space and in front of some. -/
theorem readWord_split {stream word rest : Bytes} (h : readWord stream = some (word, rest)) :
    ∃ gap, stream = gap ++ (word ++ rest) ∧ (∀ c ∈ gap, isspace c = true) ∧ word ≠ []
      ∧ (∀ c ∈ word, isspace c = false) ∧ SpaceStart rest := by
  have hne := (readWord_some h).1
  unfold readWord at h
  extract_lets s at h
  split at h
  · cases h
  · obtain ⟨rfl, rfl⟩ := Prod.mk.inj (Option.some.inj h)
    refine ⟨stream.takeWhile isspace, ?_, ?_, hne, ?_, ?_⟩
    · rw [List.takeWhile_append_dropWhile]
      exact List.takeWhile_append_dropWhile.symm
    · exact fun c hc => List.mem_takeWhile_imp hc
    · intro c hc
      simpa using List.mem_takeWhile_imp hc
    · intro c hc
      have hhead := List.head?_dropWhile_not (fun c => !isspace c) s
      rw [hc] at hhead
      simpa using hhead

/-- A stream without words is white space. -/
theorem readWord_none {stream : Bytes} (h : readWord stream = none) :
    ∀ c ∈ stream, isspace c = true := by
  unfold readWord at h
  extract_lets s at h
  split at h
  · rename_i hnil
    exact List.dropWhile_eq_nil_iff.mp hnil
  · cases h

theorem exits_tokenize (text : Bytes) :
    Exits tokenizeRound (sanitizeInput none text, []) (tokenize text) :=
  exits_total

/-- What is read first stays. -/
theorem run_tokenizeRound (front : List Token) : ∀ (n : Nat) (stream : Bytes)
    (tokens : List Token), run tokenizeRound n (stream, front ++ tokens)
      = (run tokenizeRound n (stream, tokens)).map fun r => r.map fun ts => front ++ ts
  | 0, _, _ => rfl
  | n + 1, stream, tokens => by
      have ih := run_tokenizeRound front n
      rw [run, run]
      cases hread : readWord stream with
      | none =>
          simp only [tokenizeRound, hread]
          rw [List.append_assoc]
          rfl
      | some w =>
          by_cases hword : w.1 = lit "#"
          · simp only [tokenizeRound, hread, if_pos hword]
            exact ih _ _
          · cases htype : tokenType w.1 with
            | error what =>
                simp only [tokenizeRound, hread, if_neg hword, htype]
                rfl
            | ok type =>
                simp only [tokenizeRound, hread, if_neg hword, htype]
                rw [List.append_assoc]
                exact ih _ _

/-- The tokens of what is left do not depend on those in front. -/
theorem exits_behind {text : Bytes} {tokens : List Token} (front : List Token)
    (h : tokenize text = .ok tokens) :
    Exits tokenizeRound (sanitizeInput none text, front) (.ok (front ++ tokens)) := by
  obtain ⟨n, hn⟩ := exits_tokenize text
  have hrun := run_tokenizeRound front n (sanitizeInput none text) []
  rw [hn, h, List.append_nil] at hrun
  exact ⟨n, hrun⟩

/-- The words of a stream that stands in front of a text are tokens of
their own. -/
theorem exits_words {rest : Bytes} {after : List Token} (hrest : Separated rest)
    (hafter : tokenize rest = .ok after) : ∀ (ws : List Bytes) {stream : Bytes}
    (before : List Token), streamWords stream = ws → lit "#" ∉ ws →
    Exits tokenizeRound (stream ++ sanitizeInput none rest, before)
      ((wordTokens ws).map fun tokens => before ++ (tokens ++ after))
  | [], stream, before, hws, _ => by
      rcases readWord_streamWords stream with ⟨hread, -⟩ | ⟨word, rest', -, hwords⟩
      · have hsame : tokenizeRound (stream ++ sanitizeInput none rest, before)
            = tokenizeRound (sanitizeInput none rest, before) := by
          have hdrop : (stream ++ sanitizeInput none rest).dropWhile isspace
              = (sanitizeInput none rest).dropWhile isspace :=
            List.dropWhile_append_of_pos (readWord_none hread)
          simp only [tokenizeRound, readWord, hdrop]
        exact (exits_congr hsame).mpr (exits_behind before hafter)
      · rw [hws] at hwords
        cases hwords
  | word :: ws, stream, before, hws, hcomment => by
      rw [List.mem_cons, not_or] at hcomment
      rcases readWord_streamWords stream with ⟨-, hnil⟩ | ⟨word', rest', hread, hwords⟩
      · rw [hws] at hnil
        cases hnil
      · rw [hws] at hwords
        obtain ⟨rfl, hws'⟩ := List.cons_eq_cons.mp hwords
        have hword : word ≠ lit "#" := fun h => hcomment.1 h.symm
        obtain ⟨gap, rfl, hgap, hne, hrun, hstart⟩ := readWord_split hread
        have hstart' : SpaceStart (rest' ++ sanitizeInput none rest) := by
          cases rest' with
          | nil => exact hrest.spaceStart
          | cons c rest' => exact spaceStart_blank (hstart c rfl) _
        have hreads := readWord_run hgap hne hrun hstart'
        rw [List.append_assoc, List.append_assoc, wordTokens]
        cases htype : tokenType word with
        | error what =>
            exact exits_inr (tokenizeRound_badWord hreads hword before htype)
        | ok type =>
            have ih := exits_words hrest hafter ws (before ++ [⟨type, word⟩]) hws'.symm hcomment.2
            rw [exits_inl (tokenizeRound_word hreads hword before htype)]
            cases htokens : wordTokens ws with
            | error what =>
                rw [htokens] at ih
                exact ih
            | ok tokens =>
                rw [htokens] at ih
                simpa [Except.map] using ih

/-! ## Places -/

/-- `tokenize` has made these tokens when it has read `front` of the text
`front ++ rest`. -/
def ReadUpTo (front rest : Bytes) (tokens : List Token) : Prop :=
  WhileLoop.Round tokenizeRound (sanitizeInput none (front ++ rest), [])
    (sanitizeInput front.getLast? rest, tokens)

/-- Tokens stay. -/
theorem exits_tokenizeRound_prefix {s : Bytes × List Token} {tokens : List Token}
    (h : Exits tokenizeRound s (.ok tokens)) : s.2 <+: tokens := by
  have hrounds : Rounds tokenizeRound (fun t => s.2 <+: t.2)
      fun r => ∀ tokens, r = .ok tokens → s.2 <+: tokens := by
    intro t ht
    unfold tokenizeRound
    split
    · refine .inl ⟨_, rfl, ?_⟩
      intro tokens htokens
      obtain rfl := Except.ok.inj htokens
      exact ht.trans (List.prefix_append t.2 _)
    split
    · exact .inr ⟨_, rfl, ht⟩
    split
    · exact .inl ⟨_, rfl, fun _ h => by cases h⟩
    · exact .inr ⟨_, rfl, ht.trans (List.prefix_append t.2 _)⟩
  obtain ⟨n, hn⟩ := h
  exact hrounds.run (List.prefix_refl s.2) hn tokens rfl

/-- The keyword of a first directive is the third word. -/
theorem readUpTo_keyword {word : Bytes} {type : TokenType} {c : UInt8} (text : Bytes)
    (hc : isspace c = true) (hword : ∀ c ∈ word, isspace c = false)
    (hne : word ≠ [] ∧ word ≠ lit "#") (hplain : sanitizeInput none word = word)
    (htype : tokenType word = .ok type) :
    ReadUpTo (lit "server \x7b " ++ word) (c :: text)
      [mark .server, mark .lbrace, ⟨type, word⟩] := by
  have hfront : sanitizeInput none (lit "server \x7b ")
      = lit "server" ++ (lit "  \x7b" ++ lit "  ") := by
    decide
  have hlast : (lit "server \x7b ").getLast? = some space := by decide
  have hspace : isspace space = true := by decide
  generalize hafter : sanitizeInput (lit "server \x7b " ++ word).getLast? (c :: text) = after
  have hstart : SpaceStart after := by
    rw [← hafter, sanitizeInput_cons, piece_space _ hc]
    exact spaceStart_blank hc _
  have hround (gap run tail : Bytes) (type : TokenType) (ts : List Token)
      (hgap : ∀ c ∈ gap, isspace c = true) (hrun : ∀ c ∈ run, isspace c = false)
      (htail : SpaceStart tail) (hne : run ≠ [] ∧ run ≠ lit "#")
      (htype : tokenType run = .ok type) :
      tokenizeRound (gap ++ (run ++ tail), ts) = .inl (tail, ts ++ [⟨type, run⟩]) :=
    tokenizeRound_word (readWord_run hgap hne.1 hrun htail) hne.2 ts htype
  have h₁ := hround [] (lit "server") (lit "  \x7b" ++ (lit "  " ++ (word ++ after))) .server []
    (by decide) (by decide) (spaceStart_blank hspace _) (by decide)
    (tokenType_keyword (by simp [keywords]))
  have h₂ := hround (lit "  ") (lit "\x7b") (lit "  " ++ (word ++ after)) .lbrace [mark .server]
    (by decide) (by decide) (spaceStart_blank hspace _) (by decide)
    (tokenType_keyword (by simp [keywords]))
  have h₃ := hround (lit "  ") word after type [mark .server, mark .lbrace] (by decide) hword
    hstart hne htype
  rw [ReadUpTo, sanitizeInput_append, Option.or_none, hafter, sanitizeInput_append, hlast,
    Option.some_or, sanitizeInput_behind isdigit_space, hplain, hfront, List.append_assoc,
    List.append_assoc, List.append_assoc]
  exact .next (.next (.next (.start _) h₁) h₂) h₃

/-! ## Accepted texts -/

theorem lastOf_behind {δ α : Type} {f : δ → Option α} {items₁ items₂ : List δ} {d : δ} {a : α}
    (h : f d = some a) (hnone : ∀ e ∈ items₂, f e = none) :
    lastOf f (items₁ ++ d :: items₂) = some a := by
  have hrest : items₂.filterMap f = [] := List.filterMap_eq_nil_iff.mpr hnone
  rw [lastOf, List.filterMap_append, List.filterMap_cons_some h, hrest]
  exact List.getLast?_concat

/-- The text is accepted, with these servers. -/
def Accepts (inetPton : Bytes → Int) (text : Bytes) (servers : List ServerConfig) : Prop :=
  ∃ tokens, tokenize text = .ok tokens
    ∧ ∀ fuel, tokens.length ≤ fuel → Parser.parse inetPton fuel tokens = .ok servers

theorem accepts_blocks (inetPton : Bytes → Int) {text : Bytes} {bs : List Block}
    (h : tokenize text = .ok (bs.flatMap Block.tokens ++ [endToken])) :
    Accepts inetPton text (bs.map Block.config) :=
  ⟨_, h, fun _ hfuel => (Parser.parse_ok_iff inetPton h hfuel _).mpr ⟨bs, rfl, rfl⟩⟩

theorem Accepts.unique {inetPton : Bytes → Int} {text : Bytes}
    {servers servers' : List ServerConfig} (h : Accepts inetPton text servers)
    (h' : Accepts inetPton text servers') : servers = servers' := by
  obtain ⟨tokens, htokens, hparse⟩ := h
  obtain ⟨tokens', htokens', hparse'⟩ := h'
  obtain rfl := Except.ok.inj (htokens.symm.trans htokens')
  have hle := Nat.le_refl tokens.length
  exact Except.ok.inj ((hparse _ hle).symm.trans (hparse' _ hle))

end Webserv
