import Webserv.SanitizeInput

/-!
# The words of a configuration text

A text is made of words: white space separates them, and a mark is a word
of its own. `tokenize` makes a token of each, and two of a size such as
`10m`, as long as no other word has a size multiplier behind a digit. The
rule that cuts sizes in two is applied to every word.
-/

namespace Webserv

open Bytes

/-! ## Words -/

/-- A word that has come to its end. -/
def flush (word : Bytes) : List Bytes := if word = [] then [] else [word]

/-- The words of a text whose first characters are `word`. -/
def wordsFrom (marks : Bytes) (word : Bytes) : Bytes → List Bytes
  | [] => flush word
  | c :: text =>
      if isspace c then flush word ++ wordsFrom marks [] text
      else if c ∈ marks then flush word ++ [c] :: wordsFrom marks [] text
      else wordsFrom marks (word ++ [c]) text

/-- The words of a configuration text. -/
def words (text : Bytes) : List Bytes := wordsFrom (lit ";\x7b\x7d") [] text

/-- The words `stream >> word` reads. -/
def streamWords (stream : Bytes) : List Bytes := wordsFrom [] [] stream

/-- A number and a unit. -/
structure SizeWord (digits : Bytes) (unit : UInt8) : Prop where
  nonempty : digits ≠ []
  digits : ∀ c ∈ digits, isdigit c = true
  unit : isSizeMultiplier unit = true

/-- A size multiplier stands behind a digit. -/
def HasSizePair (word : Bytes) : Prop :=
  ∃ a d u b, word = a ++ d :: u :: b ∧ isdigit d = true ∧ isSizeMultiplier u = true

/-- The tokens a word should have: one with its text, and two for a
size. -/
inductive WordTokens : Bytes → List Token → Prop where
  | whole {word : Bytes} (type : TokenType) (h : ∀ digits u, word = digits ++ [u] →
      ¬SizeWord digits u) : WordTokens word [⟨type, word⟩]
  | size {digits : Bytes} {u : UInt8} (h : SizeWord digits u) :
      WordTokens (digits ++ [u]) [⟨.number, digits⟩, ⟨.clientMaxBodySizeMul, [tolower u]⟩]

/-- The tokens of a text are those of its words. -/
def KeepsWords (text : Bytes) : Prop :=
  ∃ tokens, List.Forall₂ WordTokens (words text) tokens
    ∧ tokenize text = .ok (tokens.flatten ++ [endToken])

/-- The word is a negative number, which `tokenize` refuses. -/
def NegativeWord (word : Bytes) : Prop :=
  (extractInt word).fail = false ∧ (extractInt word).eof = true ∧ (extractInt word).value < 0

/-- A word with a size multiplier behind a digit is a size, and its number
is an `int`. -/
def SizesOnly (text : Bytes) : Prop :=
  ∀ word ∈ words text, HasSizePair word →
    ∃ digits u, word = digits ++ [u] ∧ SizeWord digits u ∧ number 10 digits ≤ intMax

/-! ## Cutting a text at a separator -/

section Cut

variable {marks : Bytes}

theorem wordsFrom_append_space (word text : Bytes) {c : UInt8} (hc : isspace c = true) :
    ∀ front : Bytes, wordsFrom marks word (front ++ c :: text)
      = wordsFrom marks word front ++ wordsFrom marks [] text := by
  intro front
  induction front generalizing word with
  | nil => rw [List.nil_append, wordsFrom, wordsFrom, if_pos hc]
  | cons d front ih =>
      rw [List.cons_append, wordsFrom, wordsFrom]
      split
      · rw [ih, List.append_assoc]
      split
      · rw [ih, List.append_assoc, List.cons_append]
      · exact ih _

/-- A run of other characters is one word. -/
theorem wordsFrom_run : ∀ {run : Bytes} (word text : Bytes),
    (∀ c ∈ run, isspace c = false ∧ c ∉ marks) →
    wordsFrom marks word (run ++ text) = wordsFrom marks (word ++ run) text
  | [], word, text, _ => by rw [List.nil_append, List.append_nil]
  | c :: run, word, text, h => by
      obtain ⟨hspace, hmark⟩ := h c List.mem_cons_self
      rw [List.cons_append, wordsFrom, hspace, if_neg (by decide), if_neg hmark,
        wordsFrom_run _ text fun d hd => h d (List.mem_cons_of_mem c hd), List.append_assoc,
        List.singleton_append]

theorem streamWords_append_space (front text : Bytes) {c : UInt8} (hc : isspace c = true) :
    streamWords (front ++ c :: text) = streamWords front ++ streamWords text :=
  wordsFrom_append_space [] text hc front

theorem streamWords_space (text : Bytes) {c : UInt8} (hc : isspace c = true) :
    streamWords (c :: text) = streamWords text :=
  streamWords_append_space [] text hc

theorem streamWords_run {run : Bytes} (h : ∀ c ∈ run, isspace c = false) :
    streamWords run = flush run := by
  have hrun : wordsFrom [] [] (run ++ []) = wordsFrom [] ([] ++ run) [] :=
    wordsFrom_run [] [] fun c hc => ⟨h c hc, List.not_mem_nil⟩
  rw [List.append_nil, List.nil_append] at hrun
  exact hrun

/-- A character between blanks. -/
theorem streamWords_surrounded (front text : Bytes) {c : UInt8} (hc : isspace c = false) :
    streamWords (front ++ [space, c, space] ++ text)
      = streamWords front ++ [c] :: streamWords text := by
  have hspace : isspace space = true := by decide
  have hsplit : front ++ [space, c, space] ++ text = front ++ space :: ([c] ++ space :: text) := by
    simp
  rw [hsplit, streamWords_append_space _ _ hspace, streamWords_append_space _ _ hspace,
    streamWords_run (List.forall_mem_singleton.mpr hc)]
  rfl

end Cut

/-! ## Reading words -/

theorem readWord_streamWords (stream : Bytes) :
    (readWord stream = none ∧ streamWords stream = [])
      ∨ ∃ word rest, readWord stream = some (word, rest)
        ∧ streamWords stream = word :: streamWords rest := by
  induction stream with
  | nil => exact .inl ⟨rfl, rfl⟩
  | cons c stream ih =>
      cases hc : isspace c with
      | true =>
          have hread : readWord (c :: stream) = readWord stream := by
            simp only [readWord, List.dropWhile_cons, hc, if_true]
          rw [hread, streamWords_space stream hc]
          exact ih
      | false =>
          have hdrop : (c :: stream).dropWhile isspace = c :: stream := by
            rw [List.dropWhile_cons, hc, if_neg (by decide)]
          refine .inr ⟨(c :: stream).takeWhile fun c => !isspace c,
            (c :: stream).dropWhile fun c => !isspace c, ?_, ?_⟩
          · simp only [readWord, hdrop]
            rw [if_neg (List.cons_ne_nil c stream)]
          · generalize hrun : (c :: stream).takeWhile (fun c => !isspace c) = run
            generalize hrest : (c :: stream).dropWhile (fun c => !isspace c) = rest
            have hsplit : c :: stream = run ++ rest := by
              rw [← hrun, ← hrest, List.takeWhile_append_dropWhile]
            have hall : ∀ d ∈ run, isspace d = false := by
              intro d hd
              rw [← hrun] at hd
              simpa using List.mem_takeWhile_imp hd
            have hne : run ≠ [] := by
              rw [← hrun, List.takeWhile_cons, hc]
              exact List.cons_ne_nil _ _
            have hflush : flush run = [run] := if_neg hne
            rw [hsplit]
            cases rest with
            | nil => rw [List.append_nil, streamWords_run hall, hflush]; rfl
            | cons d rest =>
                have hd : isspace d = true := by
                  have hhead := List.head?_dropWhile_not (fun c => !isspace c) (c :: stream)
                  rw [hrest] at hhead
                  simpa using hhead
                rw [streamWords_append_space run rest hd, streamWords_run hall, hflush,
                  streamWords_space rest hd]
                rfl

/-- The tokens of words, none of which begins a comment. -/
def wordTokens : List Bytes → Except Bytes (List Token)
  | [] => .ok []
  | word :: ws =>
      match tokenType word with
      | .error what => .error what
      | .ok type => (wordTokens ws).map fun tokens => ⟨type, word⟩ :: tokens

/-- Without comments `tokenize` makes a token of each word of the
stream. -/
theorem exits_tokenizeRound : ∀ (ws : List Bytes) {stream : Bytes} (tokens : List Token),
    streamWords stream = ws → lit "#" ∉ ws →
    WhileLoop.Exits tokenizeRound (stream, tokens)
      ((wordTokens ws).map fun ts => tokens ++ ts ++ [endToken])
  | [], stream, tokens, hws, _ => by
      refine WhileLoop.exits_inr ?_
      rcases readWord_streamWords stream with ⟨hread, -⟩ | ⟨word, rest, -, hwords⟩
      · simp only [tokenizeRound, hread]
        rw [wordTokens, Except.map, List.append_nil]
      · rw [hws] at hwords
        cases hwords
  | word :: ws, stream, tokens, hws, hcomment => by
      rw [List.mem_cons, not_or] at hcomment
      rcases readWord_streamWords stream with ⟨-, hnil⟩ | ⟨word', rest, hread, hwords⟩
      · rw [hws] at hnil
        cases hnil
      · rw [hws] at hwords
        obtain ⟨rfl, hrest⟩ := List.cons_eq_cons.mp hwords
        have hword : word ≠ lit "#" := fun h => hcomment.1 h.symm
        cases htype : tokenType word with
        | error what =>
            refine WhileLoop.exits_inr ((tokenizeRound_badWord hread hword tokens htype).trans ?_)
            rw [wordTokens, htype, Except.map]
        | ok type =>
            rw [WhileLoop.exits_inl (tokenizeRound_word hread hword tokens htype)]
            have ih := exits_tokenizeRound ws (tokens ++ [⟨type, word⟩]) hrest.symm hcomment.2
            rw [wordTokens, htype]
            cases hts : wordTokens ws with
            | error what =>
                rw [hts] at ih
                exact ih
            | ok ts =>
                rw [hts] at ih
                simpa [Except.map] using ih

theorem tokenize_words {text : Bytes} (h : lit "#" ∉ streamWords (sanitizeInput none text)) :
    tokenize text = (wordTokens (streamWords (sanitizeInput none text))).map fun ts =>
      ts ++ [endToken] := by
  have hexits := exits_tokenizeRound _ [] rfl h
  exact WhileLoop.exits_total.unique hexits

/-! ## The words of the stream -/

/-- The words `tokenize` reads of one word of the text. -/
def parts (word : Bytes) : List Bytes := streamWords (sanitizeInput none word)

/-- A character of a word that is no mark. -/
def WordChar (c : UInt8) : Prop := isspace c = false ∧ c ∉ lit ";\x7b\x7d"

theorem sanitizeInput_append (front text : Bytes) (before : Option UInt8) :
    sanitizeInput before (front ++ text)
      = sanitizeInput before front ++ sanitizeInput (front.getLast?.or before) text := by
  induction front generalizing before with
  | nil => rfl
  | cons c front ih =>
      rw [List.cons_append, sanitizeInput_cons, ih, sanitizeInput_cons, List.append_assoc]
      rw [List.getLast?_cons]
      cases front.getLast? with
      | none => rfl
      | some d => rfl

theorem sanitizeInput_behind {c : UInt8} (hc : isdigit c = false) (text : Bytes) :
    sanitizeInput (some c) text = sanitizeInput none text :=
  sanitizeInput_congr (by rw [Option.any_some, hc]; rfl) text

theorem isspace_plain {c : UInt8} (hc : isspace c = true) :
    c ∉ lit ";\x7b\x7d" ∧ isSizeMultiplier c = false ∧ isdigit c = false := by
  have hspaces : ∀ c ∈ [9, 10, 11, 12, 13, (32 : UInt8)],
      c ∉ lit ";\x7b\x7d" ∧ isSizeMultiplier c = false ∧ isdigit c = false := by
    decide
  have hrange : c.toNat = 32 ∨ 9 ≤ c.toNat ∧ c.toNat ≤ 13 := by
    simpa [isspace, UInt8.le_iff_toNat_le, ← UInt8.toNat_inj] using hc
  have hmem : c ∈ [9, 10, 11, 12, 13, (32 : UInt8)] := by
    simp only [List.mem_cons, List.not_mem_nil, or_false, ← UInt8.toNat_inj, UInt8.reduceToNat]
    omega
  exact hspaces c hmem

theorem piece_space (before : Option UInt8) {c : UInt8} (hc : isspace c = true) :
    piece before c = [c] := by
  obtain ⟨hmark, hsize, -⟩ := isspace_plain hc
  rw [piece, if_neg hmark, hsize]
  rfl

theorem not_isspace_mark {c : UInt8} (h : c ∈ lit ";\x7b\x7d") : isspace c = false := by
  have hmarks : ∀ c ∈ lit ";\x7b\x7d", isspace c = false := by decide
  exact hmarks c h

theorem parts_mark {c : UInt8} (h : c ∈ lit ";\x7b\x7d") : parts [c] = [[c]] := by
  have hsurrounded := streamWords_surrounded [] [] (not_isspace_mark h)
  rw [parts, sanitizeInput_cons, piece, if_pos h]
  exact hsurrounded

theorem flatMap_flush (word : Bytes) : (flush word).flatMap parts = parts word := by
  unfold flush
  split
  · rename_i hnil
    rw [hnil]
    rfl
  · rw [List.flatMap_singleton]

/-- The words of the stream are the parts of the words of the text. -/
theorem streamWords_sanitizeInput : ∀ (text word : Bytes),
    streamWords (sanitizeInput none (word ++ text))
      = (wordsFrom (lit ";\x7b\x7d") word text).flatMap parts
  | [], word => by
      rw [List.append_nil, wordsFrom, flatMap_flush]
      rfl
  | c :: text, word => by
      have hrest := streamWords_sanitizeInput text []
      rw [List.nil_append] at hrest
      have hwritten := sanitizeInput_append word (c :: text) none
      rw [sanitizeInput_cons] at hwritten
      rw [wordsFrom]
      split
      · rename_i hspace
        rw [hwritten, piece_space _ hspace, sanitizeInput_behind (isspace_plain hspace).2.2,
          List.singleton_append, streamWords_append_space _ _ hspace, hrest, List.flatMap_append,
          flatMap_flush]
        rfl
      split
      · rename_i hmark
        have hpiece : piece (word.getLast?.or none) c = [space, c, space] := if_pos hmark
        rw [hwritten, hpiece, sanitizeInput_behind (not_isdigit_mark hmark), ← List.append_assoc,
          streamWords_surrounded _ _ (not_isspace_mark hmark), hrest, List.flatMap_append,
          flatMap_flush, List.flatMap_cons, parts_mark hmark]
        rfl
      · have ih := streamWords_sanitizeInput text (word ++ [c])
        rw [List.append_assoc, List.singleton_append] at ih
        exact ih

theorem streamWords_words (text : Bytes) :
    streamWords (sanitizeInput none text) = (words text).flatMap parts :=
  streamWords_sanitizeInput text []

/-- A word is a mark, or made of other characters. -/
theorem words_cases : ∀ (text word : Bytes), (∀ c ∈ word, WordChar c) →
    ∀ w ∈ wordsFrom (lit ";\x7b\x7d") word text,
      (∃ c ∈ lit ";\x7b\x7d", w = [c]) ∨ w ≠ [] ∧ ∀ c ∈ w, WordChar c := by
  intro text
  induction text with
  | nil =>
      intro word hword w hw
      rw [wordsFrom, flush] at hw
      split at hw
      · cases hw
      · rename_i hne
        obtain rfl := List.mem_singleton.mp hw
        exact .inr ⟨hne, hword⟩
  | cons c text ih =>
      intro word hword w hw
      have hflush : w ∈ flush word → w ≠ [] ∧ ∀ c ∈ w, WordChar c := by
        unfold flush
        split
        · exact fun h => by cases h
        · rename_i hne
          intro h
          obtain rfl := List.mem_singleton.mp h
          exact ⟨hne, hword⟩
      have hnil : ∀ c ∈ ([] : Bytes), WordChar c := fun _ h => by cases h
      rw [wordsFrom] at hw
      split at hw
      · rcases List.mem_append.mp hw with hw | hw
        · exact .inr (hflush hw)
        · exact ih [] hnil w hw
      split at hw
      · rename_i hmark
        rcases List.mem_append.mp hw with hw | hw
        · exact .inr (hflush hw)
        · rcases List.mem_cons.mp hw with rfl | hw
          · exact .inl ⟨c, hmark, rfl⟩
          · exact ih [] hnil w hw
      · rename_i hspace hmark
        refine ih (word ++ [c]) (List.forall_mem_append.mpr ⟨hword, ?_⟩) w hw
        exact List.forall_mem_singleton.mpr ⟨by simpa using hspace, hmark⟩

/-! ## The parts of a word -/

theorem isspace_multiplier {u : UInt8} (h : isSizeMultiplier u = true) : isspace u = false := by
  by_contra hspace
  rw [Bool.not_eq_false] at hspace
  rw [(isspace_plain hspace).2.1] at h
  cases h

theorem isSizeMultiplier_tolower {u : UInt8} (h : isSizeMultiplier u = true) :
    isSizeMultiplier (tolower u) = true := by
  have hunits : ∀ c ∈ lit "kmg", isSizeMultiplier c = true := by decide
  exact hunits _ (List.contains_iff_mem.mp h)

theorem not_mark_multiplier {u : UInt8} (h : isSizeMultiplier u = true) :
    u ∉ lit ";\x7b\x7d" := by
  intro hmark
  have hmarks : ∀ c ∈ lit ";\x7b\x7d", isSizeMultiplier c = false := by decide
  rw [hmarks u hmark] at h
  cases h

theorem piece_unit {d u : UInt8} (hd : isdigit d = true) (hu : isSizeMultiplier u = true) :
    piece (some d) u = [space, tolower u, space] := by
  rw [piece, if_neg (not_mark_multiplier hu), hu, Option.any_some, hd]
  rfl

theorem piece_digit (before : Option UInt8) {d : UInt8} (hd : isdigit d = true) :
    piece before d = [d] := by
  have hmark : d ∉ lit ";\x7b\x7d" := by
    intro h
    rw [not_isdigit_mark h] at hd
    cases hd
  have hunit : isSizeMultiplier d = false := by
    by_contra h
    rw [Bool.not_eq_false] at h
    rw [not_isdigit_multiplier h] at hd
    cases hd
  rw [piece, if_neg hmark, hunit]
  rfl

/-- A word without a size multiplier behind a digit is not touched. -/
theorem sanitizeInput_untouched : ∀ (word : Bytes) (before : Option UInt8),
    (∀ c ∈ word, WordChar c) → ¬HasSizePair (before.toList ++ word) →
    sanitizeInput before word = word
  | [], _, _, _ => rfl
  | c :: word, before, hchars, hpair => by
      have hpiece : piece before c = [c] := by
        rw [piece, if_neg (hchars c List.mem_cons_self).2, if_neg]
        rw [Bool.and_eq_true, not_and]
        intro hunit hdigit
        cases before with
        | none => cases hdigit
        | some d => exact hpair ⟨[], d, c, word, rfl, hdigit, hunit⟩
      have hrest : ¬HasSizePair ((some c).toList ++ word) := by
        rintro ⟨a, d, u, b, hword, hd, hu⟩
        refine hpair ⟨before.toList ++ a, d, u, b, ?_, hd, hu⟩
        rw [List.append_assoc, ← hword]
        rfl
      rw [sanitizeInput_cons, hpiece, sanitizeInput_untouched word (some c)
        (fun d hd => hchars d (List.mem_cons_of_mem c hd)) hrest]
      rfl

theorem parts_whole {word : Bytes} (hne : word ≠ []) (hchars : ∀ c ∈ word, WordChar c)
    (hpair : ¬HasSizePair word) : parts word = [word] := by
  rw [parts, sanitizeInput_untouched word none hchars hpair,
    streamWords_run fun c hc => (hchars c hc).1]
  exact if_neg hne

/-- Behind a digit a size multiplier is a word of its own. -/
theorem parts_pair (a b : Bytes) {d u : UInt8} (hd : isdigit d = true)
    (hu : isSizeMultiplier u = true) :
    parts (a ++ d :: u :: b) = parts (a ++ [d]) ++ [tolower u] :: parts b := by
  have hsplit : a ++ d :: u :: b = (a ++ [d]) ++ u :: b := by simp
  have hlast : (a ++ [d]).getLast?.or none = some d := by simp
  rw [parts, hsplit, sanitizeInput_append, hlast, sanitizeInput_cons, piece_unit hd hu,
    sanitizeInput_behind (not_isdigit_multiplier hu), ← List.append_assoc,
    streamWords_surrounded _ _ (isspace_multiplier (isSizeMultiplier_tolower hu))]
  rfl

theorem wordsFrom_ne_nil : ∀ (text word : Bytes), word ≠ [] ∨ (∃ c ∈ text, isspace c = false) →
    wordsFrom [] word text ≠ []
  | [], word, h => by
      rcases h with h | ⟨c, hc, -⟩
      · rw [wordsFrom, flush, if_neg h]
        exact List.cons_ne_nil _ _
      · cases hc
  | c :: text, word, h => by
      rw [wordsFrom]
      split
      · rename_i hspace
        intro hnil
        obtain ⟨hflush, hrest⟩ := List.append_eq_nil_iff.mp hnil
        rcases h with h | ⟨d, hd, hdspace⟩
        · rw [flush, if_neg h] at hflush
          cases hflush
        · rcases List.mem_cons.mp hd with rfl | hd
          · rw [hspace] at hdspace
            cases hdspace
          · exact wordsFrom_ne_nil text [] (.inr ⟨d, hd, hdspace⟩) hrest
      · rw [if_neg List.not_mem_nil]
        exact wordsFrom_ne_nil text _ (.inl (by simp))

/-- A word with a size multiplier behind a digit is cut. -/
theorem length_parts_pair {word : Bytes} (h : HasSizePair word) : 1 < (parts word).length := by
  obtain ⟨a, d, u, b, rfl, hd, hu⟩ := h
  have hfront : parts (a ++ [d]) ≠ [] := by
    refine wordsFrom_ne_nil _ _ (.inr ⟨d, ?_, (isxdigit_not (isDigit_ten hd).1).2.1⟩)
    rw [sanitizeInput_append, sanitizeInput_cons, piece_digit _ hd]
    simp
  have hpos := List.length_pos_iff.mpr hfront
  rw [parts_pair a b hd hu, List.length_append, List.length_cons]
  omega

theorem SizeWord.hasSizePair {digits : Bytes} {u : UInt8} (h : SizeWord digits u) :
    HasSizePair (digits ++ [u]) := by
  refine ⟨digits.dropLast, digits.getLast h.nonempty, u, [], ?_, ?_, h.unit⟩
  · have hsplit := List.dropLast_append_getLast h.nonempty
    rw [List.append_cons digits.dropLast, hsplit]
  · exact h.digits _ (List.getLast_mem _)

theorem parts_size {digits : Bytes} {u : UInt8} (h : SizeWord digits u) :
    parts (digits ++ [u]) = [digits, [tolower u]] := by
  have hsplit := List.dropLast_append_getLast h.nonempty
  have hlast := h.digits _ (List.getLast_mem h.nonempty)
  have hchars : ∀ c ∈ digits, WordChar c := by
    intro c hc
    have hdigit := h.digits c hc
    refine ⟨(isxdigit_not (isDigit_ten hdigit).1).2.1, ?_⟩
    intro hmark
    rw [not_isdigit_mark hmark] at hdigit
    cases hdigit
  have hpair : ¬HasSizePair digits := by
    rintro ⟨a, d, v, b, hdigits, -, hv⟩
    have hdigit := h.digits v (by rw [hdigits]; simp)
    rw [not_isdigit_multiplier hv] at hdigit
    cases hdigit
  have hcut := parts_pair digits.dropLast [] hlast h.unit
  rw [hsplit, parts_whole h.nonempty hchars hpair, List.append_cons, hsplit] at hcut
  exact hcut

/-! ## The types of the parts -/

/-- A word with a digit in it is no keyword and no unit. -/
theorem tokenType_digit {word : Bytes} {c : UInt8} (hc : c ∈ word) (hdigit : isdigit c = true) :
    tokenType word = if !(extractInt word).fail && (extractInt word).eof then
      if (extractInt word).value < 0 then .error (lit "Negative values is forbiden")
      else .ok .number
    else .ok .string := by
  have hkeys : ∀ k ∈ keywords, k.1.any isdigit = false := by decide
  have hnone : keywords.find? (fun k => decide (k.1 = word)) = none := by
    rw [List.find?_eq_none]
    intro k hk
    rw [decide_eq_true_eq]
    rintro rfl
    have hnot := hkeys k hk
    rw [List.any_eq_false] at hnot
    exact hnot c hc hdigit
  have hlen : ¬(word.length = 1 ∧ isSizeMultiplier (word.headD nul) = true) := by
    rintro ⟨hone, hunit⟩
    obtain ⟨d, rfl⟩ := List.length_eq_one_iff.mp hone
    obtain rfl := List.mem_singleton.mp hc
    rw [List.headD_cons] at hunit
    rw [not_isdigit_multiplier hunit] at hdigit
    cases hdigit
  rw [tokenType, hnone]
  simp only
  rw [if_neg hlen]

theorem tokenType_digits {digits : Bytes} (hne : digits ≠ []) (h : ∀ c ∈ digits, isdigit c = true)
    (hmax : number 10 digits ≤ intMax) : tokenType digits = .ok .number := by
  obtain ⟨c, hc⟩ := List.exists_mem_of_ne_nil digits hne
  rw [tokenType_digit hc (h c hc), extractInt_digits hne h, if_neg (Nat.not_lt.mpr hmax)]
  simp

theorem tokenType_unit {u : UInt8} (h : isSizeMultiplier u = true) :
    tokenType [u] = .ok .clientMaxBodySizeMul := by
  have hkeys : ∀ k ∈ keywords, k.1.length = 1 → k.1.any isSizeMultiplier = false := by decide
  have hnone : keywords.find? (fun k => decide (k.1 = [u])) = none := by
    rw [List.find?_eq_none]
    intro k hk
    rw [decide_eq_true_eq]
    intro hu
    have hnot := hkeys k hk (by rw [hu]; rfl)
    rw [hu, List.any_cons, h] at hnot
    cases hnot
  rw [tokenType, hnone]
  simp only
  rw [if_pos ⟨rfl, h⟩]

/-- The type of a keyword or a mark. -/
theorem tokenType_keyword {word : Bytes} {type : TokenType} (h : (word, type) ∈ keywords) :
    tokenType word = .ok type := by
  have hfind : ∀ k ∈ keywords, keywords.find? (fun k' => decide (k'.1 = k.1)) = some k := by
    decide +kernel
  rw [tokenType, hfind _ h]

theorem tokenType_notNegative {word : Bytes} (h : ¬NegativeWord word) :
    ∃ type, tokenType word = .ok type := by
  unfold tokenType
  split
  · exact ⟨_, rfl⟩
  split
  · exact ⟨_, rfl⟩
  split
  · rename_i hnum
    rw [Bool.and_eq_true, Bool.not_eq_true'] at hnum
    split
    · rename_i hneg
      exact absurd ⟨hnum.1, hnum.2, hneg⟩ h
    · exact ⟨_, rfl⟩
  · exact ⟨_, rfl⟩

/-! ## The tokens of the words -/

theorem wordTokens_cons {word : Bytes} {ws : List Bytes} {ts : List Token} :
    wordTokens (word :: ws) = .ok ts
      ↔ ∃ type rest, tokenType word = .ok type ∧ wordTokens ws = .ok rest
        ∧ ts = ⟨type, word⟩ :: rest := by
  rw [wordTokens]
  constructor
  · intro h
    cases htype : tokenType word with
    | error what =>
        rw [htype] at h
        cases h
    | ok type =>
        rw [htype] at h
        cases hrest : wordTokens ws with
        | error what =>
            simp only [hrest] at h
            cases h
        | ok rest =>
            simp only [hrest] at h
            exact ⟨type, rest, rfl, rfl, (Except.ok.inj h).symm⟩
  · rintro ⟨type, rest, htype, hrest, rfl⟩
    rw [htype, hrest]
    rfl

theorem wordTokens_append : ∀ {ws ws' : List Bytes} {ts ts' : List Token},
    wordTokens ws = .ok ts → wordTokens ws' = .ok ts' → wordTokens (ws ++ ws') = .ok (ts ++ ts')
  | [], ws', ts, ts', h, h' => by
      obtain rfl := Except.ok.inj h
      exact h'
  | word :: ws, ws', ts, ts', h, h' => by
      obtain ⟨type, rest, htype, hrest, rfl⟩ := wordTokens_cons.mp h
      exact wordTokens_cons.mpr ⟨type, rest ++ ts', htype, wordTokens_append hrest h', rfl⟩

theorem wordTokens_length : ∀ {ws : List Bytes} {ts : List Token}, wordTokens ws = .ok ts →
    ts.length = ws.length
  | [], ts, h => by
      obtain rfl := Except.ok.inj h
      rfl
  | word :: ws, ts, h => by
      obtain ⟨type, rest, -, hrest, rfl⟩ := wordTokens_cons.mp h
      rw [List.length_cons, List.length_cons, wordTokens_length hrest]

/-- The words of a text, none of which has a size multiplier behind a digit
unless it is a size, have the tokens they should have. -/
theorem wordTokens_words : ∀ {ws : List Bytes},
    (∀ w ∈ ws, ¬NegativeWord w) →
    (∀ w ∈ ws, HasSizePair w →
      ∃ digits u, w = digits ++ [u] ∧ SizeWord digits u ∧ number 10 digits ≤ intMax) →
    (∀ w ∈ ws, ¬HasSizePair w → parts w = [w]) →
    ∃ tss, List.Forall₂ WordTokens ws tss ∧ wordTokens (ws.flatMap parts) = .ok tss.flatten
  | [], _, _, _ => ⟨[], .nil, rfl⟩
  | w :: ws, hneg, hsizes, hwhole => by
      obtain ⟨tss, hrest, htokens⟩ := wordTokens_words
        (fun v hv => hneg v (List.mem_cons_of_mem w hv))
        (fun v hv => hsizes v (List.mem_cons_of_mem w hv))
        (fun v hv => hwhole v (List.mem_cons_of_mem w hv))
      have hmem : w ∈ w :: ws := List.mem_cons_self
      by_cases hpair : HasSizePair w
      · obtain ⟨digits, u, rfl, hsize, hmax⟩ := hsizes w hmem hpair
        have hnumber := tokenType_digits hsize.nonempty hsize.digits hmax
        have hunit := tokenType_unit (isSizeMultiplier_tolower hsize.unit)
        have hfirst : wordTokens [digits, [tolower u]]
            = .ok [⟨.number, digits⟩, ⟨.clientMaxBodySizeMul, [tolower u]⟩] :=
          wordTokens_cons.mpr ⟨_, _, hnumber, wordTokens_cons.mpr ⟨_, [], hunit, rfl, rfl⟩, rfl⟩
        refine ⟨_, .cons (.size hsize) hrest, ?_⟩
        rw [List.flatMap_cons, parts_size hsize]
        exact wordTokens_append hfirst htokens
      · obtain ⟨type, htype⟩ := tokenType_notNegative (hneg w hmem)
        have hfirst : wordTokens [w] = .ok [⟨type, w⟩] :=
          wordTokens_cons.mpr ⟨type, [], htype, rfl, rfl⟩
        refine ⟨_, .cons (.whole type ?_) hrest, ?_⟩
        · rintro digits u rfl hsize
          exact hpair hsize.hasSizePair
        · rw [List.flatMap_cons, hwhole w hmem hpair]
          exact wordTokens_append hfirst htokens

theorem WordTokens.length_le {w : Bytes} {ts : List Token} (h : WordTokens w ts)
    (hwhole : ¬HasSizePair w → parts w = [w]) : ts.length ≤ (parts w).length := by
  cases h with
  | whole type _ =>
      by_cases hpair : HasSizePair w
      · have hlt := length_parts_pair hpair
        rw [List.length_singleton]
        omega
      · rw [hwhole hpair]
        rfl
  | size h => rw [parts_size h]; rfl

/-- As many tokens as parts: no word but a size is cut. -/
theorem sizeWords_of_length : ∀ {ws : List Bytes} {tss : List (List Token)},
    (∀ w ∈ ws, ¬HasSizePair w → parts w = [w]) → List.Forall₂ WordTokens ws tss →
    tss.flatten.length ≤ (ws.flatMap parts).length
      ∧ (tss.flatten.length = (ws.flatMap parts).length → ∀ w ∈ ws, HasSizePair w →
        ∃ digits u, w = digits ++ [u] ∧ SizeWord digits u ∧ ⟨.number, digits⟩ ∈ tss.flatten)
  | [], _, _, .nil => ⟨Nat.le_refl _, fun _ _ h => by cases h⟩
  | w :: ws, ts :: tss, hwhole, .cons hword hrest => by
      obtain ⟨hle, hsizes⟩ := sizeWords_of_length
        (fun v hv => hwhole v (List.mem_cons_of_mem w hv)) hrest
      have hfirst := hword.length_le (hwhole w List.mem_cons_self)
      rw [List.flatten_cons, List.flatMap_cons, List.length_append, List.length_append]
      refine ⟨Nat.add_le_add hfirst hle, ?_⟩
      intro heq v hv hpair
      rcases List.mem_cons.mp hv with rfl | hv
      · cases hword with
        | whole type _ =>
            have hlt := length_parts_pair hpair
            rw [List.length_singleton] at hfirst heq
            omega
        | size h => exact ⟨_, _, rfl, h, List.mem_append_left _ List.mem_cons_self⟩
      · obtain ⟨digits, u, rfl, hsize, hmem⟩ := hsizes (by omega) v hv hpair
        exact ⟨digits, u, rfl, hsize, List.mem_append_right ts hmem⟩

/-! ## The words of a text -/

theorem parts_words (text : Bytes) : ∀ w ∈ words text, ¬HasSizePair w → parts w = [w] := by
  intro w hw hpair
  have hnil : ∀ c ∈ ([] : Bytes), WordChar c := fun _ h => by cases h
  rcases words_cases text [] hnil w hw with ⟨c, hmark, rfl⟩ | ⟨hne, hchars⟩
  · exact parts_mark hmark
  · exact parts_whole hne hchars hpair

theorem mem_wordsFrom {marks : Bytes} {c : UInt8} : ∀ (text word : Bytes),
    ∀ w ∈ wordsFrom marks word text, c ∈ w → c ∈ word ∨ c ∈ text := by
  have hflush (word w : Bytes) (h : w ∈ flush word) : w = word := by
    unfold flush at h
    split at h
    · cases h
    · exact List.mem_singleton.mp h
  intro text
  induction text with
  | nil =>
      intro word w hw hc
      exact .inl (hflush word w hw ▸ hc)
  | cons d text ih =>
      intro word w hw hc
      rw [wordsFrom] at hw
      split at hw
      · rcases List.mem_append.mp hw with hw | hw
        · exact .inl (hflush word w hw ▸ hc)
        · exact .inr (List.mem_cons_of_mem d ((ih [] w hw hc).resolve_left List.not_mem_nil))
      split at hw
      · rcases List.mem_append.mp hw with hw | hw
        · exact .inl (hflush word w hw ▸ hc)
        · rcases List.mem_cons.mp hw with rfl | hw
          · exact .inr (List.mem_singleton.mp hc ▸ List.mem_cons_self)
          · exact .inr (List.mem_cons_of_mem d ((ih [] w hw hc).resolve_left List.not_mem_nil))
      · rcases ih _ w hw hc with hc | hc
        · rcases List.mem_append.mp hc with hc | hc
          · exact .inl hc
          · exact .inr (List.mem_singleton.mp hc ▸ List.mem_cons_self)
        · exact .inr (List.mem_cons_of_mem d hc)

/-- A character of a word of the stream is one of the text, unless it is
the letter of a unit. -/
theorem not_mem_streamWords {text : Bytes} {c : UInt8} (h : c ∉ text) (hspace : c ≠ space)
    (hunit : c ∉ lit "kmg") : ∀ w ∈ streamWords (sanitizeInput none text), c ∉ w := by
  intro w hw hc
  have hmem : c ∈ sanitizeInput none text :=
    (mem_wordsFrom _ [] w hw hc).resolve_left List.not_mem_nil
  rw [sanitizeInput_eq_sanitized, sanitized, List.mem_flatMap] at hmem
  obtain ⟨⟨before, d⟩, hd, hpiece⟩ := hmem
  have hdtext : d ∈ text := (List.of_mem_zip hd).2
  have hself : c ≠ d := fun heq => h (heq ▸ hdtext)
  have hsurrounded (e : UInt8) (he : c ∈ [space, e, space]) : c = e := by
    simpa [hspace] using he
  unfold piece at hpiece
  split at hpiece
  · exact hself (hsurrounded d hpiece)
  split at hpiece
  · rename_i hsize
    rw [Bool.and_eq_true] at hsize
    exact hunit (hsurrounded _ hpiece ▸ List.contains_iff_mem.mp hsize.1)
  · exact hself (List.mem_singleton.mp hpiece)

/-- No comment begins in a text without its mark. -/
theorem comment_not_mem {text : Bytes} (h : hash ∉ text) :
    lit "#" ∉ streamWords (sanitizeInput none text) :=
  fun hword => not_mem_streamWords h (by decide) (by decide) _ hword (by decide)

theorem sizesOnly_of_keepsWords {text : Bytes} (hcomment : hash ∉ text) (h : KeepsWords text) :
    SizesOnly text := by
  obtain ⟨tss, hwords, htokens⟩ := h
  obtain ⟨ts, hts, hofWord⟩ := tokenize_ofWord htokens
  have heq : tss.flatten = ts := List.append_cancel_right hts
  rw [tokenize_words (comment_not_mem hcomment), streamWords_words] at htokens
  have hlength : tss.flatten.length = ((words text).flatMap parts).length := by
    cases hread : wordTokens ((words text).flatMap parts) with
    | error what =>
        rw [hread] at htokens
        cases htokens
    | ok ts' =>
        rw [hread] at htokens
        rw [← wordTokens_length hread, List.append_cancel_right (Except.ok.inj htokens)]
  intro w hw hpair
  obtain ⟨digits, u, rfl, hsize, hmem⟩ :=
    (sizeWords_of_length (parts_words text) hwords).2 hlength w hw hpair
  refine ⟨digits, u, rfl, hsize, ?_⟩
  obtain ⟨hfail, -, -⟩ := (hofWord _ (heq ▸ hmem)).number rfl
  rw [extractInt_digits hsize.nonempty hsize.digits] at hfail
  by_contra hmax
  rw [if_pos (Nat.lt_of_not_le hmax)] at hfail
  cases hfail

/-- `tokenize` keeps the words of a text if and only if no word but a size
has a size multiplier behind a digit. -/
theorem tokenize_keepsWords {text : Bytes} (hcomment : hash ∉ text)
    (hneg : ∀ w ∈ words text, ¬NegativeWord w) : KeepsWords text ↔ SizesOnly text := by
  refine ⟨sizesOnly_of_keepsWords hcomment, ?_⟩
  intro h
  obtain ⟨tss, hwords, htokens⟩ := wordTokens_words hneg h (parts_words text)
  refine ⟨tss, hwords, ?_⟩
  rw [tokenize_words (comment_not_mem hcomment), streamWords_words, htokens]
  rfl

/-- A text with a size in it. -/
theorem tokenize_keepsWords_size : KeepsWords (lit "client_max_body_size 10M;") := by
  have hwords : words (lit "client_max_body_size 10M;")
      = [lit "client_max_body_size", lit "10M", lit ";"] := by decide +kernel
  refine (tokenize_keepsWords (by decide) ?_).mpr ?_
  · rw [hwords]
    unfold NegativeWord
    decide
  · intro w hw ⟨a, d, u, b, hpair, hd, hu⟩
    rw [hwords] at hw
    rcases List.mem_cons.mp hw with rfl | hw
    · have hnone : ∀ c ∈ lit "client_max_body_size", isdigit c = false := by decide
      rw [hnone d (by rw [hpair]; simp)] at hd
      cases hd
    rcases List.mem_cons.mp hw with rfl | hw
    · exact ⟨lit "10", 77, rfl, ⟨by decide, by decide, by decide⟩, by decide⟩
    · obtain rfl := List.mem_singleton.mp hw
      have hnone : ∀ c ∈ lit ";", isdigit c = false := by decide
      rw [hnone d (by rw [hpair]; simp)] at hd
      cases hd

/-- A directory whose name has a size multiplier behind a digit is cut in
three. -/
theorem not_keepsWords : ¬∀ text, hash ∉ text → (∀ w ∈ words text, ¬NegativeWord w) →
    KeepsWords text := by
  intro h
  have hwords : words (lit "server \x7b root /srv/v2mail; \x7d")
      = [lit "server", lit "\x7b", lit "root", lit "/srv/v2mail", lit ";", lit "\x7d"] := by
    decide +kernel
  have hcomment : hash ∉ lit "server \x7b root /srv/v2mail; \x7d" := by decide
  have hneg : ∀ w ∈ words (lit "server \x7b root /srv/v2mail; \x7d"), ¬NegativeWord w := by
    rw [hwords]
    unfold NegativeWord
    decide
  have hsizes := sizesOnly_of_keepsWords hcomment (h _ hcomment hneg)
  obtain ⟨digits, u, hsplit, hsize, -⟩ := hsizes (lit "/srv/v2mail") (by rw [hwords]; simp)
    ⟨lit "/srv/v", 50, 109, lit "ail", rfl, by decide, by decide⟩
  have hslash : isdigit slash = true := by
    obtain ⟨c, rest, rfl⟩ := List.exists_cons_of_ne_nil hsize.nonempty
    obtain ⟨rfl, -⟩ := List.cons_eq_cons.mp hsplit
    exact hsize.digits _ List.mem_cons_self
  exact absurd hslash (by decide)

end Webserv
