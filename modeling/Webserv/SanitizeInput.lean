import Webserv.Tokenize

/-!
# Sanitizing in place

`SanitizeInput` inserts into the string it scans, moves its index past
what it has inserted, and looks at the character in front of the index in
the text it has already rewritten. What it leaves is what one pass over
the original characters writes: a character that is rewritten is no
digit, and neither is the blank behind it.
-/

namespace Webserv

open Bytes WhileLoop

/-! ## The loop -/

/-- `input.insert(pos, " ")`; `none` is `std::out_of_range`. -/
def insertSpace (input : Bytes) (pos : Nat) : Option Bytes :=
  if pos ≤ input.length then some (input.take pos ++ space :: input.drop pos) else none

/-- Blanks around the character at `i`, and the index of the next
round. -/
def surround (input : Bytes) (i : Nat) : (Bytes × Nat) ⊕ Option Bytes :=
  match (insertSpace input i).bind fun input => insertSpace input (i + 2) with
  | none => .inr none
  | some input => .inl (input, i + 3)

/-- The body of the loop of `SanitizeInput`, with the string and the
index. -/
def sanitizeRound (s : Bytes × Nat) : (Bytes × Nat) ⊕ Option Bytes :=
  let (input, i) := s
  match input[i]? with
  | none => .inr (some input)
  | some c =>
      if c ∈ lit ";\x7b\x7d" then surround input i
      else if isSizeMultiplier c && decide (0 < i) && input[i - 1]?.any isdigit then
        surround (input.set i (tolower c)) i
      else .inl (input, i + 1)

/-! ## What it is for -/

/-- What is written for a character `c` of the original text, with
`before` in front of it. -/
def piece (before : Option UInt8) (c : UInt8) : Bytes :=
  if c ∈ lit ";\x7b\x7d" then [space, c, space]
  else if isSizeMultiplier c && before.any isdigit then [space, tolower c, space]
  else [c]

/-- The characters of a text, each with the one in front of it. -/
def withBefore (input : Bytes) : List (Option UInt8 × UInt8) :=
  (none :: input.map some).zip input

def sanitized (input : Bytes) : Bytes := (withBefore input).flatMap fun e => piece e.1 e.2

/-! ## One pass -/

/-- Only whether a digit is in front matters. -/
theorem sanitizeInput_congr {before before' : Option UInt8}
    (h : before.any isdigit = before'.any isdigit) (input : Bytes) :
    sanitizeInput before input = sanitizeInput before' input := by
  cases input with
  | nil => rfl
  | cons c input => simp only [sanitizeInput, h]

theorem isdigit_space : isdigit space = false := by decide

theorem not_isdigit_mark {c : UInt8} (h : c ∈ lit ";\x7b\x7d") : isdigit c = false := by
  have hmarks : ∀ c ∈ lit ";\x7b\x7d", isdigit c = false := by decide
  exact hmarks c h

theorem not_isdigit_multiplier {c : UInt8} (h : isSizeMultiplier c = true) :
    isdigit c = false := by
  by_contra hdigit
  rw [Bool.not_eq_false, isdigit_iff] at hdigit
  have hlower : tolower c = c := by
    unfold tolower isupper
    rw [if_neg]
    simp only [Bool.and_eq_true, decide_eq_true_eq, UInt8.le_iff_toNat_le, not_and]
    intro hle
    have hle : 65 ≤ c.toNat := hle
    omega
  have hmem : c ∈ lit "kmg" := by simpa [isSizeMultiplier, hlower] using h
  have hletters : ∀ c ∈ lit "kmg", ¬c.toNat ≤ 57 := by decide
  exact hletters c hmem hdigit.2

/-- The rest of a text is written piece by piece. -/
theorem sanitizeInput_cons (before : Option UInt8) (c : UInt8) (input : Bytes) :
    sanitizeInput before (c :: input) = piece before c ++ sanitizeInput (some c) input := by
  have hblank (hc : isdigit c = false) :
      sanitizeInput (some space) input = sanitizeInput (some c) input :=
    sanitizeInput_congr (by rw [Option.any_some, Option.any_some, hc]; rfl) input
  rw [sanitizeInput, piece]
  split
  · rename_i hmark
    rw [hblank (not_isdigit_mark hmark)]
    rfl
  split
  · rename_i hsize
    rw [hblank (not_isdigit_multiplier (Bool.and_eq_true_iff.mp hsize).1)]
    rfl
  · rfl

theorem sanitizeInput_eq_sanitized (input : Bytes) :
    sanitizeInput none input = sanitized input := by
  have hall : ∀ (input : Bytes) (before : Option UInt8), sanitizeInput before input
      = ((before :: input.map some).zip input).flatMap fun e => piece e.1 e.2 := by
    intro input
    induction input with
    | nil => exact fun _ => rfl
    | cons c input ih =>
        intro before
        rw [sanitizeInput_cons, ih (some c)]
        rfl
  exact hall input none

/-! ## The two agree -/

section Loop

variable (done input : Bytes)

theorem insertSpace_append : insertSpace (done ++ input) done.length
    = some (done ++ space :: input) := by
  rw [insertSpace, if_pos (by simp), List.take_left, List.drop_left]

theorem surround_append (c : UInt8) : surround (done ++ c :: input) done.length
    = .inl (done ++ [space, c, space] ++ input, done.length + 3) := by
  have hsecond : insertSpace (done ++ space :: c :: input) (done.length + 2)
      = some (done ++ [space, c, space] ++ input) := by
    have happend := insertSpace_append (done ++ [space, c]) input
    simpa using happend
  rw [surround, insertSpace_append, Option.bind_some, hsecond]

/-- The character in front of the index is the last one written. -/
theorem before_index : (decide (0 < done.length) && (done ++ input)[done.length - 1]?.any isdigit)
    = done.getLast?.any isdigit := by
  cases hdone : done using List.reverseRecOn with
  | nil => rfl
  | append_singleton done c => simp

/-- One round writes one piece. -/
theorem sanitizeRound_append (c : UInt8) : sanitizeRound (done ++ c :: input, done.length)
    = .inl (done ++ piece done.getLast? c ++ input,
      (done ++ piece done.getLast? c).length) := by
  have hc : (done ++ c :: input)[done.length]? = some c := by simp
  have hbefore := before_index done (c :: input)
  simp only [sanitizeRound, hc, Bool.and_assoc, hbefore, piece]
  split
  · rw [surround_append]
    simp
  split
  · have hset : (done ++ c :: input).set done.length (tolower c)
        = done ++ tolower c :: input := by simp
    rw [hset, surround_append]
    simp
  · simp

theorem sanitizeRound_end : sanitizeRound (done, done.length) = .inr (some done) := by
  simp [sanitizeRound]

end Loop

/-- The last character that was written decides as the original one
does. -/
theorem any_getLast?_piece (done : Bytes) (before : Option UInt8) (c : UInt8) :
    (done ++ piece before c).getLast?.any isdigit = isdigit c := by
  unfold piece
  split
  · rename_i hmark
    rw [not_isdigit_mark hmark, List.getLast?_append]
    exact isdigit_space
  split
  · rename_i hsize
    rw [not_isdigit_multiplier (Bool.and_eq_true_iff.mp hsize).1, List.getLast?_append]
    exact isdigit_space
  · simp

/-- The invariant of the loop: what is in front of the index is written,
what is behind it is original. -/
theorem exits_sanitizeRound (input : Bytes) : ∀ done : Bytes,
    Exits sanitizeRound (done ++ input, done.length)
      (some (done ++ sanitizeInput done.getLast? input)) := by
  induction input with
  | nil =>
      intro done
      rw [sanitizeInput, List.append_nil]
      exact exits_inr (sanitizeRound_end done)
  | cons c input ih =>
      intro done
      have hrest := ih (done ++ piece done.getLast? c)
      have hbefore : sanitizeInput (done ++ piece done.getLast? c).getLast? input
          = sanitizeInput (some c) input :=
        sanitizeInput_congr (any_getLast?_piece done done.getLast? c) input
      rw [hbefore] at hrest
      rw [exits_inl (sanitizeRound_append done input c), sanitizeInput_cons, ← List.append_assoc]
      exact hrest

/-- `SanitizeInput` is left, throws nothing, and writes a piece for each
of the original characters. -/
theorem sanitizeInput_inPlace (input : Bytes) :
    Exits sanitizeRound (input, 0) (some (sanitized input)) := by
  rw [← sanitizeInput_eq_sanitized]
  exact exits_sanitizeRound input []

end Webserv
