import Webserv.Bytes

/-!
# The chunked coding, one byte at a time

What a chunked stream means, as an automaton over single bytes. Its
positions say where in the coding a prefix of the stream ends. Reading a
concatenation is reading the parts one after the other
(`feed_append`), so by construction a position does not depend on how
the stream was cut. `sizeOf` is the interpretation of a whole size line,
its CRLF included.
-/

namespace ChunkStream

open Bytes

/-- Where a prefix of a chunked stream ends. -/
inductive Pos where
  /-- in a size line, of which `line` has come -/
  | size (line : Bytes)
  /-- behind a size line that is no number; whatever follows is refused -/
  | badSize
  /-- in the data of a chunk of `n` bytes, of which `left > 0` are to come -/
  | data (n left : Nat)
  /-- behind the data of a chunk, with `got` of its CRLF -/
  | dataEnd (got : Bytes)
  /-- behind the size line of the last chunk, with `got` of its CRLF -/
  | last (got : Bytes)
  | finished
  | failed
deriving DecidableEq, Repr

variable (sizeOf : Bytes → Option Nat)

/-- The position behind a complete size line. -/
def afterSize (line : Bytes) : Pos :=
  match sizeOf line with
  | none => .badSize
  | some 0 => .last []
  | some n => .data n n

/-- The second byte of a CRLF leads to `next`. -/
def crlfStep (got : Bytes) (c : UInt8) (wait : Bytes → Pos) (next : Pos) : Pos :=
  match got with
  | [] => wait [c]
  | a :: _ => if a = cr ∧ c = lf then next else .failed

def step (q : Pos) (c : UInt8) : Pos :=
  match q with
  | .size line =>
      if line.getLast? = some cr ∧ c = lf then afterSize sizeOf (line ++ [c])
      else .size (line ++ [c])
  | .badSize => .failed
  | .data n left => if left ≤ 1 then .dataEnd [] else .data n (left - 1)
  | .dataEnd got => crlfStep got c .dataEnd (.size [])
  | .last got => crlfStep got c .last .finished
  | .finished => .finished
  | .failed => .failed

def feed (q : Pos) (s : Bytes) : Pos := s.foldl (step sizeOf) q

@[simp] theorem feed_nil (q : Pos) : feed sizeOf q [] = q := rfl

@[simp] theorem feed_cons (q : Pos) (c : UInt8) (s : Bytes) :
    feed sizeOf q (c :: s) = feed sizeOf (step sizeOf q c) s := rfl

theorem feed_append (q : Pos) (s t : Bytes) :
    feed sizeOf q (s ++ t) = feed sizeOf (feed sizeOf q s) t :=
  List.foldl_append

@[simp] theorem feed_finished (s : Bytes) : feed sizeOf .finished s = .finished := by
  induction s with
  | nil => rfl
  | cons c s ih => exact ih

@[simp] theorem feed_failed (s : Bytes) : feed sizeOf .failed s = .failed := by
  induction s with
  | nil => rfl
  | cons c s ih => exact ih

/-! ## Whole pieces of the coding -/

theorem feed_data_of_lt {n : Nat} : ∀ {left : Nat} {s : Bytes}, s.length < left →
    feed sizeOf (.data n left) s = .data n (left - s.length)
  | left, [], _ => rfl
  | left, c :: s, h => by
      simp only [List.length_cons] at h
      rw [feed_cons, step, if_neg (by omega), feed_data_of_lt (by omega)]
      simp only [List.length_cons]
      congr 1
      omega

theorem feed_data_length {n : Nat} : ∀ {left : Nat} {s : Bytes},
    s.length = left → 0 < left → feed sizeOf (.data n left) s = .dataEnd []
  | left, [], h, hpos => absurd h (by simp only [List.length_nil]; omega)
  | left, c :: s, h, _ => by
      simp only [List.length_cons] at h
      rw [feed_cons, step]
      split
      · obtain rfl : s = [] := List.length_eq_zero_iff.mp (by omega)
        rfl
      · exact feed_data_length (by omega) (by omega)

/-- A CRLF does not start inside `s`, nor at its end when `lf` follows. -/
def NoCrlf : Bytes → Prop
  | a :: b :: s => ¬(a = cr ∧ b = lf) ∧ NoCrlf (b :: s)
  | _ => True

theorem feed_size_of_noCrlf : ∀ {s line : Bytes},
    (∀ c, s.head? = some c → ¬(line.getLast? = some cr ∧ c = lf)) → NoCrlf s →
    feed sizeOf (.size line) s = .size (line ++ s)
  | [], line, _, _ => by rw [feed_nil, List.append_nil]
  | c :: s, line, hhd, hno => by
      rw [feed_cons, step, if_neg (hhd c rfl), feed_size_of_noCrlf ?_ ?_]
      · rw [List.append_assoc]; rfl
      · intro b hb
        rw [List.getLast?_append]
        cases s with
        | nil => cases hb
        | cons b' s =>
            obtain rfl := Option.some.inj hb
            simpa using hno.1
      · cases s with
        | nil => trivial
        | cons b' s => exact hno.2

end ChunkStream
