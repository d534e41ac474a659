import Mathlib.Data.List.DropRight
import Mathlib.Order.Lattice

/-!
# Byte strings

The part of the C and C++ string library a byte-oriented program uses,
over lists of bytes: the `<cctype>` predicates of the C locale, the
`std::string` searches, `strtoul`, and decimal output. A plain `char`
is signed (`schar`), and the `<cctype>` predicates are false on the
bytes from 128 on.
-/

/-- The contents of a `std::string` or of a `std::vector` of bytes. -/
abbrev Bytes := List UInt8

/-- Bytes are ordered as unsigned numbers, as `std::string` compares
them. -/
instance byteLinearOrder : LinearOrder UInt8 where
  le_refl := UInt8.le_refl
  le_trans _ _ _ := UInt8.le_trans
  lt_iff_le_not_ge a b := by
    simp only [UInt8.lt_iff_toNat_lt, UInt8.le_iff_toNat_le]
    omega
  le_antisymm _ _ h h' := UInt8.le_antisymm h h'
  le_total := UInt8.le_total
  toDecidableLE := inferInstance
  toDecidableEq := inferInstance
  toDecidableLT := inferInstance

namespace Bytes

/-- The bytes of a string literal. -/
def lit (s : String) : Bytes :=
  s.toList.map fun c => UInt8.ofNat c.toNat

/-! ## Characters -/

abbrev nul : UInt8 := 0
abbrev tab : UInt8 := 9
abbrev lf : UInt8 := 10
abbrev cr : UInt8 := 13
abbrev space : UInt8 := 32
abbrev hash : UInt8 := 35
abbrev percent : UInt8 := 37
abbrev dot : UInt8 := 46
abbrev slash : UInt8 := 47
abbrev colon : UInt8 := 58
abbrev semicolon : UInt8 := 59
abbrev question : UInt8 := 63

/-- The value of a byte read as a signed `char`. -/
def schar (c : UInt8) : Int :=
  if c < 128 then (c.toNat : Int) else (c.toNat : Int) - 256

def isdigit (c : UInt8) : Bool := 48 ≤ c && c ≤ 57

def isupper (c : UInt8) : Bool := 65 ≤ c && c ≤ 90

def islower (c : UInt8) : Bool := 97 ≤ c && c ≤ 122

def isalnum (c : UInt8) : Bool := isdigit c || isupper c || islower c

def isxdigit (c : UInt8) : Bool :=
  isdigit c || (65 ≤ c && c ≤ 70) || (97 ≤ c && c ≤ 102)

def isspace (c : UInt8) : Bool := c == 32 || (9 ≤ c && c ≤ 13)

def tolower (c : UInt8) : UInt8 := if isupper c then c + 32 else c

def toupper (c : UInt8) : UInt8 := if islower c then c - 32 else c

/-- The value of a hexadecimal digit; the result on another byte is not
used. -/
def xdigitVal (c : UInt8) : Nat :=
  if isdigit c then (c - 48).toNat else (toupper c - 65).toNat + 10

instance byteDecidableMem (c : UInt8) (s : Bytes) : Decidable (c ∈ s) :=
  List.instDecidableMemOfLawfulBEq c s

instance bytesDecidableMem (s : Bytes) (ss : List Bytes) : Decidable (s ∈ ss) :=
  List.instDecidableMemOfLawfulBEq s ss

instance bytesDecidableBall (s : Bytes) (P : UInt8 → Prop) [DecidablePred P] :
    Decidable (∀ c ∈ s, P c) :=
  List.decidableBAll P s

/-! ## Searching -/

/-- `s.find(pat)`: the offset of the first occurrence. -/
def find (pat : Bytes) : Bytes → Option Nat
  | [] => if pat = [] then some 0 else none
  | c :: s =>
      if pat.isPrefixOf (c :: s) then some 0
      else (find pat s).map (· + 1)

theorem find_le {pat : Bytes} : ∀ {s : Bytes} {k : Nat}, find pat s = some k →
    k + pat.length ≤ s.length
  | [], k, h => by
      rw [find] at h
      split at h
      · rename_i hnil
        obtain rfl := Option.some.inj h
        simp [hnil]
      · cases h
  | c :: s, k, h => by
      rw [find] at h
      split at h
      · rename_i hpre
        obtain rfl := Option.some.inj h
        simpa using (List.isPrefixOf_iff_prefix.mp hpre).length_le
      · obtain ⟨k', hk', rfl⟩ := Option.map_eq_some_iff.mp h
        have := find_le hk'
        simp only [List.length_cons]
        omega

theorem prefix_of_find {pat : Bytes} : ∀ {s : Bytes} {k : Nat}, find pat s = some k →
    pat <+: s.drop k
  | [], k, h => by
      rw [find] at h
      split at h
      · rename_i hnil
        exact ⟨_, by rw [hnil, List.nil_append]⟩
      · cases h
  | c :: s, k, h => by
      rw [find] at h
      split at h
      · rename_i hpre
        obtain rfl := Option.some.inj h
        exact List.isPrefixOf_iff_prefix.mp hpre
      · obtain ⟨k', hk', rfl⟩ := Option.map_eq_some_iff.mp h
        rw [List.drop_succ_cons]
        exact prefix_of_find hk'

/-- A string that is found is part of the other. -/
theorem infix_of_find {pat s : Bytes} (h : (find pat s).isSome) : pat <:+: s := by
  obtain ⟨k, hk⟩ := Option.isSome_iff_exists.mp h
  exact (prefix_of_find hk).isInfix.trans (List.drop_suffix k s).isInfix

/-- The first occurrence stays the first when the string grows. -/
theorem find_append {pat : Bytes} : ∀ {s : Bytes} {k : Nat} (t : Bytes), find pat s = some k →
    find pat (s ++ t) = some k
  | [], k, t, h => by
      rw [find] at h
      split at h
      · rename_i hnil
        obtain rfl := Option.some.inj h
        rw [hnil, List.nil_append]
        cases t with
        | nil => rfl
        | cons c t => rfl
      · cases h
  | c :: s, k, t, h => by
      rw [find] at h
      rw [List.cons_append, find]
      split at h
      · rename_i hpre
        obtain ⟨u, hu⟩ := List.isPrefixOf_iff_prefix.mp hpre
        have hpre' : pat.isPrefixOf (c :: (s ++ t)) = true :=
          List.isPrefixOf_iff_prefix.mpr ⟨u ++ t, by
            rw [← List.append_assoc, hu, List.cons_append]⟩
        rw [if_pos hpre']
        exact h
      · rename_i hpre
        obtain ⟨k', hk', rfl⟩ := Option.map_eq_some_iff.mp h
        have hshort := find_le hk'
        have hpre' : ¬pat.isPrefixOf (c :: (s ++ t)) = true := by
          rw [List.isPrefixOf_iff_prefix] at hpre ⊢
          exact fun hpre' => hpre (List.prefix_of_prefix_length_le hpre'
            (List.prefix_append (c :: s) t) (by simp only [List.length_cons]; omega))
        rw [if_neg hpre', find_append t hk']
        rfl

/-- `s.find_last_of(c)` for a single character. -/
def rfind (c : UInt8) : Bytes → Option Nat
  | [] => none
  | d :: s =>
      match rfind c s with
      | some n => some (n + 1)
      | none => if d = c then some 0 else none

/-- The pieces between delimiters, as `std::getline` with a delimiter
reads them: a delimiter at the very end opens no further piece. -/
def split (d : UInt8) : Bytes → List Bytes
  | [] => []
  | c :: s =>
      if c = d then [] :: split d s
      else
        match split d s with
        | [] => [[c]]
        | w :: ws => (c :: w) :: ws

/-- `s` without the characters of `delim` at its two ends. -/
def trim (delim s : Bytes) : Bytes :=
  (s.dropWhile fun c => decide (c ∈ delim)).rdropWhile fun c => decide (c ∈ delim)

/-! ## Numbers -/

/-- `size_t` and `unsigned long` have 64 bits: `2 ^ 64`. -/
abbrev word : Nat := 18446744073709551616

/-- Unsigned subtraction of two values below `word`. -/
def wsub (a b : Nat) : Nat := (a + word - b) % word

theorem wsub_of_le {a b : Nat} (hb : b ≤ a) (ha : a < word) : wsub a b = a - b := by
  rw [wsub, show a + word - b = a - b + word by omega, Nat.add_mod_right,
    Nat.mod_eq_of_lt (by omega)]

/-- The C string a `char` pointer to `s` denotes. -/
def cstr (s : Bytes) : Bytes := s.takeWhile (· != nul)

def digitVal (base : Nat) (c : UInt8) : Option Nat :=
  if isxdigit c && decide (xdigitVal c < base) then some (xdigitVal c) else none

/-- The longest prefix of digits, accumulated on `acc`, and what follows
it. -/
def readDigits (base : Nat) : Nat → Bytes → Nat × Bytes
  | acc, [] => (acc, [])
  | acc, c :: s =>
      match digitVal base c with
      | some d => readDigits base (acc * base + d) s
      | none => (acc, c :: s)

/-- The optional `0x` of a hexadecimal number; it is only a prefix when
a digit follows. -/
def dropHexPrefix (base : Nat) (s : Bytes) : Bytes :=
  match s with
  | z :: x :: d :: r =>
      if base = 16 && z = 48 && (x = 120 || x = 88) && isxdigit d then d :: r else s
  | _ => s

/-- The value of the digits `v` behind a sign: saturated when it does not
fit, else negated in the word behind a minus. -/
def signedValue (neg : Bool) (v : Nat) : Nat :=
  if word ≤ v then word - 1 else if neg then wsub 0 v else v

/-- `strtoul(s, &end, base)`: the value and the bytes from `end` on, which
is `s` itself when there is no number. -/
def strtoul (base : Nat) (s : Bytes) : Nat × Bytes :=
  let t := (cstr s).dropWhile isspace
  let neg := t.head? == some 45
  let t := dropHexPrefix base (if neg || t.head? == some 43 then t.tail else t)
  let r := readDigits base 0 t
  if r.2.length = t.length then (0, cstr s) else (signedValue neg r.1, r.2)

theorem signedValue_lt (neg : Bool) (v : Nat) : signedValue neg v < word := by
  have hw : 0 < word := by decide
  simp only [signedValue]
  split
  · exact Nat.sub_lt hw Nat.one_pos
  · split
    · exact Nat.mod_lt _ hw
    · omega

theorem strtoul_lt (base : Nat) (s : Bytes) : (strtoul base s).1 < word := by
  unfold strtoul
  extract_lets t neg t' r
  split
  · exact show 0 < word by decide
  · exact signedValue_lt neg r.1

theorem isdigit_iff {c : UInt8} : isdigit c = true ↔ 48 ≤ c.toNat ∧ c.toNat ≤ 57 := by
  simp only [isdigit, Bool.and_eq_true, decide_eq_true_eq, UInt8.le_iff_toNat_le]
  rfl

/-- What a hexadecimal digit is not. -/
theorem isxdigit_not : ∀ {c : UInt8}, isxdigit c = true →
    c ≠ nul ∧ isspace c = false ∧ c ≠ 43 ∧ c ≠ 45 ∧ c ≠ 88 ∧ c ≠ 120 := by
  have hfin : ∀ n : Fin 256, isxdigit (UInt8.ofFin n) = true →
      UInt8.ofFin n ≠ nul ∧ isspace (UInt8.ofFin n) = false ∧ UInt8.ofFin n ≠ 43
        ∧ UInt8.ofFin n ≠ 45 ∧ UInt8.ofFin n ≠ 88 ∧ UInt8.ofFin n ≠ 120 := by
    decide +kernel
  exact fun {c} => hfin c.toFin

/-- A byte is a digit of the base. -/
def IsDigit (base : Nat) (c : UInt8) : Prop := isxdigit c = true ∧ xdigitVal c < base

theorem isDigit_sixteen : ∀ {c : UInt8}, isxdigit c = true → IsDigit 16 c := by
  have hfin : ∀ n : Fin 256, isxdigit (UInt8.ofFin n) = true → xdigitVal (UInt8.ofFin n) < 16 := by
    decide +kernel
  exact fun {c} h => ⟨h, hfin c.toFin h⟩

theorem isDigit_ten {c : UInt8} (h : isdigit c = true) : IsDigit 10 c := by
  have hc := isdigit_iff.mp h
  have hle : (48 : UInt8) ≤ c := UInt8.le_iff_toNat_le.mpr hc.1
  refine ⟨by simp [isxdigit, h], ?_⟩
  simp only [xdigitVal, h, if_true, UInt8.toNat_sub_of_le _ _ hle]
  have h48 : (48 : UInt8).toNat = 48 := rfl
  omega

/-- The number the digits stand for. -/
def number (base : Nat) (digits : Bytes) : Nat :=
  digits.foldl (fun value c => value * base + xdigitVal c) 0

theorem readDigits_digits {base : Nat} : ∀ {digits : Bytes} (acc : Nat),
    (∀ c ∈ digits, IsDigit base c) →
    readDigits base acc digits
      = (digits.foldl (fun value c => value * base + xdigitVal c) acc, [])
  | [], _, _ => rfl
  | c :: digits, acc, h => by
      obtain ⟨hx, hlt⟩ := h c List.mem_cons_self
      have hval : digitVal base c = some (xdigitVal c) := by
        rw [digitVal, hx, decide_eq_true hlt]
        rfl
      rw [readDigits, hval, List.foldl_cons]
      exact readDigits_digits _ fun d hd => h d (List.mem_cons_of_mem c hd)

theorem dropHexPrefix_digits (base : Nat) {digits : Bytes}
    (h : ∀ c ∈ digits, isxdigit c = true) : dropHexPrefix base digits = digits := by
  unfold dropHexPrefix
  split
  · rename_i z x d r
    obtain ⟨-, -, -, -, hupper, hlower⟩ := isxdigit_not (h x (by simp))
    simp [hupper, hlower]
  · rfl

/-- Digits are a number up to their end. -/
theorem strtoul_digits {base : Nat} {digits : Bytes} (h : ∀ c ∈ digits, IsDigit base c) :
    strtoul base digits = (signedValue false (number base digits), []) := by
  have hcstr : cstr digits = digits := List.takeWhile_eq_self_iff.mpr fun c hc => by
    simpa using (isxdigit_not (h c hc).1).1
  have hprefix := dropHexPrefix_digits base fun c hc => (h c hc).1
  have hread := readDigits_digits 0 h
  cases digits with
  | nil => rfl
  | cons c digits =>
      obtain ⟨-, hspace, hplus, hminus, -⟩ := isxdigit_not (h c List.mem_cons_self).1
      have hneg : (c == 45) = false := beq_eq_false_iff_ne.mpr hminus
      simp only [strtoul, hcstr, List.dropWhile_cons, hspace, number]
      simp [hplus, hneg, hprefix, hread]

theorem signedValue_of_lt {v : Nat} (h : v < word) : signedValue false v = v := by
  rw [signedValue, if_neg (Nat.not_le_of_lt h)]
  rfl

/-- Decimal output of an unsigned number. -/
def decimal (n : Nat) : Bytes :=
  (Nat.toDigits 10 n).map fun c => UInt8.ofNat c.toNat

theorem decimal_ne_nil (n : Nat) : decimal n ≠ [] := by
  simp [decimal]

theorem toNat_digitChar {d : Nat} (h : d < 10) :
    (UInt8.ofNat d.digitChar.toNat).toNat = 48 + d := by
  rw [Nat.toNat_digitChar_of_lt_ten h, UInt8.toNat_ofNat']
  omega

/-- The digits of a number are those of its tenth, and its last one. -/
theorem decimal_eq (n : Nat) : decimal n
    = (if n < 10 then [] else decimal (n / 10)) ++ [UInt8.ofNat (n % 10).digitChar.toNat] := by
  unfold decimal
  rw [Nat.toDigits_eq_if (by decide)]
  split
  · rename_i h
    rw [Nat.mod_eq_of_lt h]
    rfl
  · rw [List.map_append]
    rfl

theorem isdigit_decimal (n : Nat) : ∀ c ∈ decimal n, isdigit c = true := by
  induction n using Nat.strongRecOn with
  | ind n ih =>
      intro c hc
      rw [decimal_eq, List.mem_append] at hc
      rcases hc with hc | hc
      · split at hc
        · cases hc
        · exact ih (n / 10) (by omega) c hc
      · obtain rfl := List.mem_singleton.mp hc
        have hmod : n % 10 < 10 := Nat.mod_lt n (by decide)
        have hval := toNat_digitChar hmod
        rw [isdigit_iff]
        omega

/-- Decimal output is read as the number. -/
theorem number_decimal (n : Nat) : number 10 (decimal n) = n := by
  induction n using Nat.strongRecOn with
  | ind n ih =>
      have hmod : n % 10 < 10 := Nat.mod_lt n (by decide)
      have hlast : isdigit (UInt8.ofNat (n % 10).digitChar.toNat) = true := by
        have hval := toNat_digitChar hmod
        rw [isdigit_iff]
        omega
      have hval : xdigitVal (UInt8.ofNat (n % 10).digitChar.toNat) = n % 10 := by
        have hle : (48 : UInt8) ≤ UInt8.ofNat (n % 10).digitChar.toNat :=
          UInt8.le_iff_toNat_le.mpr (isdigit_iff.mp hlast).1
        have h48 : (48 : UInt8).toNat = 48 := rfl
        rw [xdigitVal, if_pos hlast, UInt8.toNat_sub_of_le _ _ hle, toNat_digitChar hmod, h48]
        omega
      rw [decimal_eq, number, List.foldl_append, List.foldl_cons, List.foldl_nil, hval]
      split
      · rename_i h
        rw [List.foldl_nil]
        omega
      · have hrest := ih (n / 10) (by omega)
        unfold number at hrest
        rw [hrest]
        omega

end Bytes
