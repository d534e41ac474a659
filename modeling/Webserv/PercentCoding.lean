import Webserv.PathQuery

/-!
# Percent-coding

`decode_percent_encoding` undoes every percent-encoding of every string
without a NUL that is encoded, and refuses the strings that are none,
except for one kind: a `%` in one of the last two places has no room for
two digits behind it, and is copied.
-/

namespace Webserv

open Bytes

namespace RequestParser

/-! ## Encodings -/

/-- The byte of a triplet. -/
def tripletByte (h1 h2 : UInt8) : UInt8 := UInt8.ofNat (xdigitVal h1 * 16 + xdigitVal h2)

/-- The string is an encoding: some of the bytes, and every `%`, stand as
triplets. -/
inductive Encodes : Bytes → Bytes → Prop where
  | nil : Encodes [] []
  | plain {c : UInt8} {decoded str : Bytes} (hc : c ≠ percent) (h : Encodes decoded str) :
      Encodes (c :: decoded) (c :: str)
  | triplet {h1 h2 : UInt8} {decoded str : Bytes}
      (hdigits : isxdigit h1 = true ∧ isxdigit h2 = true)
      (hzero : xdigitVal h1 * 16 + xdigitVal h2 ≠ 0) (h : Encodes decoded str) :
      Encodes (tripletByte h1 h2 :: decoded) (percent :: h1 :: h2 :: str)

/-- An encoding is decoded without an error, and any other string is
refused. -/
structure DecodesExactly (p : RequestParser) (str : Bytes) : Prop where
  decoded : ∀ decoded, Encodes decoded str → p.decodePercentEncoding str = (p, decoded)
  refused : (∀ decoded, ¬Encodes decoded str) →
    p.decodePercentEncoding str = (p.logError 400, [])

/-- The first `%` that is no triplet stands in one of the last two
places. -/
def Truncated (str : Bytes) : Prop :=
  ∃ decoded front tail, str = front ++ percent :: tail ∧ Encodes decoded front ∧ tail.length ≤ 1

/-! ## Decoding -/

theorem percentDecode_encodes {decoded str : Bytes} (h : Encodes decoded str) :
    percentDecode str = some decoded := by
  induction h with
  | nil => rfl
  | plain hc _ ih => rw [percentDecode_cons hc, ih]; rfl
  | triplet hdigits hzero _ ih =>
      rw [percentDecode, if_pos rfl, if_pos (by rw [hdigits.1, hdigits.2]; rfl)]
      simp only [if_neg hzero, ih]
      rfl

/-- A truncated `%` is copied. -/
theorem percentDecode_truncated {decoded front tail : Bytes} (h : Encodes decoded front)
    (htail : tail.length ≤ 1) :
    percentDecode (front ++ percent :: tail) = some (decoded ++ percent :: tail) := by
  induction h with
  | nil =>
      match tail, htail with
      | [], _ => rfl
      | [_], _ => rfl
  | plain hc _ ih => rw [List.cons_append, percentDecode_cons hc, ih]; rfl
  | triplet hdigits hzero _ ih =>
      rw [List.cons_append, List.cons_append, List.cons_append, percentDecode, if_pos rfl,
        if_pos (by rw [hdigits.1, hdigits.2]; rfl)]
      simp only [if_neg hzero, ih]
      rfl

/-- What is decoded is an encoding or truncated. -/
theorem encodes_of_percentDecode : ∀ {str decoded : Bytes}, percentDecode str = some decoded →
    Encodes decoded str ∨ Truncated str
  | [], decoded, h => by
      obtain rfl := Option.some.inj h
      exact .inl .nil
  | [c], decoded, h => by
      obtain rfl := Option.some.inj h
      by_cases hc : c = percent
      · exact .inr ⟨[], [], [], by rw [hc]; rfl, .nil, by decide⟩
      · exact .inl (.plain hc .nil)
  | [c, d], decoded, h => by
      obtain rfl := Option.some.inj h
      by_cases hc : c = percent
      · exact .inr ⟨[], [], [d], by rw [hc]; rfl, .nil, Nat.le_refl 1⟩
      by_cases hd : d = percent
      · exact .inr ⟨[c], [c], [], by rw [hd]; rfl, .plain hc .nil, by decide⟩
      · exact .inl (.plain hc (.plain hd .nil))
  | c :: h1 :: h2 :: str, decoded, h => by
      rw [percentDecode] at h
      by_cases hc : c = percent
      · rw [if_pos hc] at h
        split at h
        · rename_i hdigits
          rw [Bool.and_eq_true] at hdigits
          simp only at h
          split at h
          · cases h
          · rename_i hzero
            rw [Option.map_eq_some_iff] at h
            obtain ⟨decoded, hrest, rfl⟩ := h
            rw [hc]
            rcases encodes_of_percentDecode hrest with
              hencodes | ⟨decoded', front, tail, rfl, hf, ht⟩
            · exact .inl (.triplet hdigits hzero hencodes)
            · exact .inr ⟨_, percent :: h1 :: h2 :: front, tail, rfl, .triplet hdigits hzero hf, ht⟩
        · cases h
      · rw [if_neg hc, Option.map_eq_some_iff] at h
        obtain ⟨decoded, hrest, rfl⟩ := h
        rcases encodes_of_percentDecode hrest with
          hencodes | ⟨decoded', front, tail, hsplit, hf, ht⟩
        · exact .inl (.plain hc hencodes)
        · exact .inr ⟨_, c :: front, tail, by rw [hsplit]; rfl, .plain hc hf, ht⟩

/-- A truncated string is no encoding. -/
theorem Truncated.not_encodes {str : Bytes} (h : Truncated str) (decoded : Bytes) :
    ¬Encodes decoded str := by
  obtain ⟨decoded', front, tail, rfl, hfront, htail⟩ := h
  intro hencodes
  induction hfront generalizing decoded with
  | nil =>
      cases hencodes with
      | plain hc _ => exact hc rfl
      | triplet _ _ _ =>
          simp only [List.length_cons] at htail
          omega
  | plain hc _ ih =>
      rw [List.cons_append] at hencodes
      generalize hrest : _ ++ percent :: tail = rest at hencodes
      cases hencodes with
      | plain _ h => exact ih _ (hrest ▸ h)
      | triplet _ _ _ => exact hc rfl
  | triplet _ _ _ ih =>
      simp only [List.cons_append] at hencodes
      cases hencodes with
      | plain hc _ => exact hc rfl
      | triplet _ _ h => exact ih _ h

/-- Percent-decoding is exact on a string if and only if it is not
truncated. -/
theorem decodePercentEncoding_exact (p : RequestParser) (str : Bytes) :
    DecodesExactly p str ↔ ¬Truncated str := by
  constructor
  · intro h htruncated
    have hrefused := h.refused htruncated.not_encodes
    obtain ⟨decoded, front, tail, rfl, hfront, htail⟩ := htruncated
    rw [decodePercentEncoding, percentDecode_truncated hfront htail] at hrefused
    have hempty := (Prod.mk.inj hrefused).2
    simp at hempty
  · intro hwhole
    constructor
    · intro decoded hencodes
      rw [decodePercentEncoding, percentDecode_encodes hencodes]
    · intro hnone
      rw [decodePercentEncoding]
      cases hdecode : percentDecode str with
      | none => rfl
      | some decoded =>
          rcases encodes_of_percentDecode hdecode with hencodes | htruncated
          · exact absurd hencodes (hnone decoded)
          · exact absurd htruncated hwhole

/-- `/a%4` is taken as it stands. -/
theorem not_decodePercentEncoding_exact :
    ¬∀ (p : RequestParser) (str : Bytes), DecodesExactly p str := by
  intro h
  have hfront : Encodes (lit "/a") (lit "/a") := .plain (by decide) (.plain (by decide) .nil)
  have htruncated : Truncated (lit "/a%4") :=
    ⟨_, lit "/a", lit "4", by decide, hfront, by decide⟩
  have hrefused := (h {} (lit "/a%4")).refused htruncated.not_encodes
  exact absurd (congrArg Prod.snd hrefused) (by decide +kernel)

end RequestParser

end Webserv
