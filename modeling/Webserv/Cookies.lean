import Webserv.ResponseFrame

/-!
# Cookies

`get_cookie` looks for the name and an equals sign anywhere in the field,
so it finds the first pair whose name ends in the one it is looking for.
-/

namespace Bytes

/-- What is behind the first `c` in `s` that has `name` in front of it;
`before` is in front of `s`. -/
def behindMark (name : Bytes) (c : UInt8) (before : Bytes) : Bytes → Option Bytes
  | [] => none
  | a :: s =>
      if a = c ∧ name <:+ before then some s else behindMark name c (before ++ [a]) s

theorem find_append_of_suffix {pat before : Bytes} {a : UInt8} (h : ¬pat <:+: before)
    (hpat : pat <:+ before ++ [a]) :
    find pat (before ++ [a]) = some ((before ++ [a]).length - pat.length) := by
  obtain ⟨u, hu⟩ := hpat
  induction before generalizing u with
  | nil =>
      have hne : pat ≠ [] := fun hnil => h (hnil ▸ List.infix_rfl)
      cases u with
      | nil =>
          rw [List.nil_append] at hu
          rw [← hu]
          cases pat with
          | nil => exact absurd rfl hne
          | cons b pat => simp [find]
      | cons d u =>
          have hlength := congrArg List.length hu
          have hpos := List.length_pos_iff.mpr hne
          simp only [List.length_append, List.length_cons, List.nil_append, List.length_nil]
            at hlength
          omega
  | cons d before ih =>
      cases u with
      | nil =>
          rw [List.nil_append] at hu
          rw [hu, Nat.sub_self]
          rw [List.cons_append, find, if_pos (by simp)]
      | cons d' u =>
          have htail : u ++ pat = before ++ [a] := (List.cons.inj hu).2
          have hno : ¬pat <:+: before := fun hin =>
            h (hin.trans (List.suffix_cons d before).isInfix)
          have hpre : ¬pat.isPrefixOf (d :: (before ++ [a])) = true := by
            rw [List.isPrefixOf_iff_prefix]
            intro hpre
            have hlength := congrArg List.length htail
            simp only [List.length_append, List.length_cons, List.length_nil] at hlength
            refine h (List.IsPrefix.isInfix (List.prefix_of_prefix_length_le hpre
              (List.prefix_append (d :: before) [a]) ?_))
            simp only [List.length_cons]
            omega
          rw [List.cons_append, find, if_neg hpre, ih hno u htail, Option.map_some]
          have hlength := congrArg List.length htail
          simp only [List.length_append, List.length_cons, List.length_nil] at hlength ⊢
          congr 1
          omega

theorem infix_append_singleton {pat before : Bytes} {a : UInt8} (h : pat <:+: before ++ [a])
    (hno : ¬pat <:+: before) : pat <:+ before ++ [a] := by
  obtain ⟨u, v, huv⟩ := h
  rcases List.eq_nil_or_concat v with rfl | ⟨v, b, rfl⟩
  · exact ⟨u, by rw [← huv, List.append_nil]⟩
  · refine absurd ⟨u, v, ?_⟩ hno
    rw [List.concat_eq_append, ← List.append_assoc] at huv
    exact (List.append_inj' huv rfl).1

theorem suffix_append_singleton {name before : Bytes} {a c : UInt8} :
    name ++ [c] <:+ before ++ [a] ↔ a = c ∧ name <:+ before := by
  refine ⟨?_, ?_⟩
  · rintro ⟨u, hu⟩
    rw [← List.append_assoc] at hu
    obtain ⟨hbefore, hlast⟩ := List.append_inj' hu rfl
    exact ⟨(List.cons.inj hlast).1.symm, u, hbefore⟩
  · rintro ⟨rfl, u, rfl⟩
    exact ⟨u, (List.append_assoc ..).symm⟩

/-- A string that ends in a mark is found where the first such mark has
the rest of it in front. -/
theorem find_mark (name : Bytes) (c : UInt8) : ∀ (s before : Bytes), ¬name ++ [c] <:+: before →
    (find (name ++ [c]) (before ++ s)).map
      (fun k => (before ++ s).drop (k + (name ++ [c]).length)) = behindMark name c before s
  | [], before, h => by
      have hnone : find (name ++ [c]) before = none := by
        cases hf : find (name ++ [c]) before with
        | none => rfl
        | some k => exact absurd (infix_of_find (hf ▸ rfl)) h
      rw [List.append_nil, hnone]
      rfl
  | a :: s, before, h => by
      have hassoc : before ++ a :: s = before ++ [a] ++ s := by simp
      rw [behindMark]
      by_cases hmark : a = c ∧ name <:+ before
      · have hsuffix := suffix_append_singleton.mpr hmark
        rw [if_pos hmark, hassoc,
          find_append s (find_append_of_suffix h hsuffix), Option.map_some,
          Nat.sub_add_cancel hsuffix.length_le, List.drop_left]
      · rw [if_neg hmark, hassoc]
        refine find_mark name c s (before ++ [a]) fun hin => hmark ?_
        exact suffix_append_singleton.mp (infix_append_singleton hin h)

/-- Text without marks is passed. -/
theorem behindMark_append {name : Bytes} {c : UInt8} : ∀ {s : Bytes} (before t : Bytes), c ∉ s →
    behindMark name c before (s ++ t) = behindMark name c (before ++ s) t
  | [], before, t, _ => by rw [List.nil_append, List.append_nil]
  | a :: s, before, t, h => by
      rw [List.mem_cons, not_or] at h
      have ha : ¬(a = c ∧ name <:+ before) := fun hmark => h.1 hmark.1.symm
      rw [List.cons_append, behindMark, if_neg ha, behindMark_append (before ++ [a]) t h.2]
      simp

end Bytes

namespace Webserv

open Bytes RequestParser

/-! ## The field -/

abbrev equals : UInt8 := 61

/-- A name or a value of a cookie. -/
def PlainText (s : Bytes) : Prop := ∀ c ∈ s, c ≠ semicolon ∧ c ≠ equals ∧ isspace c = false

instance : DecidablePred PlainText := fun s =>
  inferInstanceAs (Decidable (∀ c ∈ s, c ≠ semicolon ∧ c ≠ equals ∧ isspace c = false))

/-- `name=value` -/
def pairText (pair : Bytes × Bytes) : Bytes := pair.1 ++ equals :: pair.2

/-- The pairs of a `Cookie` field. -/
def cookieText : List (Bytes × Bytes) → Bytes
  | [] => []
  | [pair] => pairText pair
  | pair :: pairs => pairText pair ++ lit "; " ++ cookieText pairs

/-- What is in front of the equals sign of each pair, with its value;
`before` is in front of the pairs. -/
def fronts (before : Bytes) : List (Bytes × Bytes) → List (Bytes × Bytes)
  | [] => []
  | pair :: pairs =>
      (before ++ pair.1, pair.2) :: fronts (before ++ (pairText pair ++ lit "; ")) pairs

/-- The value of the first pair that is named `name`. -/
def cookieValue (name : Bytes) (pairs : List (Bytes × Bytes)) : Bytes :=
  ((pairs.find? fun pair => pair.1 = name).map Prod.snd).getD []

variable {name before : Bytes} {pairs : List (Bytes × Bytes)}

theorem equals_notMem {s : Bytes} (h : PlainText s) : equals ∉ s := fun hmem => (h _ hmem).2.1 rfl

theorem takeWhile_value {value : Bytes} (h : PlainText value) (t : Bytes) :
    (value ++ t).takeWhile (· != semicolon) = value ++ t.takeWhile (· != semicolon) := by
  rw [List.takeWhile_append_of_pos]
  intro c hc
  simpa using (h c hc).1

/-- The text behind the name is that of the first pair with the name in
front of its equals sign. -/
theorem behindMark_cookieText : ∀ {pairs : List (Bytes × Bytes)} {before : Bytes},
    (∀ pair ∈ pairs, PlainText pair.1 ∧ PlainText pair.2) →
    (behindMark name equals before (cookieText pairs)).map (·.takeWhile (· != semicolon))
      = ((fronts before pairs).find? fun front => name <:+ front.1).map Prod.snd
  | [], before, _ => rfl
  | [pair], before, h => by
      obtain ⟨hname, hvalue⟩ := h pair List.mem_cons_self
      rw [cookieText, pairText, behindMark_append before _ (equals_notMem hname), behindMark]
      simp only [fronts, List.find?_cons, List.find?_nil]
      by_cases hfront : name <:+ before ++ pair.1
      · have hend := takeWhile_value hvalue []
        simp only [List.append_nil, List.takeWhile_nil] at hend
        simp [hfront, hend]
      · have hnone : behindMark name equals (before ++ pair.1 ++ [equals]) (pair.2 ++ [])
            = behindMark name equals (before ++ pair.1 ++ [equals] ++ pair.2) [] :=
          behindMark_append _ _ (equals_notMem hvalue)
        rw [List.append_nil] at hnone
        simp only [hfront, and_false, if_false, decide_false, hnone, behindMark, Option.map_none]
  | pair :: pair' :: pairs, before, h => by
      obtain ⟨hname, hvalue⟩ := h pair List.mem_cons_self
      have hsep : equals ∉ pair.2 ++ lit "; " := by
        rw [List.mem_append, not_or]
        exact ⟨equals_notMem hvalue, by decide⟩
      have htext : cookieText (pair :: pair' :: pairs)
          = pair.1 ++ equals :: (pair.2 ++ lit "; " ++ cookieText (pair' :: pairs)) := by
        simp [cookieText, pairText]
      rw [htext, behindMark_append before _ (equals_notMem hname), behindMark, fronts,
        List.find?_cons]
      by_cases hfront : name <:+ before ++ pair.1
      · have hend : (pair.2 ++ lit "; " ++ cookieText (pair' :: pairs)).takeWhile
            (· != semicolon) = pair.2 := by
          rw [List.append_assoc, takeWhile_value hvalue]
          simp [lit]
        simp only [hfront, and_self, if_true, decide_true, Option.map_some, hend]
      · have hrest := @behindMark_cookieText (pair' :: pairs)
          (before ++ (pairText pair ++ lit "; "))
          (fun pair hmem => h pair (List.mem_cons_of_mem _ hmem))
        have hassoc : before ++ pair.1 ++ [equals] ++ (pair.2 ++ lit "; ")
            = before ++ (pairText pair ++ lit "; ") := by simp [pairText]
        simp only [hfront, and_false, if_false, decide_false]
        rw [behindMark_append _ _ hsep, hassoc]
        exact hrest

/-- A pair that is named `name` has it in front of its equals sign. -/
theorem cookieValue_eq_nil : ∀ {pairs : List (Bytes × Bytes)} {before : Bytes},
    (fronts before pairs).find? (fun front => name <:+ front.1) = none →
    cookieValue name pairs = []
  | [], _, _ => rfl
  | pair :: pairs, before, h => by
      rw [fronts, List.find?_cons] at h
      split at h
      · cases h
      · rename_i hfront
        have hne : pair.1 ≠ name := by
          rintro rfl
          simp at hfront
        have hrest := cookieValue_eq_nil h
        rw [cookieValue, List.find?_cons, decide_eq_false hne]
        exact hrest

/-- In front of an equals sign there is the name of the pair, as far as
names go. -/
theorem suffix_front {p : Bytes} (hname : PlainText name) :
    name <:+ before ++ lit "; " ++ p ↔ name <:+ p := by
  refine ⟨fun h => ?_, fun h => h.trans (List.suffix_append _ _)⟩
  rcases List.suffix_or_suffix_of_suffix h (List.suffix_append _ p) with hp | ⟨u, hu⟩
  · exact hp
  · obtain ⟨w, hw⟩ := h
    rw [← hu, ← List.append_assoc] at hw
    have hbefore := (List.append_inj' hw rfl).1
    rcases List.eq_nil_or_concat u with rfl | ⟨u, b, rfl⟩
    · exact ⟨[], by rw [← hu]; rfl⟩
    · have hb : b = space := by
        have hlast := congrArg List.getLast? hbefore
        simpa [lit, List.concat_eq_append] using hlast
      have hmem : space ∈ name := by
        rw [← hu, hb]
        simp
      exact absurd (hname space hmem).2.2 (by decide)

theorem find?_fronts (hname : PlainText name) : ∀ (pairs : List (Bytes × Bytes)) (before : Bytes),
    ((fronts (before ++ lit "; ") pairs).find? fun front => name <:+ front.1).map Prod.snd
      = (pairs.find? fun pair => name <:+ pair.1).map Prod.snd
  | [], _ => rfl
  | pair :: pairs, before => by
      have hrest := find?_fronts hname pairs (before ++ lit "; " ++ pairText pair)
      rw [fronts, List.find?_cons, List.find?_cons]
      simp only [suffix_front hname]
      split
      · rfl
      · rw [← hrest, List.append_assoc _ (pairText pair)]

/-! ## The lookup -/

namespace ResponseBuilder

theorem getCookie_snd (p : RequestParser) (name : Bytes) :
    (getCookie p name).2 = ((behindMark name equals [] (p.getHeaderValue (lit "cookie")).2).map
      (·.takeWhile (· != semicolon))).getD [] := by
  have hmark := find_mark name equals (p.getHeaderValue (lit "cookie")).2 []
    (fun h => by simpa using h.length_le)
  simp only [List.nil_append] at hmark
  rw [← hmark]
  simp only [getCookie, show lit "=" = [equals] from rfl]
  cases find (name ++ [equals]) (p.getHeaderValue (lit "cookie")).2 with
  | none => rfl
  | some k => simp [Nat.add_assoc]

theorem getCookie_fronts {p : RequestParser}
    (hpairs : ∀ pair ∈ pairs, PlainText pair.1 ∧ PlainText pair.2)
    (hfield : (p.getHeaderValue (lit "cookie")).2 = cookieText pairs) (name : Bytes) :
    (getCookie p name).2
      = (((fronts [] pairs).find? fun front => name <:+ front.1).map Prod.snd).getD [] := by
  rw [getCookie_snd, hfield, behindMark_cookieText hpairs]

/-- `get_cookie` returns the value of the first pair whose name ends in
the name it is given. -/
theorem getCookie_plain {p : RequestParser}
    (hpairs : ∀ pair ∈ pairs, PlainText pair.1 ∧ PlainText pair.2)
    (hfield : (p.getHeaderValue (lit "cookie")).2 = cookieText pairs) (hname : PlainText name) :
    (getCookie p name).2
      = ((pairs.find? fun pair => name <:+ pair.1).map Prod.snd).getD [] := by
  rw [getCookie_fronts hpairs hfield]
  cases pairs with
  | nil => rfl
  | cons pair pairs =>
      rw [fronts, List.find?_cons, List.find?_cons, List.nil_append]
      by_cases hend : name <:+ pair.1
      · simp only [hend, decide_true]
      · simp only [hend, decide_false]
        rw [List.nil_append, find?_fronts hname]

/-- `SessionCookieHandler::validate_session` -/
def validateSession (request : RequestParser) : Bool :=
  decide ((getCookie request (lit "session_id")).2 ≠ [])

/-- `get_cookie` returns the value of the first pair of that name; a
session is recognised by it. -/
structure CookieFound (p : RequestParser) (pairs : List (Bytes × Bytes)) (name : Bytes) :
    Prop where
  value : (getCookie p name).2 = cookieValue name pairs
  session : name = lit "session_id" →
    (validateSession p = true ↔ cookieValue name pairs ≠ [])

/-- The cookie looked up is the right one if and only if the first pair
with the name in front of its equals sign has the value looked for. -/
theorem cookieFound_iff (p : RequestParser) {pairs : List (Bytes × Bytes)}
    (hpairs : ∀ pair ∈ pairs, PlainText pair.1 ∧ PlainText pair.2)
    (hfield : (p.getHeaderValue (lit "cookie")).2 = cookieText pairs) (name : Bytes) :
    CookieFound p pairs name ↔ ∀ front, (fronts [] pairs).find?
      (fun front => name <:+ front.1) = some front → front.2 = cookieValue name pairs := by
  have hexact : (getCookie p name).2 = cookieValue name pairs ↔ ∀ front, (fronts [] pairs).find?
      (fun front => name <:+ front.1) = some front → front.2 = cookieValue name pairs := by
    rw [getCookie_fronts hpairs hfield]
    cases hfront : (fronts [] pairs).find? fun front => name <:+ front.1 with
    | none => simp [cookieValue_eq_nil hfront]
    | some front => simp
  refine ⟨fun h => hexact.mp h.value, fun h => ⟨hexact.mpr h, ?_⟩⟩
  rintro rfl
  rw [validateSession, decide_eq_true_eq, hexact.mpr h]

/-- A request with a session cookie and another cookie. -/
def cookieRequest (pairs : List (Bytes × Bytes)) : RequestParser where
  headers := OrdMap.empty.insert (lit "cookie") (cookieText pairs)

def sessionPairs : List (Bytes × Bytes) := [(lit "session_id", lit "5"), (lit "a", lit "1")]

theorem cookieFound_session : CookieFound (cookieRequest sessionPairs) sessionPairs
      (lit "session_id") ↔ ∀ front, (fronts [] sessionPairs).find?
      (fun front => lit "session_id" <:+ front.1) = some front →
      front.2 = cookieValue (lit "session_id") sessionPairs :=
  cookieFound_iff (cookieRequest sessionPairs) (by decide +kernel) (by decide +kernel)
    (lit "session_id")

/-- The name is the end of another one. -/
def otherPairs : List (Bytes × Bytes) :=
  [(lit "my_session_id", lit "7"), (lit "session_id", lit "5")]

theorem not_cookieFound :
    ¬∀ (p : RequestParser) (pairs : List (Bytes × Bytes)),
      (∀ pair ∈ pairs, PlainText pair.1 ∧ PlainText pair.2) →
      (p.getHeaderValue (lit "cookie")).2 = cookieText pairs →
      ∀ name, CookieFound p pairs name := by
  intro h
  have hplain : ∀ pair ∈ otherPairs, PlainText pair.1 ∧ PlainText pair.2 := by decide +kernel
  have hfield : ((cookieRequest otherPairs).getHeaderValue (lit "cookie")).2
      = cookieText otherPairs := by decide +kernel
  have hfound := (h (cookieRequest otherPairs) otherPairs hplain hfield (lit "session_id")).value
  rw [getCookie_plain hplain hfield (by decide +kernel)] at hfound
  exact absurd hfound (by decide)

end ResponseBuilder

end Webserv
