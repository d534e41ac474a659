import Webserv.TextPlaces

/-!
# The limit of a `client_max_body_size` directive

A directive has a number and the letter of a unit. The number is an `int`,
so the limit never wraps. `SanitizeInput` writes a letter directly behind
a digit in lower case and leaves any other as it is; `parseSize` knows the
lower case letters, and takes the number of a directive with a capital one
as the limit.
-/

namespace Webserv

open Bytes

/-! ## Sizes -/

/-- The bytes of a unit, whose letter has either case. -/
def unitBytes (unit : UInt8) : Nat :=
  if tolower unit = 107 then 1024
  else if tolower unit = 109 then 1024 * 1024
  else 1024 * 1024 * 1024

/-- What a number token says. -/
def Word.amount (size : Word .number) : Nat := (extractInt size.value).value.toNat

/-- The number and the unit of a `client_max_body_size` directive. -/
def Directive.bodySize? : Directive → Option (Word .number × Word .clientMaxBodySizeMul)
  | .clientMaxBodySize size unit => some (size, unit)
  | _ => none

/-! ## Units -/

theorem multiplier_eq {u : UInt8} (h : isSizeMultiplier u = true) :
    Parser.multiplier u = if isupper u then 1 else unitBytes u := by
  have hunits : ∀ c ∈ lit "kmg", Parser.multiplier c = unitBytes c := by decide
  have hsmall : ∀ c ∈ lit "kmg", isupper c = false ∧ isupper (c - 32) = true := by
    decide
  have hmem : tolower u ∈ lit "kmg" := List.contains_iff_mem.mp h
  have hone : ∀ c ∈ lit "kmg", Parser.multiplier (c - 32) = 1 := by decide
  cases hupper : isupper u with
  | true =>
      have hlower : tolower u = u + 32 := by rw [tolower, hupper]; rfl
      have hback : u = tolower u - 32 := by
        rw [hlower]
        simp
      rw [hback, hone _ hmem]
      rfl
  | false =>
      have hlower : tolower u = u := by rw [tolower, hupper]; rfl
      rw [hlower] at hmem
      exact hunits u hmem

theorem unitBytes_le (u : UInt8) : 1 < unitBytes u ∧ unitBytes u ≤ 1024 * 1024 * 1024 := by
  unfold unitBytes
  split
  · decide
  split
  · decide
  · decide

/-! ## Numbers -/

theorem extractInt_le (s : Bytes) : (extractInt s).value ≤ intMax := by
  unfold extractInt
  obtain ⟨neg, digits, rest⟩ := scanNumber s
  cases digits with
  | none => exact Int.natCast_nonneg _
  | some v =>
      simp only
      split
      · split
        · simp only
          omega
        · simp only
          omega
      split
      · exact Int.le_refl _
      · simp only
        omega

/-- `parseSize` reads the number of a token, which is an `int`. -/
theorem Word.amount_eq (size : Word .number) :
    (extractUnsigned (word - 1) size.value).value = size.amount ∧ size.amount ≤ intMax := by
  obtain ⟨hfail, -, hneg⟩ := size.ofWord.number rfl
  have hmax : intMax ≤ word - 1 := by decide
  have hread := (extractUnsigned_of_int hmax hfail hneg).2
  have hle : (extractInt size.value).value ≤ intMax := extractInt_le size.value
  change 0 ≤ (extractInt size.value).value at hneg
  change ((extractUnsigned (word - 1) size.value).value : Int) = (extractInt size.value).value
    at hread
  unfold Word.amount
  omega

/-- No size wraps. -/
theorem amount_mul_lt {amount : Nat} (h : amount ≤ intMax) (u : UInt8) :
    amount * unitBytes u < word := by
  have hle : amount * unitBytes u ≤ intMax * (1024 * 1024 * 1024) :=
    Nat.mul_le_mul h (unitBytes_le u).2
  exact Nat.lt_of_le_of_lt hle (by decide)

/-! ## Directives -/

theorem lastOf_map {δ α β : Type} {f : δ → Option α} {g : δ → Option β} {h : α → β}
    (hg : ∀ d, g d = (f d).map h) (items : List δ) : lastOf g items = (lastOf f items).map h := by
  induction items using List.reverseRecOn with
  | nil => rfl
  | append_singleton items d ih =>
      rw [lastOf_append_singleton, lastOf_append_singleton, hg, ih]
      cases f d <;> rfl

/-- The limit of a block with a directive. -/
theorem clientMaxBodySize_eq {b : Block} {size : Word .number} {unit : Word .clientMaxBodySizeMul}
    {u : UInt8} (hlast : lastOf Directive.bodySize? b.directives = some (size, unit))
    (hunit : unit.value = [u]) (hu : isSizeMultiplier u = true) :
    b.config.clientMaxBodySize = size.amount * if isupper u then 1 else unitBytes u := by
  have hmap (d : Directive) : d.clientMaxBodySize? = d.bodySize?.map fun i =>
      (extractUnsigned (word - 1) i.1.value).value
        * Parser.multiplier (i.2.value.headD nul) % word := by
    cases d <;> rfl
  have hlt : size.amount * (if isupper u then 1 else unitBytes u) < word := by
    split
    · have hle := size.amount_eq.2
      have hmax : intMax < word := by decide
      omega
    · exact amount_mul_lt size.amount_eq.2 u
  show (lastOf Directive.clientMaxBodySize? b.directives).getD _ = _
  rw [lastOf_map hmap, hlast, Option.map_some, Option.getD_some, size.amount_eq.1, hunit,
    List.headD_cons, multiplier_eq hu, Nat.mod_eq_of_lt hlt]

/-! ## The place of a size in a text -/

/-- Digits and the letter of a unit. There is white space in front of the
digits, and there may be some between them and the letter, which is then a
word of its own. -/
structure SizeText (gap digits blanks : Bytes) (u : UInt8) (rest : Bytes) : Prop where
  gap : ∀ c ∈ gap, isspace c = true
  nonempty : digits ≠ []
  digits : ∀ c ∈ digits, isdigit c = true
  between : ∀ c ∈ blanks, isspace c = true
  unit : isSizeMultiplier u = true
  last : blanks ≠ [] → Separated rest

def sizeText (gap digits blanks : Bytes) (u : UInt8) (rest : Bytes) : Bytes :=
  gap ++ (digits ++ (blanks ++ u :: rest))

/-- The letter of the unit in the tokens. -/
def writtenUnit (blanks : Bytes) (u : UInt8) : UInt8 := if blanks = [] then tolower u else u

section SizeText

variable {gap digits blanks rest : Bytes} {u : UInt8}

/-- What the stream holds of a size: the digits, and the letter by itself. -/
theorem SizeText.sanitizeInput (h : SizeText gap digits blanks u rest) (before : Option UInt8) :
    ∃ gap' tail, sanitizeInput before (sizeText gap digits blanks u rest)
        = gap ++ (digits ++ (gap' ++ ([writtenUnit blanks u] ++ tail)))
      ∧ gap' ≠ [] ∧ (∀ c ∈ gap', isspace c = true)
      ∧ SpaceStart tail := by
  have hspace : isspace space = true := by decide
  have hbehind := sanitizeInput_behind (not_isdigit_multiplier h.unit) rest
  rw [sizeText, sanitizeInput_plain gap _ before fun c hc => .inl (h.gap c hc),
    sanitizeInput_plain digits _ _ fun c hc => .inr (h.digits c hc),
    sanitizeInput_plain blanks _ _ fun c hc => .inl (h.between c hc), sanitizeInput_cons, hbehind]
  cases hblanks : blanks with
  | nil =>
      have hlast : digits.getLast?.or (gap.getLast?.or before)
          = some (digits.getLast h.nonempty) := by
        rw [List.getLast?_eq_getLast_of_ne_nil h.nonempty, Option.some_or]
      have hdigit := h.digits _ (List.getLast_mem h.nonempty)
      rw [hlast]
      refine ⟨[space], space :: Webserv.sanitizeInput none rest, ?_, by simp, by simpa, ?_⟩
      · rw [List.getLast?_nil, Option.none_or, piece_unit hdigit h.unit]
        rfl
      · intro c hc
        obtain rfl := Option.some.inj hc
        exact hspace
  | cons b blanks' =>
      have hne : blanks ≠ [] := by rw [hblanks]; exact List.cons_ne_nil _ _
      have hlast := h.between _ (List.getLast_mem hne)
      refine ⟨blanks, Webserv.sanitizeInput none rest, ?_, hne, h.between,
        (h.last hne).spaceStart⟩
      have hpiece : piece (some (blanks.getLast hne)) u = [u] := by
        rw [piece, if_neg (not_mark_multiplier h.unit), Option.any_some, (isspace_plain hlast).2.2,
          Bool.and_false]
        rfl
      rw [← hblanks, List.getLast?_eq_getLast_of_ne_nil hne, Option.some_or, hpiece]
      rw [writtenUnit, if_neg hne]

theorem isSizeMultiplier_writtenUnit (blanks : Bytes) (hu : isSizeMultiplier u = true) :
    isSizeMultiplier (writtenUnit blanks u) = true := by
  unfold writtenUnit
  split
  · exact isSizeMultiplier_tolower hu
  · exact hu

/-- The next two tokens are those of the size. -/
theorem SizeText.tokens (h : SizeText gap digits blanks u rest) {front : Bytes}
    {before after : List Token} {size unit : Token}
    (hread : ReadUpTo front (sizeText gap digits blanks u rest) before)
    (htokens : tokenize (front ++ sizeText gap digits blanks u rest)
      = .ok (before ++ size :: unit :: after)) :
    size.value = digits ∧ unit.value = [writtenUnit blanks u] := by
  obtain ⟨gap', tail, hstream, hne, hgap', htail⟩ := h.sanitizeInput front.getLast?
  have hexits := exits_tokenize (front ++ sizeText gap digits blanks u rest)
  rw [htokens, hread.exits, hstream] at hexits
  have hdigits : ∀ c ∈ digits, isspace c = false := fun c hc =>
    (isxdigit_not (isDigit_ten (h.digits c hc)).1).2.1
  have hunit := isSizeMultiplier_writtenUnit blanks h.unit
  have hletter : ∀ c ∈ [writtenUnit blanks u], isspace c = false :=
    List.forall_mem_singleton.mpr (isspace_multiplier hunit)
  have hgapHead : SpaceStart (gap' ++ ([writtenUnit blanks u] ++ tail)) := by
    intro c hc
    obtain ⟨d, gap'', rfl⟩ := List.exists_cons_of_ne_nil hne
    obtain rfl := Option.some.inj hc
    exact hgap' d List.mem_cons_self
  have hnumber : digits ≠ lit "#" := by
    rintro rfl
    exact absurd (h.digits hash (by decide)) (by decide)
  have hmultiplier : [writtenUnit blanks u] ≠ lit "#" := by
    intro heq
    obtain ⟨hhash, -⟩ := List.cons_eq_cons.mp heq
    rw [hhash] at hunit
    exact absurd hunit (by decide)
  obtain ⟨type, hfirst⟩ := exits_word hnumber
    (readWord_run h.gap h.nonempty hdigits hgapHead) hexits
  obtain ⟨type', hsecond⟩ := exits_word hmultiplier
    (readWord_run hgap' (List.cons_ne_nil _ []) hletter htail) hfirst
  obtain ⟨more, hmore⟩ := exits_tokenizeRound_prefix hsecond
  rw [List.append_assoc, List.append_assoc, List.append_cancel_left_eq] at hmore
  obtain ⟨hsize, hmore⟩ := List.cons_eq_cons.mp hmore
  obtain ⟨hunit, -⟩ := List.cons_eq_cons.mp hmore
  exact ⟨congrArg Token.value hsize.symm, congrArg Token.value hunit.symm⟩

theorem unitBytes_writtenUnit (blanks : Bytes) (hu : isSizeMultiplier u = true) :
    unitBytes (writtenUnit blanks u) = unitBytes u := by
  have hunits : ∀ c ∈ lit "kmg", tolower c = c := by decide
  unfold writtenUnit
  split
  · rw [unitBytes, unitBytes, hunits _ (List.contains_iff_mem.mp hu)]
  · rfl

theorem isupper_writtenUnit (hu : isSizeMultiplier u = true) :
    isupper (writtenUnit blanks u) = false ↔ blanks = [] ∨ isupper u = false := by
  have hunits : ∀ c ∈ lit "kmg", isupper c = false := by decide
  unfold writtenUnit
  split
  · rename_i hblanks
    exact ⟨fun _ => .inl hblanks, fun _ => hunits _ (List.contains_iff_mem.mp hu)⟩
  · rename_i hblanks
    exact ⟨.inr, fun h => h.resolve_left hblanks⟩

end SizeText

theorem amount_digits {size : Word .number} (hne : size.value ≠ [])
    (h : ∀ c ∈ size.value, isdigit c = true) : size.amount = number 10 size.value := by
  obtain ⟨hfail, -, -⟩ := size.ofWord.number rfl
  change (extractInt size.value).fail = false at hfail
  rw [extractInt_digits hne h] at hfail
  rw [Word.amount, extractInt_digits hne h]
  split at hfail
  · cases hfail
  · rename_i hmax
    rw [if_neg hmax]
    rfl

/-! ## The limit in a text -/

/-- The text is accepted, and the server of the block has the limit. -/
def LimitIs (inetPton : Bytes → Int) (text : Bytes) (block limit : Nat) : Prop :=
  ∃ servers config, Accepts inetPton text servers ∧ servers[block]? = some config
    ∧ config.clientMaxBodySize = limit

/-- The size with the text `sizeText` belongs to the last
`client_max_body_size` directive of a block, in a text that is a list of
blocks. -/
structure LastSize (front gap digits blanks : Bytes) (u : UInt8) (rest : Bytes)
    (block : Nat) : Prop where
  text : SizeText gap digits blanks u rest
  accepted : ∃ (bs₁ bs₂ : List Block) (ds₁ ds₂ : List Directive) (size : Word .number)
      (unit : Word .clientMaxBodySizeMul), block = bs₁.length
    ∧ ReadUpTo front (sizeText gap digits blanks u rest)
      (bs₁.flatMap Block.tokens ++ ([mark .server, mark .lbrace]
        ++ (ds₁.flatMap Directive.tokens ++ [mark .clientMaxBodySize])))
    ∧ tokenize (front ++ sizeText gap digits blanks u rest)
      = .ok ((bs₁ ++ ⟨ds₁ ++ .clientMaxBodySize size unit :: ds₂⟩ :: bs₂).flatMap Block.tokens
        ++ [endToken])
    ∧ ∀ d ∈ ds₂, Directive.bodySize? d = none

section LastSize

variable {front gap digits blanks rest : Bytes} {u : UInt8} {block : Nat}

/-- The block of a size, and the words of its last directive. -/
theorem LastSize.words (h : LastSize front gap digits blanks u rest block) :
    ∃ (bs₁ bs₂ : List Block) (b : Block) (size : Word .number) (unit : Word .clientMaxBodySizeMul),
      block = bs₁.length
      ∧ tokenize (front ++ sizeText gap digits blanks u rest)
        = .ok ((bs₁ ++ b :: bs₂).flatMap Block.tokens ++ [endToken])
      ∧ lastOf Directive.bodySize? b.directives = some (size, unit)
      ∧ size.value = digits ∧ unit.value = [writtenUnit blanks u] := by
  obtain ⟨htext, bs₁, bs₂, ds₁, ds₂, size, unit, rfl, hread, htokens, hlast⟩ := h
  have hplace : ∃ after, (bs₁ ++ ⟨ds₁ ++ .clientMaxBodySize size unit :: ds₂⟩ :: bs₂).flatMap
        Block.tokens ++ [endToken]
      = (bs₁.flatMap Block.tokens ++ ([mark .server, mark .lbrace]
        ++ (ds₁.flatMap Directive.tokens ++ [mark .clientMaxBodySize])))
        ++ size.token :: unit.token :: after := by
    simp [Block.tokens, Directive.tokens]
  obtain ⟨after, hplace⟩ := hplace
  obtain ⟨hsize, hunit⟩ := htext.tokens hread (htokens.trans (congrArg Except.ok hplace))
  exact ⟨bs₁, bs₂, _, size, unit, rfl, htokens, lastOf_behind rfl hlast, hsize, hunit⟩

/-- The number of an accepted size is an `int`. -/
theorem LastSize.number_le (h : LastSize front gap digits blanks u rest block) :
    number 10 digits ≤ intMax := by
  obtain ⟨-, -, -, size, -, -, -, -, rfl, -⟩ := h.words
  rw [← amount_digits h.text.nonempty h.text.digits]
  exact size.amount_eq.2

theorem LastSize.limitIs_iff (inetPton : Bytes → Int)
    (h : LastSize front gap digits blanks u rest block) (limit : Nat) :
    LimitIs inetPton (front ++ sizeText gap digits blanks u rest) block limit
      ↔ number 10 digits * (if isupper (writtenUnit blanks u) then 1 else unitBytes u) = limit := by
  obtain ⟨bs₁, bs₂, b, size, unit, rfl, htokens, hlast, rfl, hunit⟩ := h.words
  have hvalue : b.config.clientMaxBodySize = number 10 size.value
      * if isupper (writtenUnit blanks u) then 1 else unitBytes u := by
    rw [clientMaxBodySize_eq hlast hunit (isSizeMultiplier_writtenUnit blanks h.text.unit),
      amount_digits h.text.nonempty h.text.digits, unitBytes_writtenUnit blanks h.text.unit]
  have haccepts := accepts_blocks inetPton htokens
  have hconfig : ((bs₁ ++ b :: bs₂).map Block.config)[bs₁.length]? = some b.config := by
    simp
  rw [← hvalue]
  constructor
  · rintro ⟨servers, config, hservers, hblock, hlimit⟩
    rw [hservers.unique haccepts, hconfig] at hblock
    rw [Option.some.inj hblock]
    exact hlimit
  · intro hlimit
    exact ⟨_, b.config, haccepts, hconfig, hlimit⟩

end LastSize

/-- The limit is what the last directive of a block says, unless a capital
letter stands by itself behind the number. -/
theorem limit_written (inetPton : Bytes → Int) {front gap digits blanks rest : Bytes} {u : UInt8}
    {block : Nat} (h : LastSize front gap digits blanks u rest block) :
    (LimitIs inetPton (front ++ sizeText gap digits blanks u rest) block
        (number 10 digits * unitBytes u)
      ↔ blanks = [] ∨ isupper u = false ∨ number 10 digits = 0)
    ∧ number 10 digits * unitBytes u < word := by
  refine ⟨?_, amount_mul_lt h.number_le u⟩
  rw [h.limitIs_iff inetPton, ← or_assoc, ← isupper_writtenUnit h.text.unit]
  cases hupper : isupper (writtenUnit blanks u) with
  | false => simp
  | true =>
      have hlt := (unitBytes_le u).1
      constructor
      · intro heq
        refine .inr ?_
        by_contra hne
        have hcancel := Nat.eq_of_mul_eq_mul_left (Nat.pos_of_ne_zero hne) heq
        simp only [if_true] at hcancel
        omega
      · rintro (hlower | hzero)
        · cases hlower
        · rw [hzero, Nat.zero_mul, Nat.zero_mul]

/-! ## A block with a size -/

def sizedFront : Bytes := lit "server \x7b " ++ lit "client_max_body_size"

def ten : Word .number :=
  ⟨lit "10", by simp [lit], tokenType_digits (by decide) (by decide) (by decide)⟩

/-- The letter of a unit. -/
def unitWord (u : UInt8) (h : isSizeMultiplier u = true) : Word .clientMaxBodySizeMul :=
  ⟨[u], List.cons_ne_nil u [], tokenType_unit h⟩

theorem lastSize_ten {blanks : Bytes} (unit : Word .clientMaxBodySizeMul)
    (hblanks : ∀ c ∈ blanks, isspace c = true)
    (htokens : tokenize (sizedFront ++ sizeText [space] ten.value blanks 77 (lit "; \x7d"))
      = .ok (Block.tokens ⟨[.clientMaxBodySize ten unit]⟩ ++ [endToken])) :
    LastSize sizedFront [space] ten.value blanks 77 (lit "; \x7d") 0 where
  text := {
    gap := by decide
    nonempty := ten.ofWord.1
    digits := by decide
    between := hblanks
    unit := by decide
    last := fun _ c hc => .inr (Option.some.inj hc ▸ by decide) }
  accepted := by
    refine ⟨[], [], [], [], ten, unit, rfl, readUpTo_keyword _ (by decide) (by decide) (by decide)
      (by decide) (tokenType_keyword (by simp [keywords])), ?_, fun d hd => by cases hd⟩
    rw [htokens]
    rfl

/-- Ten mebibytes, with a capital letter directly behind the number. -/
theorem limit_written_attached : LimitIs (fun _ => 0)
    (lit "server \x7b client_max_body_size 10M; \x7d") 0 (10 * 1024 * 1024) := by
  have hsize : LastSize sizedFront [space] ten.value [] 77 (lit "; \x7d") 0 :=
    lastSize_ten (unitWord 109 (by decide)) (by decide) (by decide +kernel)
  exact (limit_written (fun _ => 0) hsize).1.mpr (.inl rfl)

/-- `10 M` is a limit of ten bytes. -/
theorem not_limit_written : ¬∀ (inetPton : Bytes → Int) (front gap digits blanks rest : Bytes)
    (u : UInt8) (block : Nat), LastSize front gap digits blanks u rest block →
    LimitIs inetPton (front ++ sizeText gap digits blanks u rest) block
      (number 10 digits * unitBytes u) := by
  intro h
  have hsize : LastSize sizedFront [space] ten.value [space] 77 (lit "; \x7d") 0 :=
    lastSize_ten (unitWord 77 (by decide)) (by decide) (by decide +kernel)
  have hlimit := (hsize.limitIs_iff (fun _ => 0) _).mp (h (fun _ => 0) _ _ _ _ _ _ _ hsize)
  exact absurd hlimit (by decide)

end Webserv
