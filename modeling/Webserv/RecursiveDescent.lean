import Mathlib.Data.List.Basic
import Webserv.Program

/-!
# Recursive descent over a vector of tokens

A parser reads a vector of tokens through an index that it does not
compare with the size of the vector: the last token is the end mark, and
the parser has to stop in front of it. It keeps a state of its own and
throws on a token it does not expect.

A `Phrase` is what a parser should read: the words, their value, what
they do to the state, and the token they stand in front of. `Reads` says
that a parser reads exactly the phrases, that it throws on all other
input, and that it neither reads past the end mark nor runs forever. The
rules build the phrases of a parser from those of its parts.
-/

namespace RecursiveDescent

variable {τ σ ε α β : Type}

/-- Why a parser stops without a result: an exception, an index past the
tokens, or a loop whose rounds are used up. -/
inductive Stop (ε : Type) where
  | threw (e : ε)
  | pastEnd
  | running

/-- The tokens, the index of the next one and the state. -/
structure Cursor (τ σ : Type) where
  tokens : List τ
  index : Nat
  state : σ

/-- A parser with the state `σ` that throws an `ε`. -/
abbrev Parse (τ σ ε α : Type) := EStateM (Stop ε) (Cursor τ σ) α

namespace Cursor

def rest (c : Cursor τ σ) : List τ := c.tokens.drop c.index

/-- The cursor behind the next `n` tokens, with the state `u`. -/
def moved (c : Cursor τ σ) (n : Nat) (u : σ) : Cursor τ σ := ⟨c.tokens, c.index + n, u⟩

theorem moved_moved (c : Cursor τ σ) (n m : Nat) (u v : σ) :
    (c.moved n u).moved m v = c.moved (n + m) v := by
  rw [moved, moved, moved, Nat.add_assoc]

theorem rest_moved {c : Cursor τ σ} {w t : List τ} (h : c.rest = w ++ t) (u : σ) :
    (c.moved w.length u).rest = t := by
  show c.tokens.drop (c.index + w.length) = t
  rw [← List.drop_drop, show c.tokens.drop c.index = w ++ t from h, List.drop_left]

theorem getElem?_index {c : Cursor τ σ} {e : τ} {t : List τ} (h : c.rest = e :: t) :
    getElem? c.tokens c.index = some e := by
  have hget : getElem? (c.tokens.drop c.index) 0 = some e := by
    rw [show c.tokens.drop c.index = e :: t from h]
    rfl
  rwa [List.getElem?_drop] at hget

end Cursor

/-! ## Parsers -/

/-- `tokens[index]`. -/
def peek : Parse τ σ ε τ := fun c =>
  match getElem? c.tokens c.index with
  | some t => .ok t c
  | none => .error .pastEnd c

/-- `tokens[index++]`, if it satisfies `p`. -/
def consumeIf (p : τ → Bool) (unexpected : τ → ε) : Parse τ σ ε τ := do
  let t ← peek
  if p t then
    modify fun c => c.moved 1 c.state
    pure t
  else
    throw (.threw (unexpected t))

def getState : Parse τ σ ε σ := fun c => .ok c.state c

def modifyState (f : σ → σ) : Parse τ σ ε Unit := fun c => .ok () (c.moved 0 (f c.state))

/-- `while (p(tokens[index])) body`, at most `fuel` rounds. -/
def whileNext (p : τ → Bool) (body : α → Parse τ σ ε α) : Nat → α → Parse τ σ ε α
  | 0, _ => throw .running
  | n + 1, a => do
      let t ← peek
      if p t then
        let a ← body a
        whileNext p body n a
      else
        pure a

/-! ## Phrases -/

/-- `L u w a v e`: in the state `u`, the words `w` in front of the token
`e` have the value `a` and leave the state `v`. -/
abbrev Phrase (τ σ α : Type) := σ → List τ → α → σ → τ → Prop

/-- The phrases of syntax trees: their tokens, their values, what they do
to the state, and what may follow them. -/
def Phrase.ofTree {δ : Type} (tokens : δ → List τ) (value : δ → α) (effect : δ → σ → σ)
    (follow : δ → τ → Prop) : Phrase τ σ α := fun u w a v e =>
  ∃ d, w = tokens d ∧ a = value d ∧ v = effect d u ∧ follow d e

/-- The first token of `w` or, if there is none, the one behind it. -/
theorem append_cons (w : List τ) (e : τ) (t : List τ) :
    ∃ r, w ++ e :: t = w.headD e :: r := by
  cases w with
  | nil => exact ⟨t, rfl⟩
  | cons d w => exact ⟨w ++ e :: t, rfl⟩

/-! ## What a parser reads -/

/-- What the parser may rely on: `final` is the end mark, `valid` are the
tokens the lexer makes, and loops have `fuel` rounds. -/
structure Setting (τ : Type) where
  final : τ → Prop
  valid : τ → Prop
  fuel : Nat

variable {S : Setting τ}

/-- The tokens that are left are valid, the last one is the end mark, and
loops have a round for each. -/
structure Ready (S : Setting τ) (c : Cursor τ σ) : Prop where
  valid : ∀ t ∈ c.rest, S.valid t
  ends : ∃ ts e, c.rest = ts ++ [e] ∧ S.final e
  fuel : c.rest.length ≤ S.fuel

theorem Ready.cons {c : Cursor τ σ} (h : Ready S c) : ∃ e t, c.rest = e :: t := by
  obtain ⟨ts, e, heq, -⟩ := h.ends
  cases ts with
  | nil => exact ⟨e, [], heq⟩
  | cons e' ts => exact ⟨e', ts ++ [e], heq⟩

/-- Behind a token that is not the end mark there is one more. -/
theorem Ready.behind {c : Cursor τ σ} {e : τ} {t : List τ} (h : Ready S c)
    (hrest : c.rest = e :: t) (he : ¬S.final e) : ∃ e' t', t = e' :: t' := by
  obtain ⟨ts, f, hend, hf⟩ := h.ends
  cases t with
  | nil =>
      have hlast : [e].getLast? = some f := by
        rw [← hrest, hend, List.getLast?_concat]
      obtain rfl := Option.some.inj hlast
      exact absurd hf he
  | cons e' t' => exact ⟨e', t', rfl⟩

theorem Ready.moved {c : Cursor τ σ} {w t : List τ} {e : τ} (h : Ready S c)
    (hrest : c.rest = w ++ e :: t) (u : σ) : Ready S (c.moved w.length u) := by
  have hmoved := Cursor.rest_moved hrest u
  refine ⟨fun d hd => ?_, ?_, ?_⟩
  · rw [hmoved] at hd
    exact h.valid d (hrest ▸ List.mem_append_right w hd)
  · obtain ⟨ts, f, hend, hf⟩ := h.ends
    rw [hmoved]
    have hlast : (w ++ e :: t).getLast? = some f := by
      rw [← hrest, hend, List.getLast?_concat]
    rw [List.getLast?_append_cons] at hlast
    exact ⟨(e :: t).dropLast, f, (List.dropLast_append_getLast? f hlast).symm, hf⟩
  · have hlen := h.fuel
    rw [hrest, List.length_append] at hlen
    rw [hmoved]
    omega

/-- The parser reads the phrases of `L`, and throws on all other input. -/
structure Reads (S : Setting τ) (x : Parse τ σ ε α) (L : Phrase τ σ α) : Prop where
  ok_iff : ∀ {c c' : Cursor τ σ} {a : α}, Ready S c → (x c = .ok a c' ↔
    ∃ w v e t, c.rest = w ++ e :: t ∧ L c.state w a v e ∧ c' = c.moved w.length v)
  throws : ∀ {c c' : Cursor τ σ} {s : Stop ε}, Ready S c → x c = .error s c' → ∃ e, s = .threw e

namespace Reads

variable {x : Parse τ σ ε α} {f : α → Parse τ σ ε β} {L L' : Phrase τ σ α}

/-- Words of the lexer are all that phrases have to agree on. -/
theorem congr (h : Reads S x L)
    (hL : ∀ u w a v e, (∀ t ∈ w, S.valid t) → (L u w a v e ↔ L' u w a v e)) : Reads S x L' where
  ok_iff hc := by
    rw [h.ok_iff hc]
    refine exists_congr fun w => exists_congr fun v => exists_congr fun e => exists_congr fun t =>
      and_congr_right fun hrest => and_congr_left' (hL _ _ _ _ _ fun d hd => ?_)
    exact hc.valid d (hrest ▸ List.mem_append_left _ hd)
  throws := h.throws

/-- A parser that moves by no token. -/
theorem unmoved {a : α} {g : σ → σ} (hx : ∀ c, x c = .ok a (c.moved 0 (g c.state))) :
    Reads S x (.ofTree (fun _ : Unit => []) (fun _ => a) (fun _ => g) fun _ _ => True) where
  ok_iff hc := by
    obtain ⟨e, t, hrest⟩ := hc.cons
    rw [hx]
    constructor
    · rintro ⟨⟩
      exact ⟨[], _, e, t, hrest, ⟨(), rfl, rfl, rfl, trivial⟩, rfl⟩
    · rintro ⟨w, v, e', t', -, ⟨-, rfl, rfl, rfl, -⟩, rfl⟩
      rfl
  throws _ herr := by
    rw [hx] at herr
    cases herr

theorem pure (a : α) : Reads S (Pure.pure a : Parse τ σ ε α)
    (.ofTree (fun _ : Unit => []) (fun _ => a) (fun _ u => u) fun _ _ => True) :=
  unmoved fun _ => rfl

theorem modifyState (g : σ → σ) : Reads S (modifyState g : Parse τ σ ε Unit)
    (.ofTree (fun _ : Unit => []) (fun _ => ()) (fun _ => g) fun _ _ => True) :=
  unmoved fun _ => rfl

theorem throw (e : ε) : Reads S (MonadExcept.throw (Stop.threw e) : Parse τ σ ε α)
    (fun _ _ _ _ _ => False) where
  ok_iff _ := by
    refine iff_of_false (fun h => by cases h) ?_
    rintro ⟨w, v, e', t, -, h, -⟩
    exact h
  throws _ herr := by
    cases herr
    exact ⟨e, rfl⟩

theorem getState_bind {f : σ → Parse τ σ ε α} {L : σ → Phrase τ σ α}
    (h : ∀ u, Reads S (f u) (L u)) :
    Reads S (getState >>= f) (fun u w a v e => L u u w a v e) where
  ok_iff {c _ _} hc := (h c.state).ok_iff hc
  throws {c _ _} hc herr := (h c.state).throws hc herr

/-! ## Tokens -/

theorem peek_bind {c : Cursor τ σ} {f : τ → Parse τ σ ε α} {e : τ} {t : List τ}
    (h : c.rest = e :: t) : (peek >>= f) c = f e c := by
  show EStateM.bind peek f c = f e c
  simp only [EStateM.bind, peek, Cursor.getElem?_index h]

theorem consumeIf {p : τ → Bool} (hp : ∀ t, p t = true → ¬S.final t) (unexpected : τ → ε) :
    Reads S (consumeIf p unexpected : Parse τ σ ε τ)
      (.ofTree (fun t : { t // p t = true } => [t.val]) Subtype.val (fun _ u => u)
        fun _ _ => True) where
  ok_iff {c c' a} hc := by
    obtain ⟨e, t, hrest⟩ := hc.cons
    have hrun : RecursiveDescent.consumeIf p unexpected c
        = (if p e then .ok e (c.moved 1 c.state) else .error (.threw (unexpected e)) c) := by
      refine (peek_bind hrest).trans ?_
      cases p e <;> rfl
    rw [hrun]
    cases hpe : p e with
    | false =>
        refine iff_of_false (fun h => by cases h) ?_
        rintro ⟨w, v, e', t', hrest', ⟨⟨d, hd⟩, rfl, -⟩, -⟩
        obtain ⟨rfl, -⟩ := List.cons.inj (hrest.symm.trans hrest')
        rw [hpe] at hd
        cases hd
    | true =>
        constructor
        · intro hok
          -- the end mark is not consumed, so a token follows
          obtain ⟨e', t', rfl⟩ := hc.behind hrest (hp e hpe)
          cases hok
          exact ⟨[_], _, e', t', hrest, ⟨⟨_, hpe⟩, rfl, rfl, rfl, trivial⟩, rfl⟩
        · rintro ⟨w, v, e', t', hrest', ⟨⟨d, hd⟩, rfl, rfl, rfl, -⟩, rfl⟩
          obtain ⟨rfl, -⟩ := List.cons.inj (hrest.symm.trans hrest')
          rfl
  throws {c c' s} hc herr := by
    obtain ⟨e, t, hrest⟩ := hc.cons
    change (peek >>= _) c = _ at herr
    rw [peek_bind hrest] at herr
    cases hpe : p e with
    | false =>
        rw [hpe] at herr
        cases herr
        exact ⟨_, rfl⟩
    | true =>
        rw [hpe] at herr
        cases herr

/-- The next token selects how the parser goes on. -/
theorem dispatch {f : τ → Parse τ σ ε α} {L : τ → Phrase τ σ α} (h : ∀ t, Reads S (f t) (L t)) :
    Reads S (peek >>= f) (fun u w a v e => L (w.headD e) u w a v e) where
  ok_iff {c c' a} hc := by
    obtain ⟨e, t, hrest⟩ := hc.cons
    rw [peek_bind hrest, (h e).ok_iff hc]
    refine exists_congr fun w => exists_congr fun v => exists_congr fun e' => exists_congr fun t' =>
      and_congr_right fun hrest' => ?_
    obtain ⟨r, hr⟩ := append_cons w e' t'
    obtain ⟨rfl, -⟩ := List.cons.inj (hrest.symm.trans (hrest'.trans hr))
    rfl
  throws {c c' s} hc herr := by
    obtain ⟨e, t, hrest⟩ := hc.cons
    rw [peek_bind hrest] at herr
    exact (h e).throws hc herr

/-- The kind of the next token selects among the trees, by the kind of
their first token. -/
theorem dispatch_trees {δ κ : Type} {f : τ → Parse τ σ ε α} {tokens : δ → List τ}
    {value : δ → α} {effect : δ → σ → σ} {follow : δ → τ → Prop} (kind : τ → κ) (keyword : δ → κ)
    (hkind : ∀ d, ∃ t w, tokens d = t :: w ∧ kind t = keyword d)
    (h : ∀ t, Reads S (f t) (.ofTree (fun d : { d // keyword d = kind t } => tokens d)
      (fun d => value d) (fun d => effect d) fun d => follow d)) :
    Reads S (peek >>= f) (.ofTree tokens value effect follow) := by
  refine (dispatch h).congr fun u w a v e _ => ?_
  constructor
  · rintro ⟨d, hw, ha, hv, he⟩
    exact ⟨d, hw, ha, hv, he⟩
  · rintro ⟨d, rfl, ha, hv, he⟩
    obtain ⟨t, w, htokens, hk⟩ := hkind d
    refine ⟨⟨d, ?_⟩, rfl, ha, hv, he⟩
    rw [htokens, List.headD_cons, hk]

/-- The trees with a property are those that `d` makes. -/
theorem reindex {δ ι : Type} {P : δ → Prop} {d : ι → δ} (tokens : δ → List τ) (value : δ → α)
    (effect : δ → σ → σ) (follow : δ → τ → Prop)
    (h : Reads S x (.ofTree (fun i => tokens (d i)) (fun i => value (d i)) (fun i => effect (d i))
      fun i => follow (d i)))
    (hmade : ∀ a, P a ↔ ∃ i, a = d i) :
    Reads S x (.ofTree (fun a : { a // P a } => tokens a) (fun a => value a) (fun a => effect a)
      fun a => follow a) := by
  refine h.congr fun u w a v e _ => ?_
  constructor
  · rintro ⟨i, hi⟩
    exact ⟨⟨d i, (hmade _).mpr ⟨i, rfl⟩⟩, hi⟩
  · rintro ⟨⟨b, hb⟩, h⟩
    obtain ⟨i, rfl⟩ := (hmade b).mp hb
    exact ⟨i, h⟩

/-! ## Sequences and loops -/

/-- A tree, and what the rest of the program reads for its value. -/
theorem bind {δ : Type} {tokens : δ → List τ} {value : δ → α} {effect : δ → σ → σ}
    {follow : δ → τ → Prop} {M : δ → Phrase τ σ β}
    (hx : Reads S x (.ofTree tokens value effect follow))
    (hf : ∀ d, Reads S (f (value d)) (M d)) :
    Reads S (x >>= f) (fun u w b v e =>
      ∃ d w', w = tokens d ++ w' ∧ follow d (w'.headD e) ∧ M d (effect d u) w' b v e) where
  ok_iff {c c' b} hc := by
    rw [Program.bind_eq_ok]
    constructor
    · rintro ⟨a, c₁, hrun, hrun'⟩
      obtain ⟨w, v, e, t, hrest, ⟨d, rfl, rfl, rfl, he⟩, rfl⟩ := (hx.ok_iff hc).mp hrun
      obtain ⟨w', v', e', t', hrest', hM, rfl⟩ := ((hf d).ok_iff (hc.moved hrest _)).mp hrun'
      rw [Cursor.rest_moved hrest] at hrest'
      obtain ⟨r, hr⟩ := append_cons w' e' t'
      obtain ⟨rfl, -⟩ := List.cons.inj (hrest'.trans hr)
      refine ⟨tokens d ++ w', v', e', t', ?_, ⟨d, w', rfl, he, hM⟩, ?_⟩
      · rw [hrest, hrest', List.append_assoc]
      · rw [Cursor.moved_moved, List.length_append]
    · rintro ⟨w, v, e, t, hrest, ⟨d, w', rfl, he, hM⟩, rfl⟩
      obtain ⟨r, hr⟩ := append_cons w' e t
      have hrest₁ : c.rest = tokens d ++ w'.headD e :: r := by
        rw [hrest, List.append_assoc, hr]
      refine ⟨value d, c.moved (tokens d).length (effect d c.state),
        (hx.ok_iff hc).mpr ⟨_, _, _, r, hrest₁, ⟨d, rfl, rfl, rfl, he⟩, rfl⟩, ?_⟩
      refine ((hf d).ok_iff (hc.moved hrest₁ _)).mpr ⟨w', v, e, t, ?_, hM, ?_⟩
      · rw [Cursor.rest_moved hrest₁, hr]
      · rw [Cursor.moved_moved, List.length_append]
  throws {c c' s} hc herr := by
    rcases Program.error_of_bind herr with herr | ⟨a, c₁, hrun, herr⟩
    · exact hx.throws hc herr
    · obtain ⟨w, v, e, t, hrest, ⟨d, rfl, rfl, rfl, -⟩, rfl⟩ := (hx.ok_iff hc).mp hrun
      exact (hf d).throws (hc.moved hrest _) herr

/-- A tree, and what the rest of the program reads, whatever the value. -/
theorem seq {δ : Type} {tokens : δ → List τ} {value : δ → α} {effect : δ → σ → σ}
    {follow : δ → τ → Prop} {y : Parse τ σ ε β} {M : Phrase τ σ β}
    (hx : Reads S x (.ofTree tokens value effect follow)) (hy : Reads S y M) :
    Reads S (x >>= fun _ => y) (fun u w b v e =>
      ∃ d w', w = tokens d ++ w' ∧ follow d (w'.headD e) ∧ M (effect d u) w' b v e) :=
  hx.bind fun _ => hy

section Loop

variable {p : τ → Bool} {body : α → Parse τ σ ε α} {δ : Type} {tokens : δ → List τ}
  {value : δ → α → α} {effect : δ → σ → σ} {follow : δ → τ → Prop}

theorem whileNext_cons {c : Cursor τ σ} {e : τ} {t : List τ} (h : c.rest = e :: t) (n : Nat)
    (a : α) : RecursiveDescent.whileNext p body (n + 1) a c
      = if p e then (body a >>= RecursiveDescent.whileNext p body n) c else .ok a c := by
  refine (peek_bind h).trans ?_
  cases p e <;> rfl

/-- Every tree begins with a token that continues the loop, and it may
stand behind every tree. -/
def Heads (p : τ → Bool) (tokens : δ → List τ) (follow : δ → τ → Prop) : Prop :=
  ∀ d, ∃ t w, tokens d = t :: w ∧ p t = true ∧ ∀ d', follow d' t

variable (hbody : ∀ a, Reads S (body a) (.ofTree tokens (fun d => value d a) effect follow))
  (hstop : ∀ d e, p e = false → follow d e) (hhead : Heads p tokens follow)

include hstop hhead in
/-- What stands behind a tree: the next one, or what ends the loop. -/
theorem follow_trees (d : δ) (ds : List δ) {e : τ} (he : p e = false) :
    follow d ((ds.flatMap tokens).headD e) := by
  cases ds with
  | nil => exact hstop d e he
  | cons d' ds =>
      obtain ⟨t, w, htokens, -, hfollow⟩ := hhead d'
      rw [List.flatMap_cons, htokens]
      exact hfollow d

include hbody hstop hhead in
theorem whileNext_ok {n : Nat} : ∀ {c c' : Cursor τ σ} {a b : α}, Ready S c →
    c.rest.length ≤ n → (RecursiveDescent.whileNext p body n a c = .ok b c' ↔
      ∃ w v e t, c.rest = w ++ e :: t ∧ Phrase.ofTree (fun ds : List δ => ds.flatMap tokens)
        (fun ds => ds.foldl (fun a d => value d a) a)
        (fun ds u => ds.foldl (fun u d => effect d u) u) (fun _ e => p e = false) c.state w b v e
          ∧ c' = c.moved w.length v) := by
  induction n with
  | zero =>
      intro c c' a b hc hlen
      obtain ⟨e, t, hrest⟩ := hc.cons
      rw [hrest] at hlen
      exact absurd hlen (Nat.not_succ_le_zero _)
  | succ n ih =>
      intro c c' a b hc hlen
      obtain ⟨e, t, hrest⟩ := hc.cons
      rw [whileNext_cons hrest]
      cases hpe : p e with
      | false =>
          constructor
          · rintro ⟨⟩
            exact ⟨[], _, e, t, hrest, ⟨[], rfl, rfl, rfl, hpe⟩, rfl⟩
          · rintro ⟨w, v, e', t', hrest', ⟨ds, rfl, rfl, rfl, -⟩, rfl⟩
            cases ds with
            | nil => rfl
            | cons d ds =>
                obtain ⟨h, w, htokens, hp, -⟩ := hhead d
                have hcons : (d :: ds).flatMap tokens = h :: (w ++ ds.flatMap tokens) := by
                  rw [List.flatMap_cons, htokens, List.cons_append]
                have hrest' := hrest'.trans (congrArg (· ++ e' :: t') hcons)
                obtain ⟨rfl, -⟩ := List.cons.inj (hrest.symm.trans hrest')
                rw [hpe] at hp
                cases hp
      | true =>
          rw [if_pos rfl, Program.bind_eq_ok]
          constructor
          · rintro ⟨a', c₁, hrun, hrun'⟩
            obtain ⟨w, v, e₁, t₁, hrest₁, ⟨d, rfl, rfl, rfl, -⟩, rfl⟩ :=
              ((hbody a).ok_iff hc).mp hrun
            have hmoved := Cursor.rest_moved hrest₁ (effect d c.state)
            obtain ⟨h, w, htokens, -⟩ := hhead d
            have hlen₁ : (e₁ :: t₁).length ≤ n := by
              rw [hrest₁, List.length_append, htokens, List.length_cons] at hlen
              omega
            obtain ⟨w₂, v₂, e₂, t₂, hrest₂, ⟨ds, rfl, rfl, rfl, he₂⟩, rfl⟩ :=
              (ih (hc.moved hrest₁ _) (hmoved ▸ hlen₁)).mp hrun'
            rw [hmoved] at hrest₂
            refine ⟨_, _, e₂, t₂, ?_, ⟨d :: ds, rfl, rfl, rfl, he₂⟩, ?_⟩
            · rw [hrest₁, hrest₂, ← List.append_assoc]
              rfl
            · rw [Cursor.moved_moved, ← List.length_append]
              rfl
          · rintro ⟨w, v, e₁, t₁, hrest₁, ⟨ds, rfl, rfl, rfl, he₁⟩, rfl⟩
            cases ds with
            | nil =>
                obtain ⟨rfl, -⟩ := List.cons.inj (hrest.symm.trans hrest₁)
                rw [hpe] at he₁
                cases he₁
            | cons d ds =>
                obtain ⟨r, hr⟩ := append_cons (ds.flatMap tokens) e₁ t₁
                have hrest₂ : c.rest = tokens d ++ (ds.flatMap tokens).headD e₁ :: r := by
                  rw [hrest₁, ← hr, ← List.append_assoc]
                  rfl
                have hmoved := Cursor.rest_moved hrest₂ (effect d c.state)
                obtain ⟨h, w, htokens, -⟩ := hhead d
                have hlen₂ : ((ds.flatMap tokens).headD e₁ :: r).length ≤ n := by
                  rw [hrest₂, List.length_append, htokens, List.length_cons] at hlen
                  omega
                have hfollow := follow_trees hstop hhead d ds he₁
                refine ⟨value d a, _, ((hbody a).ok_iff hc).mpr
                  ⟨_, _, _, r, hrest₂, ⟨d, rfl, rfl, rfl, hfollow⟩, rfl⟩, ?_⟩
                refine (ih (hc.moved hrest₂ _) (hmoved ▸ hlen₂)).mpr
                  ⟨_, _, e₁, t₁, ?_, ⟨ds, rfl, rfl, rfl, he₁⟩, ?_⟩
                · rw [hmoved, hr]
                · rw [Cursor.moved_moved, ← List.length_append]
                  rfl

include hbody hhead in
theorem whileNext_throws {n : Nat} : ∀ {c c' : Cursor τ σ} {a : α} {s : Stop ε}, Ready S c →
    c.rest.length ≤ n → RecursiveDescent.whileNext p body n a c = .error s c' →
      ∃ e, s = .threw e := by
  induction n with
  | zero =>
      intro c c' a s hc hlen
      obtain ⟨e, t, hrest⟩ := hc.cons
      rw [hrest] at hlen
      exact absurd hlen (Nat.not_succ_le_zero _)
  | succ n ih =>
      intro c c' a s hc hlen herr
      obtain ⟨e, t, hrest⟩ := hc.cons
      rw [whileNext_cons hrest] at herr
      split at herr
      · rcases Program.error_of_bind herr with herr | ⟨a', c₁, hrun, herr⟩
        · exact (hbody a).throws hc herr
        · obtain ⟨w, v, e₁, t₁, hrest₁, ⟨d, rfl, rfl, rfl, -⟩, rfl⟩ :=
            ((hbody a).ok_iff hc).mp hrun
          obtain ⟨h, w, htokens, -⟩ := hhead d
          refine ih (hc.moved hrest₁ _) ?_ herr
          rw [Cursor.rest_moved hrest₁]
          rw [hrest₁, List.length_append, htokens, List.length_cons] at hlen
          omega
      · cases herr

include hbody hstop hhead in
/-- A loop whose rounds read a tree each reads a list of trees. -/
theorem whileNext (a : α) : Reads S (RecursiveDescent.whileNext p body S.fuel a)
    (.ofTree (fun ds : List δ => ds.flatMap tokens)
      (fun ds => ds.foldl (fun a d => value d a) a)
      (fun ds u => ds.foldl (fun u d => effect d u) u) fun _ e => p e = false) where
  ok_iff hc := whileNext_ok hbody hstop hhead hc hc.fuel
  throws hc herr := whileNext_throws hbody hhead hc hc.fuel herr

/-- A loop whose rounds keep the state. -/
theorem whileNext_value
    (hbody : ∀ a, Reads S (body a) (.ofTree tokens (fun d => value d a) (fun _ u => u) follow))
    (hstop : ∀ d e, p e = false → follow d e) (hhead : Heads p tokens follow) (a : α) :
    Reads S (RecursiveDescent.whileNext p body S.fuel a)
      (.ofTree (fun ds : List δ => ds.flatMap tokens)
        (fun ds => ds.foldl (fun a d => value d a) a) (fun _ u => u) fun _ e => p e = false) := by
  have hkeep (ds : List δ) (u : σ) : ds.foldl (fun u _ => u) u = u := by
    induction ds with
    | nil => rfl
    | cons d ds ih => exact ih
  refine (whileNext hbody hstop hhead a).congr fun u w b v e _ => exists_congr fun ds => ?_
  show _ ∧ _ ∧ v = ds.foldl (fun u _ => u) u ∧ _ ↔ _
  rw [hkeep]

end Loop

end Reads

end RecursiveDescent
