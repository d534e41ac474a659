import Webserv.ConfigGrammar

/-!
# What the configuration parser accepts

One lemma for each function of `Parser` says which syntax trees it reads
and what they do to the servers. From the rules for recursive descent it
follows that `parseConfig` accepts the tokens of a list of blocks and
throws on everything else, and that `loadConfig` keeps the servers it had
if it does not return the new ones.
-/

namespace Webserv

open Bytes RecursiveDescent

namespace Parser

/-- The tokens are those of `tokenize`. -/
def setting (fuel : Nat) : Setting Token where
  final t := t.type = .end
  valid t := t = endToken ∨ t.OfWord
  fuel := fuel

section Tokens

variable {fuel : Nat} {α : Type} {x : Parser α} {k : TokenType}

/-- A type whose word is always the same. -/
def HasMark (k : TokenType) : Prop :=
  (k ≠ .clientMaxBodySizeMul ∧ k ≠ .number ∧ k ≠ .string) ∧ k ≠ .end

instance decidableHasMark (k : TokenType) : Decidable (HasMark k) :=
  inferInstanceAs (Decidable (_ ∧ _))

theorem ofWord_of_valid {t : Token} (h : (setting fuel).valid t) (hk : isType k t = true)
    (hne : k ≠ .end) : t.OfWord := by
  rcases h with rfl | h
  · exact absurd (of_decide_eq_true hk).symm hne
  · exact h

theorem reads_consume (hne : k ≠ .end) : Reads (setting fuel) (consume k)
    (.ofTree (fun t : { t // isType k t = true } => [t.val]) Subtype.val (fun _ u => u)
      fun _ _ => True) := by
  refine Reads.consumeIf (fun t ht hend => hne ?_) unexpectedToken
  exact (of_decide_eq_true ht).symm.trans hend

theorem reads_word (hne : k ≠ .end) : Reads (setting fuel) (consume k)
    (.ofTree (fun d : Word k => [d.token]) Word.token (fun _ u => u) fun _ _ => True) := by
  refine (reads_consume hne).congr fun u w t v e hw => ?_
  constructor
  · rintro ⟨⟨t, ht⟩, rfl, rfl, rfl, -⟩
    have hword := ofWord_of_valid (hw t List.mem_cons_self) ht hne
    obtain rfl := of_decide_eq_true ht
    exact ⟨⟨t.value, hword⟩, rfl, rfl, rfl, trivial⟩
  · rintro ⟨d, rfl, rfl, rfl, -⟩
    exact ⟨⟨d.token, decide_eq_true rfl⟩, rfl, rfl, rfl, trivial⟩

theorem reads_mark (hk : HasMark k) : Reads (setting fuel) (consume k)
    (.ofTree (fun _ : Unit => [mark k]) (fun _ => mark k) (fun _ u => u) fun _ _ => True) := by
  refine (reads_consume hk.2).congr fun u w t v e hw => ?_
  constructor
  · rintro ⟨⟨t, ht⟩, rfl, rfl, rfl, -⟩
    have hword := ofWord_of_valid (hw t List.mem_cons_self) ht hk.2
    obtain rfl := of_decide_eq_true ht
    have ht := hword.keyword hk.1
    exact ⟨(), by rw [mark, ← ht], ht, rfl, trivial⟩
  · rintro ⟨-, rfl, rfl, rfl, -⟩
    exact ⟨⟨mark k, decide_eq_true rfl⟩, rfl, rfl, rfl, trivial⟩

/-- A mark, and then what `x` reads. -/
theorem mark_bind {L : Phrase Token Built α} (hk : HasMark k) (h : Reads (setting fuel) x L) :
    Reads (setting fuel) (consume k >>= fun _ => x)
      (fun u w a v e => ∃ w', w = mark k :: w' ∧ L u w' a v e) := by
  refine ((reads_mark hk).bind fun _ => h).congr fun u w a v e _ => ?_
  constructor
  · rintro ⟨-, w', hw, -, h⟩
    exact ⟨w', hw, h⟩
  · rintro ⟨w', hw, h⟩
    exact ⟨(), w', hw, trivial, h⟩

/-- A word, and then what `g` reads. -/
theorem word_bind {g : Token → Parser α} {L : Word k → Phrase Token Built α} (hne : k ≠ .end)
    (h : ∀ d : Word k, Reads (setting fuel) (g d.token) (L d)) :
    Reads (setting fuel) (consume k >>= g)
      (fun u w a v e => ∃ (d : Word k) (w' : List Token), w = d.token :: w' ∧ L d u w' a v e) := by
  refine ((reads_word hne).bind h).congr fun u w a v e _ => ?_
  constructor
  · rintro ⟨d, w', hw, -, h⟩
    exact ⟨d, w', hw, h⟩
  · rintro ⟨d, w', hw, h⟩
    exact ⟨d, w', hw, trivial, h⟩

/-- The last mark. -/
theorem mark_pure {a : α} (hk : HasMark k) :
    Reads (setting fuel) (consume k >>= fun _ => pure a)
      (.ofTree (fun _ : Unit => [mark k]) (fun _ => a) (fun _ u => u) fun _ _ => True) := by
  refine (mark_bind hk (Reads.pure a)).congr fun u w b v e _ => ?_
  constructor
  · rintro ⟨w', rfl, -, rfl, rfl, rfl, -⟩
    exact ⟨(), rfl, rfl, rfl, trivial⟩
  · rintro ⟨-, rfl, rfl, rfl, -⟩
    exact ⟨[], rfl, (), rfl, rfl, rfl, trivial⟩

/-- A loop over the words of a type. -/
theorem reads_words {g : α → Token → α} (hne : k ≠ .end) (a : α) :
    Reads (setting fuel)
      (whileNext (isType k) (fun a => do
        let t ← consume k
        pure (g a t)) fuel a)
      (.ofTree (fun ds : List (Word k) => ds.map Word.token)
        (fun ds => ds.foldl (fun a d => g a d.token) a) (fun _ u => u)
        fun _ t => isType k t = false) := by
  have hbody : ∀ a, Reads (setting fuel) (do
      let t ← consume k
      pure (g a t))
      (.ofTree (fun d : Word k => [d.token]) (fun d => g a d.token) (fun _ u => u)
        fun _ _ => True) := by
    intro a
    refine (word_bind hne fun d => Reads.pure (g a d.token)).congr fun u w b v e _ => ?_
    constructor
    · rintro ⟨d, w', rfl, -, rfl, rfl, rfl, -⟩
      exact ⟨d, rfl, rfl, rfl, trivial⟩
    · rintro ⟨d, rfl, rfl, rfl, -⟩
      exact ⟨d, [], rfl, (), rfl, rfl, rfl, trivial⟩
  have hmap (ds : List (Word k)) : ds.flatMap (fun d => [d.token]) = ds.map Word.token := by
    rw [List.map_eq_flatMap]
  refine (Reads.whileNext_value hbody (fun _ _ _ => trivial)
    (fun d => ⟨d.token, [], rfl, decide_eq_true rfl, fun _ => trivial⟩) a).congr
      fun u w b v e _ => exists_congr fun ds => ?_
  show w = ds.flatMap (fun d => [d.token]) ∧ _ ↔ _
  rw [hmap]

/-- A loop over words, and then what `g` reads. -/
theorem words_bind {β : Type} {g : α → Token → α} {f : α → Parser β}
    {L : List (Word k) → Phrase Token Built β} (hne : k ≠ .end) (a : α)
    (h : ∀ ds : List (Word k),
      Reads (setting fuel) (f (ds.foldl (fun a d => g a d.token) a)) (L ds)) :
    Reads (setting fuel)
      (whileNext (isType k) (fun a => do
        let t ← consume k
        pure (g a t)) fuel a >>= f)
      (fun u w b v e => ∃ (ds : List (Word k)) (w' : List Token),
        w = ds.map Word.token ++ w' ∧ isType k (w'.headD e) = false ∧ L ds u w' b v e) :=
  (reads_words hne a).bind h

theorem reads_throwing (r : Except Bytes α) : Reads (setting fuel) (throwing r)
    (.ofTree (fun _ : { a // r = .ok a } => []) Subtype.val (fun _ u => u) fun _ _ => True) := by
  cases r with
  | ok a =>
      refine (Reads.pure a).congr fun u w b v e _ => ?_
      constructor
      · rintro ⟨-, rfl, rfl, rfl, -⟩
        exact ⟨⟨_, rfl⟩, rfl, rfl, rfl, trivial⟩
      · rintro ⟨⟨b, hb⟩, rfl, rfl, rfl, -⟩
        exact ⟨(), rfl, (Except.ok.inj hb).symm, rfl, trivial⟩
  | error what =>
      refine (Reads.throw what).congr fun u w b v e _ => iff_of_false id ?_
      rintro ⟨⟨b, hb⟩, -⟩
      cases hb

end Tokens

section Locations

variable {fuel : Nat}

/-- The parser reads one of the directives `d` and applies it. -/
def ReadsDirective {ι : Type} (fuel : Nat) (x : Parser Location) (d : ι → LocationDirective)
    (l : Location) : Prop :=
  Reads (setting fuel) x
    (.ofTree (fun i => (d i).tokens) (fun i => (d i).apply l) (fun _ u => u) fun i => (d i).Before)

/-- A keyword, a word and a semicolon. -/
theorem reads_wordDirective {k k' : TokenType} (hk : HasMark k) (hne : k' ≠ .end)
    (d : Word k' → LocationDirective) {l : Location} {g : Token → Location}
    (htokens : ∀ i, (d i).tokens = [mark k, i.token, mark .semicolon])
    (happly : ∀ i, (d i).apply l = g i.token) (hbefore : ∀ i t, (d i).Before t) :
    ReadsDirective fuel (do
      let _ ← consume k
      let t ← consume k'
      let _ ← consume .semicolon
      pure (g t)) d l := by
  refine (mark_bind hk (word_bind hne fun i => mark_pure (by decide))).congr
    fun u w b v e _ => ?_
  constructor
  · rintro ⟨_, rfl, i, _, rfl, -, rfl, rfl, rfl, -⟩
    exact ⟨i, (htokens i).symm, (happly i).symm, rfl, hbefore i e⟩
  · rintro ⟨i, rfl, rfl, rfl, -⟩
    exact ⟨_, htokens i, i, _, rfl, (), rfl, happly i, rfl, trivial⟩

theorem reads_uploadStore (l : Location) :
    ReadsDirective fuel (parseUploadStoreDirective l) .uploadStore l :=
  reads_wordDirective (by decide) (by decide) .uploadStore
    (g := fun t => { l with uploadStore := t.value }) (fun _ => rfl) (fun _ => rfl)
    fun _ _ => trivial

theorem reads_locationErrorPage (l : Location) :
    ReadsDirective fuel (do
      let _ ← consume .errorPage
      let _ ← consume .number
      let _ ← consume .string
      let _ ← consume .semicolon
      pure l) (fun i : Word .number × Word .string => .errorPage i.1 i.2) l := by
  refine (mark_bind (by decide) (word_bind (by decide) fun _ => word_bind (by decide) fun _ =>
    mark_pure (by decide))).congr fun u w b v e _ => ?_
  constructor
  · rintro ⟨_, rfl, i, _, rfl, j, _, rfl, -, rfl, rfl, rfl, -⟩
    exact ⟨(i, j), rfl, rfl, rfl, trivial⟩
  · rintro ⟨⟨i, j⟩, rfl, rfl, rfl, -⟩
    exact ⟨_, rfl, i, _, rfl, j, _, rfl, (), rfl, rfl, rfl, trivial⟩

theorem foldl_concat {δ β : Type} (f : δ → β) (ds : List δ) (values : List β) :
    ds.foldl (fun values d => values ++ [f d]) values = values ++ ds.map f := by
  induction ds generalizing values with
  | nil => rw [List.map_nil, List.append_nil]; rfl
  | cons d ds ih =>
      rw [List.foldl_cons, ih, List.map_cons, List.append_assoc, List.singleton_append]

theorem reads_allowedMethods (l : Location) :
    ReadsDirective fuel (do
      let _ ← consume .allowedMethods
      let location ← whileNext (isType .string) (fun location : Location => do
        let allowedMethod ← consume .string
        pure { location with
          allowedMethods := location.allowedMethods ++ [allowedMethod.value] })
        fuel { l with allowedMethods := [] }
      let _ ← consume .semicolon
      pure location) .allowedMethods l := by
  have hfold (ds : List (Word .string)) (methods : List Bytes) :
      ds.foldl (fun l' d => { l' with allowedMethods := l'.allowedMethods ++ [d.token.value] })
          { l with allowedMethods := methods }
        = { l with allowedMethods := methods ++ ds.map Word.value } := by
    induction ds generalizing methods with
    | nil => rw [List.map_nil, List.append_nil]; rfl
    | cons d ds ih =>
        rw [List.foldl_cons, ih, List.map_cons, List.append_assoc]
        rfl
  refine (mark_bind (by decide) (words_bind (by decide) _ fun _ => mark_pure (by decide))).congr
    fun u w b v e _ => ?_
  constructor
  · rintro ⟨_, rfl, ds, _, rfl, -, -, rfl, rfl, rfl, -⟩
    exact ⟨ds, rfl, hfold ds [], rfl, trivial⟩
  · rintro ⟨ds, rfl, rfl, rfl, -⟩
    exact ⟨_, rfl, ds, _, rfl, rfl, (), rfl, (hfold ds []).symm, rfl, trivial⟩

theorem reads_redirectStatus : Reads (setting fuel) redirectStatus
    (.ofTree (fun o : Option (Word .number) => o.toList.map Word.token)
      (fun o => (o.map fun c => atoi c.value).getD 302) (fun _ u => u)
      fun o t => o = none → isType .number t = false) := by
  have hbranch (t : Token) : Reads (setting fuel)
      (if isType .number t then do
        let code ← consume .number
        pure (atoi code.value)
      else pure 302 : Parser Int)
      (if isType .number t = true then
        fun u w a v e => ∃ (d : Word .number) (w' : List Token), w = d.token :: w'
          ∧ Phrase.ofTree (fun _ : Unit => []) (fun _ => atoi d.value) (fun _ u => u)
            (fun _ _ => True) u w' a v e
      else .ofTree (fun _ : Unit => []) (fun _ => 302) (fun _ u => u) fun _ _ => True) := by
    split
    · exact word_bind (by decide) fun d => Reads.pure (atoi d.value)
    · exact Reads.pure 302
  refine (Reads.dispatch hbranch).congr fun u w a v e _ => ?_
  constructor
  · intro h
    split at h
    · obtain ⟨d, w', rfl, -, rfl, rfl, rfl, -⟩ := h
      exact ⟨some d, rfl, rfl, rfl, fun h => by cases h⟩
    · rename_i hnum
      obtain ⟨_, rfl, ha, hv, -⟩ := h
      exact ⟨none, rfl, ha, hv, fun _ => Bool.eq_false_of_not_eq_true hnum⟩
  · rintro ⟨o, rfl, rfl, rfl, he⟩
    cases o with
    | none =>
        have hnum : ¬isType .number e = true := by simp [he rfl]
        show (if isType .number e = true then _ else _ : Phrase _ _ _) _ _ _ _ _
        rw [if_neg hnum]
        exact ⟨(), rfl, rfl, rfl, trivial⟩
    | some d =>
        have hnum : isType .number d.token = true := decide_eq_true rfl
        show (if isType .number d.token = true then _ else _ : Phrase _ _ _) _ _ _ _ _
        rw [if_pos hnum]
        exact ⟨d, [], rfl, (), rfl, rfl, rfl, trivial⟩

theorem reads_redirect (l : Location) :
    ReadsDirective fuel (parseRedirectDirective l)
      (fun i : Option (Word .number) × Word .string => .redirect i.1 i.2) l := by
  refine (mark_bind (by decide) (reads_redirectStatus.bind fun _ => word_bind (by decide) fun _ =>
    mark_pure (by decide))).congr fun u w b v e _ => ?_
  constructor
  · rintro ⟨_, rfl, o, _, rfl, -, url, _, rfl, -, rfl, rfl, rfl, -⟩
    exact ⟨(o, url), rfl, rfl, rfl, trivial⟩
  · rintro ⟨⟨o, url⟩, rfl, rfl, rfl, -⟩
    exact ⟨_, rfl, o, _, rfl, fun _ => rfl, url, _, rfl, (), rfl, rfl, rfl, trivial⟩

theorem switchValue_eq {value : Bytes} {on : Bool} :
    switchValue value = .ok on ↔ value = (switchToken on).value := by
  have hne : lit "off" ≠ lit "on" := by simp [lit]
  unfold switchValue
  split
  · rename_i hon
    subst hon
    cases on with
    | true => exact iff_of_true rfl rfl
    | false => exact iff_of_false (fun h => by cases h) fun h => hne h.symm
  · rename_i hon
    split
    · rename_i hoff
      subst hoff
      cases on with
      | true => exact iff_of_false (fun h => by cases h) hne
      | false => exact iff_of_true rfl rfl
    · rename_i hoff
      refine iff_of_false (fun h => by cases h) ?_
      cases on with
      | true => exact hon
      | false => exact hoff

theorem switchToken_ofWord (on : Bool) : (switchToken on).OfWord := by
  have hon : tokenType (lit "on") = .ok .string :=
    tokenType_string (by simp [keywords, lit]) (by simp [lit]) (by decide +kernel)
  have hoff : tokenType (lit "off") = .ok .string :=
    tokenType_string (by simp [keywords, lit]) (by simp [lit]) (by decide +kernel)
  cases on with
  | true => exact ⟨by simp [switchToken, lit], hon⟩
  | false => exact ⟨by simp [switchToken, lit], hoff⟩

theorem reads_cgiSwitch : Reads (setting fuel) cgiSwitch
    (.ofTree (fun on : Bool => [switchToken on]) id (fun _ u => u) fun _ _ => True) := by
  have hbranch (t : Token) : Reads (setting fuel)
      (if isType .string t then do
        let value ← consume .string
        throwing (switchValue value.value)
      else
        throw (.threw (lit "Syntax Error: Expected 'on' or 'off' after 'cgi'")) : Parser Bool)
      (if isType .string t = true then
        fun u w a v e => ∃ (d : Word .string) (w' : List Token), w = d.token :: w'
          ∧ Phrase.ofTree (fun _ : { on // switchValue d.value = .ok on } => []) Subtype.val
            (fun _ u => u) (fun _ _ => True) u w' a v e
      else fun _ _ _ _ _ => False) := by
    split
    · exact word_bind (by decide) fun d => reads_throwing (switchValue d.value)
    · exact Reads.throw _
  refine (Reads.dispatch hbranch).congr fun u w a v e _ => ?_
  constructor
  · intro h
    split at h
    · obtain ⟨d, w', rfl, ⟨on, hon⟩, rfl, rfl, rfl, -⟩ := h
      have htoken : d.token = switchToken a := congrArg (Token.mk .string) (switchValue_eq.mp hon)
      exact ⟨a, congrArg (fun t => [t]) htoken, rfl, rfl, trivial⟩
    · cases h
  · rintro ⟨on, rfl, rfl, rfl, -⟩
    have hstring : isType .string (switchToken a) = true := decide_eq_true rfl
    show (if isType .string (switchToken a) = true then _ else _ : Phrase _ _ _) _ _ _ _ _
    rw [if_pos hstring]
    exact ⟨⟨(switchToken a).value, switchToken_ofWord a⟩, [], rfl,
      ⟨a, switchValue_eq.mpr rfl⟩, rfl, rfl, rfl, trivial⟩

theorem reads_cgi (l : Location) :
    ReadsDirective fuel (parseCgiDirective fuel l)
      (fun i : Bool × List (Word .string) => .cgi i.1 i.2) l := by
  have hline (l : Location) : Reads (setting fuel) (do
      let _ ← consume .cgiPath
      let path ← consume .string
      let _ ← consume .semicolon
      pure { l with cgiPath := path.value })
      (.ofTree cgiPathLine (fun path => { l with cgiPath := path.value }) (fun _ u => u)
        fun _ _ => True) := by
    refine (mark_bind (by decide) (word_bind (by decide) fun _ =>
      mark_pure (by decide))).congr fun u w b v e _ => ?_
    constructor
    · rintro ⟨_, rfl, path, _, rfl, -, rfl, rfl, rfl, -⟩
      exact ⟨path, rfl, rfl, rfl, trivial⟩
    · rintro ⟨path, rfl, rfl, rfl, -⟩
      exact ⟨_, rfl, path, _, rfl, (), rfl, rfl, rfl, trivial⟩
  have hlines := fun l => Reads.whileNext_value (p := isType .cgiPath) hline
    (fun _ _ _ => trivial) (fun path => ⟨mark .cgiPath, _, rfl, by decide, fun _ => trivial⟩) l
  have hfold (on : Bool) (paths : List (Word .string)) (path : Bytes) :
      paths.foldl (fun l' p => { l' with cgiPath := p.value })
          { l with useCgi := on, cgiPath := path }
        = { l with useCgi := on, cgiPath := ((paths.map Word.value).getLast?).getD path } := by
    induction paths generalizing path with
    | nil => rfl
    | cons p paths ih =>
        rw [List.foldl_cons, ih p.value, List.map_cons, List.getLast?_cons]
        rfl
  refine (mark_bind (by decide) (reads_cgiSwitch.bind fun _ => mark_bind (by decide)
    (hlines _))).congr fun u w b v e _ => ?_
  constructor
  · rintro ⟨_, rfl, on, _, rfl, -, _, rfl, paths, rfl, rfl, rfl, he⟩
    exact ⟨(on, paths), rfl, hfold on paths _, rfl, of_decide_eq_false he⟩
  · rintro ⟨⟨on, paths⟩, rfl, rfl, rfl, he⟩
    exact ⟨_, rfl, on, _, rfl, trivial, _, rfl, paths, rfl, (hfold on paths _).symm, rfl,
      decide_eq_false he⟩

theorem reads_return (l : Location) :
    ReadsDirective fuel (parseReturnDirective fuel l)
      (fun i : Word .number × List (Word .string) => .return i.1 i.2) l := by
  have hfold (code : Int) (ds : List (Word .string)) (message : Bytes) :
      ds.foldl (fun l' d => { l' with
          returnMessage := l'.returnMessage ++ if l'.returnMessage = [] then d.token.value
            else lit " " ++ d.token.value })
          { l with hasReturn := true, returnCode := code, returnMessage := message }
        = { l with
            hasReturn := true, returnCode := code
            returnMessage := (ds.map Word.value).foldl addMessage message } := by
    induction ds generalizing message with
    | nil => rfl
    | cons d ds ih => exact ih _
  refine (mark_bind (by decide) (word_bind (by decide) fun _ =>
    words_bind (by decide) _ fun _ => mark_pure (by decide))).congr fun u w b v e _ => ?_
  constructor
  · rintro ⟨_, rfl, code, _, rfl, ds, _, rfl, -, -, rfl, rfl, rfl, -⟩
    exact ⟨(code, ds), rfl, hfold _ ds _, rfl, trivial⟩
  · rintro ⟨⟨code, ds⟩, rfl, rfl, rfl, -⟩
    exact ⟨_, rfl, code, _, rfl, ds, _, rfl, rfl, (), rfl, (hfold _ ds _).symm, rfl, trivial⟩

/-- The directives `d` are all with their keyword. -/
theorem ReadsDirective.all {ι : Type} {x : Parser Location} {d : ι → LocationDirective}
    {l : Location} {k : TokenType} (h : ReadsDirective fuel x d l)
    (hd : ∀ d', LocationDirective.keyword d' = k ↔ ∃ i, d' = d i) :
    Reads (setting fuel) x
      (.ofTree (fun d : { d // LocationDirective.keyword d = k } => d.val.tokens)
        (fun d => d.val.apply l) (fun _ u => u) fun d => d.val.Before) :=
  Reads.reindex LocationDirective.tokens (fun d => d.apply l) (fun _ u => u)
    LocationDirective.Before h hd

theorem reads_locationDirective (l : Location) :
    Reads (setting fuel) (parseLocationDirective fuel l)
      (.ofTree LocationDirective.tokens (fun d => d.apply l) (fun _ u => u)
        LocationDirective.Before) := by
  refine Reads.dispatch_trees Token.type LocationDirective.keyword (fun d => ?_)
    fun t => ?_
  · obtain ⟨w, hw⟩ := d.tokens_head
    exact ⟨_, w, hw, rfl⟩
  obtain ⟨type, value⟩ := t
  cases type with
  | root =>
      refine ReadsDirective.all (reads_wordDirective (by decide) (by decide) .root
        (g := fun t => { l with root := t.value }) (fun _ => rfl) (fun _ => rfl)
        fun _ _ => trivial) fun d => ?_
      cases d <;> simp [LocationDirective.keyword]
  | autoindex =>
      refine ReadsDirective.all (reads_wordDirective (by decide) (by decide) .autoindex
        (g := fun t => { l with autoindex := decide (t.value = lit "on") }) (fun _ => rfl)
        (fun _ => rfl) fun _ _ => trivial) fun d => ?_
      cases d <;> simp [LocationDirective.keyword]
  | index =>
      refine ReadsDirective.all (reads_wordDirective (by decide) (by decide) .index
        (g := fun t => { l with index := t.value }) (fun _ => rfl) (fun _ => rfl)
        fun _ _ => trivial) fun d => ?_
      cases d <;> simp [LocationDirective.keyword]
  | uploadStore =>
      refine (reads_uploadStore l).all fun d => ?_
      cases d <;> simp [LocationDirective.keyword]
  | errorPage =>
      refine (reads_locationErrorPage l).all fun d => ?_
      cases d <;> simp [LocationDirective.keyword]
  | allowedMethods =>
      refine (reads_allowedMethods l).all fun d => ?_
      cases d <;> simp [LocationDirective.keyword]
  | redirect =>
      refine (reads_redirect l).all fun d => ?_
      cases d <;> simp [LocationDirective.keyword]
  | cgi =>
      refine (reads_cgi l).all fun d => ?_
      cases d <;> simp [LocationDirective.keyword]
  | «return» =>
      refine (reads_return l).all fun d => ?_
      cases d <;> simp [LocationDirective.keyword]
  | _ =>
      refine (Reads.throw _).congr fun u w a v e _ => iff_of_false id ?_
      rintro ⟨⟨d, hd⟩, -⟩
      cases d <;> cases hd

end Locations

section Servers

variable (inetPton : Bytes → Int) {fuel : Nat}

/-- The parser reads one of the directives `d` and applies it to the
current server. -/
def ReadsServer {ι : Type} (fuel : Nat) (x : Parser Unit) (d : ι → Directive) : Prop :=
  Reads (setting fuel) x
    (.ofTree (fun i => (d i).tokens) (fun _ => ()) (fun i => Built.modifyCurrent (d i).apply)
      fun _ _ => True)

theorem modifyCurrent_of_none {f : ServerConfig → ServerConfig} {b : Built}
    (h : b.currentServer = none) : b.modifyCurrent f = b := by
  rw [Built.modifyCurrent, h]

/-- Code for the current server that does not throw. -/
theorem reads_ifCurrent {α : Type} {r : Except Bytes α} {a : α}
    {f : α → ServerConfig → ServerConfig} (hr : r = .ok a) :
    Reads (setting fuel) (ifCurrent do
      let a ← throwing r
      modifyCurrent (f a))
      (.ofTree (fun _ : Unit => []) (fun _ => ()) (fun _ => Built.modifyCurrent (f a))
        fun _ _ => True) := by
  subst hr
  have hmodify := Reads.modifyState (S := setting fuel) (ε := Bytes) (Built.modifyCurrent (f a))
  refine (Reads.getState_bind (L := fun b => if b.currentServer.isSome
    then .ofTree (fun _ : Unit => []) (fun _ => ()) (fun _ => Built.modifyCurrent (f a))
      fun _ _ => True
    else .ofTree (fun _ : Unit => []) (fun _ => ()) (fun _ u => u) fun _ _ => True)
    fun b => ?_).congr fun u w x v e _ => ?_
  · split
    · exact hmodify
    · exact Reads.pure ()
  · cases hu : u.currentServer with
    | none =>
        rw [if_neg (by decide)]
        refine exists_congr fun _ => and_congr_right fun _ => and_congr_right fun _ => ?_
        show v = u ∧ _ ↔ v = u.modifyCurrent (f a) ∧ _
        rw [modifyCurrent_of_none hu]
    | some i => exact Iff.rfl

/-- The port of a number. -/
theorem listenDirective_word (d : Word .number) : listenDirective inetPton d.token
    = .ok (lit "0.0.0.0", (extractUnsigned portMax d.value).value) := by
  have heof : (extractUnsigned portMax d.token.value).eof = true := by
    rw [eof_extractUnsigned]
    exact (d.ofWord.number rfl).2.1
  rw [listenDirective, if_pos heof]
  rfl

theorem reads_listen : ReadsServer fuel (parseListenDirective inetPton) .listen := by
  refine (mark_bind (by decide) (word_bind (by decide) fun d => mark_bind (by decide)
    (reads_ifCurrent (listenDirective_word inetPton d)))).congr fun u w a v e _ => ?_
  constructor
  · rintro ⟨_, rfl, d, _, rfl, _, rfl, -, rfl, rfl, rfl, -⟩
    exact ⟨d, rfl, rfl, rfl, trivial⟩
  · rintro ⟨d, rfl, rfl, rfl, -⟩
    exact ⟨_, rfl, d, _, rfl, _, rfl, (), rfl, rfl, rfl, trivial⟩

theorem parseSize_word (size : Word .number) (unit : UInt8) : parseSize size.token.value unit
    = .ok ((extractUnsigned (word - 1) size.value).value * multiplier unit % word) := by
  obtain ⟨hfail, -, hneg⟩ := size.ofWord.number rfl
  have hread : (extractUnsigned (word - 1) size.token.value).fail = false :=
    (extractUnsigned_of_int (by decide) hfail hneg).1
  rw [parseSize, hread]
  rfl

theorem reads_clientMaxBodySize : ReadsServer fuel parseClientMaxBodySizeDirective
    (fun i : Word .number × Word .clientMaxBodySizeMul => .clientMaxBodySize i.1 i.2) := by
  refine (mark_bind (by decide) (word_bind (by decide) fun size => word_bind (by decide)
    fun unit => (reads_ifCurrent (parseSize_word size _)).bind fun _ =>
      mark_pure (by decide))).congr fun u w a v e _ => ?_
  constructor
  · rintro ⟨_, rfl, size, _, rfl, unit, _, rfl, -, _, rfl, -, -, rfl, rfl, rfl, -⟩
    exact ⟨(size, unit), rfl, rfl, rfl, trivial⟩
  · rintro ⟨⟨size, unit⟩, rfl, rfl, rfl, -⟩
    exact ⟨_, rfl, size, _, rfl, unit, _, rfl, (), _, rfl, trivial, (), rfl, rfl, rfl, trivial⟩

theorem reads_serverName : ReadsServer fuel (parseServerNameDirective fuel)
    (fun i : Word .string × List (Word .string) => .serverName i.1 i.2) := by
  refine (mark_bind (by decide) (word_bind (by decide) fun _ => words_bind (by decide) _
    fun _ => mark_bind (by decide) (Reads.modifyState _))).congr fun u w a v e _ => ?_
  constructor
  · rintro ⟨_, rfl, first, _, rfl, others, _, rfl, -, _, rfl, -, rfl, rfl, rfl, -⟩
    exact ⟨(first, others), rfl, rfl, by rw [foldl_concat]; rfl, trivial⟩
  · rintro ⟨⟨first, others⟩, rfl, rfl, rfl, -⟩
    exact ⟨_, rfl, first, _, rfl, others, _, rfl, rfl, _, rfl, (), rfl, rfl,
      by rw [foldl_concat]; rfl, trivial⟩

theorem reads_errorPage : ReadsServer fuel (parseErrorPageDirective fuel)
    (fun i : List (Word .number) × Word .string => .errorPage i.1 i.2) := by
  have hcodes (codes : List (Word .number)) (file : Word .string) :
      (fun server : ServerConfig => { server with
        errorPages := (codes.foldl (fun errorCodes d => errorCodes ++ [atoi d.token.value])
          []).foldl (fun errorPages code => errorPages.insert (toShort code) file.token.value)
            server.errorPages })
        = (Directive.errorPage codes file).apply := by
    funext server
    rw [foldl_concat fun d : Word .number => atoi d.token.value, List.nil_append, List.foldl_map]
    rfl
  refine (mark_bind (by decide) (words_bind (by decide) _ (f := fun errorCodes : List Int => do
    let file ← consume .string
    let _ ← consume .semicolon
    modifyCurrent fun server => { server with
      errorPages := errorCodes.foldl (fun errorPages code =>
        errorPages.insert (toShort code) file.value) server.errorPages }) fun _ =>
    word_bind (by decide) fun _ => mark_bind (by decide) (Reads.modifyState _))).congr
      fun u w a v e _ => ?_
  constructor
  · rintro ⟨_, rfl, codes, _, rfl, -, file, _, rfl, _, rfl, -, rfl, rfl, rfl, -⟩
    exact ⟨(codes, file), rfl, rfl, by rw [hcodes], trivial⟩
  · rintro ⟨⟨codes, file⟩, rfl, rfl, rfl, -⟩
    exact ⟨_, rfl, codes, _, rfl, rfl, file, _, rfl, _, rfl, (), rfl, rfl, by rw [hcodes],
      trivial⟩

/-- What stands in a location block. -/
theorem heads_locationDirective :
    Reads.Heads (fun t => !isType .rbrace t) LocationDirective.tokens LocationDirective.Before := by
  intro d
  obtain ⟨w, hw⟩ := d.tokens_head
  refine ⟨_, w, hw, ?_, fun d' => ?_⟩
  · cases d <;> rfl
  · cases d' with
    | cgi on paths => cases d <;> exact fun h => by cases h
    | _ => trivial

theorem reads_location : ReadsServer fuel (parseLocationBlock fuel)
    (fun i : Word .string × List LocationDirective => .location i.1 i.2) := by
  have hstop : ∀ (d : LocationDirective) (t : Token), (!isType .rbrace t) = false →
      d.Before t := by
    intro d t ht
    have htype : t.type = .rbrace := by simpa [isType] using ht
    cases d with
    | cgi on paths => exact fun h => by rw [htype] at h; cases h
    | _ => trivial
  have hloop := fun l => Reads.whileNext_value (S := setting fuel) reads_locationDirective hstop
    heads_locationDirective l
  refine (mark_bind (by decide) (word_bind (by decide) fun _ => mark_bind (by decide)
    ((hloop _).bind fun _ => mark_bind (by decide) (Reads.modifyState _)))).congr
      fun u w a v e _ => ?_
  constructor
  · rintro ⟨_, rfl, path, _, rfl, _, rfl, ds, _, rfl, -, _, rfl, -, rfl, rfl, rfl, -⟩
    exact ⟨(path, ds), by simp [Directive.tokens], rfl,
      by rw [foldl_locationDirectives]; rfl, trivial⟩
  · rintro ⟨⟨path, ds⟩, rfl, rfl, rfl, -⟩
    exact ⟨_, by simp [Directive.tokens], path, _, rfl, _, rfl, ds, [mark .rbrace], rfl, rfl, _,
      rfl, (), rfl, rfl, by rw [foldl_locationDirectives]; rfl, trivial⟩

theorem ReadsServer.all {ι : Type} {x : Parser Unit} {d : ι → Directive} {k : TokenType}
    (h : ReadsServer fuel x d) (hd : ∀ d', Directive.keyword d' = k ↔ ∃ i, d' = d i) :
    Reads (setting fuel) x
      (.ofTree (fun d : { d // Directive.keyword d = k } => d.val.tokens) (fun _ => ())
        (fun d => Built.modifyCurrent d.val.apply) fun _ _ => True) :=
  Reads.reindex Directive.tokens (fun _ => ()) (fun d => Built.modifyCurrent d.apply)
    (fun _ _ => True) h hd

/-- A word that begins no directive of a server block. -/
theorem throws_directive {k : TokenType} {what : Bytes}
    (hk : ∀ d, Directive.keyword d ≠ k) :
    Reads (setting fuel) (throw (.threw what) : Parser Unit)
      (.ofTree (fun d : { d // Directive.keyword d = k } => d.val.tokens) (fun _ => ())
        (fun d => Built.modifyCurrent d.val.apply) fun _ _ => True) := by
  refine (Reads.throw what).congr fun u w a v e _ => iff_of_false id ?_
  rintro ⟨⟨d, hd⟩, -⟩
  exact hk d hd

theorem reads_directive :
    Reads (setting fuel) (parseDirecive inetPton fuel)
      (.ofTree Directive.tokens (fun _ => ()) (fun d => Built.modifyCurrent d.apply)
        fun _ _ => True) := by
  refine Reads.dispatch_trees Token.type Directive.keyword (fun d => ?_) fun t => ?_
  · obtain ⟨w, hw⟩ := d.tokens_head
    exact ⟨_, w, hw, rfl⟩
  obtain ⟨type, value⟩ := t
  cases type with
  | listen =>
      refine (reads_listen inetPton).all fun d => ?_
      cases d <;> simp [Directive.keyword]
  | serverName =>
      refine reads_serverName.all fun d => ?_
      cases d <;> simp [Directive.keyword]
  | errorPage =>
      refine reads_errorPage.all fun d => ?_
      cases d <;> simp [Directive.keyword]
  | clientMaxBodySize =>
      refine reads_clientMaxBodySize.all fun d => ?_
      cases d <;> simp [Directive.keyword]
  | location =>
      refine reads_location.all fun d => ?_
      cases d <;> simp [Directive.keyword]
  | _ => exact throws_directive fun d h => by cases d <;> cases h

/-- The directives of a block change the server of the block. -/
theorem foldl_modifyCurrent (ds : List Directive) (servers : List ServerConfig) (c : ServerConfig) :
    ds.foldl (fun b d => b.modifyCurrent d.apply)
        (⟨servers ++ [c], some servers.length⟩ : Built)
      = ⟨servers ++ [ds.foldl (fun c d => d.apply c) c], some servers.length⟩ := by
  induction ds generalizing c with
  | nil => rfl
  | cons d ds ih =>
      have hmodify : (⟨servers ++ [c], some servers.length⟩ : Built).modifyCurrent d.apply
          = ⟨servers ++ [d.apply c], some servers.length⟩ := by
        have hlast : (servers ++ [c]).modify servers.length d.apply = servers ++ [d.apply c] := by
          simp [List.modify_eq_take_drop]
        show (⟨(servers ++ [c]).modify servers.length d.apply, _⟩ : Built) = _
        rw [hlast]
      rw [List.foldl_cons, hmodify, ih]
      rfl

theorem reads_block :
    Reads (setting fuel) (parseServerBlock inetPton fuel)
      (.ofTree Block.tokens (fun _ => ())
        (fun b u => { servers := u.servers ++ [b.config], currentServer := none })
        fun _ _ => True) := by
  have hhead : Reads.Heads (fun t => !isType .rbrace t) Directive.tokens
      fun _ _ => True := by
    intro d
    obtain ⟨w, hw⟩ := d.tokens_head
    refine ⟨_, w, hw, ?_, fun _ => trivial⟩
    cases d <;> rfl
  have hloop := Reads.whileNext (S := setting fuel) (fun _ => reads_directive inetPton)
    (fun _ _ _ => trivial) hhead ()
  have hbuilt (ds : List Directive) (u : Built) :
      (fun b : Built => { b with currentServer := none })
          (ds.foldl (fun b d => Built.modifyCurrent d.apply b)
            { servers := u.servers ++ [{}], currentServer := some u.servers.length })
        = { servers := u.servers ++ [(Block.mk ds).config], currentServer := none } := by
    rw [foldl_modifyCurrent, foldl_directives]
  refine (mark_bind (by decide) (mark_bind (by decide) ((Reads.modifyState _).seq
    (hloop.seq (mark_bind (by decide) (Reads.modifyState _)))))).congr fun u w a v e _ => ?_
  constructor
  · rintro ⟨_, rfl, _, rfl, _, _, rfl, -, ds, _, rfl, -, _, rfl, -, rfl, rfl, rfl, -⟩
    exact ⟨⟨ds⟩, by simp [Block.tokens], rfl, hbuilt ds u, trivial⟩
  · rintro ⟨⟨ds⟩, rfl, rfl, rfl, -⟩
    exact ⟨_, by simp [Block.tokens], _, rfl, (), _, rfl, trivial, ds, [mark .rbrace], rfl, rfl, _,
      rfl, (), rfl, rfl, (hbuilt ds u).symm, trivial⟩

theorem reads_config :
    Reads (setting fuel) (parseConfig inetPton fuel)
      (.ofTree (fun bs : List Block => bs.flatMap Block.tokens) (fun _ => ())
        (fun bs u => bs.foldl (fun u b =>
          { servers := u.servers ++ [b.config], currentServer := none }) u)
        fun _ t => t.type = .end) := by
  have hhead : Reads.Heads (fun t => !isType .end t) Block.tokens fun _ _ => True :=
    fun b => ⟨mark .server, _, rfl, rfl, fun _ => trivial⟩
  have hloop := Reads.whileNext (S := setting fuel) (fun _ => reads_block inetPton)
    (fun _ _ _ => trivial) hhead ()
  refine hloop.congr fun u w a v e _ => exists_congr fun bs => and_congr_right fun _ => ?_
  refine and_congr_right fun _ => and_congr_right fun _ => ?_
  show (!isType .end e) = false ↔ e.type = .end
  rw [Bool.not_eq_false', isType, decide_eq_true_iff]

end Servers

/-- The end mark is the last token. -/
theorem end_unique {words w t : List Token} {e : Token} (hwords : ∀ t ∈ words, t.OfWord)
    (h : words ++ [endToken] = w ++ e :: t) (he : e.type = .end) : w = words ∧ t = [] := by
  have hnil : t = [] := by
    by_contra hne
    have hdrop : words = w ++ (e :: t).dropLast := by
      rw [← List.dropLast_append_of_ne_nil (List.cons_ne_nil e t), ← h, List.dropLast_concat]
    have hmem : e ∈ words := by
      rw [hdrop, List.dropLast_cons_of_ne_nil hne]
      exact List.mem_append_right w List.mem_cons_self
    exact (hwords e hmem).ne_end he
  subst hnil
  exact ⟨(List.append_inj_left' h rfl).symm, rfl⟩

theorem foldl_blocks (bs : List Block) (servers : List ServerConfig) :
    (bs.foldl (fun u b => { servers := u.servers ++ [b.config], currentServer := none })
      (⟨servers, none⟩ : Built)).servers = servers ++ bs.map Block.config := by
  induction bs generalizing servers with
  | nil => rw [List.map_nil, List.append_nil]; rfl
  | cons b bs ih =>
      rw [List.foldl_cons, ih, List.map_cons, List.append_assoc, List.singleton_append]

section Tokenized

variable (inetPton : Bytes → Int) {input : Bytes} {tokens : List Token} {fuel : Nat}

theorem ready_start (h : tokenize input = .ok tokens) (hfuel : tokens.length ≤ fuel) :
    RecursiveDescent.Ready (setting fuel) (start tokens) := by
  obtain ⟨words, rfl, hwords⟩ := tokenize_ofWord h
  refine ⟨fun t ht => ?_, ⟨words, endToken, rfl, rfl⟩, hfuel⟩
  rcases List.mem_append.mp ht with ht | ht
  · exact Or.inr (hwords t ht)
  · exact Or.inl (List.mem_singleton.mp ht)

theorem parse_ok_iff (h : tokenize input = .ok tokens) (hfuel : tokens.length ≤ fuel)
    (servers : List ServerConfig) : parse inetPton fuel tokens = .ok servers
      ↔ ∃ bs : List Block, tokens = bs.flatMap Block.tokens ++ [endToken]
        ∧ servers = bs.map Block.config := by
  have hready := ready_start h hfuel
  obtain ⟨words, rfl, hwords⟩ := tokenize_ofWord h
  unfold parse
  constructor
  · intro hok
    split at hok
    · rename_i c hrun
      obtain ⟨w, v, e, t, hrest, ⟨bs, rfl, -, rfl, he⟩, rfl⟩ :=
        ((reads_config inetPton).ok_iff hready).mp hrun
      obtain ⟨hw, rfl⟩ := end_unique hwords hrest he
      refine ⟨bs, by rw [← hw], ?_⟩
      rw [← Except.ok.inj hok]
      exact (foldl_blocks bs []).trans (List.nil_append _)
    · cases hok
  · rintro ⟨bs, htokens, rfl⟩
    have hrun := ((reads_config inetPton).ok_iff hready (a := ())).mpr
      ⟨_, _, endToken, [], htokens, ⟨bs, rfl, rfl, rfl, rfl⟩, rfl⟩
    rw [hrun]
    exact congrArg Except.ok ((foldl_blocks bs []).trans (List.nil_append _))

theorem parse_throws (h : tokenize input = .ok tokens) (hfuel : tokens.length ≤ fuel)
    {s : Stop Bytes} (hs : parse inetPton fuel tokens = .error s) : ∃ what, s = .threw what := by
  unfold parse at hs
  split at hs
  · cases hs
  · rename_i s' c hrun
    obtain rfl := Except.error.inj hs
    exact (reads_config inetPton).throws (ready_start h hfuel) hrun

end Tokenized

end Parser

/-- A `loadConfig` that fails keeps the servers. -/
theorem ConfigManager.loadConfig_false {inetPton : Bytes → Int} {fuel : Nat} {file : Option Bytes}
    {m m' : ConfigManager} (h : m.loadConfig inetPton fuel file = some (false, m')) :
    m'.servers = m.servers := by
  unfold ConfigManager.loadConfig at h
  split at h
  · cases h
    rfl
  · split at h
    · cases h
      rfl
    · split at h
      · cases h
      · cases h
        rfl
      · cases h

/-- `parseConfig` accepts the tokens of lists of blocks, and builds what
the blocks describe; on all other tokens it throws, and `loadConfig` keeps
the servers it had. -/
theorem parseConfig_grammar (inetPton : Bytes → Int) {input : Bytes} {tokens : List Token}
    (h : tokenize input = .ok tokens) {fuel : Nat} (hfuel : tokens.length ≤ fuel) :
    (∀ bs : List Block, tokens = bs.flatMap Block.tokens ++ [endToken] →
        Parser.parse inetPton fuel tokens = .ok (bs.map Block.config)
          ∧ ∀ m : ConfigManager, m.loadConfig inetPton fuel (some input)
            = some (true, { servers := bs.map Block.config, checkOpen := true }))
      ∧ ((∀ bs : List Block, tokens ≠ bs.flatMap Block.tokens ++ [endToken]) →
        (∃ what, Parser.parse inetPton fuel tokens = .error (.threw what))
          ∧ ∀ m : ConfigManager, m.loadConfig inetPton fuel (some input)
            = some (false, { m with checkOpen := true }))
      ∧ (∀ (b : Block) (code : Int), b.config.errorPages.get? code
        = lastOf (fun e => if e.1 = code then some e.2 else none)
            (b.directives.flatMap Directive.errorPages))
      ∧ ∀ (file : Option Bytes) (m m' : ConfigManager),
        m.loadConfig inetPton fuel file = some (false, m') → m'.servers = m.servers := by
  refine ⟨fun bs htokens => ?_, fun hnone => ?_, fun b code => get?_merged _ code,
    fun file m m' => ConfigManager.loadConfig_false⟩
  · have hok := (Parser.parse_ok_iff inetPton h hfuel _).mpr ⟨bs, htokens, rfl⟩
    refine ⟨hok, fun m => ?_⟩
    simp only [ConfigManager.loadConfig, h, hok]
  · cases hrun : Parser.parse inetPton fuel tokens with
    | ok servers =>
        obtain ⟨bs, htokens, -⟩ := (Parser.parse_ok_iff inetPton h hfuel servers).mp hrun
        exact absurd htokens (hnone bs)
    | error s =>
        obtain ⟨what, rfl⟩ := Parser.parse_throws inetPton h hfuel hrun
        refine ⟨⟨what, rfl⟩, fun m => ?_⟩
        simp only [ConfigManager.loadConfig, h, hrun]

/-- A server with a location for scripts. -/
def scriptConfig : Bytes :=
  lit "server \x7b listen 80; location /cgi \x7b root /www; cgi on; cgi_path /bin/php; "
    ++ lit "cgi_path /bin/python; autoindex off; \x7d \x7d"

/-- What `scriptConfig` says. -/
def scriptBlock : Block where
  directives :=
    [.listen ⟨lit "80", by decide, by decide +kernel⟩,
     .location ⟨lit "/cgi", by decide, by decide +kernel⟩
      [.root ⟨lit "/www", by decide, by decide +kernel⟩,
       .cgi true [⟨lit "/bin/php", by decide, by decide +kernel⟩,
         ⟨lit "/bin/python", by decide, by decide +kernel⟩],
       .autoindex ⟨lit "off", by decide, by decide +kernel⟩]]

/-- The last of the lines `cgi_path` is the one that is kept. -/
theorem parseConfig_script : ∃ server, ∃ l ∈ server.locations,
    Parser.parse (fun _ => 0) 26 (scriptBlock.tokens ++ [endToken]) = .ok [server]
      ∧ l.location = lit "/cgi" ∧ l.root = lit "/www" ∧ l.useCgi = true
      ∧ l.cgiPath = lit "/bin/python" := by
  have htokens : tokenize scriptConfig = .ok (scriptBlock.tokens ++ [endToken]) := by
    decide +kernel
  have hfuel : (scriptBlock.tokens ++ [endToken]).length ≤ 26 := by decide
  have haccepted := (parseConfig_grammar (fun _ => 0) htokens hfuel).1 [scriptBlock] rfl
  exact ⟨scriptBlock.config, _, List.mem_singleton_self _, haccepted.1, rfl, rfl, rfl, rfl⟩

end Webserv
