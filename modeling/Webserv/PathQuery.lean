import Webserv.RequestUri
import Webserv.RequestLine
import Webserv.CgiHandler

/-!
# The path and the query of a target

`set_request_uri` decodes and normalises the joined string and looks for
the `?` only then. The last segment of the path and the first one of the
query are therefore walked as one segment, the dot segments of the query
remove segments of the path, and an encoded `?` of the path ends it.
`Inert` names the targets where none of this happens.
-/

universe u

namespace Bytes

variable {d : UInt8}

/-- A string that ends with a delimiter is split on its own. -/
theorem split_append : ∀ {s : Bytes} (t : Bytes), (∀ c ∈ s.getLast?, c = d) →
    split d (s ++ t) = split d s ++ split d t
  | [], _, _ => rfl
  | [c], t, h => by
      have hc : c = d := h c rfl
      simp only [List.cons_append, List.nil_append, split, if_pos hc]
  | c :: c' :: s, t, h => by
      have ih := split_append t fun e he => h e (List.getLast?_cons_cons.trans he)
      rw [List.cons_append, split, split]
      by_cases hc : c = d
      · rw [if_pos hc, if_pos hc, ih, List.cons_append]
      · rw [if_neg hc, if_neg hc, ih]
        cases hs : split d (c' :: s) with
        | nil => cases split_eq_nil hs
        | cons w ws => rfl

/-- A string up to its last delimiter, and what is behind it. -/
theorem exists_last_piece (d : UInt8) : ∀ s : Bytes, ∃ dir last, s = dir ++ last
    ∧ (∀ c ∈ dir.getLast?, c = d) ∧ d ∉ last
  | [] => ⟨[], [], rfl, (fun _ h => by cases h), List.not_mem_nil⟩
  | c :: s => by
      obtain ⟨dir, last, rfl, hdir, hlast⟩ := exists_last_piece d s
      by_cases hc : c = d
      · refine ⟨c :: dir, last, rfl, fun e he => ?_, hlast⟩
        cases dir with
        | nil => exact (Option.some.inj he).symm.trans hc
        | cons c' dir => exact hdir e (List.getLast?_cons_cons.symm.trans he)
      · cases dir with
        | nil =>
            exact ⟨[], c :: last, rfl, hdir, by simpa using ⟨Ne.symm hc, hlast⟩⟩
        | cons c' dir =>
            exact ⟨c :: c' :: dir, last, rfl,
              fun e he => hdir e (List.getLast?_cons_cons.symm.trans he), hlast⟩

/-- The first piece reaches to the first delimiter. -/
theorem split_first {c : UInt8} (hc : c ≠ d) (t : Bytes) : ∀ {s : Bytes}, d ∉ s →
    split d (s ++ c :: t) = (s ++ c :: (split d t).headD []) :: (split d t).tail
  | [], _ => by
      rw [List.nil_append, split, if_neg hc]
      cases split d t with
      | nil => rfl
      | cons w ws => rfl
  | c' :: s, h => by
      rw [List.mem_cons, not_or] at h
      have hc' : c' ≠ d := fun heq => h.1 heq.symm
      rw [List.cons_append, split, if_neg hc', split_first hc t h.2]
      rfl

theorem dropWhile_append_of_notMem {c : UInt8} {s : Bytes} (h : c ∉ s) (t : Bytes) :
    (s ++ c :: t).dropWhile (· != c) = c :: t := by
  rw [List.dropWhile_append_of_pos fun d hd => by simpa using fun heq : d = c => h (heq ▸ hd)]
  exact List.dropWhile_cons_of_neg (by simp)

end Bytes

namespace Webserv

open Bytes

namespace RequestParser

/-! ## Decoding -/

theorem percentDecode_cons {c : UInt8} (hc : c ≠ percent) (s : Bytes) :
    percentDecode (c :: s) = (percentDecode s).map (c :: ·) := by
  match s with
  | [] => rfl
  | [_] => rfl
  | h1 :: h2 :: s => rw [percentDecode, if_neg hc]

/-- A triplet is refused, or one character, whatever follows. -/
theorem percentDecode_triplet (h1 h2 : UInt8) :
    (∀ s, percentDecode (percent :: h1 :: h2 :: s) = none)
      ∨ ∃ c, ∀ s, percentDecode (percent :: h1 :: h2 :: s) = (percentDecode s).map (c :: ·) := by
  by_cases hdigits : (isxdigit h1 && isxdigit h2) = true
  · by_cases hzero : xdigitVal h1 * 16 + xdigitVal h2 = 0
    · exact Or.inl fun s => by rw [percentDecode, if_pos rfl, if_pos hdigits]; exact if_pos hzero
    · exact Or.inr ⟨_, fun s => by
        rw [percentDecode, if_pos rfl, if_pos hdigits]
        exact if_neg hzero⟩
  · exact Or.inl fun s => by rw [percentDecode, if_pos rfl, if_neg hdigits]

/-- Nothing is decoded across the `?`. -/
theorem percentDecode_question {path query decoded : Bytes} (hno : question ∉ path)
    (h : percentDecode (path ++ question :: query) = some decoded) :
    ∃ decodedPath decodedQuery, percentDecode path = some decodedPath
      ∧ percentDecode query = some decodedQuery
      ∧ decoded = decodedPath ++ question :: decodedQuery := by
  induction hn : path.length using Nat.strongRecOn generalizing path decoded with
  | ind n ih =>
  cases path with
  | nil =>
      rw [List.nil_append, percentDecode_cons (by decide), Option.map_eq_some_iff] at h
      obtain ⟨decodedQuery, hquery, rfl⟩ := h
      exact ⟨[], decodedQuery, rfl, hquery, rfl⟩
  | cons c path =>
      rw [List.mem_cons, not_or] at hno
      rw [List.length_cons] at hn
      by_cases hc : c = percent
      · subst hc
        match path, hno.2, h, hn with
        | [], _, h, _ =>
            -- The `%` stands for itself, and is refused in front of `?` and a third character.
            cases query with
            | nil => exact ⟨[percent], [], rfl, rfl, (Option.some.inj h).symm⟩
            | cons h2 query =>
                have hnone : percentDecode ([percent] ++ question :: h2 :: query) = none := by
                  simp [percentDecode, show isxdigit question = false by decide]
                cases hnone.symm.trans h
        | [h1], _, h, _ =>
            have hnone : percentDecode ([percent, h1] ++ question :: query) = none := by
              simp [percentDecode, show isxdigit question = false by decide]
            cases hnone.symm.trans h
        | h1 :: h2 :: path, hno, h, hn =>
            rcases percentDecode_triplet h1 h2 with hnone | ⟨c, hone⟩
            · cases (hnone _).symm.trans h
            · have h' := (hone _).symm.trans h
              rw [Option.map_eq_some_iff] at h'
              obtain ⟨decoded', hrest, rfl⟩ := h'
              have hno' : question ∉ path := fun hmem =>
                hno (List.mem_cons_of_mem _ (List.mem_cons_of_mem _ hmem))
              have hlt : path.length < n := by
                simp only [List.length_cons] at hn
                omega
              obtain ⟨decodedPath, decodedQuery, hpath, hquery, rfl⟩ := ih _ hlt hno' hrest rfl
              exact ⟨c :: decodedPath, decodedQuery, by rw [hone, hpath]; rfl, hquery, rfl⟩
      · rw [List.cons_append, percentDecode_cons hc, Option.map_eq_some_iff] at h
        obtain ⟨decoded', hrest, rfl⟩ := h
        obtain ⟨decodedPath, decodedQuery, hpath, hquery, rfl⟩ :=
          ih _ (by omega) hno.2 hrest rfl
        exact ⟨c :: decodedPath, decodedQuery, by rw [percentDecode_cons hc, hpath]; rfl, hquery,
          rfl⟩

/-! ## Segments -/

/-- Neither empty nor a dot segment. -/
def KeptSegment (segment : Bytes) : Prop := segment ≠ [] ∧ segment ≠ lit "." ∧ segment ≠ lit ".."

instance decidableKeptSegment : DecidablePred KeptSegment := fun segment => by
  unfold KeptSegment
  infer_instance

theorem KeptSegment.of_question {segment : Bytes} (h : question ∈ segment) :
    KeptSegment segment := by
  refine ⟨?_, ?_, ?_⟩ <;> rintro rfl
  · exact List.not_mem_nil h
  · exact absurd h (by decide)
  · exact absurd h (by decide)

theorem foldSegments_append (isAbsolute : Bool) : ∀ (parts segments rest : List Bytes),
    foldSegments isAbsolute parts (segments ++ rest)
      = (foldSegments isAbsolute parts segments).bind fun parts =>
        foldSegments isAbsolute parts rest
  | parts, [], rest => rfl
  | parts, segment :: segments, rest => by
      rw [List.cons_append, foldSegments, foldSegments]
      split
      · exact foldSegments_append isAbsolute parts segments rest
      · split
        · split
          · rfl
          · exact foldSegments_append isAbsolute parts.dropLast segments rest
        · exact foldSegments_append isAbsolute (parts ++ [segment]) segments rest

theorem foldSegments_cons_kept {isAbsolute : Bool} {segment : Bytes} (h : KeptSegment segment)
    (parts rest : List Bytes) : foldSegments isAbsolute parts (segment :: rest)
      = foldSegments isAbsolute (parts ++ [segment]) rest := by
  rw [foldSegments, if_neg (not_or.mpr ⟨h.1, h.2.1⟩), if_neg h.2.2]

theorem foldSegments_kept {isAbsolute : Bool} : ∀ {segments : List Bytes} (parts : List Bytes),
    (∀ segment ∈ segments, KeptSegment segment) →
    foldSegments isAbsolute parts segments = some (parts ++ segments)
  | [], parts, _ => by rw [foldSegments, List.append_nil]
  | segment :: segments, parts, h => by
      rw [foldSegments_cons_kept (h segment List.mem_cons_self),
        foldSegments_kept _ fun s hs => h s (List.mem_cons_of_mem _ hs)]
      simp

/-- Nothing is removed from a path that is not rooted. -/
theorem mem_foldSegments_relative : ∀ {segments parts parts' : List Bytes} {segment : Bytes},
    foldSegments false parts segments = some parts' →
    segment ∈ parts ∨ segment ∈ segments ∧ KeptSegment segment → segment ∈ parts'
  | [], parts, parts', segment, h, hmem => by
      obtain rfl := Option.some.inj h
      exact hmem.resolve_right fun h' => List.not_mem_nil h'.1
  | s :: segments, parts, parts', segment, h, hmem => by
      rw [foldSegments] at h
      split at h
      · rename_i hskip
        refine mem_foldSegments_relative h (hmem.imp_right fun h' => ⟨?_, h'.2⟩)
        rcases List.mem_cons.mp h'.1 with rfl | hrest
        · exact absurd hskip (not_or.mpr ⟨h'.2.1, h'.2.2.1⟩)
        · exact hrest
      · split at h
        · cases h
        · refine mem_foldSegments_relative h ?_
          rcases hmem with hmem | ⟨hmem, hkept⟩
          · exact Or.inl (List.mem_append_left _ hmem)
          · rcases List.mem_cons.mp hmem with rfl | hrest
            · exact Or.inl (List.mem_append_right _ List.mem_cons_self)
            · exact Or.inr ⟨hrest, hkept⟩

/-! ## Writing the segments -/

/-- Segments with a slash behind each. -/
def written (parts : List Bytes) : Bytes := parts.flatMap (· ++ [slash])

theorem writeParts_append (hasTrailingSlash : Bool) {rest : List Bytes} (hne : rest ≠ []) :
    ∀ parts : List Bytes, writeParts hasTrailingSlash (parts ++ rest)
      = written parts ++ writeParts hasTrailingSlash rest
  | [] => rfl
  | part :: parts => by
      have ih := writeParts_append hasTrailingSlash hne parts
      have hcons : parts ++ rest ≠ [] := fun h => hne (List.append_eq_nil_iff.mp h).2
      rw [List.cons_append, writeParts, ih]
      · simp [written]
      · exact hcons

theorem writeParts_true : ∀ parts : List Bytes, writeParts true parts = written parts
  | [] => rfl
  | [part] => by simp [writeParts, written]
  | part :: part' :: parts => by
      rw [writeParts, writeParts_true (part' :: parts)]
      · simp [written]
      · exact List.cons_ne_nil _ _

theorem writeParts_cons {hasTrailingSlash : Bool} (u part : Bytes) (parts : List Bytes) :
    writeParts hasTrailingSlash ((u ++ part) :: parts)
      = u ++ writeParts hasTrailingSlash (part :: parts) := by
  cases parts with
  | nil => simp [writeParts]
  | cons part' parts => simp [writeParts]

/-- The segment with the `?`, written. -/
theorem writeParts_question (hasTrailingSlash : Bool) (front behind : List Bytes) (u v : Bytes) :
    writeParts hasTrailingSlash (front ++ (u ++ question :: v) :: behind)
      = written front ++ u ++ question :: writeParts hasTrailingSlash (v :: behind) := by
  rw [writeParts_append _ (List.cons_ne_nil _ _), writeParts_cons, List.append_assoc]
  exact congrArg _ (congrArg _ (writeParts_cons [question] v behind))

theorem length_writeParts (hasTrailingSlash : Bool) : ∀ parts : List Bytes,
    (writeParts hasTrailingSlash parts).length ≤ (written parts).length
  | [] => Nat.le_refl _
  | [part] => by
      cases hasTrailingSlash <;> simp [writeParts, written]
  | part :: part' :: parts => by
      have ih := length_writeParts hasTrailingSlash (part' :: parts)
      rw [writeParts]
      · simp only [written, List.flatMap_cons, List.length_append, List.length_cons,
          List.length_nil] at ih ⊢
        omega
      · exact List.cons_ne_nil _ _

theorem length_written_dropLast (parts : List Bytes) :
    (written parts.dropLast).length ≤ (written parts).length := by
  obtain ⟨t, ht⟩ := List.dropLast_prefix parts
  generalize parts.dropLast = front at ht
  rw [← ht, written, written, List.flatMap_append, List.length_append]
  exact Nat.le_add_right _ _

/-- The segments of a string, written again. -/
theorem writeParts_split : ∀ {s : Bytes}, s ≠ [] →
    writeParts (s.getLast? == some slash) (split slash s) = s
  | [], h => absurd rfl h
  | [c], _ => by
      by_cases hc : c = slash
      · subst hc
        rfl
      · simp [split, writeParts, hc]
  | c :: c' :: s, _ => by
      have ih := writeParts_split (List.cons_ne_nil c' s)
      rw [List.getLast?_cons_cons, split]
      cases hs : split slash (c' :: s) with
      | nil => cases split_eq_nil hs
      | cons w ws =>
          rw [hs] at ih
          by_cases hc : c = slash
          · rw [if_pos hc, writeParts, ih, hc, List.nil_append]
            exact List.cons_ne_nil _ _
          · rw [if_neg hc]
            exact (writeParts_cons [c] w ws).trans (congrArg (c :: ·) ih)

/-- The segments behind the first one, read back. -/
theorem tail_split_writeParts (hasTrailingSlash : Bool) : ∀ {part : Bytes} {parts : List Bytes},
    slash ∉ part → (∀ part ∈ parts, Ordinary part) →
    (split slash (writeParts hasTrailingSlash (part :: parts))).tail = parts
      ∧ (part ≠ [] → split slash (writeParts hasTrailingSlash (part :: parts)) = part :: parts)
  | part, [], hpart, _ => by
      cases hasTrailingSlash with
      | true => simp [writeParts, split_field [] hpart, split]
      | false =>
          by_cases hne : part = []
          · subst hne
            exact ⟨rfl, fun h => absurd rfl h⟩
          · simp [writeParts, split_last hpart hne]
  | part, part' :: parts, hpart, h => by
      have hpart' := h part' List.mem_cons_self
      obtain ⟨-, ih⟩ := tail_split_writeParts hasTrailingSlash hpart'.noSlash
        fun p hp => h p (List.mem_cons_of_mem _ hp)
      rw [writeParts, split_field _ hpart, ih hpart'.nonempty]
      · exact ⟨rfl, fun _ => rfl⟩
      · exact List.cons_ne_nil _ _

/-! ## The joined target -/

/-- What a joined target decodes to: directories, the last segment of the
path and the query. The segments of the directories leave `parent`. -/
structure Joint (path query dir last decodedQuery : Bytes) (parent : List Bytes) : Prop where
  ofPath : percentDecode path = some (dir ++ last)
  ofQuery : percentDecode query = some decodedQuery
  ofJoined : percentDecode (path ++ question :: query)
    = some (dir ++ (last ++ question :: decodedQuery))
  rooted : dir.head? = some slash
  ends : ∀ c ∈ dir.getLast?, c = slash
  noSlash : slash ∉ last
  parent : foldSegments true [] (split slash dir) = some parent

/-- The last segment of the path with the first one of the query. -/
def middle (last decodedQuery : Bytes) : Bytes :=
  last ++ question :: (split slash decodedQuery).headD []

/-- The segments of the query behind its first one. -/
def behindFirst (decodedQuery : Bytes) : List Bytes := (split slash decodedQuery).tail

theorem split_middle {last : Bytes} (hlast : slash ∉ last) (decodedQuery : Bytes) :
    split slash (last ++ question :: decodedQuery)
      = middle last decodedQuery :: behindFirst decodedQuery :=
  split_first (by decide) decodedQuery hlast

theorem kept_middle (last decodedQuery : Bytes) : KeptSegment (middle last decodedQuery) :=
  .of_question (List.mem_append_right _ List.mem_cons_self)

/-- The targets whose query and path do not touch each other. -/
def Inert (path query : Bytes) : Prop :=
  ∃ dir last decodedQuery parent, Joint path query dir last decodedQuery parent
    ∧ (∀ part ∈ parent, question ∉ part) ∧ question ∉ last
    ∧ last ≠ lit "." ∧ last ≠ lit ".."
    ∧ ∀ segment ∈ behindFirst decodedQuery, KeptSegment segment

/-- The joined string as it is stored: `middle` takes the place of the
last segment of the path. -/
def JoinedParts (path query : Bytes) (hasTrailingSlash : Bool) (parts : List Bytes) : Prop :=
  ∃ dir last decodedQuery parent, Joint path query dir last decodedQuery parent
    ∧ foldSegments true (parent ++ [middle last decodedQuery]) (behindFirst decodedQuery)
      = some parts
    ∧ hasTrailingSlash = ((question :: decodedQuery).getLast? == some slash)

/-- The joined target is within the limits, whatever the path is. -/
def Rescued (path query : Bytes) : Prop :=
  ∃ hasTrailingSlash parts, JoinedParts path query hasTrailingSlash parts
    ∧ (beforeQuery (slash :: writeParts hasTrailingSlash parts)).length ≤ maxUriLength

section Joined

variable {path query : Bytes}

theorem Joint.fold {dir last decodedQuery : Bytes} {parent : List Bytes}
    (h : Joint path query dir last decodedQuery parent) :
    foldSegments true [] (split slash (dir ++ (last ++ question :: decodedQuery)))
      = foldSegments true (parent ++ [middle last decodedQuery]) (behindFirst decodedQuery) := by
  rw [split_append _ h.ends, split_middle h.noSlash, foldSegments_append, h.parent,
    Option.bind_some, foldSegments_cons_kept (kept_middle last decodedQuery)]

/-- When a joined target is accepted. -/
theorem targetAccepted_joined (hvalid : hasInvalidUriChar (path ++ question :: query) = false)
    (hhash : hash ∉ path ++ question :: query) (hno : question ∉ path) (joined : Bytes) :
    TargetAccepted (path ++ question :: query) joined
      ↔ ∃ hasTrailingSlash parts, JoinedParts path query hasTrailingSlash parts
        ∧ joined = slash :: writeParts hasTrailingSlash parts
        ∧ (beforeQuery joined).length ≤ maxUriLength := by
  have htarget : targetPath (path ++ question :: query) = path ++ question :: query :=
    takeWhile_of_not_mem hhash
  constructor
  · rintro ⟨-, ⟨decoded, parts, hdec, -, hfold, hjoined⟩, hroot, hshort⟩
    rw [htarget] at hdec
    obtain ⟨decodedPath, decodedQuery, hpath, hquery, rfl⟩ := percentDecode_question hno hdec
    obtain ⟨dir, last, rfl, hends, hlast⟩ := exists_last_piece slash decodedPath
    have hsplit : split slash (dir ++ last ++ question :: decodedQuery)
        = split slash dir ++ middle last decodedQuery :: behindFirst decodedQuery := by
      rw [List.append_assoc, split_append _ hends, split_middle hlast]
    by_cases habs : (dir ++ last ++ question :: decodedQuery).head? = some slash
    · rw [habs, beq_self_eq_true] at hfold hjoined
      rw [hsplit, foldSegments_append, Option.bind_eq_some_iff] at hfold
      obtain ⟨parent, hparent, hparts⟩ := hfold
      rw [foldSegments_cons_kept (kept_middle last decodedQuery)] at hparts
      rw [joinParts_absolute, List.getLast?_append_cons] at hjoined
      refine ⟨_, parts, ⟨dir, last, decodedQuery, parent,
        ⟨hpath, hquery, ?_, ?_, hends, hlast, hparent⟩, hparts, rfl⟩, hjoined, hshort⟩
      · rw [hdec, List.append_assoc]
      · cases dir with
        | nil =>
            cases last with
            | nil => exact absurd (Option.some.inj habs) (by decide)
            | cons c last =>
                obtain rfl := Option.some.inj habs
                exact absurd List.mem_cons_self hlast
        | cons c dir => exact habs
    · -- A path that is not rooted keeps its segments, so it is refused.
      rw [show ((dir ++ last ++ question :: decodedQuery).head? == some slash) = false by
        simpa using habs] at hfold hjoined
      have hord := ordinary_of_foldSegments hfold (fun _ => noSlash_of_split)
        fun _ h => by cases h
      rw [hjoined] at hroot
      obtain rfl := parts_eq_nil_of_relative hord hroot
      rw [hsplit] at hfold
      have hmem := mem_foldSegments_relative hfold (Or.inr ⟨List.mem_append_right _
        List.mem_cons_self, kept_middle last decodedQuery⟩)
      cases hmem
  · rintro ⟨_, parts, ⟨dir, last, decodedQuery, parent, hjoint, hparts, rfl⟩, hjoined, hshort⟩
    have hhead : (dir ++ (last ++ question :: decodedQuery)).head? = some slash := by
      rw [List.head?_append, hjoint.rooted]
      rfl
    refine ⟨hvalid, ⟨_, parts, htarget ▸ hjoint.ofJoined, ?_, ?_, ?_⟩, ?_, hshort⟩
    · intro hnil
      rw [hnil] at hhead
      cases hhead
    · rw [hhead, beq_self_eq_true, hjoint.fold, hparts]
    · rw [hhead, beq_self_eq_true, joinParts_absolute, ← List.append_assoc,
        List.getLast?_append_cons, hjoined]
    · rw [hjoined]
      rfl

/-- When the path is accepted on its own. -/
theorem targetAccepted_path {dir last decodedQuery : Bytes} {parent : List Bytes}
    (hjoint : Joint path query dir last decodedQuery parent)
    (hvalid : hasInvalidUriChar path = false) (hhash : hash ∉ path) (joined : Bytes) :
    TargetAccepted path joined
      ↔ ∃ parts, foldSegments true parent (split slash last) = some parts
        ∧ joined = slash :: writeParts (decide (last = [])) parts
        ∧ (beforeQuery joined).length ≤ maxUriLength := by
  have htarget : targetPath path = path := takeWhile_of_not_mem hhash
  have hhead : (dir ++ last).head? = some slash := by
    rw [List.head?_append, hjoint.rooted]
    rfl
  have hends : ((dir ++ last).getLast? == some slash) = decide (last = []) := by
    by_cases hnil : last = []
    · subst hnil
      rw [List.append_nil]
      cases hdir : dir.getLast? with
      | none =>
          rw [List.getLast?_eq_none_iff] at hdir
          have hrooted := hjoint.rooted
          rw [hdir] at hrooted
          cases hrooted
      | some c => simp [hjoint.ends c hdir]
    · have hlast : last.getLast? ≠ some slash := fun h =>
        hjoint.noSlash (List.mem_of_getLast? h)
      simp [hnil, hlast]
  have hfold : foldSegments true [] (split slash (dir ++ last))
      = foldSegments true parent (split slash last) := by
    rw [split_append _ hjoint.ends, foldSegments_append, hjoint.parent, Option.bind_some]
  constructor
  · rintro ⟨-, ⟨decoded, parts, hdec, -, hparts, hjoined⟩, -, hshort⟩
    rw [htarget, hjoint.ofPath] at hdec
    obtain rfl := Option.some.inj hdec
    rw [hhead, beq_self_eq_true, hfold] at hparts
    rw [hhead, beq_self_eq_true, hends, joinParts_absolute] at hjoined
    exact ⟨parts, hparts, hjoined, hshort⟩
  · rintro ⟨parts, hparts, hjoined, hshort⟩
    refine ⟨hvalid, ⟨_, parts, htarget ▸ hjoint.ofPath, ?_, ?_, ?_⟩, ?_, hshort⟩
    · intro hnil
      rw [hnil] at hhead
      cases hhead
    · rw [hhead, beq_self_eq_true, hfold, hparts]
    · rw [hhead, beq_self_eq_true, hends, joinParts_absolute, hjoined]
    · rw [hjoined]
      rfl

theorem TargetAccepted.unique {target joined joined' : Bytes} (h : TargetAccepted target joined)
    (h' : TargetAccepted target joined') : joined = joined' := by
  obtain ⟨decoded, parts, hdec, -, hfold, rfl⟩ := h.normal
  obtain ⟨decoded', parts', hdec', -, hfold', rfl⟩ := h'.normal
  obtain rfl := Option.some.inj (hdec.symm.trans hdec')
  obtain rfl := Option.some.inj (hfold.symm.trans hfold')
  rfl

theorem setRequestUri_eq (r : RequestParser) {target joined : Bytes}
    (h : TargetAccepted target joined) :
    r.setRequestUri target = (r.withTarget joined, true) := by
  obtain ⟨joined', hacc, heq⟩ := setRequestUri_accepted.mp (setRequestUri_of_accepted h)
  rw [heq, h.unique hacc]

/-- A segment before the first `?`, cut there. -/
theorem exists_question : ∀ {parts : List Bytes} (hasTrailingSlash : Bool),
    question ∈ writeParts hasTrailingSlash parts →
    ∃ front u v behind, parts = front ++ (u ++ question :: v) :: behind
      ∧ (∀ part ∈ front, question ∉ part) ∧ question ∉ u
  | [], _, h => by cases h
  | part :: parts, hasTrailingSlash, h => by
      by_cases hpart : question ∈ part
      · obtain ⟨u, v, rfl, hu⟩ := List.eq_append_cons_of_mem hpart
        exact ⟨[], u, v, parts, rfl, (fun _ h => by cases h), hu⟩
      · have hrest : question ∈ writeParts hasTrailingSlash parts := by
          cases parts with
          | nil =>
              rw [writeParts, List.mem_append] at h
              have htrail := h.resolve_left hpart
              cases hasTrailingSlash with
              | true => exact absurd htrail (by decide)
              | false => cases htrail
          | cons part' parts =>
              rw [writeParts] at h
              · rcases List.mem_append.mp h with h | h
                · exact absurd h hpart
                · exact (List.mem_cons.mp h).resolve_left (by decide)
              · exact List.cons_ne_nil _ _
        obtain ⟨front, u, v, behind, rfl, hfront, hu⟩ := exists_question hasTrailingSlash hrest
        refine ⟨part :: front, u, v, behind, rfl, fun p hp => ?_, hu⟩
        rcases List.mem_cons.mp hp with rfl | hp
        · exact hpart
        · exact hfront p hp

theorem question_notMem_written {parts : List Bytes} (h : ∀ part ∈ parts, question ∉ part) :
    question ∉ written parts := by
  intro hmem
  obtain ⟨part, hpart, hmem⟩ := List.mem_flatMap.mp hmem
  rcases List.mem_append.mp hmem with hmem | hmem
  · exact h part hpart hmem
  · exact absurd hmem (by decide)

theorem notMem_stored {last : Bytes} {parent : List Bytes}
    (hparent : ∀ part ∈ parent, question ∉ part) (hlast : question ∉ last) :
    question ∉ slash :: (written parent ++ last) := by
  rw [List.mem_cons, List.mem_append, not_or, not_or]
  exact ⟨by decide, question_notMem_written hparent, hlast⟩

/-- The query of a stored string. -/
theorem withTarget_query (r : RequestParser) (rest : Bytes) {front : Bytes}
    (h : question ∉ front) :
    (r.withTarget (front ++ question :: rest)).queryString = rest
      ∧ (r.withTarget (front ++ question :: rest)).requestUri = front := by
  refine ⟨?_, ?_⟩
  · rw [withTarget]
    simp only
    rw [if_pos (List.mem_append_right _ List.mem_cons_self), dropWhile_append_of_notMem h,
      List.tail_cons]
  · rw [withTarget]
    simp only
    rw [takeWhile_append_of_not_mem h, List.takeWhile_cons_of_neg (by simp), List.append_nil]

/-- The query that is stored decides how the query was walked. -/
theorem inert_of_query {r : RequestParser} (hfresh : r.queryString = [])
    {dir last decodedQuery : Bytes} {parent parts : List Bytes}
    (hjoint : Joint path query dir last decodedQuery parent)
    (hparts : foldSegments true (parent ++ [middle last decodedQuery])
      (behindFirst decodedQuery) = some parts) {hasTrailingSlash : Bool}
    (hquery : (r.withTarget (slash :: writeParts hasTrailingSlash parts)).queryString
      = decodedQuery) :
    (∀ part ∈ parent, question ∉ part) ∧ question ∉ last
      ∧ ∀ segment ∈ behindFirst decodedQuery, KeptSegment segment := by
  have hord : ∀ part ∈ parts, Ordinary part := by
    have hfold := hjoint.fold.trans hparts
    exact ordinary_of_foldSegments hfold (fun _ => noSlash_of_split) fun _ h => by cases h
  -- The query starts inside one of the parts, and the parts behind it are its segments.
  have hstart : ∀ {front u v behind}, parts = front ++ (u ++ question :: v) :: behind →
      (∀ part ∈ front, question ∉ part) → question ∉ u →
      decodedQuery = writeParts hasTrailingSlash (v :: behind) ∧ behindFirst decodedQuery = behind
        ∧ (v ≠ [] → split slash decodedQuery = v :: behind) := by
    intro front u v behind heq hfront hu
    have hv : slash ∉ v := fun h => (hord _ (heq ▸ List.mem_append_right _
      List.mem_cons_self)).noSlash (List.mem_append_right _ (List.mem_cons_of_mem _ h))
    have hno := notMem_stored hfront hu
    rw [heq, writeParts_question, ← List.cons_append, (withTarget_query r _ hno).1] at hquery
    obtain ⟨htail, hsplit⟩ := tail_split_writeParts hasTrailingSlash hv
      fun part hpart => hord part (heq ▸ List.mem_append_right _ (List.mem_cons_of_mem _ hpart))
    rw [hquery] at htail hsplit
    exact ⟨hquery.symm, htail, hsplit⟩
  have hkept : ∀ segment ∈ behindFirst decodedQuery, KeptSegment segment := by
    by_cases hmem : question ∈ writeParts hasTrailingSlash parts
    · obtain ⟨front, u, v, behind, heq, hfront, hu⟩ := exists_question hasTrailingSlash hmem
      obtain ⟨-, hbehind, -⟩ := hstart heq hfront hu
      intro segment hsegment
      rw [hbehind] at hsegment
      have hpart := hord segment (heq ▸ List.mem_append_right _ (List.mem_cons_of_mem _ hsegment))
      exact ⟨hpart.nonempty, hpart.notDot, hpart.notDotDot⟩
    · have hnil : decodedQuery = [] := by
        have hno : question ∉ slash :: writeParts hasTrailingSlash parts := by
          rw [List.mem_cons, not_or]
          exact ⟨by decide, hmem⟩
        rw [← hquery, withTarget]
        exact (if_neg hno).trans hfresh
      rw [hnil]
      exact fun _ h => by cases h
  rw [foldSegments_kept _ hkept, Option.some_inj, List.append_assoc, List.singleton_append]
    at hparts
  subst hparts
  have hmem : question ∈ writeParts hasTrailingSlash
      (parent ++ middle last decodedQuery :: behindFirst decodedQuery) := by
    rw [middle, writeParts_question]
    exact List.mem_append_right _ List.mem_cons_self
  obtain ⟨front, u, v, behind, heq, hfront, hu⟩ := exists_question hasTrailingSlash hmem
  obtain ⟨-, hbehind, hsplit⟩ := hstart heq hfront hu
  rw [hbehind] at heq
  obtain ⟨rfl, hcons⟩ := List.append_inj' heq rfl
  have hmiddle := (List.cons.inj hcons).1
  refine ⟨hfront, fun hlast => ?_, hkept⟩
  -- With a `?` in the last segment the query would start before its first segment.
  obtain ⟨u', v', rfl, hu'⟩ := List.eq_append_cons_of_mem hlast
  have hv : v = v' ++ question :: (split slash decodedQuery).headD [] := by
    have hdrop := congrArg (List.dropWhile (· != question)) hmiddle
    rw [middle, List.append_assoc, List.cons_append, dropWhile_append_of_notMem hu,
      dropWhile_append_of_notMem hu'] at hdrop
    exact (List.cons.inj hdrop).2.symm
  have hne : v ≠ [] := by simp [hv]
  rw [hsplit hne, List.headD_cons] at hv
  have hlength := congrArg List.length hv
  simp only [List.length_append, List.length_cons] at hlength
  omega

/-- The stored URI decides how the path was walked. -/
theorem lastSegment_of_uri {r : RequestParser} {dir last decodedQuery joined : Bytes}
    {parent : List Bytes} (hjoint : Joint path query dir last decodedQuery parent)
    (hvalid : hasInvalidUriChar path = false) (hhash : hash ∉ path)
    (hacc : TargetAccepted path joined)
    (huri : (r.withTarget joined).requestUri = slash :: (written parent ++ last)) :
    last ≠ lit "." ∧ last ≠ lit ".." := by
  obtain ⟨parts, hparts, hjoined, -⟩ := (targetAccepted_path hjoint hvalid hhash joined).mp hacc
  -- A dot segment leaves no more than `parent`.
  have hshort : ∀ front, parts = front → (written front).length ≤ (written parent).length →
      last ≠ [] → False := by
    rintro front rfl hlength hne
    have hle : (r.withTarget joined).requestUri.length ≤ joined.length :=
      (List.takeWhile_prefix _).length_le
    have hwritten := length_writeParts (decide (last = [])) parts
    have hpos := List.length_pos_iff.mpr hne
    rw [huri, hjoined] at hle
    simp only [List.length_cons, List.length_append] at hle
    omega
  have hsplit : last ≠ [] → split slash last = [last] := split_last hjoint.noSlash
  constructor
  · rintro rfl
    rw [hsplit (by decide), foldSegments, if_pos (Or.inr rfl), foldSegments, Option.some_inj]
      at hparts
    exact hshort parent hparts.symm (Nat.le_refl _) (by decide)
  · rintro rfl
    rw [hsplit (by decide), foldSegments, if_neg (by decide), if_pos rfl] at hparts
    split at hparts
    · cases hparts
    · rw [foldSegments, Option.some_inj] at hparts
      exact hshort parent.dropLast hparts.symm (length_written_dropLast parent) (by decide)

/-- The stored path when its last segment is not a dot segment. -/
theorem stored_path {dir last decodedQuery : Bytes} {parent : List Bytes}
    (hjoint : Joint path query dir last decodedQuery parent)
    (hdot : last ≠ lit ".") (hdotdot : last ≠ lit "..") :
    ∃ parts, foldSegments true parent (split slash last) = some parts
      ∧ writeParts (decide (last = [])) parts = written parent ++ last := by
  by_cases hnil : last = []
  · subst hnil
    refine ⟨parent, rfl, ?_⟩
    rw [decide_eq_true rfl, writeParts_true, List.append_nil]
  · refine ⟨parent ++ [last], ?_, ?_⟩
    · rw [split_last hjoint.noSlash hnil]
      exact foldSegments_kept parent fun s hs => List.mem_singleton.mp hs ▸ ⟨hnil, hdot, hdotdot⟩
    · rw [decide_eq_false hnil, writeParts_append _ (List.cons_ne_nil _ _), writeParts]
      simp

/-- The stored string when the query keeps its segments. -/
theorem stored_joined {dir last decodedQuery : Bytes} {parent : List Bytes}
    (hjoint : Joint path query dir last decodedQuery parent) :
    writeParts ((question :: decodedQuery).getLast? == some slash)
        (parent ++ [middle last decodedQuery] ++ behindFirst decodedQuery)
      = written parent ++ last ++ question :: decodedQuery := by
  have hne : last ++ question :: decodedQuery ≠ [] := by simp
  have hwhole := writeParts_split hne
  rw [split_middle hjoint.noSlash, List.getLast?_append_cons] at hwhole
  rw [List.append_assoc, List.singleton_append, writeParts_append _ (List.cons_ne_nil _ _), hwhole,
    List.append_assoc]

end Joined

/-! ## Path and query -/

/-- Whether a target is accepted, whoever parses it. -/
def Accepted (target : Bytes) : Prop := ∃ joined, TargetAccepted target joined

theorem accepted_iff {r : RequestParser} {target : Bytes} :
    (r.setRequestUri target).2 = true ↔ Accepted target := by
  constructor
  · intro h
    obtain ⟨joined, hacc, -⟩ := setRequestUri_accepted.mp h
    exact ⟨joined, hacc⟩
  · rintro ⟨joined, hacc⟩
    exact setRequestUri_of_accepted hacc

/-- A query behind the path changes neither whether the target is
accepted nor the stored URI, and it is stored and handed to a script as
it is, or decoded. -/
structure PathQueryKept {W : Type u} (os : OS W) (env : Env) (w : W) (r : RequestParser)
    (path query : Bytes) : Prop where
  accepted : (r.setRequestUri (path ++ question :: query)).2 = (r.setRequestUri path).2
  sameUri : (r.setRequestUri path).2 = true →
    (r.setRequestUri (path ++ question :: query)).1.requestUri
      = (r.setRequestUri path).1.requestUri
  stored : (r.setRequestUri path).2 = true →
    (r.setRequestUri (path ++ question :: query)).1.queryString = query
      ∨ some (r.setRequestUri (path ++ question :: query)).1.queryString = percentDecode query
  passed : (r.setRequestUri path).2 = true → ∀ request : RequestParser,
    request.queryString = (r.setRequestUri (path ++ question :: query)).1.queryString →
    ∀ cgiPath response h bodySize, CgiHandler.create os env w request cgiPath response = .ok h →
      ∃ value, (value = query ∨ some value = percentDecode query)
        ∧ lit "QUERY_STRING=" ++ value ∈ h.setupEnvironment bodySize

/-- The query is stored decoded. -/
def QueryDecoded (r : RequestParser) (path query : Bytes) : Prop :=
  (r.setRequestUri path).2 = true →
    some (r.setRequestUri (path ++ question :: query)).1.queryString = percentDecode query

/-- A path that is accepted does not touch its query, and one that is
refused is not rescued by it. -/
def Separate (path query : Bytes) : Prop :=
  (Accepted path → Inert path query) ∧ (¬Accepted path → ¬Rescued path query)

theorem valid_joined {path query : Bytes} (hpath : hasInvalidUriChar path = false)
    (hquery : hasInvalidUriChar query = false) :
    hasInvalidUriChar (path ++ question :: query) = false := by
  have hquestion : hasInvalidUriChar [question] = false := by decide
  simp only [hasInvalidUriChar, List.any_append, List.any_cons, List.any_nil, Bool.or_eq_false_iff]
    at hpath hquery hquestion ⊢
  simp [hpath, hquery, hquestion]

theorem queryString_create {W : Type u} {os : OS W} {env : Env} {w : W} {request : RequestParser}
    {cgiPath : Bytes} {response : Nat} {h : CgiHandler}
    (hok : CgiHandler.create os env w request cgiPath response = .ok h) :
    h.queryString = request.queryString := by
  obtain ⟨l, scriptPath, -, rfl⟩ := CgiHandler.create_eq_ok hok
  rfl

theorem pathQuery_iff {W : Type u} (os : OS W) (env : Env) (w : W) (r : RequestParser)
    (hfresh : r.queryString = []) {path query : Bytes}
    (hpath : hasInvalidUriChar path = false) (hquery : hasInvalidUriChar query = false)
    (hhash : hash ∉ path) (hhash' : hash ∉ query) (hno : question ∉ path) :
    (PathQueryKept os env w r path query ∧ QueryDecoded r path query) ↔ Separate path query := by
  have hvalid := valid_joined hpath hquery
  have hhashes : hash ∉ path ++ question :: query := by
    rw [List.mem_append, List.mem_cons, not_or, not_or]
    exact ⟨hhash, by decide, hhash'⟩
  have hjoined := targetAccepted_joined hvalid hhashes hno
  have hrescued : Accepted (path ++ question :: query) ↔ Rescued path query := by
    constructor
    · rintro ⟨joined, hacc⟩
      obtain ⟨hasTrailingSlash, parts, hparts, rfl, hshort⟩ := (hjoined joined).mp hacc
      exact ⟨hasTrailingSlash, parts, hparts, hshort⟩
    · rintro ⟨hasTrailingSlash, parts, hparts, hshort⟩
      exact ⟨_, (hjoined _).mpr ⟨hasTrailingSlash, parts, hparts, rfl, hshort⟩⟩
  constructor
  · rintro ⟨hkept, hdecoded⟩
    refine ⟨fun hacc => ?_, fun hrefused hresc => ?_⟩
    · have htrue : (r.setRequestUri path).2 = true := accepted_iff.mpr hacc
      obtain ⟨joinedPath, haccPath⟩ := hacc
      obtain ⟨joined, haccJoined⟩ := accepted_iff.mp (hkept.accepted.trans htrue)
      have huri := hkept.sameUri htrue
      have hstored := hdecoded htrue
      rw [setRequestUri_eq r haccPath, setRequestUri_eq r haccJoined] at huri
      rw [setRequestUri_eq r haccJoined] at hstored
      obtain ⟨hasTrailingSlash, parts, ⟨dir, last, decodedQuery, parent, hjoint, hparts, rfl⟩,
        rfl, -⟩ := (hjoined joined).mp haccJoined
      rw [hjoint.ofQuery, Option.some_inj] at hstored
      obtain ⟨hparent, hlast, hsegments⟩ := inert_of_query hfresh hjoint hparts hstored
      rw [foldSegments_kept _ hsegments, Option.some_inj] at hparts
      rw [← hparts, stored_joined hjoint, ← List.cons_append,
        (withTarget_query r _ (notMem_stored hparent hlast)).2] at huri
      obtain ⟨hdot, hdotdot⟩ := lastSegment_of_uri hjoint hpath hhash haccPath huri.symm
      exact ⟨dir, last, decodedQuery, parent, hjoint, hparent, hlast, hdot, hdotdot, hsegments⟩
    · have htrue : (r.setRequestUri (path ++ question :: query)).2 = true :=
        accepted_iff.mpr (hrescued.mpr hresc)
      exact hrefused (accepted_iff.mp (hkept.accepted.symm.trans htrue))
  · intro hseparate
    by_cases hacc : Accepted path
    · obtain ⟨dir, last, decodedQuery, parent, hjoint, hparent, hlast, hdot, hdotdot, hsegments⟩ :=
        hseparate.1 hacc
      obtain ⟨joinedPath, haccPath⟩ := hacc
      have hfront := notMem_stored hparent hlast
      obtain ⟨parts, hparts, hwritten⟩ := stored_path hjoint hdot hdotdot
      obtain ⟨parts', hparts', rfl, hshort⟩ :=
        (targetAccepted_path hjoint hpath hhash _).mp haccPath
      obtain rfl := Option.some.inj (hparts.symm.trans hparts')
      rw [hwritten] at haccPath hshort
      have haccJoined : TargetAccepted (path ++ question :: query)
          (slash :: (written parent ++ last) ++ question :: decodedQuery) := by
        refine (hjoined _).mpr ⟨_, _, ⟨dir, last, decodedQuery, parent, hjoint,
          foldSegments_kept _ hsegments, rfl⟩, ?_, ?_⟩
        · rw [stored_joined hjoint, List.cons_append]
        · rw [beforeQuery, takeWhile_append_of_not_mem hfront,
            List.takeWhile_cons_of_neg (by simp), List.append_nil]
          rwa [beforeQuery, takeWhile_of_not_mem hfront] at hshort
      have hpathEq := setRequestUri_eq r haccPath
      have hjoinedEq := setRequestUri_eq r haccJoined
      obtain ⟨hqueryString, huri⟩ := withTarget_query r decodedQuery hfront
      have hdecoded : some (r.setRequestUri (path ++ question :: query)).1.queryString
          = percentDecode query := by
        rw [hjoinedEq, hqueryString, hjoint.ofQuery]
      refine ⟨⟨?_, fun _ => ?_, fun _ => Or.inr hdecoded, ?_⟩, fun _ => hdecoded⟩
      · rw [hpathEq, hjoinedEq]
      · rw [hpathEq, hjoinedEq, huri, withTarget]
        exact (takeWhile_of_not_mem hfront).symm
      · intro _ request hrequest cgiPath response h bodySize hok
        refine ⟨h.queryString, Or.inr ?_, ?_⟩
        · rw [queryString_create hok, hrequest, hdecoded]
        · simp [CgiHandler.setupEnvironment]
    · have hrefused : (r.setRequestUri path).2 = false :=
        Bool.eq_false_iff.mpr fun h => hacc (accepted_iff.mp h)
      have hrefused' : (r.setRequestUri (path ++ question :: query)).2 = false :=
        Bool.eq_false_iff.mpr fun h => hseparate.2 hacc (hrescued.mp (accepted_iff.mp h))
      have hno : ¬(r.setRequestUri path).2 = true := by simp [hrefused]
      exact ⟨⟨hrefused'.trans hrefused.symm, fun h => absurd h hno, fun h => absurd h hno,
        fun h => absurd h hno⟩, fun h => absurd h hno⟩

/-- A query with slashes and dots that no segment is made of. -/
theorem inert_script : Inert (lit "/cgi/a.py") (lit "x=1/2.txt&y=../z") := by
  refine ⟨lit "/cgi/", lit "a.py", lit "x=1/2.txt&y=../z", [lit "cgi"], ?_, by decide +kernel,
    by decide +kernel, by decide +kernel, by decide +kernel, by decide +kernel⟩
  exact ⟨by decide +kernel, by decide +kernel, by decide +kernel, by decide +kernel,
    by decide +kernel, by decide +kernel, by decide +kernel⟩

theorem pathQuery_iff_script :
    PathQueryKept flatOs { now := 0 } () {} (lit "/cgi/a.py") (lit "x=1/2.txt&y=../z")
      ∧ QueryDecoded {} (lit "/cgi/a.py") (lit "x=1/2.txt&y=../z") := by
  have hacc : Accepted (lit "/cgi/a.py") := (@accepted_iff {} _).mp (by decide +kernel)
  exact (pathQuery_iff flatOs { now := 0 } () {} rfl (by decide +kernel) (by decide +kernel)
    (by decide +kernel) (by decide +kernel) (by decide +kernel)).mpr
      ⟨fun _ => inert_script, fun h => absurd hacc h⟩

/-- A double slash in a query reaches the script as a single one. -/
theorem not_pathQueryKept :
    ¬∀ (r : RequestParser) (path query : Bytes), r.queryString = [] →
      hasInvalidUriChar path = false → hasInvalidUriChar query = false →
      hash ∉ path → hash ∉ query → question ∉ path →
      PathQueryKept flatOs { now := 0 } () r path query := by
  intro h
  have hkept := h {} (lit "/x") (lit "a//b") rfl (by decide +kernel) (by decide +kernel)
    (by decide) (by decide) (by decide)
  have hstored : (({} : RequestParser).setRequestUri
      (lit "/x" ++ question :: lit "a//b")).1.queryString = lit "a/b" := by decide +kernel
  rcases hkept.stored (by decide +kernel) with hraw | hdecoded
  · exact absurd (hstored.symm.trans hraw) (by decide)
  · rw [hstored] at hdecoded
    exact absurd hdecoded (by decide +kernel)

end RequestParser

end Webserv
