import Webserv.RequestHead

/-!
# The stored request URI

`set_request_uri` decodes and normalises the whole target and only then
cuts the query off, so the cut can turn an ordinary segment into a dot
segment. The segments of the stored URI are read off the segments that
survive `normalize_uri` (`splitOn_requestUri`), and `DotQuery` names the
targets where the cut leaves `.` or `..`.
-/

namespace Webserv

open Bytes RequestParser

/-- Rooted, and without dot segments or empty segments inside. -/
structure Canonical (uri : Bytes) : Prop where
  rooted : uri.head? = some slash
  noDot : lit "." ∉ uri.splitOn slash
  noDotDot : lit ".." ∉ uri.splitOn slash
  noEmpty : [] ∉ (uri.splitOn slash).tail.dropLast

/-- A walk along the segments, `depth` levels below the root, never goes
above the root. -/
def staysInside (depth : Nat) : List Bytes → Bool
  | [] => true
  | segment :: segments =>
      if segment = [] ∨ segment = lit "." then staysInside depth segments
      else if segment = lit ".." then
        match depth with
        | 0 => false
        | depth + 1 => staysInside depth segments
      else staysInside (depth + 1) segments

theorem staysInside_of_noDotDot : ∀ {segments : List Bytes} (depth : Nat),
    lit ".." ∉ segments → staysInside depth segments = true
  | [], _, _ => rfl
  | segment :: segments, depth, h => by
      rw [List.mem_cons, not_or] at h
      obtain ⟨hne, hno⟩ := h
      have hne' : segment ≠ lit ".." := fun h' => hne h'.symm
      simp only [staysInside, if_neg hne']
      split
      · exact staysInside_of_noDotDot depth hno
      · exact staysInside_of_noDotDot (depth + 1) hno

/-! ## Surviving segments -/

/-- The segments of a target that `normalize_uri` keeps. -/
def survivingSegments (target : Bytes) : List Bytes :=
  match percentDecode (targetPath target) with
  | some decoded =>
      (foldSegments (decoded.head? == some slash) [] (split slash decoded)).getD []
  | none => []

/-- A segment's part before the query. -/
def beforeQuery (segment : Bytes) : Bytes := segment.takeWhile (· != question)

/-- The first surviving segment with a question mark, raw or encoded, has
a dot segment in front of it. -/
def DotQuery (target : Bytes) : Prop :=
  match (survivingSegments target).find? fun segment => decide (question ∈ segment) with
  | some segment => beforeQuery segment = lit "." ∨ beforeQuery segment = lit ".."
  | none => False

instance : DecidablePred DotQuery := fun target => by
  unfold DotQuery
  split <;> infer_instance

/-- A segment `normalize_uri` can keep. -/
structure Ordinary (segment : Bytes) : Prop where
  noSlash : slash ∉ segment
  nonempty : segment ≠ []
  notDot : segment ≠ lit "."
  notDotDot : segment ≠ lit ".."

theorem noSlash_of_split : ∀ {s segment : Bytes}, segment ∈ split slash s → slash ∉ segment
  | [], _, h => by simp [split] at h
  | c :: s, segment, h => by
      rw [split] at h
      by_cases hc : c = slash
      · rw [if_pos hc] at h
        rcases List.mem_cons.mp h with rfl | h
        · exact List.not_mem_nil
        · exact noSlash_of_split h
      · rw [if_neg hc] at h
        cases hs : split slash s with
        | nil =>
            rw [hs] at h
            obtain rfl := List.mem_singleton.mp h
            simpa using Ne.symm hc
        | cons w ws =>
            rw [hs] at h
            have ih : ∀ {segment}, segment ∈ w :: ws → slash ∉ segment := fun h' =>
              noSlash_of_split (hs ▸ h')
            rcases List.mem_cons.mp h with rfl | h
            · simpa using ⟨Ne.symm hc, ih (List.mem_cons_self ..)⟩
            · exact ih (List.mem_cons_of_mem _ h)

theorem ordinary_of_foldSegments {isAbsolute : Bool} :
    ∀ {segments parts parts' : List Bytes},
      foldSegments isAbsolute parts segments = some parts' →
      (∀ segment ∈ segments, slash ∉ segment) → (∀ part ∈ parts, Ordinary part) →
      ∀ part ∈ parts', Ordinary part
  | [], _, _, h, _, hparts => Option.some.inj h ▸ hparts
  | segment :: segments, parts, parts', h, hslash, hparts => by
      have hrest : ∀ segment ∈ segments, slash ∉ segment := fun s hs =>
        hslash s (List.mem_cons_of_mem _ hs)
      rw [foldSegments] at h
      by_cases hskip : segment = [] ∨ segment = lit "."
      · rw [if_pos hskip] at h
        exact ordinary_of_foldSegments h hrest hparts
      rw [if_neg hskip] at h
      by_cases hup : segment = lit ".."
      · rw [if_pos hup] at h
        split at h
        · cases h
        · exact ordinary_of_foldSegments h hrest fun part hpart =>
            hparts part (List.dropLast_subset _ hpart)
      · rw [if_neg hup] at h
        refine ordinary_of_foldSegments h hrest fun part hpart => ?_
        rcases List.mem_append.mp hpart with hpart | hpart
        · exact hparts part hpart
        · obtain rfl := List.mem_singleton.mp hpart
          exact ⟨hslash part (List.mem_cons_self ..), fun h' => hskip (Or.inl h'),
            fun h' => hskip (Or.inr h'), hup⟩

theorem survivingSegments_ordinary (target : Bytes) :
    ∀ part ∈ survivingSegments target, Ordinary part := by
  unfold survivingSegments
  split
  · rename_i decoded _
    cases hfold : foldSegments (decoded.head? == some slash) [] (split slash decoded) with
    | none => exact fun _ h => by cases h
    | some parts =>
        exact ordinary_of_foldSegments hfold (fun _ => noSlash_of_split)
          fun _ h => by cases h
  · exact fun _ h => by cases h

/-! ## Stored segments -/

/-- The segments of the stored URI behind its leading slash. -/
def storedSegments (hasTrailingSlash : Bool) : List Bytes → List Bytes
  | [] => [[]]
  | [part] =>
      if question ∈ part then [beforeQuery part]
      else part :: if hasTrailingSlash then [[]] else []
  | part :: part' :: parts =>
      if question ∈ part then [beforeQuery part]
      else part :: storedSegments hasTrailingSlash (part' :: parts)

theorem takeWhile_append_of_mem {c : UInt8} {s : Bytes} (h : c ∈ s) (t : Bytes) :
    (s ++ t).takeWhile (· != c) = s.takeWhile (· != c) := by
  rw [List.takeWhile_append, if_neg]
  intro hlen
  have hall := List.takeWhile_eq_self_iff.mp
    ((List.takeWhile_prefix (l := s) (· != c)).eq_of_length hlen)
  simpa using hall c h

theorem takeWhile_append_of_not_mem {c : UInt8} {s : Bytes} (h : c ∉ s) (t : Bytes) :
    (s ++ t).takeWhile (· != c) = s ++ t.takeWhile (· != c) :=
  List.takeWhile_append_of_pos fun d hd => by
    simpa using fun heq : d = c => h (heq ▸ hd)

theorem slash_notMem_beforeQuery {part : Bytes} (h : slash ∉ part) :
    slash ∉ beforeQuery part :=
  fun hmem => h ((List.takeWhile_prefix _).subset hmem)

theorem splitOn_writeParts (hasTrailingSlash : Bool) : ∀ {parts : List Bytes},
    (∀ part ∈ parts, Ordinary part) →
    ((writeParts hasTrailingSlash parts).takeWhile (· != question)).splitOn slash
      = storedSegments hasTrailingSlash parts
  | [], _ => rfl
  | [part], h => by
      have hpart := (h part (List.mem_cons_self ..)).noSlash
      rw [writeParts, storedSegments]
      by_cases hq : question ∈ part
      · rw [takeWhile_append_of_mem hq, if_pos hq]
        exact List.splitOn_eq_singleton (slash_notMem_beforeQuery hpart)
      · rw [takeWhile_append_of_not_mem hq, if_neg hq]
        cases hasTrailingSlash with
        | true => exact List.splitOn_append_cons_self_of_not_mem hpart []
        | false => simpa using List.splitOn_eq_singleton hpart
  | part :: part' :: parts, h => by
      have hpart := (h part (List.mem_cons_self ..)).noSlash
      rw [writeParts, storedSegments]
      · by_cases hq : question ∈ part
        · rw [takeWhile_append_of_mem hq, if_pos hq]
          exact List.splitOn_eq_singleton (slash_notMem_beforeQuery hpart)
        · rw [takeWhile_append_of_not_mem hq, if_neg hq, List.takeWhile_cons_of_pos (by decide),
            List.splitOn_append_cons_self_of_not_mem hpart,
            splitOn_writeParts hasTrailingSlash fun p hp => h p (List.mem_cons_of_mem _ hp)]
      · intro h'
        cases h'

/-- Nothing but the end of the stored URI is an empty segment. -/
theorem nil_notMem_storedSegments (hasTrailingSlash : Bool) : ∀ {parts : List Bytes},
    (∀ part ∈ parts, Ordinary part) → [] ∉ (storedSegments hasTrailingSlash parts).dropLast
  | [], _ => by simp [storedSegments]
  | [part], h => by
      have hpart := (h part (List.mem_cons_self ..)).nonempty
      rw [storedSegments]
      split
      · simp
      · cases hasTrailingSlash <;> simp [hpart.symm]
  | part :: part' :: parts, h => by
      have hpart := (h part (List.mem_cons_self ..)).nonempty
      have hrest : ∀ p ∈ part' :: parts, Ordinary p := fun p hp =>
        h p (List.mem_cons_of_mem _ hp)
      have ih := nil_notMem_storedSegments hasTrailingSlash hrest
      have hne : storedSegments hasTrailingSlash (part' :: parts) ≠ [] := by
        cases parts <;> rw [storedSegments] <;> split <;> exact List.cons_ne_nil _ _
      rw [storedSegments]
      split
      · simp
      · rw [List.dropLast_cons_of_ne_nil hne]
        simp [hpart.symm, ih]

/-- A stored dot segment comes from the cut at the query. -/
theorem mem_storedSegments (hasTrailingSlash : Bool) {d : Bytes} (hd : d ≠ [])
    (hdot : ¬Ordinary d) : ∀ {parts : List Bytes}, (∀ part ∈ parts, Ordinary part) →
    (d ∈ storedSegments hasTrailingSlash parts ↔
      ∃ part, parts.find? (fun segment => decide (question ∈ segment)) = some part
        ∧ beforeQuery part = d)
  | [], _ => by simp [storedSegments, hd]
  | [part], h => by
      have hne : d ≠ part := fun h' => hdot (h' ▸ h part (List.mem_cons_self ..))
      rw [storedSegments]
      by_cases hq : question ∈ part
      · simp [hq, eq_comm]
      · cases hasTrailingSlash <;> simp [hq, hne, hd]
  | part :: part' :: parts, h => by
      have hne : d ≠ part := fun h' => hdot (h' ▸ h part (List.mem_cons_self ..))
      have hrest : ∀ p ∈ part' :: parts, Ordinary p := fun p hp =>
        h p (List.mem_cons_of_mem _ hp)
      have ih := mem_storedSegments hasTrailingSlash hd hdot hrest
      rw [storedSegments]
      by_cases hq : question ∈ part
      · simp [hq, eq_comm]
      · have hfind : (part :: part' :: parts).find? (fun segment => decide (question ∈ segment))
            = (part' :: parts).find? fun segment => decide (question ∈ segment) :=
          List.find?_cons_of_neg (by simpa using hq)
        rw [if_neg hq, List.mem_cons, ih, hfind]
        exact or_iff_right hne

/-! ## The stored URI -/

/-- An accepted target that is not rooted has no segment left. -/
theorem parts_eq_nil_of_relative {hasTrailingSlash : Bool} {parts : List Bytes}
    (h : ∀ part ∈ parts, Ordinary part)
    (hroot : ((joinParts false hasTrailingSlash parts).takeWhile (· != question)).head?
      = some slash) : parts = [] := by
  cases parts with
  | nil => rfl
  | cons part parts =>
      obtain ⟨hslash, hne, -, -⟩ := h part (List.mem_cons_self ..)
      obtain ⟨c, part, rfl⟩ := List.exists_cons_of_ne_nil hne
      have hjoin : ∃ t, joinParts false hasTrailingSlash ((c :: part) :: parts) = c :: t := by
        cases parts with
        | nil => exact ⟨_, rfl⟩
        | cons part' parts => exact ⟨_, rfl⟩
      obtain ⟨t, ht⟩ := hjoin
      rw [ht, List.takeWhile_cons] at hroot
      split at hroot
      · obtain rfl := Option.some.inj hroot
        exact absurd (List.mem_cons_self ..) hslash
      · cases hroot

theorem splitOn_requestUri {target joined : Bytes} (h : TargetAccepted target joined) :
    ∃ hasTrailingSlash, (joined.takeWhile (· != question)).splitOn slash
      = [] :: storedSegments hasTrailingSlash (survivingSegments target) := by
  obtain ⟨-, ⟨decoded, parts, hdec, -, hfold, rfl⟩, hroot, -⟩ := h
  have hparts : survivingSegments target = parts := by
    simp only [survivingSegments, hdec, hfold, Option.getD_some]
  have hord := survivingSegments_ordinary target
  rw [hparts] at hord ⊢
  by_cases habs : decoded.head? = some slash
  · refine ⟨decoded.getLast? == some slash, ?_⟩
    rw [show (decoded.head? == some slash) = true by simp [habs], joinParts_absolute,
      List.takeWhile_cons_of_pos (by decide), ← splitOn_writeParts _ hord]
    exact List.splitOn_append_cons_self_of_not_mem (List.not_mem_nil) _
  · rw [show (decoded.head? == some slash) = false by simpa using habs] at hroot ⊢
    obtain rfl := parts_eq_nil_of_relative hord hroot
    exact ⟨false, rfl⟩

/-- An accepted target is stored in canonical form, below the root,
exactly when its query does not follow a dot segment. -/
theorem setRequestUri_canonical (p : RequestParser) (target : Bytes)
    (h : (p.setRequestUri target).2 = true) :
    (Canonical (p.setRequestUri target).1.requestUri
        ∧ staysInside 0 ((p.setRequestUri target).1.requestUri.splitOn slash) = true)
      ↔ ¬DotQuery target := by
  rcases setRequestUri_cases p target with
    ⟨-, heq⟩ | ⟨-, q, code, -, -, heq⟩ | ⟨-, joined, hacc, heq⟩
  · rw [heq] at h
    cases h
  · rw [heq] at h
    cases h
  obtain ⟨hasTrailingSlash, hsplit⟩ := splitOn_requestUri hacc
  have hord := survivingSegments_ordinary target
  have hdots : ∀ d, d = lit "." ∨ d = lit ".." →
      (d ∈ storedSegments hasTrailingSlash (survivingSegments target) ↔
        ∃ part, (survivingSegments target).find? (fun segment => decide (question ∈ segment))
          = some part ∧ beforeQuery part = d) := by
    rintro d (rfl | rfl)
    · exact mem_storedSegments _ (by decide) (fun h => h.notDot rfl) hord
    · exact mem_storedSegments _ (by decide) (fun h => h.notDotDot rfl) hord
  have hquery : DotQuery target ↔
      lit "." ∈ storedSegments hasTrailingSlash (survivingSegments target)
        ∨ lit ".." ∈ storedSegments hasTrailingSlash (survivingSegments target) := by
    rw [hdots _ (Or.inl rfl), hdots _ (Or.inr rfl), DotQuery]
    cases (survivingSegments target).find? (fun segment => decide (question ∈ segment)) with
    | none => simp
    | some part => simp
  rw [heq]
  simp only [withTarget, hquery, not_or]
  constructor
  · rintro ⟨⟨-, hdot, hdotdot, -⟩, -⟩
    rw [hsplit] at hdot hdotdot
    exact ⟨fun hm => hdot (List.mem_cons_of_mem _ hm),
      fun hm => hdotdot (List.mem_cons_of_mem _ hm)⟩
  · rintro ⟨hdot, hdotdot⟩
    have hdotdot' : lit ".." ∉ (joined.takeWhile (· != question)).splitOn slash := by
      rw [hsplit, List.mem_cons, not_or]
      exact ⟨by decide, hdotdot⟩
    refine ⟨⟨hacc.rooted, ?_, hdotdot', ?_⟩, staysInside_of_noDotDot 0 hdotdot'⟩
    · rw [hsplit, List.mem_cons, not_or]
      exact ⟨by decide, hdot⟩
    · rw [hsplit, List.tail_cons]
      exact nil_notMem_storedSegments _ hord

theorem setRequestUri_canonical_index :
    Canonical (({} : RequestParser).setRequestUri (lit "/a/../b/%2e/c?x=/..")).1.requestUri
      ∧ staysInside 0 ((({} : RequestParser).setRequestUri
        (lit "/a/../b/%2e/c?x=/..")).1.requestUri.splitOn slash) = true :=
  (setRequestUri_canonical {} _ (by decide +kernel)).mpr (by decide +kernel)

/-- The query is cut off behind the normalisation, which leaves `/..`. -/
theorem setRequestUri_not_canonical :
    ¬∀ (p : RequestParser) (target : Bytes), (p.setRequestUri target).2 = true →
      Canonical (p.setRequestUri target).1.requestUri
        ∧ staysInside 0 ((p.setRequestUri target).1.requestUri.splitOn slash) = true := by
  intro h
  have hout := (h {} (lit "/..?") (by decide +kernel)).2
  exact absurd hout (by decide +kernel)

end Webserv
