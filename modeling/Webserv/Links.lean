import Webserv.PathQuery
import Webserv.HeaderInjection

/-!
# Links back to the server

A redirect to a directory and the entries of a directory listing carry
the decoded URI and the file names as they are. Sent back as a target,
such a link is validated, decoded, normalised and cut again, so it leads
back if and only if none of these steps changes it (`PlainTarget`).
-/

universe u

namespace Webserv

open Bytes CrlfLines RequestParser

namespace RequestParser

/-! ## Targets that mean themselves -/

/-- No step of `set_request_uri` changes the target. A `%` in one of the
last two places stands for itself. -/
structure PlainTarget (target : Bytes) : Prop where
  rooted : target.head? = some slash
  valid : hasInvalidUriChar target = false
  noFragment : hash ∉ target
  noQuery : question ∉ target
  noEscape : percent ∉ target.dropLast.dropLast
  kept : ∀ segment ∈ (split slash target).tail, KeptSegment segment
  short : target.length ≤ maxUriLength

theorem percentDecode_plain : ∀ {str : Bytes}, percent ∉ str.dropLast.dropLast →
    percentDecode str = some str
  | [], _ => rfl
  | [_], _ => rfl
  | [_, _], _ => rfl
  | c :: h1 :: h2 :: str, h => by
      have hfront : (c :: h1 :: h2 :: str).dropLast.dropLast
          = c :: (h1 :: h2 :: str).dropLast.dropLast := by simp
      rw [hfront, List.mem_cons, not_or] at h
      rw [percentDecode_cons (Ne.symm h.1), percentDecode_plain h.2]
      rfl

/-- Decoding shortens a string, or leaves it as it is. -/
theorem length_percentDecode : ∀ {str decoded : Bytes}, percentDecode str = some decoded →
    decoded.length < str.length ∨ decoded = str ∧ percent ∉ str.dropLast.dropLast
  | [], _, h => by
      obtain rfl := Option.some.inj h
      exact Or.inr ⟨rfl, List.not_mem_nil⟩
  | [_], _, h => by
      obtain rfl := Option.some.inj h
      exact Or.inr ⟨rfl, List.not_mem_nil⟩
  | [_, _], _, h => by
      obtain rfl := Option.some.inj h
      exact Or.inr ⟨rfl, List.not_mem_nil⟩
  | c :: h1 :: h2 :: str, decoded, h => by
      by_cases hc : c = percent
      · subst hc
        rcases percentDecode_triplet h1 h2 with hnone | ⟨c, hone⟩
        · cases (hnone str).symm.trans h
        · have h' := (hone str).symm.trans h
          rw [Option.map_eq_some_iff] at h'
          obtain ⟨decoded, hrest, rfl⟩ := h'
          have hle : decoded.length ≤ str.length := by
            rcases length_percentDecode hrest with hlt | ⟨rfl, -⟩
            · exact Nat.le_of_lt hlt
            · exact Nat.le_refl _
          refine Or.inl ?_
          simp only [List.length_cons]
          omega
      · rw [percentDecode_cons hc, Option.map_eq_some_iff] at h
        obtain ⟨decoded, hrest, rfl⟩ := h
        rcases length_percentDecode hrest with hlt | ⟨rfl, hno⟩
        · exact Or.inl (Nat.succ_lt_succ hlt)
        · refine Or.inr ⟨rfl, ?_⟩
          have hfront : (c :: h1 :: h2 :: str).dropLast.dropLast
              = c :: (h1 :: h2 :: str).dropLast.dropLast := by simp
          rw [hfront, List.mem_cons, not_or]
          exact ⟨Ne.symm hc, hno⟩

/-! ## The length of what is stored -/

theorem length_written_foldSegments {isAbsolute : Bool} : ∀ {segments parts parts' : List Bytes},
    foldSegments isAbsolute parts segments = some parts' →
    (written parts').length ≤ (written parts).length + (written segments).length
  | [], parts, parts', h => by
      obtain rfl := Option.some.inj h
      exact Nat.le_add_right _ _
  | segment :: segments, parts, parts', h => by
      have hcons : (written (segment :: segments)).length
          = segment.length + 1 + (written segments).length := by
        simp [written]
        omega
      rw [foldSegments] at h
      split at h
      · have ih := length_written_foldSegments h
        omega
      · split at h
        · split at h
          · cases h
          · have ih := length_written_foldSegments h
            have hdrop := length_written_dropLast parts
            omega
        · have ih := length_written_foldSegments h
          have hpush : (written (parts ++ [segment])).length
              = (written parts).length + segment.length + 1 := by
            simp [written]
            omega
          omega

theorem length_writeParts_false : ∀ {parts : List Bytes}, parts ≠ [] →
    (writeParts false parts).length + 1 = (written parts).length
  | [], h => absurd rfl h
  | [part], _ => by simp [writeParts, written]
  | part :: part' :: parts, _ => by
      have ih := length_writeParts_false (List.cons_ne_nil part' parts)
      rw [writeParts]
      · simp only [written, List.flatMap_cons, List.length_append, List.length_cons,
          List.length_nil] at ih ⊢
        omega
      · exact List.cons_ne_nil _ _

theorem length_writeParts_le {parts parts' : List Bytes}
    (h : (written parts).length ≤ (written parts').length) (hasTrailingSlash : Bool) :
    (writeParts hasTrailingSlash parts).length ≤ (writeParts hasTrailingSlash parts').length := by
  cases hasTrailingSlash with
  | true => rwa [writeParts_true, writeParts_true]
  | false =>
      cases parts with
      | nil => exact Nat.zero_le _
      | cons part parts =>
          have hparts := length_writeParts_false (List.cons_ne_nil part parts)
          cases parts' with
          | nil =>
              rw [← hparts] at h
              exact absurd h (Nat.not_succ_le_zero _)
          | cons part' parts' =>
              have hparts' := length_writeParts_false (List.cons_ne_nil part' parts')
              omega

/-- What is stored is no longer than what was decoded. -/
theorem length_joined {target joined decoded : Bytes} (h : TargetAccepted target joined)
    (hdec : percentDecode (targetPath target) = some decoded) :
    joined.length ≤ decoded.length := by
  obtain ⟨decoded', parts, hdec', hne, hfold, hjoined⟩ := h.normal
  obtain rfl := Option.some.inj (hdec.symm.trans hdec')
  have hroot := h.rooted
  cases decoded with
  | nil => exact absurd rfl hne
  | cons c s =>
  by_cases hc : c = slash
  · subst hc
    have hhead : ((slash :: s).head? == some slash) = true := rfl
    rw [hhead, split, if_pos rfl, foldSegments, if_pos (Or.inl rfl)] at hfold
    rw [hhead, joinParts_absolute] at hjoined
    rw [hjoined, List.length_cons, List.length_cons]
    cases s with
    | nil =>
        obtain rfl := Option.some.inj hfold
        exact Nat.le_refl _
    | cons c s =>
        have hwritten := length_written_foldSegments hfold
        rw [List.getLast?_cons_cons]
        have hle := length_writeParts_le (by simpa [written] using hwritten)
          ((c :: s).getLast? == some slash)
        rw [writeParts_split (List.cons_ne_nil c s)] at hle
        exact Nat.succ_le_succ hle
  · have hhead : ((c :: s).head? == some slash) = false := by simpa using hc
    have hord := ordinary_of_foldSegments hfold (fun _ => noSlash_of_split) fun _ h => by cases h
    rw [hhead] at hjoined
    rw [hjoined] at hroot
    obtain rfl := parts_eq_nil_of_relative hord hroot
    rw [hjoined]
    exact Nat.succ_le_succ (Nat.zero_le _)

theorem length_stored {target joined : Bytes} (h : TargetAccepted target joined) :
    (beforeQuery joined).length ≤ target.length := by
  obtain ⟨decoded, -, hdec, -⟩ := h.normal
  have hcut : (beforeQuery joined).length ≤ joined.length := (List.takeWhile_prefix _).length_le
  have hpath : (targetPath target).length ≤ target.length := (List.takeWhile_prefix _).length_le
  have hjoined := length_joined h hdec
  rcases length_percentDecode hdec with hlt | ⟨rfl, -⟩
  · omega
  · omega

/-- A target that is stored as it is. -/
theorem plain_of_accepted {target joined : Bytes} (h : TargetAccepted target joined)
    (heq : beforeQuery joined = target) : PlainTarget target := by
  obtain ⟨decoded, parts, hdec, hne, hfold, hjoined⟩ := h.normal
  have hcut : (beforeQuery joined).length ≤ joined.length := (List.takeWhile_prefix _).length_le
  have hpath : (targetPath target).length ≤ target.length := (List.takeWhile_prefix _).length_le
  have hle := length_joined h hdec
  have htarget := congrArg List.length heq
  -- Every step keeps the length, so every step changes nothing.
  have hsame : decoded = targetPath target ∧ percent ∉ (targetPath target).dropLast.dropLast := by
    refine (length_percentDecode hdec).resolve_left fun hlt => ?_
    omega
  have hwhole : targetPath target = target := by
    rw [hsame.1] at hle
    have hlength : (targetPath target).length = target.length := by omega
    exact (List.takeWhile_prefix _).eq_of_length hlength
  have hfragment : hash ∉ target := fun hmem => by
    have hall := List.takeWhile_eq_self_iff.mp hwhole hash hmem
    simp at hall
  rw [hwhole] at hsame
  obtain ⟨rfl, hescape⟩ := hsame
  have hjoinedEq : beforeQuery joined = joined := by
    have hlength : (beforeQuery joined).length = joined.length := by omega
    exact (List.takeWhile_prefix _).eq_of_length hlength
  obtain rfl : joined = decoded := hjoinedEq.symm.trans heq
  have hquery : question ∉ joined := fun hmem => by
    have hall := List.takeWhile_eq_self_iff.mp hjoinedEq question hmem
    simp at hall
  have hrooted : joined.head? = some slash := by
    have hroot := h.rooted
    rwa [← beforeQuery, hjoinedEq] at hroot
  have hshort : joined.length ≤ maxUriLength := by
    have hshort := h.short
    rwa [← beforeQuery, hjoinedEq] at hshort
  refine ⟨hrooted, h.valid, hfragment, hquery, hescape, ?_, hshort⟩
  have hord := ordinary_of_foldSegments hfold (fun _ => noSlash_of_split) fun _ h => by cases h
  obtain ⟨s, rfl⟩ : ∃ s, joined = slash :: s := by
    cases joined with
    | nil => cases hrooted
    | cons c s => exact ⟨s, by rw [Option.some.inj hrooted]⟩
  have hhead : ((slash :: s).head? == some slash) = true := rfl
  rw [hhead, joinParts_absolute, List.cons.injEq] at hjoined
  rw [split, if_pos rfl, List.tail_cons, hjoined.2]
  intro segment hsegment
  have hpart : segment ∈ parts := by
    cases parts with
    | nil => cases hsegment
    | cons part parts =>
        have hpart := hord part List.mem_cons_self
        rw [(tail_split_writeParts _ hpart.noSlash fun p hp =>
          hord p (List.mem_cons_of_mem _ hp)).2 hpart.nonempty] at hsegment
        exact hsegment
  exact ⟨(hord segment hpart).nonempty, (hord segment hpart).notDot, (hord segment hpart).notDotDot⟩

theorem accepted_of_plain {target : Bytes} (h : PlainTarget target) :
    TargetAccepted target target := by
  have hwhole : targetPath target = target := takeWhile_of_not_mem h.noFragment
  have hcut : target.takeWhile (· != question) = target := takeWhile_of_not_mem h.noQuery
  obtain ⟨s, rfl⟩ : ∃ s, target = slash :: s := by
    have hrooted := h.rooted
    cases target with
    | nil => cases hrooted
    | cons c s => exact ⟨s, by rw [Option.some.inj hrooted]⟩
  have hhead : ((slash :: s).head? == some slash) = true := rfl
  have hkept := h.kept
  rw [split, if_pos rfl, List.tail_cons] at hkept
  refine ⟨h.valid, ⟨slash :: s, split slash s, ?_, List.cons_ne_nil _ _, ?_, ?_⟩, ?_, ?_⟩
  · rw [hwhole]
    exact percentDecode_plain h.noEscape
  · rw [split, if_pos rfl, foldSegments, if_pos (Or.inl rfl), foldSegments_kept _ hkept,
      List.nil_append]
  · rw [hhead, joinParts_absolute]
    cases s with
    | nil => rfl
    | cons c s => rw [List.getLast?_cons_cons, writeParts_split (List.cons_ne_nil c s)]
  · rw [hcut]
    rfl
  · rw [hcut]
    exact h.short

/-- The request line with this target. -/
def targetLine (method target : Bytes) : Bytes :=
  method ++ space :: (target ++ space :: lit "HTTP/1.1")

/-- A request for `target` asks for `uri`: the target is accepted, alone
and in a request line, and stored as `uri`. -/
structure LeadsBack (target uri : Bytes) : Prop where
  accepted : (({} : RequestParser).setRequestUri target).2 = true
  stored : (({} : RequestParser).setRequestUri target).1.requestUri = uri
  line : ∀ method ∈ httpMethods, ∀ rest, rest ≠ [] →
    (({} : RequestParser).parseRequestLine
        (targetLine method target ++ [cr, lf] ++ rest)).1.state = .headers
      ∧ (({} : RequestParser).parseRequestLine
        (targetLine method target ++ [cr, lf] ++ rest)).1.requestUri = uri

theorem LeadsBack.length_le {target uri : Bytes} (h : LeadsBack target uri) :
    uri.length ≤ target.length ∧ question ∉ uri := by
  obtain ⟨joined, hacc, heq⟩ := setRequestUri_accepted.mp h.accepted
  have huri : beforeQuery joined = uri := by
    have hstored := h.stored
    rwa [heq] at hstored
  rw [← huri]
  refine ⟨length_stored hacc, fun hmem => ?_⟩
  simpa using List.mem_takeWhile_imp hmem

theorem cr_notMem_targetLine {method target : Bytes} (hm : method ∈ httpMethods)
    (hvalid : hasInvalidUriChar target = false) : cr ∉ targetLine method target := by
  have hmethod : ∀ method ∈ httpMethods, cr ∉ method := by decide
  have htarget : cr ∉ target := by
    intro hmem
    have hinvalid : hasInvalidUriChar target = true := by
      unfold hasInvalidUriChar
      rw [Bool.or_eq_true]
      exact Or.inl (List.any_eq_true.mpr ⟨cr, hmem, by decide⟩)
    cases hvalid.symm.trans hinvalid
  rw [targetLine, List.mem_append, List.mem_cons, List.mem_append, not_or, not_or, not_or]
  exact ⟨hmethod method hm, by decide, htarget, by decide⟩

theorem length_targetLine {method target : Bytes} (hm : method ∈ httpMethods)
    (hshort : target.length ≤ maxUriLength) :
    (targetLine method target).length + 2 ≤ maxRequestLineLength := by
  have hmethod : ∀ method ∈ httpMethods, method.length ≤ 6 := by decide
  have hle := hmethod method hm
  have hversion : (lit "HTTP/1.1").length = 8 := by decide
  simp only [targetLine, List.length_append, List.length_cons, hversion, maxUriLength,
    maxRequestLineLength] at hshort ⊢
  omega

/-- A link is its own target if and only if it is plain. -/
theorem leadsBack_iff (target : Bytes) : LeadsBack target target ↔ PlainTarget target := by
  constructor
  · intro h
    obtain ⟨joined, hacc, heq⟩ := setRequestUri_accepted.mp h.accepted
    have hstored := h.stored
    rw [heq] at hstored
    exact plain_of_accepted hacc hstored
  · intro h
    have hacc := accepted_of_plain h
    have hcut : target.takeWhile (· != question) = target := takeWhile_of_not_mem h.noQuery
    refine ⟨setRequestUri_of_accepted hacc, ?_, fun method hm rest hrest => ?_⟩
    · rw [setRequestUri_eq _ hacc, withTarget]
      exact hcut
    · have ht : (({} : RequestParser).setRequestUri target).2 = true :=
        setRequestUri_of_accepted hacc
      obtain ⟨hstate, joined, hacc', huri⟩ := parseRequestLine_fields
        (isLine_of_noCr (cr_notMem_targetLine hm h.valid)) hrest
        (length_targetLine hm h.short) hm ht (split_requestLine hm ht).1
      obtain rfl := hacc.unique hacc'
      exact ⟨hstate, huri.trans hcut⟩

end RequestParser

/-! ## Following a link -/

/-- The reference starts with the scheme of a URI. -/
def hasScheme (ref : Bytes) : Bool :=
  decide (colon ∈ ref) && (ref.head?.any fun c => isupper c || islower c)
    && (ref.takeWhile (· != colon)).all fun c => isalnum c || decide (c ∈ lit "+-.")

/-- The directory above one, whose path ends with a slash. -/
def parentPath (base : Bytes) : Bytes :=
  if base = [slash] then base else base.dropLast.rdropWhile (· != slash)

theorem length_parentPath (base : Bytes) : (parentPath base).length ≤ base.length := by
  unfold parentPath
  split
  · exact Nat.le_refl _
  · exact Nat.le_trans (List.rdropWhile_prefix _ _).length_le (List.dropLast_prefix base).length_le

/-- The target a client asks for when it follows `ref` on a page at
`base`, a path that ends with a slash: a reference of one segment, with a
query or a fragment where it has a `?` or a `#`. Nothing for a reference
with a scheme, which leads elsewhere. -/
def resolve (base ref : Bytes) : Option Bytes :=
  let ref := ref.takeWhile (· != hash)
  let path := ref.takeWhile (· != question)
  let query := ref.dropWhile (· != question)
  if hasScheme ref then none
  else if path = lit "." then some (base ++ query)
  else if path = lit ".." then some (parentPath base ++ query)
  else some (base ++ path ++ query)

theorem length_resolve {base ref target : Bytes} (h : resolve base ref = some target) :
    target.length ≤ base.length + (ref.takeWhile (· != hash)).length
      ∧ (ref.takeWhile (· != hash) = lit "." ∨ ref.takeWhile (· != hash) = lit ".." →
        target.length ≤ base.length) := by
  simp only [resolve] at h
  generalize ref.takeWhile (· != hash) = ref at h ⊢
  have hparts : (ref.takeWhile (· != question)).length + (ref.dropWhile (· != question)).length
      = ref.length := by
    rw [← List.length_append, List.takeWhile_append_dropWhile]
  have hparent := length_parentPath base
  have hdots : ref = lit "." ∨ ref = lit ".." → ref.dropWhile (· != question) = [] := by
    rintro (rfl | rfl) <;> decide
  split at h
  · cases h
  split at h
  · obtain rfl := Option.some.inj h
    refine ⟨?_, fun hdot => ?_⟩
    · rw [List.length_append]
      omega
    · rw [hdots hdot, List.append_nil]
  split at h
  · obtain rfl := Option.some.inj h
    refine ⟨?_, fun hdot => ?_⟩
    · rw [List.length_append]
      omega
    · rw [hdots hdot, List.append_nil]
      exact hparent
  · rename_i hdot hdotdot
    obtain rfl := Option.some.inj h
    refine ⟨?_, fun h => ?_⟩
    · rw [List.length_append, List.length_append]
      omega
    · rcases h with rfl | rfl
      · exact absurd (by decide) hdot
      · exact absurd (by decide) hdotdot

/-- A reference without delimiters is put behind the base. -/
theorem resolve_plain {base ref : Bytes} (hhash : hash ∉ ref) (hquestion : question ∉ ref)
    (hdot : ref ≠ lit ".") (hdotdot : ref ≠ lit "..") :
    resolve base ref = if hasScheme ref then none else some (base ++ ref) := by
  have hquery : ref.dropWhile (· != question) = [] := by
    rw [List.dropWhile_eq_nil_iff]
    exact fun c hc => by simpa using fun heq : c = question => hquestion (heq ▸ hc)
  simp only [resolve, takeWhile_of_not_mem hhash, takeWhile_of_not_mem hquestion, if_neg hdot,
    if_neg hdotdot, hquery, List.append_nil]

/-! ## The links of a response -/

section Links

open ResponseBuilder RequestParser

variable {W : Type} (os : OS W) (env : Env) (w : W) (b : ResponseBuilder) (l : Location)

/-- The `href` of an entry: a slash behind a directory. -/
def entryHref (path entryName : Bytes) : Bytes :=
  entryName ++ if (os.stat w (path ++ slash :: entryName)).any fun st => st.isDir then [slash]
    else []

/-- The `href`s of a listing. -/
def listingHrefs (path : Bytes) (names : List Bytes) : List Bytes :=
  (names.filter fun name => name ∉ [lit ".", lit ".."]).map (entryHref os w path)

/-- The entries a GET of the directory lists, if it lists them. -/
def listedNames (uri : Bytes) : Option (List Bytes) :=
  if (uri = [slash] ∧ l.root = []) ∨ noTrailingSlash uri = true ∨ l.autoindex = false
      ∨ (os.stat w (l.root ++ uri)).any (fun st => st.isDir) = false
      ∨ (os.stat w (l.root ++ uri ++ l.index)).isSome = true then none
  else os.readDir w (l.root ++ uri)

/-- The page of a listing with these `href`s. -/
def listingPage (path : Bytes) (hrefs : List Bytes) : Bytes :=
  lit "<html>\n<head>\n<title>Directory Listing</title>\n</head>\n"
    ++ lit "<body>\n<h1 style=\"color:#4b4b4b;font-family:sans-serif;\">Directory Listing for "
    ++ path ++ lit "</h1><hr>\n" ++ lit "<ul>\n"
    ++ (hrefs.map fun href => listingEntry env.httpDate href []).flatten
    ++ lit "</ul>\n</body>\n</html>"

/-- The links of the response lead back to the directory, and to its
entries. -/
structure LinksLeadBack : Prop where
  redirect : directoryRedirect os w l b.request.requestUri = true →
    ∀ route ∈ [Route.doGet, Route.doDelete], ∃ value,
      (runRoute os env route w b l).1.headers.get? (lit "Location") = some value
        ∧ LeadsBack value (b.request.requestUri ++ [slash])
  listing : ∀ names, listedNames os w l b.request.requestUri = some names →
    (doGet os env w b l).body = listingPage env (l.root ++ b.request.requestUri)
        (listingHrefs os w (l.root ++ b.request.requestUri) names)
      ∧ ∀ href ∈ listingHrefs os w (l.root ++ b.request.requestUri) names, ∃ target,
        resolve b.request.requestUri href = some target
          ∧ LeadsBack target (b.request.requestUri ++ href)

/-- The links of the response are plain. -/
structure LinksPlain (uri : Bytes) : Prop where
  redirect : directoryRedirect os w l uri = true → PlainTarget (uri ++ [slash])
  listing : ∀ names, listedNames os w l uri = some names →
    ∀ href ∈ listingHrefs os w (l.root ++ uri) names,
      PlainTarget (uri ++ href) ∧ hasScheme href = false

variable {os env w b l}

theorem listingEntry_href (httpDate entryName suffix : Bytes) :
    listingEntry httpDate entryName suffix = listingEntry httpDate (entryName ++ suffix) [] := by
  simp [listingEntry]

theorem generateDirectoryListing_page {path : Bytes} {names : List Bytes}
    (h : os.readDir w path = some names) :
    (b.generateDirectoryListing os w env path).2
      = listingPage env path (listingHrefs os w path names) := by
  rw [generateDirectoryListing, h]
  simp only [listingPage, listingHrefs, List.map_map]
  refine congrArg (fun entries => _ ++ List.flatten entries ++ _) ?_
  exact List.map_congr_left fun name _ => listingEntry_href _ _ _

theorem doGet_listing {names : List Bytes}
    (h : listedNames os w l b.request.requestUri = some names) :
    (doGet os env w b l).body = listingPage env (l.root ++ b.request.requestUri)
      (listingHrefs os w (l.root ++ b.request.requestUri) names) := by
  unfold listedNames at h
  split at h
  · cases h
  rename_i hno
  simp only [not_or] at hno
  obtain ⟨hroot, hslash, hauto, hdir, hindex⟩ := hno
  have hpage : listingPage env (l.root ++ b.request.requestUri)
      (listingHrefs os w (l.root ++ b.request.requestUri) names) ≠ [] := by
    simp [listingPage, lit]
  rw [doGet]
  simp only [if_neg hroot]
  cases hstat : os.stat w (l.root ++ b.request.requestUri) with
  | none => simp [hstat] at hdir
  | some fileStat =>
      have hfile : fileStat.isDir = true := by simpa [hstat] using hdir
      cases hstat' : os.stat w (l.root ++ b.request.requestUri ++ l.index) with
      | some fileStat' => exact absurd (by rw [hstat']; rfl) hindex
      | none =>
          have hlisting := @generateDirectoryListing_page W os env w b _ _ h
          have hautoindex : l.autoindex = true := by simpa using hauto
          simp only [hfile, if_true, if_neg hslash, hautoindex, hlisting, if_neg hpage]
          rfl

theorem location_redirect (h : directoryRedirect os w l b.request.requestUri = true) :
    ∀ route ∈ [Route.doGet, Route.doDelete],
      (runRoute os env route w b l).1.headers.get? (lit "Location")
        = some (b.request.requestUri ++ [slash]) := by
  rw [directoryRedirect, Bool.and_eq_true] at h
  obtain ⟨hdir, hslash⟩ := h
  cases hstat : os.stat w (l.root ++ b.request.requestUri) with
  | none => simp [hstat] at hdir
  | some fileStat =>
      have hfile : fileStat.isDir = true := by simpa [hstat] using hdir
      have hroot : ¬(b.request.requestUri = [slash] ∧ l.root = []) := by
        rintro ⟨huri, -⟩
        rw [huri] at hslash
        cases hslash
      intro route hroute
      rcases List.mem_cons.mp hroute with rfl | hroute
      · simp only [runRoute, doGet, if_neg hroot, hstat, hfile, hslash, if_true, setHeaders]
        exact OrdMap.get?_insert_self _ _ _
      · obtain rfl := List.mem_singleton.mp hroute
        simp only [runRoute, doDelete, hstat, hfile, hslash, if_true, setHeaders, setBody]
        exact OrdMap.get?_insert_self _ _ _

/-- A link that leads back is not cut, and stays in its directory. -/
theorem href_of_leadsBack {uri href target : Bytes} (hres : resolve uri href = some target)
    (h : LeadsBack target (uri ++ href)) :
    target = uri ++ href ∧ hasScheme href = false := by
  obtain ⟨hle, hquestion⟩ := h.length_le
  obtain ⟨hcut, hdots⟩ := length_resolve hres
  rw [List.length_append] at hle
  have hhash : hash ∉ href := by
    intro hmem
    have hlt : (href.takeWhile (· != hash)).length < href.length := by
      refine Nat.lt_of_le_of_ne (List.takeWhile_prefix _).length_le fun heq => ?_
      have hall := List.takeWhile_eq_self_iff.mp
        ((List.takeWhile_prefix _).eq_of_length heq) hash hmem
      simp at hall
    omega
  rw [takeWhile_of_not_mem hhash] at hdots
  have hno : ∀ d, (d = lit "." ∨ d = lit "..") → href ≠ d := by
    rintro d hd rfl
    have hshort := hdots hd
    have hpos : 0 < href.length := by
      rcases hd with rfl | rfl <;> decide
    omega
  have hquestion' : question ∉ href := fun hmem => hquestion (List.mem_append_right _ hmem)
  rw [resolve_plain hhash hquestion' (hno _ (Or.inl rfl)) (hno _ (Or.inr rfl))] at hres
  split at hres
  · cases hres
  · rename_i hscheme
    exact ⟨(Option.some.inj hres).symm, by simpa using hscheme⟩

theorem resolve_of_plain {uri href : Bytes} (hslash : uri.getLast? = some slash)
    (h : PlainTarget (uri ++ href)) (hscheme : hasScheme href = false) :
    resolve uri href = some (uri ++ href) := by
  have hhash : hash ∉ href := fun hmem => h.noFragment (List.mem_append_right _ hmem)
  have hquestion : question ∉ href := fun hmem => h.noQuery (List.mem_append_right _ hmem)
  have hsegment : ∀ segment ∈ split slash href, KeptSegment segment := by
    intro segment hmem
    refine h.kept segment ?_
    rw [split_append href fun c hc => Option.some.inj (hc.symm.trans hslash)]
    cases huri : split slash uri with
    | nil =>
        rw [split_eq_nil huri] at hslash
        cases hslash
    | cons first rest => exact List.mem_append_right _ hmem
  have hdot : href ≠ lit "." := by
    rintro rfl
    exact absurd (hsegment (lit ".") (by decide)) (by decide)
  have hdotdot : href ≠ lit ".." := by
    rintro rfl
    exact absurd (hsegment (lit "..") (by decide)) (by decide)
  rw [resolve_plain hhash hquestion hdot hdotdot, hscheme]
  rfl

theorem linksLeadBack_iff :
    LinksLeadBack os env w b l ↔ LinksPlain os w l b.request.requestUri := by
  constructor
  · intro h
    constructor
    · intro hredirect
      obtain ⟨value, hvalue, hback⟩ := h.redirect hredirect .doGet List.mem_cons_self
      rw [location_redirect hredirect .doGet List.mem_cons_self] at hvalue
      obtain rfl := Option.some.inj hvalue
      exact (leadsBack_iff _).mp hback
    · intro names hnames href hhref
      obtain ⟨target, hres, hback⟩ := (h.listing names hnames).2 href hhref
      obtain ⟨rfl, hscheme⟩ := href_of_leadsBack hres hback
      exact ⟨(leadsBack_iff _).mp hback, hscheme⟩
  · intro h
    constructor
    · intro hredirect route hroute
      exact ⟨_, location_redirect hredirect route hroute,
        (leadsBack_iff _).mpr (h.redirect hredirect)⟩
    · intro names hnames
      refine ⟨doGet_listing hnames, fun href hhref => ?_⟩
      obtain ⟨hplain, hscheme⟩ := h.listing names hnames href hhref
      have hslash : b.request.requestUri.getLast? = some slash := by
        unfold listedNames at hnames
        split at hnames
        · cases hnames
        · rename_i hno
          simp only [not_or] at hno
          simpa [noTrailingSlash] using hno.2.1
      exact ⟨_, resolve_of_plain hslash hplain hscheme, (leadsBack_iff _).mpr hplain⟩

end Links

open ResponseBuilder

/-- A request for a directory whose name has a space. -/
def spacedRequest : RequestParser := (({} : RequestParser).setRequestUri (lit "/a%20b")).1

/-- The space of the URI is not encoded again in the `Location`. -/
theorem not_linksLeadBack :
    ¬∀ (target : Bytes) (b : ResponseBuilder) (l : Location),
      (({} : RequestParser).setRequestUri target).2 = true →
      b.request = (({} : RequestParser).setRequestUri target).1 →
      LinksLeadBack directoryOs { now := 0 } () b l := by
  intro h
  have hback := h (lit "/a%20b") { request := spacedRequest, statusCode := 0 } {}
    (by decide +kernel)
    rfl
  have hredirect : directoryRedirect directoryOs () {} spacedRequest.requestUri = true := by
    decide +kernel
  have hplain := (linksLeadBack_iff.mp hback).redirect hredirect
  exact absurd hplain.valid (by decide +kernel)

end Webserv
