import Webserv.ScriptSource

/-!
# What a GET delivers

`doGET` looks at the type and at one permission bit of its target, and
then reads the file with `read_file`, which returns an empty string when
the file does not open. So a file that has the bit, but does not open or
is not a regular one, is answered 200 all the same. `getsContent_iff` says
that nothing else goes wrong. Which files are regular is a parameter: the
code does not ask.
-/

namespace Webserv

open Bytes

namespace ResponseBuilder

section Content

variable {W : Type} (os : OS W) (env : Env) (regular : W → Bytes → Prop) (w : W) (l : Location)

/-- `path` is the file a GET of `uri` resolves to: the target, or the
index of a directory. -/
inductive Resolves (uri : Bytes) : Bytes → Prop where
  | file {st : FileStat} (hstat : os.stat w (l.root ++ uri) = some st) (hfile : st.isDir = false) :
      Resolves uri (l.root ++ uri)
  | index {st indexStat : FileStat} (hstat : os.stat w (l.root ++ uri) = some st)
      (hdir : st.isDir = true) (hslash : noTrailingSlash uri = false)
      (hindex : os.stat w (l.root ++ uri ++ l.index) = some indexStat) :
      Resolves uri (l.root ++ uri ++ l.index)

/-- `body` is what a GET of `uri` asks for. -/
inductive Delivered (b : ResponseBuilder) (uri : Bytes) : Bytes → Prop where
  | root (huri : uri = [slash]) (hroot : l.root = []) :
      Delivered b uri b.generateDefaultRoot.2
  | listing {st : FileStat} {names : List Bytes} (hstat : os.stat w (l.root ++ uri) = some st)
      (hdir : st.isDir = true) (hslash : noTrailingSlash uri = false)
      (hindex : os.stat w (l.root ++ uri ++ l.index) = none) (hauto : l.autoindex = true)
      (hnames : os.readDir w (l.root ++ uri) = some names) :
      Delivered b uri (b.generateDirectoryListing os w env (l.root ++ uri)).2
  | file {path content : Bytes} (hpath : Resolves os w l uri path) (hregular : regular w path)
      (hread : os.readFile w path = some content) : Delivered b uri content

/-- There is a directory at `path`. -/
def IsDirectory (path : Bytes) : Prop := ∃ st, os.stat w path = some st ∧ st.isDir = true

/-- There is a regular file at `path` that opens. -/
def IsReadable (path : Bytes) : Prop := regular w path ∧ (os.readFile w path).isSome

/-- A GET that is answered 200 has delivered its target, and one whose
target is neither a readable regular file nor a directory is answered with
an error. -/
structure GetsContent (b : ResponseBuilder) : Prop where
  delivered : (doGet os env w b l).statusCode = 200 →
    Delivered os env regular w l b b.request.requestUri (doGet os env w b l).body
  error : ¬(b.request.requestUri = [slash] ∧ l.root = []) →
    ¬IsDirectory os w (l.root ++ b.request.requestUri) →
    ¬IsReadable os regular w (l.root ++ b.request.requestUri) →
    400 ≤ (doGet os env w b l).statusCode

/-- How `doGET` ends. -/
inductive GetResult (b : ResponseBuilder) (uri : Bytes) : ResponseBuilder → Prop where
  | page {r : ResponseBuilder} (htarget : getTarget os w l uri = none)
      (hstatus : r.statusCode = 200) (hbody : Delivered os env regular w l b uri r.body)
      (hplace : uri = [slash] ∧ l.root = [] ∨ IsDirectory os w (l.root ++ uri)) :
      GetResult b uri r
  | file {r : ResponseBuilder} {path : Bytes} (htarget : getTarget os w l uri = some path)
      (hpath : Resolves os w l uri path) (hstatus : r.statusCode = 200)
      (hbody : r.body = (os.readFile w path).getD []) : GetResult b uri r
  | redirected {r : ResponseBuilder} (htarget : getTarget os w l uri = none)
      (hstatus : r.statusCode = 301) (hdir : IsDirectory os w (l.root ++ uri)) : GetResult b uri r
  | refused {r : ResponseBuilder} (hstatus : r.statusCode = 403 ∨ r.statusCode = 404)
      (htarget : getTarget os w l uri = none) : GetResult b uri r

variable {os env regular w l}

theorem setErrorPage_statusCode (b : ResponseBuilder) (code : Int) :
    (b.setErrorPage os w code).statusCode = toShort code := by
  obtain ⟨headers, body, hpage⟩ := setErrorPage_eq os w b code
  rw [hpage]

/-- The end of `doGET`, for the file it resolves to. -/
theorem getResult_sendFile {b : ResponseBuilder} {uri path : Bytes} {st : FileStat}
    (htarget : getTarget os w l uri = readableFile path st) (hpath : Resolves os w l uri path) :
    GetResult os env regular w l b uri (sendFile os w b path st) := by
  unfold sendFile
  cases hread : st.ownerRead with
  | false =>
      rw [readableFile, hread] at htarget
      exact .refused (.inl (setErrorPage_statusCode b 403)) htarget
  | true =>
      rw [readableFile, hread] at htarget
      refine .file htarget hpath rfl ?_
      simp only [readFile]
      cases os.readFile w path with
      | none => rfl
      | some content => rfl

theorem getResult_doGet (b : ResponseBuilder) :
    GetResult os env regular w l b b.request.requestUri (doGet os env w b l) := by
  simp only [doGet]
  by_cases hroot : b.request.requestUri = [slash] ∧ l.root = []
  · rw [if_pos hroot]
    exact .page (if_pos hroot) rfl (.root hroot.1 hroot.2) (.inl hroot)
  rw [if_neg hroot]
  have htarget : getTarget os w l b.request.requestUri = _ := if_neg hroot
  cases hstat : os.stat w (l.root ++ b.request.requestUri) with
  | none =>
      rw [hstat] at htarget
      exact .refused (.inr (setErrorPage_statusCode b 404)) htarget
  | some st =>
  rw [hstat, Option.bind_some] at htarget
  simp only
  cases hdir : st.isDir with
  | false =>
      rw [hdir] at htarget
      exact getResult_sendFile htarget (.file hstat hdir)
  | true =>
  have hplace : IsDirectory os w (l.root ++ b.request.requestUri) := ⟨st, hstat, hdir⟩
  rw [hdir] at htarget
  simp only [if_true] at htarget ⊢
  cases hslash : noTrailingSlash b.request.requestUri with
  | true =>
      rw [hslash] at htarget
      exact .redirected htarget (setErrorPage_statusCode b 301) hplace
  | false =>
  rw [hslash] at htarget
  simp only [Bool.false_eq_true, if_false] at htarget ⊢
  cases hindex : os.stat w (l.root ++ b.request.requestUri ++ l.index) with
  | some indexStat =>
      rw [hindex] at htarget
      exact getResult_sendFile htarget (.index hstat hdir hslash hindex)
  | none =>
  rw [hindex] at htarget
  cases hauto : l.autoindex with
  | false => exact .refused (.inl (setErrorPage_statusCode b 403)) htarget
  | true =>
  simp only [if_true]
  split
  · exact .refused (.inl (setErrorPage_statusCode _ 403)) htarget
  · rename_i hpage
    cases hnames : os.readDir w (l.root ++ b.request.requestUri) with
    | none =>
        refine absurd ?_ hpage
        simp only [generateDirectoryListing, hnames]
    | some names =>
        exact .page htarget rfl (.listing hstat hdir hslash hindex hauto hnames) (.inr hplace)

theorem not_root_of_getTarget {uri path : Bytes} (h : getTarget os w l uri = some path) :
    ¬(uri = [slash] ∧ l.root = []) := by
  intro hroot
  rw [getTarget, if_pos hroot] at h
  cases h

theorem Resolves.of_getTarget {uri path path' : Bytes}
    (htarget : getTarget os w l uri = some path) (h : Resolves os w l uri path') :
    path' = path := by
  have hreadable {st : FileStat} (h : readableFile path' st = some path) : path' = path := by
    unfold readableFile at h
    split at h
    · exact Option.some.inj h
    · cases h
  rw [getTarget, if_neg (not_root_of_getTarget htarget)] at htarget
  cases h with
  | file hstat hfile =>
      simp only [hstat, Option.bind_some, hfile, Bool.false_eq_true, if_false] at htarget
      exact hreadable htarget
  | index hstat hdir hslash hindex =>
      simp only [hstat, Option.bind_some, hdir, if_true, hslash, Bool.false_eq_true, if_false,
        hindex] at htarget
      exact hreadable htarget

/-- A GET that reads a file has delivered it exactly if it is a regular
file that opens. -/
theorem delivered_iff {b : ResponseBuilder} {uri path body : Bytes}
    (htarget : getTarget os w l uri = some path) (hpath : Resolves os w l uri path)
    (hbody : body = (os.readFile w path).getD []) :
    Delivered os env regular w l b uri body ↔ IsReadable os regular w path := by
  constructor
  · intro h
    cases h with
    | root huri hroot => exact absurd ⟨huri, hroot⟩ (not_root_of_getTarget htarget)
    | listing hstat hdir hslash hindex =>
        rw [getTarget, if_neg (not_root_of_getTarget htarget)] at htarget
        simp only [hstat, Option.bind_some, hdir, if_true, hslash, Bool.false_eq_true, if_false,
          hindex, Option.bind_none, reduceCtorEq] at htarget
    | file hpath hregular hread =>
        obtain rfl := hpath.of_getTarget htarget
        exact ⟨hregular, by rw [hread]; rfl⟩
  · rintro ⟨hregular, hread⟩
    obtain ⟨content, hcontent⟩ := Option.isSome_iff_exists.mp hread
    rw [hbody, hcontent]
    exact .file hpath hregular hcontent

/-- A GET is answered 200 with its target, and with an error when it has
none, exactly if the file that it reads, if any, is a regular one that
opens. -/
theorem getsContent_iff (b : ResponseBuilder) :
    GetsContent os env regular w l b
      ↔ ∀ path, getTarget os w l b.request.requestUri = some path →
        IsReadable os regular w path := by
  have hresult : GetResult os env regular w l b b.request.requestUri (doGet os env w b l) :=
    getResult_doGet b
  constructor
  · intro h path htarget
    cases hresult with
    | page hnone => cases hnone.symm.trans htarget
    | redirected hnone => cases hnone.symm.trans htarget
    | refused _ hnone => cases hnone.symm.trans htarget
    | file htarget' hpath hstatus hbody =>
        obtain rfl := Option.some.inj (htarget'.symm.trans htarget)
        exact (delivered_iff htarget hpath hbody).mp (h.delivered hstatus)
  · intro hreadable
    cases hresult with
    | page _ hstatus hbody hplace =>
        refine ⟨fun _ => hbody, fun hroot hdir => ?_⟩
        rcases hplace with hplace | hplace
        · exact absurd hplace hroot
        · exact absurd hplace hdir
    | @file path htarget hpath hstatus hbody =>
        have hfile := hreadable path htarget
        refine ⟨fun _ => (delivered_iff htarget hpath hbody).mpr hfile,
          fun _ hdir hunreadable => ?_⟩
        cases hpath with
        | file => exact absurd hfile hunreadable
        | index hstat hisDir => exact absurd ⟨_, hstat, hisDir⟩ hdir
    | redirected _ hstatus hplace =>
        refine ⟨fun h => absurd (hstatus.symm.trans h) (by decide), fun _ hdir => ?_⟩
        exact absurd hplace hdir
    | refused hstatus =>
        constructor
        · intro h
          rw [h] at hstatus
          exact absurd hstatus (by decide)
        · intro _ _ _
          rcases hstatus with hstatus | hstatus
          · rw [hstatus]
            decide
          · rw [hstatus]
            decide

end Content

/-- A file system where the file at every path has the bit, and opens for
nobody. -/
def closedOs : OS Unit := { flatOs with readFile := fun _ _ => none }

/-- A request for one of them. -/
def closedRequest : ResponseBuilder := { request := { requestUri := lit "/a" }, statusCode := 0 }

/-- A file that does not open is answered 200, with an empty body. -/
theorem not_getsContent :
    ¬∀ (W : Type) (os : OS W) (env : Env) (regular : W → Bytes → Prop) (w : W) (l : Location)
      (b : ResponseBuilder), GetsContent os env regular w l b := by
  intro h
  have hget := h Unit closedOs { now := 0 } (fun _ _ => True) () { root := lit "/www" }
    closedRequest
  have htarget : getTarget closedOs () { root := lit "/www" } (lit "/a")
      = some (lit "/www" ++ lit "/a") := rfl
  have hpath : Resolves closedOs () { root := lit "/www" } (lit "/a") (lit "/www" ++ lit "/a") :=
    .file rfl rfl
  have hreadable := (delivered_iff htarget hpath rfl).mp (hget.delivered rfl)
  exact absurd hreadable.2 (by decide)

end ResponseBuilder

end Webserv
