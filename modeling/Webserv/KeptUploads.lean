import Webserv.Uploads

/-!
# Uploads one after the other

The name of an upload is made of the second it arrives in and, in a
multipart body, of the name the client chose. The file is truncated
if it exists. So the files of a run of uploads are kept as long as no two
of them with different contents get the same name: in one second, by two
raw uploads to one directory or under one chosen name.
-/

namespace Webserv

open Bytes

/-- What writing a file does to the files that can be read. `Same` relates
the names of one file. -/
structure OS.Stores {W : Type} (os : OS W) (Same : Bytes → Bytes → Prop) : Prop where
  written : ∀ w path content, (os.writeFile w path content).2 = true →
    os.readFile (os.writeFile w path content).1 path = some content
  failed : ∀ w path content, (os.writeFile w path content).2 = false →
    ∀ name, os.readFile (os.writeFile w path content).1 name = os.readFile w name
  other : ∀ w path content name, ¬Same name path →
    os.readFile (os.writeFile w path content).1 name = os.readFile w name
  same : ∀ w name path, Same name path → os.readFile w name = os.readFile w path

theorem filesOs_stores (directories : List Bytes) : (filesOs directories).Stores (· = ·) where
  written w path content h := by
    simp only [filesOs] at h ⊢
    split at h
    · cases h
    · rename_i hpath
      rw [if_neg hpath]
      exact OrdMap.get?_insert_self w path content
  failed w path content h name := by
    simp only [filesOs] at h ⊢
    split at h
    · rename_i hpath
      rw [if_pos hpath]
    · cases h
  other w path content name h := by
    simp only [filesOs]
    split
    · rfl
    · exact OrdMap.get?_insert_of_ne w (Ne.symm h) content
  same w name path h := by rw [h]

namespace ResponseBuilder

section Kept

variable {W : Type} (os : OS W) (Same : Bytes → Bytes → Prop)

/-- Every one of the files can be read with its content. -/
def FilesKept (w : W) (files : List NewFile) : Prop :=
  ∀ f ∈ files, os.readFile w f.path = some f.content

/-- Two files do not take each other's place. -/
def NoClash (f g : NewFile) : Prop := Same f.path g.path → f.content = g.content

variable {os Same} {w : W} {log files : List NewFile}

theorem FilesKept.noClash (hos : os.Stores Same) (h : FilesKept os w files) :
    files.Pairwise (NoClash Same) := by
  refine List.pairwise_of_forall_mem_list fun f hf g hg hsame => ?_
  have hread := hos.same w f.path g.path hsame
  rw [h f hf, h g hg] at hread
  exact Option.some.inj hread

/-- One file is written behind those of `log`. -/
theorem FilesKept.write (hos : os.Stores Same) (h : FilesKept os w log) {f : NewFile}
    (hwritten : (os.writeFile w f.path f.content).2 = true)
    (hclash : ∀ g ∈ log, NoClash Same g f) :
    FilesKept os (os.writeFile w f.path f.content).1 (log ++ [f]) := by
  intro g hg
  have hf := hos.written w f.path f.content hwritten
  rcases List.mem_append.mp hg with hg | hg
  · by_cases hsame : Same g.path f.path
    · rw [hos.same _ _ _ hsame, hf, hclash g hg hsame]
    · rw [hos.other _ _ _ _ hsame, h g hg]
  · obtain rfl := List.mem_singleton.mp hg
    exact hf

theorem FilesKept.writeAll (hos : os.Stores Same) (h : FilesKept os w log)
    (hclash : (log ++ written os files w).Pairwise (NoClash Same)) :
    FilesKept os (writeAll os files w) (log ++ written os files w) := by
  induction files generalizing w log with
  | nil => exact (List.append_nil log).symm ▸ h
  | cons f files ih =>
      rw [written] at hclash ⊢
      split
      · rename_i hwritten
        rw [if_pos hwritten, List.append_cons] at hclash
        rw [List.append_cons]
        have hlog := (List.pairwise_append.mp (List.pairwise_append.mp hclash).1).2.2
        exact ih (h.write hos hwritten fun g hg => hlog g hg f (List.mem_singleton_self f)) hclash
      · rename_i hfailed
        rw [if_neg hfailed] at hclash
        refine ih (fun g hg => ?_) hclash
        rw [hos.failed w f.path f.content (Bool.eq_false_iff.mpr hfailed), h g hg]

end Kept

/-! ## Runs -/

/-- A request that arrives at a time. -/
structure Upload where
  env : Env
  request : RequestParser
  location : Location

section Runs

variable {W : Type} (os : OS W)

/-- The request is handled by `doPOST`. -/
structure Upload.IsRouted (u : Upload) : Prop where
  error : u.request.errorCode = 0
  location : u.request.locationConfig = some u.location
  returns : u.location.hasReturn = false
  route : routeOf u.location u.request.httpMethod = some .doPost

def Upload.answer (u : Upload) (w : W) : Option (ResponseBuilder × W × Bytes) :=
  (create os w u.env u.request).buildResponse os u.env w

/-- The files that the upload writes. -/
def Upload.files (u : Upload) (w : W) : List NewFile :=
  if validateUploadPath os w u.location.uploadStore then
    written os (newFiles u.env u.location u.request) w
  else []

/-- The file systems that uploads lead to from `w₀`, with all the files
that were written. -/
inductive UploadRun (w₀ : W) : W → List NewFile → Prop
  | start : UploadRun w₀ w₀ []
  | upload {w : W} {log : List NewFile} (h : UploadRun w₀ w log) {u : Upload}
      (hrouted : u.IsRouted) {b : ResponseBuilder} {w' : W} {response : Bytes}
      (hanswer : u.answer os w = some (b, w', response)) :
      UploadRun w₀ w' (log ++ u.files os w)

variable {os}

theorem Upload.IsRouted.world {u : Upload} (hu : u.IsRouted) {w w' : W} {b : ResponseBuilder}
    {response : Bytes} (h : u.answer os w = some (b, w', response)) :
    w' = if validateUploadPath os w u.location.uploadStore then
        writeAll os (newFiles u.env u.location u.request) w
      else w := by
  have hbuilt := builtFrom_create os u.env w u.request
  have hzero : (create os w u.env u.request).request.errorCode = 0 := by
    rw [hbuilt.request]
    exact hu.error
  have hsame : SameRequest u.request (create os w u.env u.request).request := by
    rw [hbuilt.request]
    exact .source u.request
  have hrequest : ((create os w u.env u.request).initRoutes u.location).request
      = (create os w u.env u.request).request := rfl
  rw [Upload.answer, buildResponse_routed os u.env hzero
    (hbuilt.locationConfig.trans hu.location), Option.some.injEq, Prod.mk.injEq,
    Prod.mk.injEq] at h
  rw [← h.2.1, runLocation_world os u.env u.location w hbuilt.routes, hu.returns, hsame.method,
    if_pos hu.route, doPost_world, hrequest, hsame.newFiles]
  rfl

/-- What a run keeps if the files of its uploads do not clash. -/
theorem UploadRun.kept {Same : Bytes → Bytes → Prop} (hos : os.Stores Same) {w₀ w : W}
    {log : List NewFile} (h : UploadRun os w₀ w log) (hclash : log.Pairwise (NoClash Same)) :
    FilesKept os w log := by
  induction h with
  | start => exact fun f hf => absurd hf List.not_mem_nil
  | upload h hrouted hanswer ih =>
      have hkept := ih (List.pairwise_append.mp hclash).1
      rw [hrouted.world hanswer]
      unfold Upload.files at hclash ⊢
      split
      · rename_i hstore
        rw [if_pos hstore] at hclash
        exact hkept.writeAll hos hclash
      · rwa [List.append_nil]

/-- Behind a run of uploads, and so behind every one that is answered 201,
all the files they wrote have their contents, exactly if no two of them
with different contents are the same file. -/
theorem uploads_kept_iff {Same : Bytes → Bytes → Prop} (hos : os.Stores Same) {w₀ w : W}
    {log : List NewFile} (h : UploadRun os w₀ w log) :
    FilesKept os w log ↔ log.Pairwise (NoClash Same) :=
  ⟨fun hkept => hkept.noClash hos, h.kept hos⟩

end Runs

/-! ## Samples -/

def uploadLocation : Location where
  location := lit "/"
  root := lit "/www"
  uploadStore := lit "/up"

/-- A raw upload, always in the same second. -/
def rawUpload (body : Bytes) : Upload where
  env := { now := 0 }
  request := {
    httpMethod := lit "POST"
    requestUri := lit "/"
    httpVersion := lit "HTTP/1.1"
    headers := OrdMap.empty.insert (lit "host") (lit "a")
    body := body
    state := .done
    serverConfig := some {}
    locationConfig := some uploadLocation }
  location := uploadLocation

theorem rawUpload_isRouted (body : Bytes) : (rawUpload body).IsRouted where
  error := rfl
  location := rfl
  returns := rfl
  route := by
    simp only [rawUpload, uploadLocation]
    decide +kernel

theorem files_rawUpload (body : Bytes) (w : OrdMap Bytes Bytes) :
    (rawUpload body).files (filesOs [lit "/up"]) w
      = [rawFile { now := 0 } uploadLocation body] := by
  have hstore : validateUploadPath (filesOs [lit "/up"]) w (rawUpload body).location.uploadStore
      = true := by
    simp [validateUploadPath, filesOs, rawUpload, uploadLocation]
  have hraw : newFiles (rawUpload body).env (rawUpload body).location (rawUpload body).request
      = [rawFile { now := 0 } uploadLocation body] := by
    have htype : contentTypeOf (rawUpload body).request = [] := by
      simp only [contentTypeOf, rawUpload]
      decide +kernel
    have hform : (find (lit "multipart/form-data") []).isSome = false := by decide +kernel
    rw [newFiles, htype, hform]
    rfl
  have hfree : (rawFile { now := 0 } uploadLocation body).path ∉ [lit "/up"] := by
    simp only [rawFile]
    decide +kernel
  rw [Upload.files, if_pos hstore, hraw]
  simp only [written, filesOs, if_neg hfree]
  rfl

/-- An upload that is answered 201. -/
def Saved (u : Upload) (w w' : OrdMap Bytes Bytes) : Prop :=
  ∃ b response, u.answer (filesOs [lit "/up"]) w = some (b, w', response) ∧ b.statusCode = 201

theorem rawUploads_saved : ∃ w w', Saved (rawUpload (lit "1")) OrdMap.empty w
    ∧ Saved (rawUpload (lit "2")) w w' := by
  have hboth : ((rawUpload (lit "1")).answer (filesOs [lit "/up"]) OrdMap.empty).any fun r =>
      decide (r.1.statusCode = 201)
        && ((rawUpload (lit "2")).answer (filesOs [lit "/up"]) r.2.1).any fun r' =>
          decide (r'.1.statusCode = 201) := by
    decide +kernel
  obtain ⟨⟨b, w, response⟩, hanswer, hr⟩ := (Option.any_eq_true _ _).mp hboth
  obtain ⟨hcode, hsecond⟩ := Bool.and_eq_true_iff.mp hr
  obtain ⟨⟨b', w', response'⟩, hanswer', hcode'⟩ := (Option.any_eq_true _ _).mp hsecond
  exact ⟨w, w', ⟨b, response, hanswer, of_decide_eq_true hcode⟩,
    b', response', hanswer', of_decide_eq_true hcode'⟩

theorem uploadRun_raw {w₀ w w' : OrdMap Bytes Bytes} {log : List NewFile}
    (h : UploadRun (filesOs [lit "/up"]) w₀ w log) {body : Bytes}
    (hsaved : Saved (rawUpload body) w w') :
    UploadRun (filesOs [lit "/up"]) w₀ w'
      (log ++ [rawFile { now := 0 } uploadLocation body]) := by
  obtain ⟨b, response, hanswer, -⟩ := hsaved
  have hrun := h.upload (rawUpload_isRouted body) hanswer
  rwa [files_rawUpload] at hrun

theorem filesKept_raw : ∃ w, Saved (rawUpload (lit "1")) OrdMap.empty w
    ∧ FilesKept (filesOs [lit "/up"]) w [rawFile { now := 0 } uploadLocation (lit "1")] := by
  obtain ⟨w, w', hsaved, -⟩ := rawUploads_saved
  refine ⟨w, hsaved, ?_⟩
  exact (uploads_kept_iff (filesOs_stores _) (uploadRun_raw .start hsaved)).mpr
    (List.pairwise_singleton _ _)

/-- The second of two uploads in one second truncates the file of the
first. -/
theorem not_filesKept : ∃ w w' log, Saved (rawUpload (lit "1")) OrdMap.empty w
    ∧ Saved (rawUpload (lit "2")) w w' ∧ UploadRun (filesOs [lit "/up"]) OrdMap.empty w' log
    ∧ ¬FilesKept (filesOs [lit "/up"]) w' log := by
  obtain ⟨w, w', hsaved, hsaved'⟩ := rawUploads_saved
  refine ⟨w, w', _, hsaved, hsaved', uploadRun_raw (uploadRun_raw .start hsaved) hsaved', ?_⟩
  intro hkept
  have hclash := hkept.noClash (filesOs_stores _)
  have hcontent := List.rel_of_pairwise_cons hclash (List.mem_singleton_self _) rfl
  exact absurd hcontent (by simp [rawFile, lit])

end ResponseBuilder

end Webserv
