import Webserv.RouteReplies

/-!
# What a request does to the file system

A POST writes the files of its body, one after the other: one file of
its own name for a raw body, and one for each part of a multipart body
that names a file. A DELETE calls `remove` or `rmdir` at most once. A
GET changes nothing.
-/

namespace Webserv

open Bytes

/-- A file to be written. -/
structure NewFile where
  path : Bytes
  content : Bytes
deriving DecidableEq

section Writes

variable {W : Type} (os : OS W)

/-- Writing files, one after the other. -/
def writeAll (files : List NewFile) (w : W) : W :=
  files.foldl (fun w f => (os.writeFile w f.path f.content).1) w

/-- Those of the files that can be opened when their turn comes. -/
def written : List NewFile → W → List NewFile
  | [], _ => []
  | f :: files, w =>
      let r := os.writeFile w f.path f.content
      if r.2 then f :: written files r.1 else written files r.1

end Writes

/-- A file system of files under their paths, in directories that stay. -/
def filesOs (directories : List Bytes) : OS (OrdMap Bytes Bytes) where
  stat files path :=
    if path ∈ directories then some ⟨true, true⟩
    else (files.get? path).map fun _ => ⟨false, true⟩
  readFile files path := files.get? path
  readDir files path :=
    if path ∈ directories then
      some ((files.entries.filter fun e => path.isPrefixOf e.1).map fun e =>
        e.1.drop path.length)
    else none
  writable _ _ := true
  writeFile files path content :=
    if path ∈ directories then (files, false) else (files.insert path content, true)
  remove files path :=
    if (files.get? path).isSome then (files.erase path, true) else (files, false)
  rmdir files _ := (files, false)

namespace ResponseBuilder

/-! ## Uploads -/

section Files

variable (env : Env) (l : Location)

/-- The file a part is saved as. -/
def Part.file (part : Part) : Option NewFile :=
  part.filename.map fun filename => ⟨uploadPath env l filename, part.content⟩

/-- The file a raw body is saved as. -/
def rawFile (body : Bytes) : NewFile where
  path := l.uploadStore ++ lit "/" ++ (lit "upload_" ++ timestampStr env.localTime ++ lit ".bin")
  content := body

/-- The files that a POST of `p` saves, in their order. -/
def newFiles (p : RequestParser) : List NewFile :=
  if (find (lit "multipart/form-data") (contentTypeOf p)).isSome then
    (uploadBoundary p).elim [] fun boundary =>
      (parts boundary p.body).filterMap (Part.file env l)
  else [rawFile env l p.body]

theorem SameRequest.newFiles {p q : RequestParser} (h : SameRequest p q) :
    newFiles env l q = newFiles env l p := by
  simp only [ResponseBuilder.newFiles, h.uploadBoundary, h.contentType, h.body]

end Files

section Requests

variable {W : Type} (os : OS W) (env : Env) (l : Location) (w : W)

theorem savePart_world (b : ResponseBuilder) (w : W) (part : Part) :
    (savePart os env l b w part.headers part.content).2
      = writeAll os (part.file env l).toList w := by
  unfold Part.file
  cases hname : part.filename with
  | none => rw [savePart_passed os env l hname]; rfl
  | some filename => rw [savePart_named os env l hname]; rfl

theorem foldl_savePart_world (parts : List Part) (b : ResponseBuilder) (w : W) :
    (parts.foldl (fun r part => savePart os env l r.1 r.2 part.headers part.content) (b, w)).2
      = writeAll os (parts.filterMap (Part.file env l)) w := by
  induction parts generalizing b w with
  | nil => rfl
  | cons part parts ih =>
      have hpart := savePart_world os env l b w part
      rw [List.foldl_cons, ih, hpart, List.filterMap_cons]
      cases part.file env l <;> rfl

theorem handleMultipartFormData_world {p : RequestParser} {boundary : Bytes}
    (h : uploadBoundary p = some boundary) (b : ResponseBuilder) :
    (handleMultipartFormData os env l b w (contentTypeOf p) p.body).2.1
      = writeAll os ((parts boundary p.body).filterMap (Part.file env l)) w := by
  unfold uploadBoundary at h
  split at h
  · obtain ⟨boundaryPos, hpos, rfl⟩ := Option.map_eq_some_iff.mp h
    rw [handleMultipartFormData_found os env l hpos]
    exact foldl_savePart_world os env l _ b w
  · cases h

/-- A POST to a directory writes its files. -/
theorem doPost_world (b : ResponseBuilder) :
    (doPost os env w b l).2
      = if validateUploadPath os w l.uploadStore then writeAll os (newFiles env l b.request) w
        else w := by
  have hbody : (b.request.getHeaderValue (lit "content-type")).1.body = b.request.body := rfl
  simp only [doPost, contentType_getHeaderValue, hbody]
  generalize ({ b with
    request := (b.request.getHeaderValue (lit "content-type")).1 } : ResponseBuilder) = b'
  cases validateUploadPath os w l.uploadStore with
  | false => rfl
  | true =>
  simp only [Bool.not_true, Bool.false_eq_true, if_false, if_true, newFiles]
  split
  · rename_i hform
    cases hboundary : uploadBoundary b.request with
    | none =>
        have hnone : find (lit "boundary=") (contentTypeOf b.request) = none := by
          simpa [uploadBoundary, hform] using hboundary
        rw [handleMultipartFormData_none hnone]
        rfl
    | some boundary =>
        have hworld := handleMultipartFormData_world os env l w hboundary b'
        split
        · exact hworld
        · exact hworld
  · split
    · rfl
    · rfl

/-! ## Deletions -/

/-- A DELETE of `uri` asks for a file. -/
def deletesFile (uri : Bytes) : Bool :=
  (os.stat w (l.root ++ uri)).any fun st => !st.isDir

/-- A DELETE of `uri` asks for a directory that looks as if it could be
removed: it is written with its slash, empty and writable. -/
def deletesDirectory (uri : Bytes) : Bool :=
  (os.stat w (l.root ++ uri)).any (fun st => st.isDir) && !noTrailingSlash uri
    && (os.readDir w (l.root ++ uri)).any (fun names => names.all fun name =>
      name ∈ [lit ".", lit ".."])
    && os.writable w (l.root ++ uri)

theorem doDelete_world (b : ResponseBuilder) :
    (doDelete os w b l).2
      = if deletesFile os l w b.request.requestUri then
          (os.remove w (l.root ++ b.request.requestUri)).1
        else if deletesDirectory os l w b.request.requestUri then
          (os.rmdir w (l.root ++ b.request.requestUri)).1
        else w := by
  simp only [doDelete]
  cases hstat : os.stat w (l.root ++ b.request.requestUri) with
  | none =>
      rw [show deletesFile os l w b.request.requestUri = false by simp [deletesFile, hstat],
        show deletesDirectory os l w b.request.requestUri = false by
          simp [deletesDirectory, hstat]]
      rfl
  | some pathStat =>
  have hfile : deletesFile os l w b.request.requestUri = !pathStat.isDir := by
    simp [deletesFile, hstat]
  rw [hfile]
  by_cases hdir : pathStat.isDir = true
  · simp only [hdir, Bool.not_true, Bool.false_eq_true, if_false, if_true]
    have hdirectory : deletesDirectory os l w b.request.requestUri
        = (!noTrailingSlash b.request.requestUri
          && (os.readDir w (l.root ++ b.request.requestUri)).any (fun names =>
            names.all fun name => name ∈ [lit ".", lit ".."])
          && os.writable w (l.root ++ b.request.requestUri)) := by
      rw [deletesDirectory, hstat, Option.any_some, hdir, Bool.true_and]
    rw [hdirectory]
    split
    · rename_i hslash
      simp only [hslash]
      rfl
    rename_i hslash
    simp only [hslash]
    cases os.readDir w (l.root ++ b.request.requestUri) with
    | none => rfl
    | some names =>
    simp only [Option.any_some]
    split
    · rename_i hempty
      simp only [Bool.not_eq_true'] at hempty
      simp only [hempty]
      rfl
    rename_i hempty
    simp only [Bool.not_eq_true', Bool.not_eq_false] at hempty
    simp only [hempty]
    split
    · rename_i hwritable
      simp only [Bool.not_eq_true'] at hwritable
      simp only [hwritable]
      rfl
    rename_i hwritable
    simp only [Bool.not_eq_true', Bool.not_eq_false] at hwritable
    simp only [hwritable, Bool.not_false, Bool.and_self, if_true]
    split
    · rfl
    · rfl
  · simp only [hdir, Bool.not_false, if_true, Bool.false_eq_true, if_false]
    split
    · rfl
    · rfl

/-! ## Any request -/

/-- The file system behind the route of a request. -/
theorem runLocation_world {b : ResponseBuilder} (hroutes : b.routes = OrdMap.empty) :
    (runLocation os env w b l).2
      = if l.hasReturn then w
        else if routeOf l b.request.httpMethod = some .doPost then
          (doPost os env w (b.initRoutes l) l).2
        else if routeOf l b.request.httpMethod = some .doDelete then
          (doDelete os w (b.initRoutes l) l).2
        else w := by
  unfold runLocation
  split
  · rfl
  · have hrequest : (b.initRoutes l).request = b.request := rfl
    simp only [get?_initRoutes hroutes l, hrequest]
    cases hroute : routeOf l b.request.httpMethod with
    | none => rfl
    | some route => cases route <;> rfl

end Requests

end ResponseBuilder

end Webserv
