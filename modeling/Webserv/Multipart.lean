import Webserv.ResponseFrame

/-!
# Multipart uploads

The parts `handleMultipartFormData` finds in a body depend on the
boundary and the body alone, and the names they are saved under on the
parts and the file system. The loop writes these names, one after the
other, into the builder it is given, and with no name it leaves the
builder as it is.
-/

namespace Webserv

open Bytes

namespace ResponseBuilder

/-! ## The parts of a body -/

structure Part where
  headers : Bytes
  content : Bytes
deriving DecidableEq

/-- The bytes from one offset to another. -/
def slice (s : Bytes) (i j : Nat) : Bytes := (s.drop i).take (j - i)

/-- Where the header of a part begins behind a boundary that ends at
`pos`; `none` at the closing boundary. -/
def partStart (body : Bytes) (pos : Nat) : Option Nat :=
  if pos < body.length ∧ (body.drop pos).take 2 = lit "--" then none
  else if (body.drop pos).take 2 = crlf then some (pos + 2)
  else some pos

/-- The part a round at `pos` handles, and the offset behind its header. -/
def nextPart (boundary body : Bytes) (pos : Nat) : Option (Part × Nat) :=
  (findFrom boundary body pos).bind fun nextPos =>
    (partStart body (nextPos + boundary.length)).bind fun start =>
      (findFrom doubleCrlf body start).bind fun headerEnd =>
        (findFrom boundary body (headerEnd + 4)).map fun partEnd =>
          (⟨slice body start headerEnd, slice body (headerEnd + 4) partEnd⟩, headerEnd + 4)

def partsFrom (boundary body : Bytes) : Nat → Nat → List Part
  | 0, _ => []
  | fuel + 1, pos =>
      match nextPart boundary body pos with
      | none => []
      | some (part, pos) => part :: partsFrom boundary body fuel pos

/-- The parts of a body; every one is longer than its boundary. -/
def parts (boundary body : Bytes) : List Part := partsFrom boundary body (body.length + 1) 0

/-- The name under which a part may be saved. -/
def Part.filename (part : Part) : Option Bytes :=
  (partFilename part.headers).filter fun filename => !invalidFilename filename

section Uploads

variable {W : Type} (os : OS W) (env : Env) (l : Location)

/-- `safe_name` -/
def safeName (filename : Bytes) : Bytes :=
  lit "upload_" ++ timestampStr env.localTime ++ lit "_" ++ filename

/-- `full_path` -/
def uploadPath (filename : Bytes) : Bytes := l.uploadStore ++ lit "/" ++ safeName env filename

/-- The names the parts are saved under, from the file system `w` on. -/
def savedNames : List Part → W → List Bytes
  | [], _ => []
  | part :: parts, w =>
      match part.filename with
      | none => savedNames parts w
      | some filename =>
          let r := os.writeFile w (uploadPath env l filename) part.content
          if r.2 then filename :: savedNames parts r.1 else savedNames parts r.1

/-- The builder behind an upload that was saved. -/
def uploaded (b : ResponseBuilder) (filename : Bytes) : ResponseBuilder :=
  let b := (b.setHeaders (lit "Location") (uploadPath env l filename)).setStatus 201
  let page := b.generateUploadSuccessPage (safeName env filename)
  page.1.setBody page.2

/-! ## One part -/

variable {b : ResponseBuilder} {w : W} {part : Part}

theorem savePart_passed (h : part.filename = none) :
    savePart os env l b w part.headers part.content = (b, w) := by
  unfold savePart
  cases hname : partFilename part.headers with
  | none => rfl
  | some filename =>
      simp only [Part.filename, hname, Option.filter_eq_none_iff, Option.some.injEq,
        forall_eq', Bool.not_eq_true, Bool.not_eq_false'] at h
      simp only [if_pos h]

theorem savePart_named {filename : Bytes} (h : part.filename = some filename) :
    savePart os env l b w part.headers part.content
      = (if (os.writeFile w (uploadPath env l filename) part.content).2 then
            uploaded env l b filename
          else b, (os.writeFile w (uploadPath env l filename) part.content).1) := by
  unfold Part.filename at h
  obtain ⟨hname, hvalid⟩ := Option.filter_eq_some_iff.mp h
  have hvalid : ¬invalidFilename filename = true := by simpa using hvalid
  simp only [savePart, hname, if_neg hvalid]
  cases hsaved : (os.writeFile w (uploadPath env l filename) part.content).2 with
  | true =>
      simp only [uploadPath, safeName] at hsaved
      simp only [hsaved]
      rfl
  | false =>
      simp only [uploadPath, safeName] at hsaved
      simp only [hsaved]
      rfl

/-- Saving the parts one after the other writes the saved names into the
builder. -/
theorem foldl_savePart : ∀ (parts : List Part) (b : ResponseBuilder) (w : W),
    (parts.foldl (fun r part => savePart os env l r.1 r.2 part.headers part.content) (b, w)).1
      = (savedNames os env l parts w).foldl (uploaded env l) b
  | [], _, _ => rfl
  | part :: parts, b, w => by
      rw [List.foldl_cons, savedNames]
      cases hname : part.filename with
      | none =>
          rw [savePart_passed os env l hname]
          exact foldl_savePart parts b w
      | some filename =>
          rw [savePart_named os env l hname, foldl_savePart]
          cases hsaved : (os.writeFile w (uploadPath env l filename) part.content).2 with
          | true => simp only [hsaved, if_true, List.foldl_cons]
          | false => simp [hsaved]

/-! ## The loop -/

/-- A round handles the next part. -/
theorem multipartIter_eq (boundary body : Bytes) (s : MultipartLoop W) :
    multipartIter os env l boundary body s
      = ((nextPart boundary body s.pos).map fun next =>
          Sum.inl {
            b := (savePart os env l s.b s.w next.1.headers next.1.content).1
            w := (savePart os env l s.b s.w next.1.headers next.1.content).2
            pos := next.2 }).getD (.inr (some (s.b, s.w))) := by
  simp only [multipartIter, nextPart]
  cases hnext : findFrom boundary body s.pos with
  | none => rfl
  | some nextPos =>
  obtain ⟨hle, hin⟩ := findFrom_le hnext
  simp only [substr_of_le hin, Option.bind_some, partStart]
  split
  · rfl
  have hstart : ∃ start, (if ((body.drop (nextPos + boundary.length)).take 2) = crlf then
      some (nextPos + boundary.length + 2) else some (nextPos + boundary.length)) = some start
      ∧ (if ((body.drop (nextPos + boundary.length)).take 2) = crlf then
        nextPos + boundary.length + 2 else nextPos + boundary.length) = start
      ∧ start ≤ body.length := by
    split
    · rename_i hcrlf
      exact ⟨_, rfl, rfl, substr_take_le (substr_of_le hin 2) hcrlf⟩
    · exact ⟨_, rfl, rfl, hin⟩
  obtain ⟨start, hsome, hstart, hlt⟩ := hstart
  rw [hsome, hstart]
  simp only [Option.bind_some]
  cases hheader : findFrom doubleCrlf body start with
  | none => rfl
  | some headerEnd =>
  have hin' : headerEnd + 4 ≤ body.length := (findFrom_le hheader).2
  simp only [substr_of_le hlt, Option.bind_some]
  cases findFrom boundary body (headerEnd + 4) with
  | none => rfl
  | some partEnd =>
      simp only [substr_of_le hin']
      rfl

theorem run_multipartIter (boundary body : Bytes) : ∀ (fuel : Nat) (s : MultipartLoop W),
    body.length - s.pos < fuel →
    WhileLoop.run (multipartIter os env l boundary body) fuel s
      = some (some ((partsFrom boundary body fuel s.pos).foldl
        (fun r part => savePart os env l r.1 r.2 part.headers part.content) (s.b, s.w)))
  | 0, _, h => absurd h (Nat.not_lt_zero _)
  | fuel + 1, s, h => by
      have hiter := multipartIter_eq os env l boundary body s
      rw [partsFrom]
      cases hnext : nextPart boundary body s.pos with
      | none =>
          rw [hnext] at hiter
          exact WhileLoop.run_inr hiter fuel
      | some next =>
          rw [hnext] at hiter
          have hlt := multipartIter_lt os env l boundary body s _ hiter
          rw [WhileLoop.run_inl hiter, run_multipartIter boundary body fuel _ (by omega)]
          rfl

/-- The names saved from a multipart body. -/
def uploads (boundary body : Bytes) (w : W) : List Bytes :=
  savedNames os env l (parts boundary body) w

/-- The loop saves the parts one after the other. -/
theorem multipartLoop_eq (boundary body : Bytes) (b : ResponseBuilder) (w : W) :
    multipartLoop os env l boundary body b w
      = some ((parts boundary body).foldl
        (fun r part => savePart os env l r.1 r.2 part.headers part.content) (b, w)) := by
  have hrun := run_multipartIter os env l boundary body (body.length + 1)
    { b := b, w := w, pos := 0 } (Nat.lt_succ_self _)
  exact WhileLoop.exits_total.unique ⟨_, hrun⟩

/-- With a boundary, `handleMultipartFormData` saves the parts in their order. -/
theorem handleMultipartFormData_found {contentType : Bytes} {boundaryPos : Nat}
    (h : find (lit "boundary=") contentType = some boundaryPos) (b : ResponseBuilder) (w : W)
    (body : Bytes) :
    handleMultipartFormData os env l b w contentType body
      = (((parts (lit "--" ++ contentType.drop (boundaryPos + 9)) body).foldl
          (fun r part => savePart os env l r.1 r.2 part.headers part.content) (b, w)).1,
        ((parts (lit "--" ++ contentType.drop (boundaryPos + 9)) body).foldl
          (fun r part => savePart os env l r.1 r.2 part.headers part.content) (b, w)).2,
        true) := by
  unfold handleMultipartFormData
  split
  · rename_i hnone
    rw [hnone] at h
    cases h
  · rename_i hfound
    obtain rfl := Option.some.inj (hfound.symm.trans h)
    simp only [multipartLoop_eq, Option.get_some]

end Uploads

end ResponseBuilder

end Webserv
