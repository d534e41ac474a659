import Webserv.BodySegments
import Webserv.ChunkedCoding

/-!
# A complete request in the buffer

The body of a request is only parsed when there is a byte of it, so an
announced body of no bytes is waited for. Every other request that is
complete in the buffer is dispatched where its head is parsed
(`completeRequest_over`), and so is that one when no location is found
for it.
-/

namespace Webserv

open Bytes Program RequestParser

/-- All the bytes behind a head of which a fresh parser makes `p`. -/
inductive CompleteBody (p : RequestParser) : Bytes → Prop where
  | none (hlength : p.hasContentLength = false) (hcoding : p.hasTransferEncoding = false) :
      CompleteBody p []
  | length (hlength : p.hasContentLength = true) {body : Bytes}
      (hbody : body.length = p.declaredLength) : CompleteBody p body
  | chunked (hcoding : p.hasTransferEncoding = true)
      (hvalue : p.headers.get? (lit "transfer-encoding") = some (lit "chunked"))
      (chunks : List Chunk) {zero : Bytes} (hzero : ZeroSize zero) :
      CompleteBody p (encodeChunks chunks zero)

namespace Connection

variable {W : Type} (os : OS W) (env : Env)

section Over

variable (servers : ServerGroup) {q : RequestParser}

theorem routed_state (herr : q.errorCode = 0) (hl : q.locationConfig = none) :
    (routed servers q).state
      = if (q.matchLocation servers).locationConfig.isSome then q.state else .errorParse := by
  rw [routed, if_pos herr]
  split
  · rename_i h
    obtain ⟨cfg, l, heq⟩ := matchLocation_some hl h
    rw [heq]
  · rename_i h
    revert h
    simp only [matchLocation]
    generalize selectServer _ _ = cfg
    generalize selectLocation _ _ _ _ = found
    cases found with
    | some l => exact fun h => absurd rfl h
    | none =>
        simp only [hl, Option.isNone_none, if_true]
        intro _
        refine logError_state ?_ 404
        exact herr

end Over

end Connection

/-! ## The three kinds of bodies -/

section Bodies

variable {head : Bytes} {p : RequestParser}

/-- What a fresh parser makes of a complete request: it has the head's
parser where no byte of a body is announced, else it is done. -/
theorem CompleteBody.parseRequest (h : CompleteHead head p) {body : Bytes}
    (hbody : CompleteBody p body) :
    ∃ q rest, ({} : RequestParser).parseRequest (head ++ body) = some (.returned q rest)
      ∧ q.errorCode = 0 ∧ (q = p ∧ p.state = .body ∧ p.hasContentLength = true
          ∧ p.declaredLength = 0
        ∨ q.state = .done ∧ ¬(p.hasContentLength = true ∧ p.declaredLength = 0)) := by
  cases hbody with
  | none hlength hcoding =>
      rcases h.outcome with henter | ⟨hstate, -⟩
      · exact absurd (hlength.trans hcoding.symm) henter.framing
      · refine ⟨p, [], h.parseRequest_done hstate [], h.accepted, Or.inr ⟨hstate, ?_⟩⟩
        rintro ⟨hlength', -⟩
        rw [hlength] at hlength'
        cases hlength'
  | length hlength hcount =>
      have henter : EntersBody p := by
        refine h.outcome.resolve_right ?_
        rintro ⟨-, hnone, -⟩
        rw [hlength] at hnone
        cases hnone
      have hawait := henter.awaiting hlength
      by_cases hzero : p.declaredLength = 0
      · rw [hzero] at hcount
        obtain rfl := List.length_eq_zero_iff.mp hcount
        have hparse := h.parseRequest []
        rw [if_pos rfl] at hparse
        exact ⟨p, [], hparse, h.accepted, Or.inl ⟨rfl, henter.state, hlength, hzero⟩⟩
      · have hne : body ≠ [] := by
          rintro rfl
          exact hzero hcount.symm
        have hlt : p.body.length < p.declaredLength := by
          rw [henter.body]
          exact Nat.pos_of_ne_zero hzero
        have hpart := parseBody_part hawait.coding hlength hawait.numeric hlt body
        have hdone : (p.withPart body).state = .done := by
          refine if_neg ?_
          rw [hcount]
          omega
        exact ⟨_, _, h.parseRequest_body henter.state hne hpart (Or.inl hdone), h.accepted,
          Or.inr ⟨hdone, fun hnone => hzero hnone.2⟩⟩
  | @chunked hcoding hvalue chunks zero hzero =>
      have henter : EntersBody p := by
        refine h.outcome.resolve_right ?_
        rintro ⟨-, -, hnone⟩
        rw [hcoding] at hnone
        cases hnone
      have hne : encodeChunks chunks zero ≠ [] := by simp [encodeChunks]
      obtain ⟨q, hq, hdone, herr, -⟩ := parseChunkedBody_encode hzero [] chunks henter.idle.1
      rw [List.append_nil, ← parseBody_coding hcoding hvalue] at hq
      refine ⟨q, [], h.parseRequest_body henter.state hne hq (Or.inl hdone),
        herr.trans h.accepted, Or.inr ⟨hdone, ?_⟩⟩
      rintro ⟨hlength, -⟩
      exact henter.framing (hlength.trans hcoding.symm)

end Bodies

open Connection

end Webserv
