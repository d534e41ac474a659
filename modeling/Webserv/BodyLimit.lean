import Webserv.ConnectionRuns
import Webserv.ContentLength

/-!
# The body limit

The limit of the matched server is only looked at where the read path is
entered, against the length that the first part of the body has recorded.
So a body over the limit is refused while it is on its way, and one that
is chunked, or complete with its first part, gets by. `Awaiting` is what
the refused ones have in common: their length is recorded before they are
complete.
-/

namespace Webserv

open Bytes Program

namespace RequestParser

/-- The length of the body: what the field declares, or what has been
decoded. -/
def bodySize (p : RequestParser) : Nat :=
  if p.hasContentLength then p.declaredLength else p.body.length

/-- The body is longer than the limit of the matched server. -/
def Oversize (p : RequestParser) : Prop :=
  ∃ cfg ∈ p.serverConfig, cfg.clientMaxBodySize < p.bodySize

instance decidableOversize : DecidablePred Oversize := fun p =>
  match h : p.serverConfig with
  | none => isFalse fun ⟨cfg, hcfg, _⟩ => by
      rw [h] at hcfg
      cases hcfg
  | some cfg => decidable_of_iff (cfg.clientMaxBodySize < p.bodySize)
      ⟨fun hlt => ⟨cfg, h, hlt⟩, fun ⟨cfg', hcfg, hlt⟩ => by
        rw [h] at hcfg
        obtain rfl := Option.some.inj hcfg
        exact hlt⟩

/-- The body is on its way, and as soon as a part of it is there, its
length is recorded. -/
structure Awaiting (p : RequestParser) : Prop where
  state : p.state = .body
  length : p.hasContentLength = true
  coding : p.hasTransferEncoding = false
  numeric : (strtoul 10 p.lengthField).2 = []
  part : p.body = [] ∧ p.contentLengthValue = 0 ∨ p.contentLengthValue = p.declaredLength

/-- The bytes of the body that are there when it is parsed: behind the
head, or read before and in the buffer now. -/
def bytesAtHand (before : RequestParser) (buffer : Bytes) : Nat :=
  if before.state = .body then before.body.length + buffer.length
  else
    match acceptedHead buffer with
    | some (_, rest) => rest.length
    | none => 0

/-! ## A new head -/

/-- A location that is found is all that routing adds. -/
theorem matchLocation_some {p : RequestParser} (hp : p.locationConfig = none)
    {servers : ServerGroup} (h : (p.matchLocation servers).locationConfig.isSome) :
    ∃ cfg l, p.matchLocation servers
      = { p with serverConfig := some cfg, locationConfig := some l } := by
  revert h
  simp only [matchLocation]
  generalize selectServer _ _ = cfg
  generalize selectLocation _ _ _ _ = found
  cases found with
  | some l => exact fun _ => ⟨cfg, l, rfl⟩
  | none =>
      simp only [hp, Option.isNone_none, if_true]
      intro h
      exfalso
      unfold logError at h
      split at h
      · simp at h
      · simp at h

theorem Framed.bodySize {p q : RequestParser} (h : Framed p q)
    (hlength : q.hasContentLength = true) : p.bodySize = q.bodySize := by
  simp only [RequestParser.bodySize, if_pos hlength, if_pos (h.hasContentLength ▸ hlength),
    declaredLength, h.lengthField]

end RequestParser

open RequestParser

theorem EntersBody.awaiting {p : RequestParser} (h : EntersBody p)
    (hlength : p.hasContentLength = true) : Awaiting p := by
  have hget : (p.headers.get? (lit "content-length")).isSome := by
    rw [← h.fields.length]
    exact hlength
  obtain ⟨v, hv⟩ := Option.isSome_iff_exists.mp hget
  refine ⟨h.state, hlength, ?_, ?_, Or.inl ⟨h.body, h.length⟩⟩
  · have hne := h.framing
    rw [hlength] at hne
    simpa using hne.symm
  · rw [lengthField, hv]
    exact congrArg Prod.snd (strtoul_digits fun c hc =>
      isDigit_ten (List.all_eq_true.mp (h.fields.numeric v hv) c hc))

namespace RequestParser

/-- A part of a body that is not all of it. -/
theorem Awaiting.parseBody {p : RequestParser} (h : Awaiting p) (hbody : p.body = [])
    {rest : Bytes} (hlt : rest.length < p.declaredLength) : Awaiting (p.parseBody rest).1 := by
  have hframed := framed_parseBody p rest
  have heq := parseBody_firstPart h.coding h.length h.numeric hbody hlt
  refine ⟨?_, hframed.hasContentLength.trans h.length, ?_, hframed.lengthField ▸ h.numeric,
    Or.inr ?_⟩
  · rw [heq]
    exact h.state
  · rw [heq]
    exact h.coding
  · rw [declaredLength, hframed.lengthField, heq]
    rfl

theorem Awaiting.setRequestLine {p : RequestParser} (h : Awaiting p) :
    Awaiting p.setRequestLine :=
  ⟨h.state, h.length, h.coding, h.numeric, h.part⟩

end RequestParser

/-- A body over the limit has a Content-Length and a location, and its
first part is not all of it. None of them is on its way when a new head
is parsed, which is only done behind a body while a CGI runs. -/
def LimitSeen (e : Moment × Action) : Prop :=
  match e.2 with
  | .parsed before after =>
      (Oversize after → after.hasContentLength = true ∧ after.locationConfig.isSome
        ∧ (before.contentLengthValue = 0 →
            bytesAtHand before e.1.client.requestBuffer < after.bodySize))
        ∧ (before.state ≠ .body → ∀ p ∈ e.1.client.parser, p.state = .body → Oversize p →
            e.1.client.waitingForCgi = false)
  | _ => True

instance decidableLimitSeen : DecidablePred LimitSeen
  | (_, .parsed _ _) => by
      dsimp only [LimitSeen]
      infer_instance
  | (_, .read) | (_, .dispatch _ _) | (_, .cgiRespond _ _) | (_, .send _)
  | (_, .sendDirect _) | (_, .close) => instDecidableTrue

namespace Connection

open ResponseBuilder

variable {W : Type} {os : OS W}

/-- Reading behind a recorded length over the limit. -/
theorem handleIncomingData_tooLarge (env : Env) (data : Option Segment) {c : Connection W}
    {p : RequestParser} (hlarge : bodyTooLarge c.client = .ok (some p)) :
    handleIncomingData os env data c = .ok ()
      (((c.log c.moment .read).log c.moment
        (.sendDirect (tooLargeResponse os env (c.log c.moment .read) p))).terminated) := by
  show (handleIncomingData os env data).run c = _
  simp only [handleIncomingData, readIncomingData, EStateM.run_bind, EStateM.run_get,
    EStateM.run_set, hlarge]
  rfl

theorem tooLargeResponse_statusLine (env : Env) (c : Connection W) (p : RequestParser) :
    statusLineOf 413 <+: tooLargeResponse os env c p :=
  setErrorPage_statusLine os env c.world (builtFrom_create os env c.world p).httpVersion 413

end Connection

open Connection

/-- A server whose bodies have at most four bytes. -/
def fourBytes : ServerGroup :=
  { first := { clientMaxBodySize := 4, locations := [{ location := lit "/" }] } }

/-- Five bytes of a body in two parts. -/
def partEvents : List Event :=
  [reads { now := 0 } (lit "POST /a HTTP/1.1\r\nHost: a\r\nContent-Length: 5\r\n\r\nhe"),
    reads { now := 0 } (lit "llo")]

/-- The request is handed on over the limit. -/
def HandedOver (e : Moment × Action) : Prop :=
  match e.2 with
  | .dispatch p _ => Oversize p
  | _ => False

instance decidableHandedOver : DecidablePred HandedOver
  | (_, .dispatch p _) => decidableOversize p
  | (_, .read) | (_, .parsed _ _) | (_, .cgiRespond _ _) | (_, .send _)
  | (_, .sendDirect _) | (_, .close) => instDecidableFalse

end Webserv
