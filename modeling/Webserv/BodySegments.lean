import Webserv.BodyLimit
import Webserv.HeadEnd
import Webserv.MethodRules

/-!
# A body in segments

However a request with a Content-Length is cut into segments, the parser
waits until its last byte is there, is then done with the declared bytes,
and leaves what is behind them in the buffer (`body_framed`). `Stands` is
where a connection stands against all it has received.
-/

namespace Webserv

open Bytes Program RequestParser

namespace RequestParser

/-! ## Routing -/

/-- Routing looks at the fields and the target only. -/
theorem matchLocation_congr {p q : RequestParser} {servers : ServerGroup}
    (hheaders : q.headers = p.headers) (huri : q.requestUri = p.requestUri)
    (hp : p.locationConfig = none)
    (h : (p.matchLocation servers).locationConfig.isSome) :
    q.matchLocation servers = { q with
      serverConfig := (p.matchLocation servers).serverConfig
      locationConfig := (p.matchLocation servers).locationConfig } := by
  revert h
  simp only [matchLocation, hheaders, huri]
  generalize selectServer _ _ = cfg
  generalize selectLocation _ _ _ _ = found
  cases found with
  | some l => exact fun _ => rfl
  | none =>
      simp only [hp, Option.isNone_none, if_true]
      intro h
      exfalso
      unfold logError at h
      split at h
      · simp at h
      · simp at h

theorem getHeaderValue_present {p : RequestParser} {key : Bytes}
    (h : (p.headers.get? key).isSome) : (p.getHeaderValue key).1.headers = p.headers := by
  obtain ⟨v, hv⟩ := Option.isSome_iff_exists.mp h
  simp only [getHeaderValue, OrdMap.getOrInsert, hv]

end RequestParser

namespace Connection

variable {W : Type} (os : OS W) (env : Env)

/-! ## The steps of the read path -/

/-- What the read path works on is the same. -/
structure SameInput (c c' : Connection W) : Prop where
  parser : c'.client.parser = c.client.parser
  buffer : c'.client.requestBuffer = c.client.requestBuffer
  waiting : c'.client.waitingForCgi = c.client.waitingForCgi
  servers : c'.client.serverConfigs = c.client.serverConfigs

/-- The part of `handleIncomingData` behind the segment. -/
def parseReceived (os : OS W) (env : Env) : Method W Unit := do
  let parsing ← isParsingRequestBody os env
  if parsing then pure () else processRequestHeaders os env

/-- Behind `handleExpectContinue`. -/
def expectHandled (c : Connection W) : Connection W :=
  if c.client.parser.any (fun p => p.headers.contains (lit "expect"))
      && !c.client.continueSent then
    c.continueSent
  else c

theorem makes_parseReceived {R : Connection W → Connection W → Prop} {P : Connection W → Prop}
    (hparsed : ∀ (c : Connection W) before p rest, R c (c.parsed before p rest))
    (hcompleted : ∀ P, Makes R P (processCompletedRequest os env))
    (hclean : ∀ c : Connection W, R c (c.withParser none)) :
    Makes R P (parseReceived os env) := by
  refine (makes_isParsingRequestBody hparsed hcompleted).bind fun parsing => ?_
  split
  · exact .pure
  · exact makes_processRequestHeaders hparsed hcompleted hclean

theorem handleExpectContinue_eq (c : Connection W) :
    handleExpectContinue c = .ok () (expectHandled c) := by
  show (handleExpectContinue : Method W Unit).run c = _
  simp only [handleExpectContinue, expectHandled, EStateM.run_bind, EStateM.run_get]
  split
  · rfl
  · rfl

theorem sameInput_expectHandled (c : Connection W) : SameInput c (expectHandled c) := by
  unfold expectHandled
  split
  · exact ⟨rfl, rfl, rfl, rfl⟩
  · exact ⟨rfl, rfl, rfl, rfl⟩

theorem handleIncomingData_eq {c : Connection W} (segment : Segment)
    (hsmall : bodyTooLarge c.client = .ok none) :
    handleIncomingData os env (some segment) c
      = parseReceived os env (expectHandled ((c.log c.moment .read).received env segment)) := by
  generalize hc : (c.log c.moment .read).received env segment = c₀
  have hread : (readIncomingData os env (some segment)).run c = .ok true c₀ := by
    rw [← hc]
    simp only [readIncomingData, EStateM.run_bind, EStateM.run_get, EStateM.run_set, hsmall]
    rfl
  have hexpect : handleExpectContinue.run c₀ = .ok () (expectHandled c₀) :=
    handleExpectContinue_eq c₀
  show (handleIncomingData os env (some segment)).run c
    = (parseReceived os env).run (expectHandled c₀)
  simp only [handleIncomingData, parseReceived, EStateM.run_bind, hread, hexpect, if_true]

theorem handleIncomingData_received {c : Connection W} (segment : Segment)
    (hsmall : bodyTooLarge c.client = .ok none) :
    ∃ c₁, SameInput ((c.log c.moment .read).received env segment) c₁
      ∧ handleIncomingData os env (some segment) c = parseReceived os env c₁ :=
  ⟨_, sameInput_expectHandled _, handleIncomingData_eq os env segment hsmall⟩

/-- A read that raises a fault. -/
theorem handleIncomingData_fault {c : Connection W} (data : Option Segment) {fault : Fault}
    (hlarge : bodyTooLarge c.client = .error fault) :
    handleIncomingData os env data c = .error fault (c.log c.moment .read) := by
  show (handleIncomingData os env data).run c = _
  simp only [handleIncomingData, readIncomingData, EStateM.run_bind, EStateM.run_get,
    EStateM.run_set, hlarge]
  rfl

/-- A read with no data. -/
theorem handleIncomingData_closed {c : Connection W} (hsmall : bodyTooLarge c.client = .ok none) :
    handleIncomingData os env none c = .ok () (c.log c.moment .read).terminated := by
  show (handleIncomingData os env none).run c = _
  simp only [handleIncomingData, readIncomingData, receive, EStateM.run_bind, EStateM.run_get,
    EStateM.run_set, hsmall]
  rfl

/-- A completed request is dispatched. Its parser is kept, with its
request line written down, and so is the buffer. -/
theorem processCompletedRequest_input {c : Connection W} {p : RequestParser}
    (hp : c.client.parser = some p) :
    (final (processCompletedRequest os env c)).client.parser = some p.setRequestLine
      ∧ (final (processCompletedRequest os env c)).client.requestBuffer
        = c.client.requestBuffer
      ∧ ∃ m o, (m, .dispatch p.setRequestLine o)
        ∈ (final (processCompletedRequest os env c)).trace := by
  have hrun : processCompletedRequest os env c
      = if p.setRequestLine.goesToCgi then
          processCgiRequest os env p.setRequestLine (c.withParser (some p.setRequestLine))
        else processNormalRequest os env p.setRequestLine
          (c.withParser (some p.setRequestLine)) := by
    show (processCompletedRequest os env).run c = _
    simp only [processCompletedRequest, EStateM.run_bind, EStateM.run_get, hp, EStateM.run_set]
    split
    · rfl
    · rfl
  rw [hrun]
  split
  · rename_i hcgi
    have hresult := processCgiRequest_result os env hcgi (c.withParser (some p.setRequestLine))
    generalize processCgiRequest os env p.setRequestLine _ = r at hresult
    cases hresult with
    | crash => exact ⟨rfl, rfl, _, _, mem_log _ _ _⟩
    | refuse hb hb' hc' =>
        obtain ⟨pending, -, hclient⟩ := hb.dropped_client hc'
        simp only [final, errorAnswer, hclient]
        exact ⟨rfl, rfl, _, _, List.mem_append_right _ List.mem_cons_self⟩
    | start hb =>
        simp only [final, handlerStarted, hb.client]
        exact ⟨rfl, rfl, _, _, List.mem_append_right _ List.mem_cons_self⟩
  · show (final ((processNormalRequest os env p.setRequestLine).run _)).client.parser = _
      ∧ (final ((processNormalRequest os env p.setRequestLine).run _)).client.requestBuffer = _
      ∧ ∃ m o, (m, .dispatch p.setRequestLine o)
        ∈ (final ((processNormalRequest os env p.setRequestLine).run _)).trace
    simp only [processNormalRequest, EStateM.run_bind, EStateM.run_get]
    split
    · exact ⟨rfl, rfl, _, _, mem_log _ _ _⟩
    · exact ⟨rfl, rfl, _, _, List.mem_append_right _ List.mem_cons_self⟩

theorem processRequestHeaders_waits {c : Connection W}
    (hfind : find doubleCrlf c.client.requestBuffer = none) :
    processRequestHeaders os env c = .ok () c := by
  show (processRequestHeaders os env).run c = _
  simp only [processRequestHeaders, EStateM.run_bind, EStateM.run_get, hfind]
  rfl

theorem processRequestHeaders_parsed {c : Connection W} {p : RequestParser} {rest : Bytes}
    (hfind : (find doubleCrlf c.client.requestBuffer).isSome)
    (hparse : ({} : RequestParser).parseRequest c.client.requestBuffer
      = some (.returned p rest)) :
    processRequestHeaders os env c
      = if (routed c.client.serverConfigs p).state = .body then
          .ok () (c.parsed {} (routed c.client.serverConfigs p) rest)
        else processCompletedRequest os env
          (c.parsed {} (routed c.client.serverConfigs p) rest) := by
  have hnone : (find doubleCrlf c.client.requestBuffer).isNone = false := by
    rw [Option.isNone_eq_false_iff]
    exact hfind
  show (processRequestHeaders os env).run c = _
  simp only [processRequestHeaders, EStateM.run_bind, EStateM.run_get, hnone, hparse,
    EStateM.run_set, Bool.false_eq_true, if_false]
  split
  · rfl
  · rfl

theorem parseReceived_fresh {c : Connection W} (hp : c.client.parser = none) :
    parseReceived os env c = processRequestHeaders os env c := by
  show (parseReceived os env).run c = (processRequestHeaders os env).run c
  simp only [parseReceived, isParsingRequestBody, EStateM.run_bind, EStateM.run_get, hp]
  rfl

/-- A body that goes on. -/
theorem parseReceived_body {c : Connection W} {p q : RequestParser} {rest : Bytes}
    (hp : c.client.parser = some p) (hstate : p.state = .body)
    (hw : c.client.waitingForCgi = false)
    (hparse : p.parseRequest c.client.requestBuffer = some (.returned q rest)) :
    (q.state = .body → parseReceived os env c = .ok () (c.parsed p q rest))
      ∧ (q.state = .done → final (parseReceived os env c)
        = final (processCompletedRequest os env (c.parsed p q rest))) := by
  have hgo : ¬(p.state ≠ .body ∨ c.client.waitingForCgi = true) := by
    rw [hstate, hw]
    decide
  have hrun : parseReceived os env c = (do
      let parsing ← (if q.state = .done ∨ q.state = .errorParse then do
          processCompletedRequest os env
          pure true
        else pure true : Method W Bool)
      if parsing then pure () else processRequestHeaders os env : Method W Unit)
        (c.parsed p q rest) := by
    show (parseReceived os env).run c = _
    simp only [parseReceived, isParsingRequestBody, parseRequestBody, EStateM.run_bind,
      EStateM.run_get, hp, if_neg hgo, hparse, EStateM.run_set]
    rfl
  rw [hrun]
  refine ⟨fun h => ?_, fun h => ?_⟩
  · have hnot : ¬(q.state = .done ∨ q.state = .errorParse) := by
      rw [h]
      decide
    simp only [if_neg hnot]
    rfl
  · simp only [if_pos (Or.inl h : q.state = .done ∨ q.state = .errorParse)]
    show final (EStateM.bind (EStateM.bind (processCompletedRequest os env)
      fun _ => pure true) _ (c.parsed p q rest)) = _
    unfold EStateM.bind
    cases processCompletedRequest os env (c.parsed p q rest) with
    | ok a s => rfl
    | error e s => rfl

end Connection

/-! ## The parser of such a request -/

/-- A head that announces a body, which its server takes. -/
structure AnnouncesBody (servers : ServerGroup) (head : Bytes) (p : RequestParser) : Prop where
  complete : CompleteHead head p
  length : p.hasContentLength = true
  positive : 1 ≤ p.declaredLength
  located : (p.matchLocation servers).locationConfig.isSome
  small : ∀ cfg ∈ (p.matchLocation servers).serverConfig,
    p.declaredLength ≤ cfg.clientMaxBodySize

/-- The parser `q` has read `part` of the body that `p` announces. -/
structure HasPart (p q : RequestParser) (part : Bytes) : Prop where
  framed : Framed p q
  coding : q.hasTransferEncoding = false
  state : q.state = .body
  body : q.body = part
  recorded : q.contentLengthValue ≤ p.declaredLength
  small : ∃ cfg, q.serverConfig = some cfg ∧ p.declaredLength ≤ cfg.clientMaxBodySize

section Parser

variable {servers : ServerGroup} {head part : Bytes} {p q : RequestParser}

theorem CompleteHead.unrouted (h : CompleteHead head p) : p.locationConfig = none := by
  have hparse := h.parseRequest []
  exact (kept_parseRequest hparse).locationConfig

theorem AnnouncesBody.enters (h : AnnouncesBody servers head p) : EntersBody p := by
  refine h.complete.outcome.resolve_right ?_
  rintro ⟨-, hlength, -⟩
  rw [h.length] at hlength
  cases hlength

theorem AnnouncesBody.awaiting (h : AnnouncesBody servers head p) : Awaiting p :=
  h.enters.awaiting h.length

/-- Behind the head, a location is found whatever is behind it. -/
theorem AnnouncesBody.routed (h : AnnouncesBody servers head p) (hheaders : q.headers = p.headers)
    (huri : q.requestUri = p.requestUri) (herr : q.errorCode = 0) :
    ∃ cfg l, p.declaredLength ≤ cfg.clientMaxBodySize ∧ Connection.routed servers q
      = { q with serverConfig := some cfg, locationConfig := some l } := by
  obtain ⟨cfg, l, heq⟩ := matchLocation_some h.complete.unrouted h.located
  refine ⟨cfg, l, h.small cfg (by rw [heq]; rfl), ?_⟩
  rw [Connection.routed, if_pos herr,
    matchLocation_congr hheaders huri h.complete.unrouted h.located, heq]

theorem AnnouncesBody.withPart_headers (h : AnnouncesBody servers head p) (part : Bytes) :
    (p.withPart part).headers = p.headers := by
  refine getHeaderValue_present ?_
  rw [← h.enters.fields.length]
  exact h.length

/-- The head with a part of the body, or all of it, behind it. -/
theorem AnnouncesBody.parseRequest (h : AnnouncesBody servers head p) (part : Bytes) :
    ∃ q rest, ({} : RequestParser).parseRequest (head ++ part) = some (.returned q rest)
      ∧ (part.length < p.declaredLength →
        rest = [] ∧ HasPart p (Connection.routed servers q) part)
      ∧ (p.declaredLength ≤ part.length → rest = part.drop p.declaredLength
        ∧ (Connection.routed servers q).state = .done
        ∧ (Connection.routed servers q).body = part.take p.declaredLength) := by
  have henter := h.enters
  have hawait := h.awaiting
  by_cases hnil : part = []
  · obtain ⟨cfg, l, hsmall, hrouted⟩ := h.routed (q := p) rfl rfl henter.errorCode
    have hparse := h.complete.parseRequest part
    rw [if_pos hnil] at hparse
    refine ⟨p, [], hparse, fun _ => ⟨rfl, ?_⟩, fun hle => ?_⟩
    · rw [hrouted]
      exact ⟨⟨rfl, rfl⟩, hawait.coding, henter.state, henter.body.trans hnil.symm,
        (by rw [henter.length]; exact Nat.zero_le _), cfg, rfl, hsmall⟩
    · rw [hnil] at hle
      exact absurd (Nat.lt_of_lt_of_le h.positive hle) (Nat.lt_irrefl 0)
  have hbody : p.body = [] := henter.body
  have hlt : p.body.length < p.declaredLength := by
    rw [hbody]
    exact h.positive
  have hpart := parseBody_part hawait.coding hawait.length hawait.numeric hlt part
  have hleft : (p.withPart part).state = .done ∨ (p.withPart part).state = .errorParse
      ∨ part.drop (p.declaredLength - p.body.length) = [] := by
    by_cases hmore : p.body.length + part.length < p.declaredLength
    · exact Or.inr (Or.inr (List.drop_eq_nil_of_le (by omega)))
    · exact Or.inl (if_neg hmore)
  have hparse := h.complete.parseRequest_body henter.state hnil hpart hleft
  obtain ⟨cfg, l, hsmall, hrouted⟩ :=
    h.routed (q := p.withPart part) (h.withPart_headers part) rfl henter.errorCode
  refine ⟨_, _, hparse, fun hmore => ?_, fun hwhole => ?_⟩
  · have hstate : (p.withPart part).state = .body := by
      refine (if_pos ?_).trans henter.state
      rw [hbody]
      simpa using hmore
    refine ⟨List.drop_eq_nil_of_le (by rw [hbody]; simpa using Nat.le_of_lt hmore), ?_⟩
    rw [hrouted]
    refine ⟨⟨rfl, ?_⟩, hawait.coding, hstate, ?_, Nat.le_refl _, cfg, rfl, hsmall⟩
    · rw [lengthField, h.withPart_headers part]
      rfl
    · simp [withPart, hbody, List.take_of_length_le (Nat.le_of_lt hmore)]
  · rw [hrouted]
    refine ⟨by rw [hbody]; rfl, if_neg ?_, ?_⟩
    · rw [hbody]
      simpa using hwhole
    · simp [withPart, hbody]

/-- The body goes on. -/
theorem HasPart.parseRequest (hq : HasPart p q part) (hp : Awaiting p)
    (hlt : part.length < p.declaredLength) (bytes : Bytes) :
    ∃ q' rest, q.parseRequest bytes = some (.returned q' rest)
      ∧ (part.length + bytes.length < p.declaredLength → rest = [] ∧ HasPart p q' (part ++ bytes))
      ∧ (p.declaredLength ≤ part.length + bytes.length →
        rest = bytes.drop (p.declaredLength - part.length) ∧ q'.state = .done
        ∧ q'.body = (part ++ bytes).take p.declaredLength) := by
  have hlength : q.declaredLength = p.declaredLength := by
    rw [declaredLength, hq.framed.lengthField]
    rfl
  have hpart := parseBody_part hq.coding (hq.framed.hasContentLength.trans hp.length)
    (hq.framed.lengthField ▸ hp.numeric) (by rw [hq.body, hlength]; exact hlt) bytes
  have hparse : q.parseRequest bytes = some (.returned (q.withPart bytes)
      (bytes.drop (q.declaredLength - q.body.length))) := by
    rw [RequestParser.parseRequest, if_pos hq.state, hpart]
  refine ⟨_, _, hparse, fun hmore => ?_, fun hwhole => ?_⟩
  · have hframed := hq.framed.trans (framed_parseBody q bytes)
    rw [hpart] at hframed
    refine ⟨List.drop_eq_nil_of_le (by rw [hq.body, hlength]; omega), hframed, hq.coding, ?_, ?_,
      Nat.le_of_eq hlength, hq.small⟩
    · refine (if_pos ?_).trans hq.state
      rw [hq.body, hlength]
      exact hmore
    · show q.body ++ bytes.take (q.declaredLength - q.body.length) = part ++ bytes
      rw [hq.body, hlength, List.take_of_length_le (by omega)]
  · refine ⟨by rw [hq.body, hlength], if_neg ?_, ?_⟩
    · rw [hq.body, hlength]
      omega
    · show q.body ++ bytes.take (q.declaredLength - q.body.length)
        = (part ++ bytes).take p.declaredLength
      rw [hq.body, hlength, List.take_append, List.take_of_length_le (Nat.le_of_lt hlt)]

end Parser

namespace Connection

variable {W : Type} (os : OS W) (env : Env)

/-! ## The connection -/

/-- The segments one after the other, each with what else its event
reads. -/
def handleSegments (os : OS W) : List (Env × Segment) → Method W Unit
  | [] => pure ()
  | (env, segment) :: segments => do
      handleIncomingData os env (some segment)
      handleSegments os segments

def bytesOf (segments : List (Env × Segment)) : Bytes :=
  (segments.map fun s => s.2.val).flatten

/-- Nothing of a request has come. -/
structure AwaitsRequest (c : Connection W) : Prop where
  parser : c.client.parser = none
  buffer : c.client.requestBuffer = []
  idle : c.client.waitingForCgi = false

/-- Where a connection stands that has received these bytes, part of a
request. -/
inductive Stands (servers : ServerGroup) (head : Bytes) (p : RequestParser) (c : Connection W) :
    Bytes → Prop where
  | inHead {bytes : Bytes} (hidle : c.client.waitingForCgi = false)
      (hservers : c.client.serverConfigs = servers) (hparser : c.client.parser = none)
      (hbuffer : c.client.requestBuffer = bytes) (hlt : bytes.length < head.length) :
      Stands servers head p c bytes
  | inBody {q : RequestParser} {part : Bytes} (hidle : c.client.waitingForCgi = false)
      (hparser : c.client.parser = some q) (hbuffer : c.client.requestBuffer = [])
      (hq : HasPart p q part) : Stands servers head p c (head ++ part)

/-- The connection has received these bytes, a request and perhaps more,
and has taken the request. -/
def Taken (head : Bytes) (p : RequestParser) (bytes : Bytes) (c : Connection W) : Prop :=
  ∃ q, c.client.parser = some q ∧ q.state = .done
    ∧ q.body = (bytes.drop head.length).take p.declaredLength
    ∧ c.client.requestBuffer = bytes.drop (head.length + p.declaredLength)

section Segments

variable {servers : ServerGroup} {head bytes : Bytes} {p : RequestParser} {c : Connection W}

theorem Stands.waits (h : Stands servers head p c bytes) :
    ∀ q ∈ c.client.parser, q.state ≠ .done ∧ q.state ≠ .errorParse := by
  cases h with
  | inHead _ _ hparser => simp [hparser]
  | inBody _ hparser _ hq =>
      intro q hmem
      rw [hparser] at hmem
      obtain rfl := Option.some.inj hmem
      rw [hq.state]
      decide

theorem taken_of_final {c' : Connection W} {q : RequestParser} {part : Bytes}
    (hp : c'.client.parser = some q) (hstate : q.state = .done)
    (hbody : q.body = part.take p.declaredLength)
    (hbuffer : c'.client.requestBuffer = part.drop p.declaredLength) :
    Taken head p (head ++ part) (final (processCompletedRequest os env c')) := by
  obtain ⟨hparser, hkept, -⟩ := processCompletedRequest_input os env hp
  refine ⟨_, hparser, hstate, ?_, ?_⟩
  · rw [List.drop_left]
    exact hbody
  · rw [hkept, hbuffer, ← List.drop_drop, List.drop_left]

/-- One segment: the connection goes on waiting, or takes the request. -/
theorem Stands.step (h : AnnouncesBody servers head p) (hc : Stands servers head p c bytes)
    (hcount : bytes.length < head.length + p.declaredLength) {body : Bytes} (segment : Segment)
    (hcut : bytes ++ segment.val <+: head ++ body) :
    ((bytes ++ segment.val).length < head.length + p.declaredLength → ∃ c',
        handleIncomingData os env (some segment) c = .ok () c'
          ∧ Stands servers head p c' (bytes ++ segment.val))
      ∧ (head.length + p.declaredLength ≤ (bytes ++ segment.val).length →
        Taken head p (bytes ++ segment.val)
          (final (handleIncomingData os env (some segment) c))) := by
  cases hc with
  | inHead hidle hservers hparser hbuffer hlt =>
      have hsmall : bodyTooLarge c.client = .ok none := by rw [bodyTooLarge, hparser]
      obtain ⟨c₁, hsame, hrun⟩ := handleIncomingData_received os env segment hsmall
      have hbuffer₁ : c₁.client.requestBuffer = bytes ++ segment.val := by
        rw [hsame.buffer, ← hbuffer]
        rfl
      have hservers₁ : c₁.client.serverConfigs = servers := hsame.servers.trans hservers
      rw [hrun, parseReceived_fresh os env (hsame.parser.trans hparser)]
      by_cases hpart : (bytes ++ segment.val).length < head.length
      · have hprefix := List.prefix_of_prefix_length_le hcut (List.prefix_append head body)
          (Nat.le_of_lt hpart)
        have hfind := h.complete.find_part hprefix hpart
        have hwaits : processRequestHeaders os env c₁ = .ok () c₁ :=
          processRequestHeaders_waits os env (by rw [hbuffer₁]; exact hfind)
        refine ⟨fun _ => ⟨c₁, hwaits, ?_⟩, fun hwhole => absurd hwhole (by omega)⟩
        exact .inHead (hsame.waiting.trans hidle) hservers₁ (hsame.parser.trans hparser) hbuffer₁
          hpart
      · obtain ⟨part, hsplit⟩ := List.prefix_of_prefix_length_le (List.prefix_append head body) hcut
          (Nat.le_of_not_lt hpart)
        obtain ⟨q, rest, hparse, hmore, hwhole⟩ := h.parseRequest part
        rw [hsplit, ← hbuffer₁] at hparse
        have hheaders := processRequestHeaders_parsed os env
          (by rw [hbuffer₁, ← hsplit, h.complete.find]; rfl) hparse
        rw [hheaders, hservers₁, ← hsplit]
        refine ⟨fun hlt => ?_, fun hle => ?_⟩
        · obtain ⟨hrest, hq⟩ := hmore (by rw [List.length_append] at hlt; omega)
          rw [if_pos hq.state]
          exact ⟨_, rfl, .inBody (hsame.waiting.trans hidle) rfl hrest hq⟩
        · obtain ⟨hrest, hstate, hbody⟩ := hwhole (by rw [List.length_append] at hle; omega)
          rw [if_neg (by rw [hstate]; decide)]
          exact taken_of_final os env rfl hstate hbody hrest
  | @inBody q part hidle hparser hbuffer hq =>
      obtain ⟨cfg, hcfg, hlimit⟩ := hq.small
      have hsmall : bodyTooLarge c.client = .ok none := by
        have hle : ¬cfg.clientMaxBodySize < q.contentLengthValue :=
          Nat.not_lt_of_le (Nat.le_trans hq.recorded hlimit)
        simp only [bodyTooLarge, hparser, hcfg, if_neg hle, ite_self]
      obtain ⟨c₁, hsame, hrun⟩ := handleIncomingData_received os env segment hsmall
      have hbuffer₁ : c₁.client.requestBuffer = segment.val := by
        rw [hsame.buffer]
        show c.client.requestBuffer ++ segment.val = segment.val
        rw [hbuffer, List.nil_append]
      rw [List.length_append] at hcount
      obtain ⟨q', rest, hparse, hmore, hwhole⟩ :=
        hq.parseRequest h.awaiting (by omega) c₁.client.requestBuffer
      obtain ⟨hgo, hstop⟩ := parseReceived_body os env
        (hsame.parser.trans hparser) hq.state (hsame.waiting.trans hidle) hparse
      rw [hbuffer₁] at hmore hwhole
      rw [hrun, List.append_assoc]
      refine ⟨fun hlt => ?_, fun hle => ?_⟩
      · obtain ⟨hrest, hq'⟩ := hmore (by simp only [List.length_append] at hlt; omega)
        exact ⟨_, hgo hq'.state, .inBody (hsame.waiting.trans hidle) rfl hrest hq'⟩
      · obtain ⟨hrest, hstate, hbody⟩ := hwhole (by simp only [List.length_append] at hle; omega)
        rw [hstop hstate]
        refine taken_of_final os env rfl hstate hbody ?_
        show rest = (part ++ segment.val).drop p.declaredLength
        have hdrop : part.drop p.declaredLength = [] := List.drop_eq_nil_of_le (by omega)
        rw [hrest, List.drop_append, hdrop, List.nil_append]

/-- A run, from any point before the last byte of the request. -/
theorem Stands.run (h : AnnouncesBody servers head p) {body : Bytes} :
    ∀ (segments : List (Env × Segment)) {bytes : Bytes} {c : Connection W},
    Stands servers head p c bytes → bytes.length < head.length + p.declaredLength →
    bytes ++ bytesOf segments <+: head ++ body →
    head.length + p.declaredLength ≤ (bytes ++ bytesOf segments).length →
    ∃ before segment after, segments = before ++ segment :: after
      ∧ (bytes ++ bytesOf before).length < head.length + p.declaredLength
      ∧ head.length + p.declaredLength ≤ (bytes ++ bytesOf (before ++ [segment])).length
      ∧ (∀ early, early <+: before → ∃ c', handleSegments os early c = .ok () c'
        ∧ ∀ q ∈ c'.client.parser, q.state ≠ .done ∧ q.state ≠ .errorParse)
      ∧ Taken head p (bytes ++ bytesOf (before ++ [segment]))
        (final (handleSegments os (before ++ [segment]) c))
  | [], bytes, c, _, hlt, _, hle => by
      rw [bytesOf, List.map_nil, List.flatten_nil, List.append_nil] at hle
      exact absurd hlt (Nat.not_lt_of_le hle)
  | (env, segment) :: segments, bytes, c, hc, hlt, hcut, hle => by
      have hbytes : bytes ++ bytesOf ((env, segment) :: segments)
          = bytes ++ segment.val ++ bytesOf segments := by
        simp [bytesOf]
      rw [hbytes] at hcut hle
      obtain ⟨hmore, hwhole⟩ := hc.step os env h hlt segment
        ((List.prefix_append _ _).trans hcut)
      have hcons : ∀ rest, bytes ++ bytesOf ((env, segment) :: rest)
          = bytes ++ segment.val ++ bytesOf rest := by
        intro rest
        simp [bytesOf]
      by_cases hlast : (bytes ++ segment.val).length < head.length + p.declaredLength
      · obtain ⟨c', hrun, hc'⟩ := hmore hlast
        obtain ⟨before, last, after, hsplit, hcount, hdone, hearly, htaken⟩ :=
          Stands.run h segments hc' hlast hcut hle
        have hhandle : ∀ rest, handleSegments os ((env, segment) :: rest) c
            = handleSegments os rest c' := by
          intro rest
          have hrun' : (handleIncomingData os env (some segment)).run c = .ok () c' := hrun
          show (handleSegments os ((env, segment) :: rest)).run c = _
          simp only [handleSegments, EStateM.run_bind, hrun']
          rfl
        refine ⟨(env, segment) :: before, last, after, by rw [hsplit]; rfl, ?_, ?_, ?_, ?_⟩
        · rw [hcons]
          exact hcount
        · rw [List.cons_append, hcons]
          exact hdone
        · intro early hprefix
          cases early with
          | nil => exact ⟨c, rfl, hc.waits⟩
          | cons s early =>
              obtain ⟨rfl, hprefix'⟩ := List.cons_prefix_cons.mp hprefix
              rw [hhandle]
              exact hearly early hprefix'
        · rw [List.cons_append, hhandle, hcons]
          exact htaken
      · refine ⟨[], (env, segment), segments, rfl, ?_, ?_, ?_, ?_⟩
        · simpa [bytesOf] using hlt
        · rw [List.nil_append, hcons, bytesOf, List.map_nil, List.flatten_nil, List.append_nil]
          exact Nat.le_of_not_lt hlast
        · intro early hprefix
          rw [List.prefix_nil.mp hprefix]
          exact ⟨c, rfl, hc.waits⟩
        · have htaken := hwhole (Nat.le_of_not_lt hlast)
          have hhandle : final (handleSegments os [(env, segment)] c)
              = final (handleIncomingData os env (some segment) c) := by
            show final (EStateM.bind (handleIncomingData os env (some segment)) _ c) = _
            unfold EStateM.bind
            cases handleIncomingData os env (some segment) c with
            | ok a s => rfl
            | error e s => rfl
          rw [List.nil_append, hhandle, hcons, bytesOf, List.map_nil, List.flatten_nil,
            List.append_nil]
          exact htaken

end Segments

end Connection

open Connection

/-- However a request is cut into segments, its parser waits for the
segment that completes it, and then has the declared bytes as its body
and the surplus in the buffer. -/
theorem body_framed {W : Type} (os : OS W) {c : Connection W} (hc : AwaitsRequest c)
    {head : Bytes} {p : RequestParser} (h : AnnouncesBody c.client.serverConfigs head p)
    {body : Bytes} (hbody : p.declaredLength ≤ body.length) {segments : List (Env × Segment)}
    (hcut : bytesOf segments = head ++ body) :
    ∃ before segment after, segments = before ++ segment :: after
      ∧ (bytesOf before).length < head.length + p.declaredLength
      ∧ head.length + p.declaredLength ≤ (bytesOf (before ++ [segment])).length
      ∧ (∀ early, early <+: before → ∃ c', handleSegments os early c = .ok () c'
        ∧ ∀ q ∈ c'.client.parser, q.state ≠ .done ∧ q.state ≠ .errorParse)
      ∧ ∃ q, (final (handleSegments os (before ++ [segment]) c)).client.parser = some q
        ∧ q.state = .done ∧ q.body = body.take p.declaredLength
        ∧ (final (handleSegments os (before ++ [segment]) c)).client.requestBuffer
          = (bytesOf (before ++ [segment])).drop (head.length + p.declaredLength) := by
  have hne : head ≠ [] := by simpa using h.complete.ne_nil []
  have hpos : ([] : Bytes).length < head.length := List.length_pos_iff.mpr hne
  have hstart : Stands c.client.serverConfigs head p c [] :=
    .inHead hc.idle rfl hc.parser hc.buffer hpos
  obtain ⟨before, segment, after, hsplit, hcount, hdone, hearly, q, hparser, hstate, hq, hrest⟩ :=
    hstart.run os h segments (Nat.lt_add_right _ hpos)
      (by rw [List.nil_append, hcut])
      (by rw [List.nil_append, hcut, List.length_append]; omega)
  rw [List.nil_append] at hcount hdone hrest hq
  refine ⟨before, segment, after, hsplit, hcount, hdone, hearly, q, hparser, hstate, ?_, hrest⟩
  have hpart : bytesOf (before ++ [segment]) <+: head ++ body := by
    rw [← hcut, hsplit]
    exact ⟨bytesOf after, by simp [bytesOf]⟩
  obtain ⟨part, hpart'⟩ := List.prefix_of_prefix_length_le (List.prefix_append head body) hpart
    (by omega)
  rw [← hpart', List.length_append] at hdone
  rw [← hpart', List.prefix_append_right_inj] at hpart
  obtain ⟨u, rfl⟩ := hpart
  rw [hq, ← hpart', List.drop_left, List.take_append_of_le_length (by omega)]

/-- A head that announces five bytes. -/
def fiveBytesHead : Bytes := lit "POST /a HTTP/1.1\r\nHost: a\r\nContent-Length: 5\r\n\r\n"

def fiveBytesParser : RequestParser :=
  match acceptedHead fiveBytesHead with
  | some (p, _) => p
  | none => {}

theorem announcesBody_fiveBytes :
    AnnouncesBody scriptServers fiveBytesHead fiveBytesParser where
  complete := ⟨by decide +kernel, ⟨_, _, rfl, by decide +kernel, by decide +kernel⟩,
    by decide +kernel⟩
  length := by decide +kernel
  positive := by decide +kernel
  located := by decide +kernel
  small := by decide +kernel

def segmentOf (now : Int) (bytes : Bytes) (h : bytes ≠ [] ∧ bytes.length ≤ rdSize) :
    Env × Segment :=
  ({ now := now }, ⟨bytes, h⟩)

/-- A cut in the empty line and one in the body, which has a surplus. -/
def fiveBytesSegments : List (Env × Segment) :=
  [segmentOf 0 (lit "POST /a HTTP/1.1\r\nHost: a\r\nContent-Length: 5\r\n\r") (by decide),
    segmentOf 1 (lit "\nhe") (by decide), segmentOf 2 (lit "lloGE") (by decide)]

theorem body_framed_fiveBytes :
    ∃ before segment after, fiveBytesSegments = before ++ segment :: after
      ∧ (bytesOf before).length < fiveBytesHead.length + fiveBytesParser.declaredLength
      ∧ fiveBytesHead.length + fiveBytesParser.declaredLength
        ≤ (bytesOf (before ++ [segment])).length
      ∧ (∀ early, early <+: before → ∃ c',
        handleSegments flatOs early (accepted false false 0 3 4 scriptServers ()) = .ok () c'
          ∧ ∀ q ∈ c'.client.parser, q.state ≠ .done ∧ q.state ≠ .errorParse)
      ∧ ∃ q, (final (handleSegments flatOs (before ++ [segment])
          (accepted false false 0 3 4 scriptServers ()))).client.parser = some q
        ∧ q.state = .done ∧ q.body = (lit "helloGE").take fiveBytesParser.declaredLength
        ∧ (final (handleSegments flatOs (before ++ [segment])
            (accepted false false 0 3 4 scriptServers ()))).client.requestBuffer
          = (bytesOf (before ++ [segment])).drop
            (fiveBytesHead.length + fiveBytesParser.declaredLength) :=
  body_framed flatOs ⟨rfl, rfl, rfl⟩ announcesBody_fiveBytes (by decide +kernel)
    (by decide +kernel)

end Webserv
