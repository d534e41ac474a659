import Webserv.ChunkCuts
import Webserv.CompleteRequest
import Webserv.ParseErrors

/-!
# The text of a request

`RequestText` says which byte strings are one request and nothing else,
for all framings, with the parser that is dispatched for each. That is
what a fresh parser makes of the whole string, once it is routed, however
the string is cut into segments: a parser that has read a part of it
(`Waiting`) makes of the rest what a fresh one makes of the whole. No
request is a part of another one (`RequestText.eq_of_prefix`), so what a
client has sent is cut into requests in one way only.
-/

namespace Webserv

open Bytes Program RequestParser ChunkStream

namespace RequestParser

/-! ## Routing and parsing commute -/

/-- Routing that finds a location. -/
def withConfig (p : RequestParser) (cfg : Option ServerConfig) (l : Option Location) :
    RequestParser :=
  { p with serverConfig := cfg, locationConfig := l }

variable {p q : RequestParser} {cfg : Option ServerConfig} {l : Option Location}

theorem parseRequest_resumed (h : p.state = .body) (t : Bytes) :
    p.parseRequest t = some (.returned (p.parseBody t).1 (p.parseBody t).2) := by
  rw [parseRequest, if_pos h]

theorem withConfig_withPart (t : Bytes) :
    (p.withConfig cfg l).withPart t = (p.withPart t).withConfig cfg l := rfl

theorem withConfig_logError (code : Nat) :
    (p.withConfig cfg l).logError code = (p.logError code).withConfig cfg l := by
  unfold logError withConfig
  split <;> rfl

/-- The parsers of a round, routed. -/
abbrev roundWithConfig (cfg : Option ServerConfig) (l : Option Location) :
    (RequestParser × Bytes) ⊕ (RequestParser × Bytes) →
      (RequestParser × Bytes) ⊕ (RequestParser × Bytes) :=
  Sum.map (fun r => (r.1.withConfig cfg l, r.2)) fun r => (r.1.withConfig cfg l, r.2)

theorem finishChunk_withConfig (p : RequestParser) (rest : Bytes) :
    (p.withConfig cfg l).finishChunk rest = roundWithConfig cfg l (p.finishChunk rest) := by
  have hsame : ((p.withConfig cfg l).currentChunkRead = (p.withConfig cfg l).currentChunkSize)
      = (p.currentChunkRead = p.currentChunkSize) := rfl
  unfold finishChunk
  by_cases hfull : p.currentChunkRead = p.currentChunkSize
  · rw [if_pos hfull, if_pos (hsame.mpr hfull)]
    split
    · rfl
    · split
      · exact congrArg (fun q => Sum.inr (q, rest)) (withConfig_logError 400)
      · rfl
  · rw [if_neg hfull, if_neg (hsame ▸ hfull)]
    rfl

theorem startChunk_withConfig (p : RequestParser) (rest : Bytes) :
    (p.withConfig cfg l).startChunk rest = roundWithConfig cfg l (p.startChunk rest) := by
  simp only [startChunk]
  split
  · rfl
  split
  · exact congrArg (fun q => Sum.inr (q, rest)) (withConfig_logError 400)
  · rename_i parsed _
    split
    · split
      · rfl
      · split
        · exact congrArg (fun q => Sum.inr (q, rest.drop (findLineEnd rest)))
            (withConfig_logError (p := { p with currentChunkSize := parsed }) 400)
        · rfl
    · rfl

/-- A round of the chunk loop does not look at the configuration. -/
theorem parseChunkedBodyIter_withConfig (s : RequestParser × Bytes) :
    parseChunkedBodyIter (s.1.withConfig cfg l, s.2)
      = roundWithConfig cfg l (parseChunkedBodyIter s) := by
  obtain ⟨p, t⟩ := s
  simp only [parseChunkedBodyIter]
  split
  · rfl
  rw [show (p.withConfig cfg l).readingChunkData = p.readingChunkData from rfl]
  split
  · exact finishChunk_withConfig (p.readChunkData t).1 (p.readChunkData t).2
  · exact startChunk_withConfig p t

theorem parseChunkedBody_withConfig (p : RequestParser) (cfg : Option ServerConfig)
    (l : Option Location) (t : Bytes) :
    (p.withConfig cfg l).parseChunkedBody t
      = ((p.parseChunkedBody t).1.withConfig cfg l, (p.parseChunkedBody t).2) := by
  have hplain : WhileLoop.Exits parseChunkedBodyIter (p, t) (p.parseChunkedBody t) :=
    WhileLoop.exits_total
  have hconfig : WhileLoop.Exits parseChunkedBodyIter (p.withConfig cfg l, t)
      ((p.withConfig cfg l).parseChunkedBody t) := WhileLoop.exits_total
  exact hconfig.unique (hplain.map (f := fun s => (s.1.withConfig cfg l, s.2))
    (g := fun r => (r.1.withConfig cfg l, r.2)) parseChunkedBodyIter_withConfig)

/-- What the chunk loop leaves of a parser without an error. -/
structure SameHead (p q : RequestParser) : Prop where
  headers : q.errorCode = 0 → q.headers = p.headers
  requestUri : q.requestUri = p.requestUri
  length : q.hasContentLength = p.hasContentLength

theorem sameHead_logError (h : SameHead p q) : SameHead p (q.logError 400) := by
  unfold logError
  split
  · exact ⟨fun h' => absurd h' (show (400 : Nat) ≠ 0 by decide), h.requestUri, h.length⟩
  · exact h

theorem sameHead_parseChunkedBody (p : RequestParser) (t : Bytes) :
    SameHead p (p.parseChunkedBody t).1 := by
  refine WhileLoop.Rounds.total (chunkRounds (I := SameHead p) (Q := SameHead p)
    (fun q h => h) (fun q h => sameHead_logError h) ?_ ?_ ?_) ⟨fun _ => rfl, rfl, rfl⟩
  · exact fun q h => ⟨h.headers, h.requestUri, h.length⟩
  · exact fun q rest h => ⟨h.headers, h.requestUri, h.length⟩
  · exact fun q size read reading h => ⟨h.headers, h.requestUri, h.length⟩

end RequestParser

namespace Connection

/-- A located head: every parser with its fields and target is routed to
one place. -/
theorem exists_routed {servers : ServerGroup} {p : RequestParser} (hp : p.locationConfig = none)
    (hl : (p.matchLocation servers).locationConfig.isSome) :
    ∃ cfg l, (p.matchLocation servers).serverConfig = some cfg
      ∧ ∀ q : RequestParser, q.headers = p.headers → q.requestUri = p.requestUri →
        q.errorCode = 0 → routed servers q = q.withConfig (some cfg) (some l) := by
  obtain ⟨cfg, l, hmatch⟩ := matchLocation_some hp hl
  refine ⟨cfg, l, by rw [hmatch], fun q hheaders huri herr => ?_⟩
  rw [routed, if_pos herr, matchLocation_congr hheaders huri hp hl, hmatch]
  rfl

end Connection

open Connection

/-! ## Texts -/

/-- A head of which a fresh parser makes `p`, with a chunked body, for a
location that is there. -/
structure AnnouncesChunks (servers : ServerGroup) (head : Bytes) (p : RequestParser) : Prop where
  complete : CompleteHead head p
  flag : p.hasTransferEncoding = true
  coding : p.headers.get? (lit "transfer-encoding") = some (lit "chunked")
  located : (p.matchLocation servers).locationConfig.isSome

/-- The byte strings that are one request, with the parser that is
dispatched. No request asks for an interim response. -/
inductive RequestText (servers : ServerGroup) : Bytes → RequestParser → Prop where
  | bare {head : Bytes} {p : RequestParser} (hhead : CompleteHead head p)
      (hstate : p.state = .done) (hexpect : p.headers.contains (lit "expect") = false) :
      RequestText servers head (routed servers p)
  | sized {head body : Bytes} {p : RequestParser} (hhead : AnnouncesBody servers head p)
      (hbody : body.length = p.declaredLength)
      (hexpect : p.headers.contains (lit "expect") = false) :
      RequestText servers (head ++ body) (routed servers (p.withPart body))
  | chunked {head zero : Bytes} {p : RequestParser} (hhead : AnnouncesChunks servers head p)
      (chunks : List Chunk) (hzero : ZeroSize zero)
      (hexpect : p.headers.contains (lit "expect") = false) :
      RequestText servers (head ++ encodeChunks chunks zero)
        (routed servers (p.parseChunkedBody (encodeChunks chunks zero)).1)
  /-- a head that is refused before it announces a length -/
  | refused {head rest : Bytes} {p : RequestParser}
      (hend : find doubleCrlf head = some (head.length - 4))
      (hparse : ({} : RequestParser).parseRequest head = some (.returned p rest))
      (herr : p.errorCode ≠ 0) (hlength : p.hasContentLength = false)
      (hexpect : p.headers.contains (lit "expect") = false) :
      RequestText servers head p

/-- A part of a text that a segment may end with: within the data of a
chunk or between two chunks, if it is chunked. -/
def CutAllowed (servers : ServerGroup) (part : Bytes) : Prop :=
  ∀ head p t, AnnouncesChunks servers head p → part = head ++ t →
    CutOk (feed chunkSize (.size []) t) ∧ ¬WaitsUnread (feed chunkSize (.size []) t) ∨ t = []

/-- What the read path asks of the parser it finds: its length is known to
be allowed, and it does not ask for an interim response. -/
structure Quiet (p : RequestParser) : Prop where
  small : p.hasContentLength = true → ∃ cfg, p.serverConfig = some cfg
    ∧ p.contentLengthValue ≤ cfg.clientMaxBodySize
  silent : p.headers.contains (lit "expect") = false

/-- A fresh parser makes `q` of a part of a text, with `rest` unread, and
the routed one makes of what follows what a fresh one makes of all. -/
structure Waiting (servers : ServerGroup) (part : Bytes) (q : RequestParser) (rest : Bytes) :
    Prop where
  parse : ({} : RequestParser).parseRequest part = some (.returned q rest)
  state : (routed servers q).state = .body
  quiet : Quiet (routed servers q)
  resume : ∀ t, t ≠ [] → ∀ q' rest',
    ({} : RequestParser).parseRequest (part ++ t) = some (.returned q' rest') →
    q'.errorCode = 0 →
    (routed servers q).parseRequest (rest ++ t) = some (.returned (routed servers q') rest')

theorem Waiting.errorCode {servers : ServerGroup} {part rest : Bytes} {q : RequestParser}
    (h : Waiting servers part q rest) : q.errorCode = 0 := by
  have hcalls : Calls {} q := .parse .start h.parse
  rcases hcalls.settled (.inl running_fresh) with hrunning | hfailed
  · exact hrunning.1
  · have hstate := h.state
    rw [routed, if_neg hfailed.error, hfailed.state] at hstate
    cases hstate

section Sized

variable {servers : ServerGroup} {head : Bytes} {p : RequestParser}

theorem AnnouncesBody.unread (h : AnnouncesBody servers head p) (t : Bytes) :
    (p.withPart t).body = t.take p.declaredLength := by
  simp [withPart, h.enters.body]

theorem AnnouncesBody.withPart_declared (h : AnnouncesBody servers head p) (t : Bytes) :
    (p.withPart t).declaredLength = p.declaredLength := by
  rw [declaredLength, declaredLength, lengthField, lengthField, h.withPart_headers t]

/-- A fresh parser reads what is there of the body. -/
theorem AnnouncesBody.parse_part (h : AnnouncesBody servers head p) {t : Bytes} (ht : t ≠ []) :
    ({} : RequestParser).parseRequest (head ++ t)
      = some (.returned (p.withPart t) (t.drop p.declaredLength)) := by
  have hbody : p.body = [] := h.enters.body
  have hlt : p.body.length < p.declaredLength := by
    rw [hbody]
    exact h.positive
  have hpart := parseBody_part h.awaiting.coding h.length h.awaiting.numeric hlt t
  rw [hbody, List.length_nil, Nat.sub_zero] at hpart
  refine h.complete.parseRequest_body h.enters.state ht hpart ?_
  by_cases hmore : p.body.length + t.length < p.declaredLength
  · exact Or.inr (Or.inr (List.drop_eq_nil_of_le (by omega)))
  · exact Or.inl (if_neg hmore)

/-- Two parts, one after the other. -/
theorem AnnouncesBody.withPart_append (h : AnnouncesBody servers head p) {t : Bytes}
    (hlt : t.length < p.declaredLength) (t' : Bytes) :
    (p.withPart t).withPart t' = p.withPart (t ++ t') := by
  have hbody : (p.withPart t).body = t := by
    rw [h.unread, List.take_of_length_le (Nat.le_of_lt hlt)]
  have hstate : (p.withPart t).state = .body := by
    refine (if_pos ?_).trans h.enters.state
    rw [h.enters.body]
    simpa using hlt
  have hheaders : ((p.withPart t).getHeaderValue (lit "content-length")).1.headers
      = (p.getHeaderValue (lit "content-length")).1.headers := by
    refine getHeaderValue_present ?_
    rw [h.withPart_headers t, ← h.enters.fields.length]
    exact h.length
  have hparts : (p.withPart t).withPart t' = { p with
      headers := ((p.withPart t).getHeaderValue (lit "content-length")).1.headers
      contentLengthValue := (p.withPart t).declaredLength
      body := (p.withPart t).body
        ++ t'.take ((p.withPart t).declaredLength - (p.withPart t).body.length)
      state := if (p.withPart t).body.length + t'.length < (p.withPart t).declaredLength
        then (p.withPart t).state else .done } := rfl
  rw [hparts, hheaders, h.withPart_declared, hbody, hstate]
  simp only [withPart, h.enters.body, h.enters.state, List.nil_append, List.length_nil,
    Nat.sub_zero, Nat.zero_add, List.length_append, List.take_append,
    List.take_of_length_le (Nat.le_of_lt hlt)]

/-- A fresh parser that has read the head and a part `t` of the body. -/
structure HasRead (head : Bytes) (p q : RequestParser) (t : Bytes) : Prop where
  parse : ({} : RequestParser).parseRequest (head ++ t) = some (.returned q [])
  headers : q.headers = p.headers
  requestUri : q.requestUri = p.requestUri
  errorCode : q.errorCode = 0
  state : q.state = .body
  body : q.body = t
  length : q.hasContentLength = true
  coding : q.hasTransferEncoding = false
  recorded : q.contentLengthValue ≤ p.declaredLength
  next : ∀ t', q.withPart t' = p.withPart (t ++ t')

theorem AnnouncesBody.hasRead (h : AnnouncesBody servers head p) {t : Bytes}
    (hlt : t.length < p.declaredLength) : ∃ q, HasRead head p q t := by
  have henter := h.enters
  by_cases ht : t = []
  · have hparse := h.complete.parseRequest t
    rw [if_pos ht] at hparse
    subst ht
    exact ⟨p, hparse, rfl, rfl, henter.errorCode, henter.state, henter.body, h.length,
      h.awaiting.coding, by rw [henter.length]; exact Nat.zero_le _, fun t' => rfl⟩
  · have hparse := h.parse_part ht
    rw [List.drop_eq_nil_of_le (Nat.le_of_lt hlt)] at hparse
    refine ⟨p.withPart t, hparse, h.withPart_headers t, rfl, henter.errorCode, ?_, ?_, h.length,
      h.awaiting.coding, Nat.le_refl _, h.withPart_append hlt⟩
    · refine (if_pos ?_).trans henter.state
      rw [henter.body]
      simpa using hlt
    · rw [h.unread, List.take_of_length_le (Nat.le_of_lt hlt)]

/-- What has been read of the body makes no difference to the rest. -/
theorem AnnouncesBody.waiting (h : AnnouncesBody servers head p)
    (hexpect : p.headers.contains (lit "expect") = false) {t : Bytes}
    (hlt : t.length < p.declaredLength) : ∃ q rest, Waiting servers (head ++ t) q rest := by
  obtain ⟨cfg, l, hcfg, hrouted⟩ := exists_routed h.complete.unrouted h.located
  have hlimit := h.small cfg hcfg
  obtain ⟨q, hq⟩ := h.hasRead hlt
  have hq' := hrouted q hq.headers hq.requestUri hq.errorCode
  refine ⟨q, [], hq.parse, ?_, ⟨fun _ => ?_, ?_⟩, fun t' ht' r rest hparse _ => ?_⟩
  · rw [hq']
    exact hq.state
  · rw [hq']
    exact ⟨cfg, rfl, Nat.le_trans hq.recorded hlimit⟩
  · rw [hq']
    exact (congrArg (OrdMap.contains · (lit "expect")) hq.headers).trans hexpect
  -- the routed parser goes on with the part that follows
  rw [List.append_assoc, h.parse_part (by simp [ht'])] at hparse
  obtain ⟨rfl, rfl⟩ := ParseExit.returned.inj (Option.some.inj hparse)
  rw [hrouted _ (h.withPart_headers _) rfl h.enters.errorCode, hq', List.nil_append]
  have hfield : q.lengthField = p.lengthField := by rw [lengthField, lengthField, hq.headers]
  have hpart := parseBody_part (p := q.withConfig (some cfg) (some l)) hq.coding hq.length
    (by rw [show (q.withConfig (some cfg) (some l)).lengthField = q.lengthField from rfl, hfield]
        exact h.awaiting.numeric)
    (by show q.body.length < (strtoul 10 q.lengthField).1
        rw [hq.body, hfield]
        exact hlt) t'
  rw [parseRequest_resumed (p := q.withConfig (some cfg) (some l)) hq.state, hpart,
    withConfig_withPart, hq.next]
  have hdrop : t'.drop ((q.withConfig (some cfg) (some l)).declaredLength - q.body.length)
      = (t ++ t').drop p.declaredLength := by
    show t'.drop ((strtoul 10 q.lengthField).1 - q.body.length) = _
    rw [hq.body, hfield, List.drop_append, List.drop_eq_nil_of_le (Nat.le_of_lt hlt)]
    rfl
  exact congrArg (fun rest => some (ParseExit.returned _ rest)) hdrop

end Sized

section Chunked

variable {servers : ServerGroup} {head : Bytes} {p : RequestParser}

theorem AnnouncesChunks.enters (h : AnnouncesChunks servers head p) : EntersBody p := by
  refine h.complete.outcome.resolve_right ?_
  rintro ⟨-, -, hnone⟩
  rw [h.flag] at hnone
  cases hnone

theorem AnnouncesChunks.inChunkedBody (h : AnnouncesChunks servers head p) : p.InChunkedBody :=
  h.enters.inChunkedBody h.coding

/-- A fresh parser that goes on behind the head, where it comes to an end. -/
theorem AnnouncesChunks.parse_body (h : AnnouncesChunks servers head p) {t : Bytes} (ht : t ≠ [])
    (hend : (p.parseChunkedBody t).1.state = .done ∨ (p.parseChunkedBody t).1.state = .errorParse
      ∨ (p.parseChunkedBody t).2 = []) :
    ({} : RequestParser).parseRequest (head ++ t)
      = some (.returned (p.parseChunkedBody t).1 (p.parseChunkedBody t).2) :=
  h.complete.parseRequest_body h.enters.state ht (parseBody_chunked h.inChunkedBody t) hend

/-- What a fresh parser returns with is what it makes of the chunks. -/
theorem AnnouncesChunks.parse_returned (h : AnnouncesChunks servers head p) {t rest : Bytes}
    {q : RequestParser} (ht : t ≠ [])
    (hparse : ({} : RequestParser).parseRequest (head ++ t) = some (.returned q rest)) :
    p.parseChunkedBody t = (q, rest) := by
  by_cases hend : (p.parseChunkedBody t).1.state = .done
      ∨ (p.parseChunkedBody t).1.state = .errorParse ∨ (p.parseChunkedBody t).2 = []
  · rw [h.parse_body ht hend] at hparse
    obtain ⟨rfl, rfl⟩ := ParseExit.returned.inj (Option.some.inj hparse)
    rfl
  · obtain ⟨hwaits, -⟩ := h.inChunkedBody.parseChunkedBody_waits (Or.inl ht)
    simp only [not_or] at hend
    have hbody := (h.inChunkedBody.parseChunkedBody_state t).resolve_right
      (not_or.mpr ⟨hend.1, hend.2.1⟩)
    have hhangs := hangs_of_waitsUnread h.inChunkedBody ht (hwaits.mp ⟨hbody, hend.2.2⟩)
    rw [h.complete.parseRequest, if_neg ht, hhangs.1 2] at hparse
    cases hparse

/-- Where the decoder stands behind a part of the chunks that may be cut
off. -/
theorem AnnouncesChunks.part_body (h : AnnouncesChunks servers head p) {t more : Bytes}
    (ht : t ≠ []) (hcut : CutOk (feed chunkSize (.size []) t))
    (hread : ¬WaitsUnread (feed chunkSize (.size []) t)) (hmore : more ≠ []) {q : RequestParser}
    (hwhole : p.parseChunkedBody (t ++ more) = (q, [])) :
    ∃ q₁, p.parseChunkedBody t = (q₁, []) ∧ q₁.InChunkedBody
      ∧ ∀ t', t' ≠ [] → p.parseChunkedBody (t ++ t') = q₁.parseChunkedBody t' := by
  have hin := h.inChunkedBody
  rw [← posOf_idle h.enters.idle.1] at hcut hread
  have hbody : (p.parseChunkedBody t).1.state = .body := by
    by_contra hover
    have hleft := ((hin.parseChunkedBody_append hcut hmore).2 hover).2
    rw [hwhole] at hleft
    exact hmore (List.append_eq_nil_iff.mp (Prod.mk.inj hleft).2.symm).2
  have hnone : (p.parseChunkedBody t).2 = [] := by
    by_contra hleft
    exact hread ((hin.parseChunkedBody_waits (Or.inl ht)).1.mp ⟨hbody, hleft⟩)
  refine ⟨(p.parseChunkedBody t).1, Prod.ext rfl hnone,
    ((hin.parseChunkedBody_append hcut hmore).1 hbody).1, fun t' ht' => ?_⟩
  rw [((hin.parseChunkedBody_append hcut ht').1 hbody).2.2, hnone, List.nil_append]

/-- A parser that has read the head and a part of the chunks. -/
theorem AnnouncesChunks.waiting_of (h : AnnouncesChunks servers head p)
    (hexpect : p.headers.contains (lit "expect") = false) {t : Bytes} {q : RequestParser}
    (hparse : ({} : RequestParser).parseRequest (head ++ t) = some (.returned q []))
    (hq : q.InChunkedBody) (hsame : SameHead p q)
    (hnext : ∀ t', t' ≠ [] → p.parseChunkedBody (t ++ t') = q.parseChunkedBody t') :
    Waiting servers (head ++ t) q [] := by
  obtain ⟨cfg, l, -, hrouted⟩ := exists_routed h.complete.unrouted h.located
  have hq' := hrouted q (hsame.headers hq.errorCode) hsame.requestUri hq.errorCode
  have hlength : p.hasContentLength = false := by
    have hframing := h.enters.framing
    rw [h.flag] at hframing
    simpa using hframing
  refine ⟨hparse, ?_, ⟨fun hl => ?_, ?_⟩, fun t' ht' r rest hr herr => ?_⟩
  · rw [hq']
    exact hq.state
  · rw [hq'] at hl
    exact absurd (hl.symm.trans (hsame.length.trans hlength)) (by decide)
  · rw [hq']
    exact (congrArg (OrdMap.contains · (lit "expect")) (hsame.headers hq.errorCode)).trans hexpect
  rw [List.append_assoc] at hr
  have hwhole := h.parse_returned (by simp [ht']) hr
  have hsame' := sameHead_parseChunkedBody p (t ++ t')
  rw [hwhole] at hsame'
  have hcoding : (q.withConfig (some cfg) (some l)).headers.get? (lit "transfer-encoding")
      = some (lit "chunked") := hq.coding
  rw [hrouted r (hsame'.headers herr) hsame'.requestUri herr, hq', List.nil_append,
    parseRequest_resumed (p := q.withConfig (some cfg) (some l)) hq.state,
    parseBody_coding (p := q.withConfig (some cfg) (some l)) hq.flag hcoding,
    parseChunkedBody_withConfig, ← hnext t' ht', hwhole]

theorem AnnouncesChunks.waiting (h : AnnouncesChunks servers head p)
    (hexpect : p.headers.contains (lit "expect") = false) {t more : Bytes} (hmore : more ≠ [])
    (hcut : CutOk (feed chunkSize (.size []) t) ∧ ¬WaitsUnread (feed chunkSize (.size []) t)
      ∨ t = []) {q : RequestParser} (hwhole : p.parseChunkedBody (t ++ more) = (q, [])) :
    ∃ q rest, Waiting servers (head ++ t) q rest := by
  by_cases ht : t = []
  · subst ht
    have hparse := h.complete.parseRequest []
    rw [if_pos rfl] at hparse
    exact ⟨p, [], h.waiting_of hexpect hparse h.inChunkedBody ⟨fun _ => rfl, rfl, rfl⟩
      fun t' _ => rfl⟩
  · obtain ⟨hok, hread⟩ := hcut.resolve_right ht
    obtain ⟨q₁, hpart, hin, hnext⟩ := h.part_body ht hok hread hmore hwhole
    have hparse := h.parse_body ht (by rw [hpart]; exact Or.inr (Or.inr rfl))
    have hsame := sameHead_parseChunkedBody p t
    rw [hpart] at hparse hsame
    exact ⟨q₁, [], h.waiting_of hexpect hparse hin hsame hnext⟩

end Chunked

/-! ## Whole texts -/

section Texts

variable {servers : ServerGroup} {text : Bytes} {p : RequestParser}

/-- No length is announced, and no interim response is asked for. -/
structure Bare (q : RequestParser) : Prop where
  length : q.hasContentLength = false
  silent : q.headers.contains (lit "expect") = false

theorem Bare.quiet {q : RequestParser} (h : Bare q) : Quiet q :=
  ⟨fun hl => absurd (h.length.symm.trans hl) (by decide), h.silent⟩

theorem Bare.logError {q : RequestParser} (h : Bare q) (code : Nat) : Bare (q.logError code) := by
  unfold RequestParser.logError
  split
  · refine ⟨h.length, ?_⟩
    show OrdMap.contains (if code = 0 then q.headers else _) _ = false
    split
    · exact h.silent
    · rw [OrdMap.contains,
        OrdMap.get?_insert_of_ne _ (show lit "connection" ≠ lit "expect" by decide)]
      exact h.silent
  · exact h

theorem Bare.routed {q : RequestParser} (h : Bare q) : Bare (routed servers q) := by
  unfold Connection.routed
  split
  · simp only [matchLocation]
    have hset (cfg : Option ServerConfig) (l : Option Location) : Bare (q.withConfig cfg l) :=
      ⟨h.length, h.silent⟩
    split
    · rename_i l _
      split
      · exact (hset _ (some l)).logError 404
      · exact hset _ (some l)
    · split
      · exact (hset _ q.locationConfig).logError 404
      · exact hset _ q.locationConfig
  · exact h

/-- Behind a body, the parser is done, and has the configuration of its
head. -/
theorem quiet_done {q : RequestParser} {cfg : ServerConfig} {l : Location}
    (hsmall : q.hasContentLength = true → q.contentLengthValue ≤ cfg.clientMaxBodySize)
    (hexpect : q.headers.contains (lit "expect") = false) :
    Quiet (q.withConfig (some cfg) (some l)) :=
  ⟨fun hl => ⟨cfg, rfl, hsmall hl⟩, hexpect⟩

/-- The parser of a text: what a fresh parser makes of it, routed. -/
structure Parsed (servers : ServerGroup) (text : Bytes) (p : RequestParser) : Prop where
  parse : ∃ q rest, ({} : RequestParser).parseRequest text = some (.returned q rest)
    ∧ p = routed servers q ∧ (p.errorCode = 0 → rest = [])
    ∧ (q.errorCode = 0 ∨ Bytes.find doubleCrlf text = some (text.length - 4))
  notBody : p.state ≠ .body
  quiet : Quiet p

theorem RequestText.find (h : RequestText servers text p) :
    (Bytes.find doubleCrlf text).isSome := by
  cases h with
  | bare hhead => rw [← List.append_nil text, hhead.find]; rfl
  | sized hhead => rw [hhead.complete.find]; rfl
  | chunked hhead => rw [hhead.complete.find]; rfl
  | refused hend => rw [hend]; rfl

theorem CompleteHead.framing_none {head : Bytes} (h : CompleteHead head p)
    (hstate : p.state = .done) :
    p.hasContentLength = false := by
  rcases h.outcome with henter | ⟨-, hlength, -⟩
  · exact absurd (henter.state.symm.trans hstate) (by decide)
  · exact hlength

theorem AnnouncesChunks.parse_whole {head zero : Bytes} (h : AnnouncesChunks servers head p)
    (chunks : List Chunk) (hzero : ZeroSize zero) :
    ∃ q, p.parseChunkedBody (encodeChunks chunks zero) = (q, []) ∧ q.state = .done
      ∧ q.errorCode = 0 := by
  obtain ⟨q, hq, hdone, herr, -⟩ := parseChunkedBody_encode hzero [] chunks h.enters.idle.1
  rw [List.append_nil] at hq
  exact ⟨q, hq, hdone, herr.trans h.complete.accepted⟩

theorem RequestText.parsed (h : RequestText servers text p) : Parsed servers text p := by
  cases h with
  | @bare _ p hhead hstate hexpect =>
      have hparse := hhead.parseRequest_done hstate []
      rw [List.append_nil] at hparse
      have hbare : Bare (Connection.routed servers p) :=
        Bare.routed ⟨hhead.framing_none hstate, hexpect⟩
      refine ⟨⟨p, [], hparse, rfl, fun _ => rfl, Or.inl hhead.accepted⟩, ?_, hbare.quiet⟩
      rw [routed_state servers hhead.accepted hhead.unrouted]
      split
      · rw [hstate]
        decide
      · decide
  | @sized head body p hhead hbody hexpect =>
      obtain ⟨cfg, l, hcfg, hrouted⟩ := exists_routed hhead.complete.unrouted hhead.located
      have hne : body ≠ [] := by
        rintro rfl
        exact absurd hhead.positive (by rw [← hbody]; decide)
      have hparse := hhead.parse_part hne
      rw [List.drop_eq_nil_of_le (Nat.le_of_eq hbody)] at hparse
      have hdone : (p.withPart body).state = .done := by
        refine if_neg ?_
        rw [hhead.enters.body, hbody]
        simp
      have heq := hrouted (p.withPart body) (hhead.withPart_headers _) rfl hhead.enters.errorCode
      refine ⟨⟨_, [], hparse, rfl, fun _ => rfl, Or.inl hhead.enters.errorCode⟩, ?_, ?_⟩
      · rw [heq]
        exact fun hbody' => absurd (hdone.symm.trans hbody') (by decide)
      · rw [heq]
        refine quiet_done (fun _ => hhead.small cfg hcfg) ?_
        rw [hhead.withPart_headers]
        exact hexpect
  | @chunked head zero p hhead chunks hzero hexpect =>
      obtain ⟨cfg, l, hcfg, hrouted⟩ := exists_routed hhead.complete.unrouted hhead.located
      obtain ⟨q, hq, hdone, herr⟩ := hhead.parse_whole chunks hzero
      have hne : encodeChunks chunks zero ≠ [] := by simp [encodeChunks]
      have hparse := hhead.parse_body hne (by rw [hq]; exact Or.inl hdone)
      have hsame := sameHead_parseChunkedBody p (encodeChunks chunks zero)
      rw [hq] at hparse hsame ⊢
      have heq := hrouted q (hsame.headers herr) hsame.requestUri herr
      have hlength : p.hasContentLength = false := by
        have hframing := hhead.enters.framing
        rw [hhead.flag] at hframing
        simpa using hframing
      refine ⟨⟨q, [], hparse, rfl, fun _ => rfl, Or.inl herr⟩, ?_, ?_⟩
      · rw [heq]
        exact fun hbody => absurd (hdone.symm.trans hbody) (by decide)
      · rw [heq]
        refine quiet_done (fun hl => ?_) ?_
        · exact absurd (hl.symm.trans (hsame.length.trans hlength)) (by decide)
        · rw [hsame.headers herr]
          exact hexpect
  | refused hend hparse herr hlength hexpect =>
      have hrouted : Connection.routed servers p = p := if_neg herr
      refine ⟨⟨p, _, hparse, hrouted.symm, fun h => absurd h herr, Or.inr hend⟩, ?_,
        Bare.quiet ⟨hlength, hexpect⟩⟩
      have hcalls : Calls {} p := .parse .start hparse
      rcases hcalls.settled (.inl running_fresh) with hrunning | hfailed
      · exact absurd hrunning.1 herr
      · rw [hfailed.state]
        decide

/-- A text is routed, and the connection is closed behind an error. -/
theorem RequestText.settled (h : RequestText servers text p) :
    (p.errorCode = 0 → p.locationConfig.isSome)
      ∧ (p.errorCode ≠ 0 → p.isConnectionClose = true) := by
  obtain ⟨q, rest, hparse, rfl, -⟩ := h.parsed.parse
  have hcalls : Calls {} (Connection.routed servers q) := by
    unfold Connection.routed
    split
    · exact .route servers (.parse .start hparse)
    · exact .parse .start hparse
  refine ⟨fun herr => ?_, fun herr => ?_⟩
  · have hq : q.errorCode = 0 := by
      by_contra hfailed
      rw [Connection.routed, if_neg hfailed] at herr
      exact hfailed herr
    have hstate := routed_state servers hq (kept_parseRequest hparse).locationConfig
    rw [Connection.routed, if_pos hq]
    by_contra hnone
    rw [if_neg hnone] at hstate
    rcases hcalls.settled (.inl running_fresh) with hrunning | hfailed
    · exact hrunning.2 hstate
    · exact hfailed.error herr
  · rcases hcalls.settled (.inl running_fresh) with hrunning | hfailed
    · exact absurd hrunning.1 herr
    · rw [isConnectionClose, hfailed.close]
      rfl

/-- What is cut off in front of the end of a head, or behind it. -/
theorem cut_cases {head body part more : Bytes} (h : head ++ body = part ++ more) :
    part <+: head ∧ part.length < head.length ∨ ∃ t, part = head ++ t ∧ body = t ++ more := by
  rcases List.append_eq_append_iff.mp h with ⟨t, hpart, hbody⟩ | ⟨t, hhead, hmore⟩
  · exact Or.inr ⟨t, hpart, hbody⟩
  · by_cases ht : t = []
    · subst ht
      refine Or.inr ⟨[], by simpa using hhead.symm, by simpa using hmore.symm⟩
    · have hpos := List.length_pos_iff.mpr ht
      refine Or.inl ⟨⟨t, hhead.symm⟩, ?_⟩
      rw [hhead, List.length_append]
      omega

/-- A part of a text is all in the head, or its parser waits for more. -/
theorem RequestText.part {part more : Bytes} (h : RequestText servers text p)
    (htext : text = part ++ more) (hmore : more ≠ []) (hcut : CutAllowed servers part) :
    Bytes.find doubleCrlf part = none ∨ ∃ q rest, Waiting servers part q rest := by
  have hpos := List.length_pos_iff.mpr hmore
  have hhead (hends : Bytes.find doubleCrlf text = some (text.length - 4)) :
      Bytes.find doubleCrlf part = none := by
    refine find_part_of_ends hends ⟨more, htext.symm⟩ ?_
    rw [htext, List.length_append]
    omega
  cases h with
  | bare hcomplete => exact Or.inl (hhead hcomplete.ends)
  | refused hends => exact Or.inl (hhead hends)
  | sized hannounces hbody hexpect =>
      rcases cut_cases htext with ⟨hpart, hlt⟩ | ⟨t, rfl, hbody'⟩
      · exact Or.inl (hannounces.complete.find_part hpart hlt)
      · refine Or.inr (hannounces.waiting hexpect ?_)
        rw [hbody', List.length_append] at hbody
        omega
  | chunked hannounces chunks hzero hexpect =>
      rcases cut_cases htext with ⟨hpart, hlt⟩ | ⟨t, rfl, hbody⟩
      · exact Or.inl (hannounces.complete.find_part hpart hlt)
      · obtain ⟨q, hq, -, -⟩ := hannounces.parse_whole chunks hzero
        rw [hbody] at hq
        exact Or.inr (hannounces.waiting hexpect hmore (hcut _ _ t hannounces rfl) hq)

/-! ## Where a text ends -/

/-- How a fresh parser tells where a text ends: it leaves unread what is
behind one that it accepts, and one that it refuses is all head. -/
inductive TextEnd (text : Bytes) : Prop where
  | accepted {head : Bytes} {q : RequestParser} (hhead : CompleteHead head q)
      (hstart : head <+: text)
      (hparse : ∀ t, ∃ q', ({} : RequestParser).parseRequest (text ++ t) = some (.returned q' t)
        ∧ q'.errorCode = 0)
  | refused {q : RequestParser} {rest : Bytes}
      (hfind : Bytes.find doubleCrlf text = some (text.length - 4))
      (hparse : ({} : RequestParser).parseRequest text = some (.returned q rest))
      (herr : q.errorCode ≠ 0)

theorem RequestText.ends (h : RequestText servers text p) : TextEnd text := by
  cases h with
  | bare hhead hstate =>
      refine .accepted hhead List.prefix_rfl fun t => ⟨_, hhead.parseRequest_done hstate t, ?_⟩
      exact hhead.accepted
  | @sized head body p hhead hbody =>
      refine .accepted hhead.complete (List.prefix_append head body) fun t => ?_
      have hne : body ++ t ≠ [] := by
        intro hnil
        rw [(List.append_eq_nil_iff.mp hnil).1] at hbody
        exact absurd hhead.positive (by rw [← hbody]; decide)
      have hparse := hhead.parse_part hne
      rw [← hbody, List.drop_left, ← List.append_assoc] at hparse
      exact ⟨_, hparse, hhead.enters.errorCode⟩
  | @chunked head zero p hhead chunks hzero =>
      refine .accepted hhead.complete (List.prefix_append head _) fun t => ?_
      obtain ⟨q, hq, hdone, herr, -⟩ := parseChunkedBody_encode hzero t chunks hhead.enters.idle.1
      have hne : encodeChunks chunks zero ++ t ≠ [] := by simp [encodeChunks]
      have hparse := hhead.parse_body hne (by rw [hq]; exact Or.inl hdone)
      rw [hq, ← List.append_assoc] at hparse
      exact ⟨q, hparse, herr.trans hhead.complete.accepted⟩
  | refused hend hparse herr => exact .refused hend hparse herr

/-- No request is a part of another one. -/
theorem RequestText.eq_of_prefix {text' : Bytes} {p' : RequestParser}
    (h : RequestText servers text p) (h' : RequestText servers text' p')
    (hstart : text <+: text') : text = text' := by
  obtain ⟨t, rfl⟩ := hstart
  suffices ht : t = [] by rw [ht, List.append_nil]
  cases h.ends with
  | accepted _ _ hparse =>
      obtain ⟨q, hq, herr⟩ := hparse t
      cases h'.ends with
      | accepted _ _ hparse' =>
          obtain ⟨q', hq', -⟩ := hparse' []
          rw [List.append_nil, hq] at hq'
          exact (ParseExit.returned.inj (Option.some.inj hq')).2
      | refused _ hq' herr' =>
          rw [hq] at hq'
          obtain ⟨rfl, -⟩ := ParseExit.returned.inj (Option.some.inj hq')
          exact absurd herr herr'
  | refused hfind hq herr =>
      have hfour : doubleCrlf.length = 4 := rfl
      have hlength := find_le hfind
      have hwhole := find_append t hfind
      cases h'.ends with
      | @accepted head q' hhead hpart _ =>
          -- both heads end where the first empty line does
          obtain ⟨u, hu⟩ := hpart
          have hlength' := find_le hhead.ends
          have hfind' := hhead.find u
          rw [hu, hwhole] at hfind'
          have heq := Option.some.inj hfind'
          have hsame : head.length = text.length := by omega
          obtain ⟨rfl, -⟩ := List.append_inj hu hsame
          have hparse := hhead.parseRequest []
          rw [List.append_nil, if_pos rfl, hq] at hparse
          obtain ⟨rfl, -⟩ := ParseExit.returned.inj (Option.some.inj hparse)
          exact absurd hhead.accepted herr
      | refused hfind' =>
          rw [hwhole, List.length_append] at hfind'
          have heq := Option.some.inj hfind'
          rw [← List.length_eq_zero_iff]
          omega

/-- What a client has sent of a request that is not there as a whole:
nothing, or its start. -/
structure Incomplete (servers : ServerGroup) (part : Bytes) : Prop where
  starts : part = [] ∨ ∃ more p, more ≠ [] ∧ RequestText servers (part ++ more) p
  notWhole : ∀ text p, RequestText servers text p → ¬text <+: part

theorem incomplete_nil (servers : ServerGroup) : Incomplete servers [] := by
  refine ⟨.inl rfl, fun text p h hstart => ?_⟩
  obtain rfl := List.prefix_nil.mp hstart
  exact absurd h.find (by decide)

theorem RequestText.incomplete {part more : Bytes} (h : RequestText servers (part ++ more) p)
    (hmore : more ≠ []) : Incomplete servers part := by
  refine ⟨.inr ⟨more, p, hmore, h⟩, fun text q h' hstart => ?_⟩
  have heq := h'.eq_of_prefix h (hstart.trans (List.prefix_append part more))
  rw [heq] at hstart
  have hlength := hstart.length_le
  rw [List.length_append] at hlength
  exact hmore (List.length_eq_zero_iff.mp (by omega))

end Texts

end Webserv
