import Webserv.RequestFrame

/-!
# The first parse error

A parser is either without an error and not in ERROR_PARSE, or it has
stopped: it has an error code, is in ERROR_PARSE, and its `connection`
field says `close`. `log_error` takes it from the one to the other, and
nothing brings it back. Every exit of the parsing methods is one of the
two, whatever the buffers are.
-/

namespace Webserv

open Bytes

namespace RequestParser

/-! ## Calls -/

/-- The parser has become another by calls of `parse_request` that return
and of `match_location`. -/
inductive Calls (p : RequestParser) : RequestParser → Prop where
  | start : Calls p p
  | parse {q r : RequestParser} {request rest : Bytes} (h : Calls p q)
      (hparse : q.parseRequest request = some (.returned r rest)) : Calls p r
  | route {q : RequestParser} (servers : ServerGroup) (h : Calls p q) :
      Calls p (q.matchLocation servers)

/-- The parser has no error. -/
def Running (p : RequestParser) : Prop := p.errorCode = 0 ∧ p.state ≠ .errorParse

/-- The parser has an error, and the connection is to be closed. -/
structure Failed (p : RequestParser) : Prop where
  error : p.errorCode ≠ 0
  state : p.state = .errorParse
  close : p.headers.get? (lit "connection") = some (lit "close")

/-- The parser runs or has failed. -/
def Settled (p : RequestParser) : Prop := Running p ∨ Failed p

/-! ## Errors -/

theorem failed_logError {p : RequestParser} (h : p.errorCode = 0) {code : Nat} (hcode : code ≠ 0) :
    Failed (p.logError code) := by
  rw [RequestParser.logError, if_pos h]
  refine ⟨hcode, rfl, ?_⟩
  simp only [if_neg hcode]
  exact OrdMap.get?_insert_self _ _ _

theorem Settled.running {p : RequestParser} (h : Settled p) (hstate : p.state ≠ .errorParse) :
    Running p :=
  h.resolve_right fun hfailed => hstate hfailed.state

/-- Another error changes nothing. -/
theorem Failed.logError {p : RequestParser} (h : Failed p) (code : Nat) : p.logError code = p := by
  rw [RequestParser.logError, if_neg h.error]

/-- A parser that has failed takes nothing. -/
theorem Failed.parseRequest {p : RequestParser} (h : Failed p) (request : Bytes) :
    p.parseRequest request = some (.returned p request) := by
  have hbody : p.state ≠ .body := by
    rw [h.state]
    decide
  have hround : parseRequestIter (p, request) = .inr (.returned p request) := by
    simp only [parseRequestIter]
    rw [if_pos (.inr (.inr h.state))]
  rw [RequestParser.parseRequest, if_neg hbody]
  exact WhileLoop.run_inr hround 3

/-! ## The stages -/

theorem settled_parseBody {p : RequestParser} (h : Running p) (rest : Bytes) :
    Settled (p.parseBody rest).1 := by
  have hheader (key : Bytes) : Running (p.getHeaderValue key).1 := h
  simp only [parseBody]
  split
  · split
    · have hrounds := chunkRounds (I := Running) (Q := Settled) (fun q hq => .inl hq)
        (fun q hq => .inr (failed_logError hq.1 (by decide)))
        (fun q hq => .inl ⟨hq.1, ParseState.noConfusion⟩) (fun q rest hq => hq)
        (fun q size read reading hq => hq)
      exact hrounds.total (hheader _)
    · exact .inr (failed_logError (hheader _).1 (by decide))
  split
  · simp only [parseContentLengthBody]
    split
    · refine .inr (failed_logError ?_ (by decide))
      exact h.1
    · simp only [readBody]
      split
      · exact .inl ⟨h.1, ParseState.noConfusion⟩
      · exact .inl h
  · exact .inl h

theorem callRule_settled : CallRule Running Settled where
  zero _ hq := hq.1
  wait _ hq := .inl hq
  go _ hq hstate := hq.running hstate
  error _ _ hq hcode := .inr (failed_logError hq hcode)
  method _ _ hq := hq
  line _ _ _ hq := ⟨hq.1, ParseState.noConfusion⟩
  field _ _ _ hq := hq
  ended _ _ hstate hq := by
    rcases hstate with rfl | rfl
    · exact ⟨hq.1, ParseState.noConfusion⟩
    · exact ⟨hq.1, ParseState.noConfusion⟩
  body _ rest hq := settled_parseBody hq rest

/-- A call on a parser without an error. -/
theorem Running.parseRequest {p q : RequestParser} (hp : Running p) {request rest : Bytes}
    (h : p.parseRequest request = some (.returned q rest)) : Settled q :=
  callRule_settled.parseRequest hp h

theorem running_fresh : Running {} := ⟨rfl, ParseState.noConfusion⟩

/-- Routing sets pointers, and may log an error. -/
theorem matchLocation_routes (p : RequestParser) (servers : ServerGroup) :
    ∃ q : RequestParser, q.errorCode = p.errorCode ∧ q.state = p.state ∧ q.headers = p.headers
      ∧ (p.matchLocation servers = q ∨ p.matchLocation servers = q.logError 404) := by
  simp only [matchLocation]
  split
  · split
    · refine ⟨_, ?_, ?_, ?_, .inr rfl⟩ <;> rfl
    · refine ⟨_, ?_, ?_, ?_, .inl rfl⟩ <;> rfl
  · split
    · refine ⟨_, ?_, ?_, ?_, .inr rfl⟩ <;> rfl
    · refine ⟨_, ?_, ?_, ?_, .inl rfl⟩ <;> rfl

theorem Failed.matchLocation {p : RequestParser} (h : Failed p) (servers : ServerGroup) :
    Failed (p.matchLocation servers) ∧ (p.matchLocation servers).errorCode = p.errorCode := by
  obtain ⟨q, herror, hstate, hheaders, hroute⟩ := matchLocation_routes p servers
  have hq : Failed q := ⟨herror ▸ h.error, hstate.trans h.state, hheaders ▸ h.close⟩
  have hsame : p.matchLocation servers = q := by
    rcases hroute with hroute | hroute
    · exact hroute
    · exact hroute.trans (hq.logError 404)
  rw [hsame]
  exact ⟨hq, herror⟩

theorem Running.matchLocation {p : RequestParser} (h : Running p) (servers : ServerGroup) :
    Settled (p.matchLocation servers) := by
  obtain ⟨q, herror, hstate, -, hroute⟩ := matchLocation_routes p servers
  have hq : Running q := ⟨herror.trans h.1, hstate ▸ h.2⟩
  rcases hroute with hroute | hroute
  · rw [hroute]
    exact .inl hq
  · rw [hroute]
    exact .inr (failed_logError hq.1 (by decide))

/-! ## Every sequence of calls -/

theorem Calls.settled {p q : RequestParser} (hp : Settled p) (h : Calls p q) : Settled q := by
  induction h with
  | start => exact hp
  | @parse q r request rest _ hparse ih =>
      rcases ih with hrunning | hfailed
      · exact hrunning.parseRequest hparse
      · rw [hfailed.parseRequest, Option.some.injEq, ParseExit.returned.injEq] at hparse
        exact hparse.1 ▸ .inr hfailed
  | @route q servers _ ih =>
      rcases ih with hrunning | hfailed
      · exact hrunning.matchLocation servers
      · exact .inr (hfailed.matchLocation servers).1

/-- No call takes the error away. -/
theorem Calls.failed {p q : RequestParser} (hp : Failed p) (h : Calls p q) :
    Failed q ∧ q.errorCode = p.errorCode := by
  induction h with
  | start => exact ⟨hp, rfl⟩
  | @parse q r request rest _ hparse ih =>
      rw [ih.1.parseRequest, Option.some.injEq, ParseExit.returned.injEq] at hparse
      exact hparse.1 ▸ ih
  | @route q servers _ ih =>
      obtain ⟨hfailed, herror⟩ := ih.1.matchLocation servers
      exact ⟨hfailed, herror.trans ih.2⟩

/-- The first error of a parser is final: a parser that calls have made of
a fresh one has an error if and only if it is in ERROR_PARSE, its
`connection` field then says `close`, and later calls keep the error and
the state and consume nothing. -/
theorem firstError_final {p : RequestParser} (h : Calls {} p) :
    (p.errorCode ≠ 0 ↔ p.state = .errorParse)
      ∧ (p.errorCode ≠ 0 → p.headers.get? (lit "connection") = some (lit "close"))
      ∧ (p.errorCode ≠ 0 → ∀ q, Calls p q → q.errorCode = p.errorCode ∧ q.state = p.state
        ∧ ∀ request, q.parseRequest request = some (.returned q request)) := by
  rcases h.settled (.inl running_fresh) with hrunning | hfailed
  · refine ⟨⟨fun herror => absurd hrunning.1 herror, fun hstate => absurd hstate hrunning.2⟩,
      ?_, ?_⟩
    · exact fun herror => absurd hrunning.1 herror
    · exact fun herror => absurd hrunning.1 herror
  · refine ⟨⟨fun _ => hfailed.state, fun _ => hfailed.error⟩, fun _ => hfailed.close, ?_⟩
    intro _ q hq
    obtain ⟨hq, herror⟩ := hq.failed hfailed
    exact ⟨herror, hq.state.trans hfailed.state.symm, hq.parseRequest⟩

/-- A request line that is refused. -/
def refusedRequest : Bytes := lit "GET\r\n\r\n"

theorem firstError_final_refused :
    (({} : RequestParser).logError 400).headers.get? (lit "connection") = some (lit "close") := by
  have hparse : ({} : RequestParser).parseRequest refusedRequest
      = some (.returned (({} : RequestParser).logError 400) refusedRequest) := by
    decide +kernel
  exact (firstError_final (.parse .start hparse)).2.1 (by decide)

end RequestParser

end Webserv
