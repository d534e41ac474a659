import Webserv.RequestFrame
import Webserv.ConnectionRuns

/-!
# The answer to a failed request

A request that could not be parsed or routed is answered with the page of
its error when it is dispatched as a normal request. The dispatch does not
ask for the error: one that looks like a CGI request goes to the code for
scripts, which answers with an error of its own, starts the script, or
goes through a NULL location.
-/

namespace Webserv

open Bytes Program ResponseBuilder

/-- The codes a request can fail with, in parsing or routing. -/
def requestErrorCodes : List Nat := 404 :: parseErrorCodes

theorem toShort_errorCode : ∀ code ∈ requestErrorCodes, toShort code = code := by decide

/-- A request never fails with a code the CGI branch answers with. -/
theorem statusLineOf_errorCode : ∀ code ∈ requestErrorCodes, ∀ code' ∈ [405, 500],
    ¬statusLineOf code <+: statusLineOf code' ∧ ¬statusLineOf code' <+: statusLineOf code := by
  decide +kernel

theorem not_prefix_of_cgiError {code : Nat} (hcode : code ∈ requestErrorCodes) {code' : Int}
    (hcode' : code' = 405 ∨ code' = 500) {response : Bytes}
    (h : statusLineOf code' <+: response) : ¬statusLineOf code <+: response := by
  intro h'
  have hne := statusLineOf_errorCode code hcode code' (by simpa using hcode')
  rcases List.prefix_or_prefix_of_prefix h h' with hpre | hpre
  · exact hne.2 hpre
  · exact hne.1 hpre

namespace RequestParser

theorem goesToCgi_setRequestLine (p : RequestParser) :
    p.setRequestLine.goesToCgi = p.goesToCgi := by
  simp only [goesToCgi, isCgiRequest, setRequestLine]
  rfl

/-- The error of a parser, if it has one, is one of the codes. -/
def KnownError (p : RequestParser) : Prop := p.errorCode = 0 ∨ p.errorCode ∈ requestErrorCodes

theorem Kept.knownError {p q : RequestParser} (hkept : Kept p q) (h : KnownError p) :
    KnownError q := by
  unfold KnownError
  rcases hkept.error with heq | ⟨-, hmem⟩
  · rw [heq]
    exact h
  · exact Or.inr (List.mem_cons_of_mem 404 hmem)

theorem routed_knownError {p : RequestParser} {request rest : Bytes}
    (hparse : ({} : RequestParser).parseRequest request = some (.returned p rest))
    (servers : ServerGroup) : KnownError (Connection.routed servers p) := by
  unfold Connection.routed
  split
  · rename_i herr
    simp only [matchLocation]
    generalize selectLocation _ _ _ _ = found
    cases found with
    | some l => exact Or.inl herr
    | none =>
        cases p.locationConfig with
        | some l => exact Or.inl herr
        | none =>
            refine Or.inr ?_
            simp [logError, herr, requestErrorCodes]
  · exact (kept_parseRequest hparse).knownError (Or.inl rfl)

end RequestParser

open RequestParser

namespace Connection

variable {W : Type} {os : OS W}

structure ErrorsKept (c : Connection W) : Prop where
  parser : ParserHas KnownError c
  builders : AllBuilders (fun b => b.httpVersion = lit "HTTP/1.1") c

theorem Reachable.errorsKept {c : Connection W} (h : Reachable os c) : ErrorsKept c := by
  induction h with
  | accepted =>
      refine ⟨fun p hp => ?_, fun i b hb => ?_⟩
      · cases hp
      · cases hb
  | @tick c c' h htick ih =>
      refine ⟨?_, ?_⟩
      · exact ih.parser.tick (fun _ _ _ hparse _ => routed_knownError hparse _)
          (fun _ _ _ hp _ _ _ hparse _ => (kept_parseRequest hparse).knownError hp)
          (fun _ hp => hp) htick
      · exact ih.builders.tick
          (fun env p _ => (builtFrom_create os env c.world p).httpVersion)
          (fun _ _ hb hb' => hb'.httpVersion.trans hb) htick

theorem processCompletedRequest_eq (os : OS W) (env : Env) {c : Connection W}
    {p : RequestParser} (hp : c.client.parser = some p) :
    processCompletedRequest os env c
      = (if p.goesToCgi then processCgiRequest os env p.setRequestLine
        else processNormalRequest os env p.setRequestLine)
          (c.withParser (some p.setRequestLine)) := by
  show (processCompletedRequest os env).run c = _
  simp only [processCompletedRequest, EStateM.run_bind, EStateM.run_get, hp]
  rfl

/-- The parser with its request line is as good as the one before. -/
theorem ErrorsKept.requestLine {c : Connection W} (h : ErrorsKept c) {p : RequestParser}
    (hp : c.client.parser = some p) : ErrorsKept (c.withParser (some p.setRequestLine)) := by
  refine ⟨fun q hq => ?_, h.builders⟩
  obtain rfl := Option.some.inj hq
  exact h.parser p hp

/-- The response with status `code` is ready, no handler was made, and the
file system is as it was. -/
structure AnsweredWith (code : Nat) (c c' : Connection W) : Prop where
  status : statusLineOf code <+: c'.client.responseBuffer
  ready : c'.client.responseReady = true
  handlers : c'.handlers = c.handlers
  world : c'.world = c.world

/-- A failed request is built the page of its error. -/
theorem buildResponse_failed (os : OS W) (env : Env) (w : W) {p : RequestParser}
    (herr : p.errorCode ∈ requestErrorCodes) (hne : p.errorCode ≠ 0) :
    ∃ b response, (create os w env p).buildResponse os env w = some (b, w, response)
      ∧ statusLineOf p.errorCode <+: response := by
  have hbuilt := builtFrom_create os env w p
  have hrequest : (create os w env p).request.errorCode = p.errorCode := by
    rw [hbuilt.request]
    rfl
  have hline := setErrorPage_statusLine os env w hbuilt.httpVersion p.errorCode
  rw [toShort_errorCode _ herr, ← hrequest] at hline
  rw [← hrequest] at hne ⊢
  exact ⟨_, _, buildResponse_error os env hne w, hline⟩

/-- The normal branch answers a failed request with its error. -/
theorem processNormalRequest_failed (os : OS W) (env : Env) (c : Connection W)
    {p : RequestParser} (herr : p.errorCode ∈ requestErrorCodes) (hne : p.errorCode ≠ 0) :
    ∃ c', processNormalRequest os env p c = .ok () c' ∧ AnsweredWith p.errorCode c c' := by
  obtain ⟨b, response, hbuild, hline⟩ := buildResponse_failed os env c.world herr hne
  refine ⟨c.normalAnswer p b c.world response, ?_, hline, rfl, rfl, rfl⟩
  show (processNormalRequest os env p).run c = _
  simp only [processNormalRequest, EStateM.run_bind, EStateM.run_get, hbuild]
  rfl

theorem ErrorsKept.cgiBuilder_version {env : Env} {c c' : Connection W} (h : ErrorsKept c)
    {p : RequestParser} {i : Nat} {b b' : ResponseBuilder} {l : Location}
    (hb : CgiBuilder os env c p c' i b l) (hb' : b' = b ∨ b' = b.initRoutes l) :
    b'.httpVersion = lit "HTTP/1.1" := by
  have hversion : b.httpVersion = lit "HTTP/1.1" := by
    rcases ensureBuilder_cases hb.used hb.live with ⟨-, -, hfound⟩ | ⟨-, -, rfl, -⟩
    · exact builder?_mem h.builders hfound
    · exact (builtFrom_create os env c.world p).httpVersion
  rcases hb' with rfl | rfl
  · exact hversion
  · exact hversion

/-- The CGI branch does not. -/
theorem processCgiRequest_failed (env : Env) {c c' : Connection W} (h : ErrorsKept c)
    {p : RequestParser} (hcgi : p.goesToCgi = true) (herr : p.errorCode ∈ requestErrorCodes)
    (hok : processCgiRequest os env p c = .ok () c') : ¬AnsweredWith p.errorCode c c' := by
  intro hanswered
  have hresult := processCgiRequest_result os env hcgi c
  rw [hok] at hresult
  cases hresult with
  | @refuse c' c'' i b b' l hb hb' hc' code hcode =>
      have hversion := h.cgiBuilder_version hb hb'
      have hline := setErrorPage_statusLine os env c''.world hversion code
      have hshort : toShort code = code := by
        rcases hcode with rfl | rfl
        · decide
        · decide
      rw [hshort] at hline
      exact not_prefix_of_cgiError herr hcode hline hanswered.status
  | start hb huse hroute hcreate hstart =>
      have hnext := congrArg Heap.next hanswered.handlers
      simp only [handlerStarted, Heap.next_alloc, hb.handlers] at hnext
      omega

end Connection

open Connection

/-- A failed request is answered with its error, and nothing else is done,
exactly when it does not go to the code for scripts. -/
theorem failed_answered {W : Type} (os : OS W) (env : Env) {c : Connection W}
    (h : Reachable os c) {p : RequestParser} (hp : c.client.parser = some p)
    (herr : p.errorCode ≠ 0) :
    (∃ c', processCompletedRequest os env c = .ok () c' ∧ AnsweredWith p.errorCode c c')
      ↔ p.goesToCgi = false := by
  have hkept := h.errorsKept
  have hcode : p.errorCode ∈ requestErrorCodes := (hkept.parser p hp).resolve_left herr
  have hline : p.setRequestLine.errorCode = p.errorCode := rfl
  rw [processCompletedRequest_eq os env hp, ← hline]
  have hother (c' : Connection W) : AnsweredWith p.setRequestLine.errorCode c c'
      ↔ AnsweredWith p.setRequestLine.errorCode (c.withParser (some p.setRequestLine)) c' :=
    ⟨fun h => ⟨h.status, h.ready, h.handlers, h.world⟩,
      fun h => ⟨h.status, h.ready, h.handlers, h.world⟩⟩
  simp only [hother]
  cases hcgi : p.goesToCgi with
  | false =>
      rw [if_neg (by decide)]
      exact iff_of_true (processNormalRequest_failed os env _ hcode herr) rfl
  | true =>
      rw [if_pos rfl]
      refine iff_of_false ?_ (by decide)
      rintro ⟨c', hok, hanswered⟩
      exact processCgiRequest_failed env (hkept.requestLine hp)
        ((goesToCgi_setRequestLine p).trans hcgi) hcode
        hok hanswered

/-- The parser and the unread bytes `parse_request` leaves. -/
def parsedTo (p : RequestParser) (bytes : Bytes) : RequestParser × Bytes :=
  match p.parseRequest bytes with
  | some (.returned q rest) => (q, rest)
  | _ => (p, bytes)

/-- A connection that has just parsed the head in `segment`. -/
def headParsed (segment : Segment) : Connection Unit :=
  ((accepted false false 0 3 4 scriptServers ()).received { now := 0 } segment).parsed {}
    (routed scriptServers (parsedTo {} segment.val).1) (parsedTo {} segment.val).2

theorem reachable_headParsed {segment : Segment}
    (hhead : (find doubleCrlf segment.val).isSome)
    (hparse : ({} : RequestParser).parseRequest segment.val
      = some (.returned (parsedTo {} segment.val).1 (parsedTo {} segment.val).2)) :
    Reachable flatOs (headParsed segment) :=
  .tick (.tick (.accepted false false 0 3 4 scriptServers ()) (.receive _ segment rfl))
    (.parseHead (fun p hp => by cases hp) hhead hparse)

def hostlessHead : Segment := ⟨lit "GET /a HTTP/1.1\r\n\r\n", by decide +kernel⟩

theorem failed_answered_hostless :
    ∃ c', processCompletedRequest flatOs { now := 0 } (headParsed hostlessHead) = .ok () c'
      ∧ AnsweredWith 400 (headParsed hostlessHead) c' :=
  (failed_answered flatOs { now := 0 }
    (reachable_headParsed (by decide +kernel) (by decide +kernel)) rfl (by decide +kernel)).mpr
    (by decide +kernel)

/-- The head of a request for a script, with a coding that is not
decoded. -/
def gzipHead : Segment :=
  ⟨lit "POST /cgi/a.php HTTP/1.1\r\nHost: a\r\nTransfer-Encoding: gzip\r\n\r\n",
    by decide +kernel⟩

def gzipBody : Segment := ⟨lit "x", by decide⟩

/-- A connection whose request has failed in its body with 501. -/
def bodyFailed : Connection Unit :=
  let c := (headParsed gzipHead).received { now := 0 } gzipBody
  let p := routed scriptServers (parsedTo {} gzipHead.val).1
  c.parsed p (parsedTo p c.client.requestBuffer).1 (parsedTo p c.client.requestBuffer).2

theorem reachable_bodyFailed : Reachable flatOs bodyFailed := by
  have hhead : Reachable flatOs (headParsed gzipHead) :=
    reachable_headParsed (by decide +kernel) (by decide +kernel)
  exact .tick (.tick hhead (.receive { now := 0 } gzipBody rfl))
    (.parseBody rfl (by decide +kernel) (by decide +kernel) (by decide +kernel))

/-- A script is started for a request that has failed. -/
theorem not_failed_answered :
    ¬∀ (W : Type) (os : OS W) (env : Env) (c : Connection W), Reachable os c →
      ∀ p, c.client.parser = some p → p.errorCode ≠ 0 →
        ∃ c', processCompletedRequest os env c = .ok () c' ∧ AnsweredWith p.errorCode c c' := by
  intro h
  obtain ⟨c', hok, hanswered⟩ :=
    h Unit flatOs { now := 0 } bodyFailed reachable_bodyFailed _ rfl (by decide +kernel)
  have hstarted : (final (processCompletedRequest flatOs { now := 0 } bodyFailed)).handlers.next
      ≠ bodyFailed.handlers.next := by
    decide +kernel
  rw [hok] at hstarted
  exact hstarted (congrArg Heap.next hanswered.handlers)

end Webserv
