import Webserv.ErrorAnswers
import Webserv.NullConfig
import Webserv.RouteReplies

/-!
# The status line

The status of a builder is unset until `set_status` is called, and
`set_status` has a text for the codes of its table only. Error pages and
most handlers name such a code themselves. Three places do not: an upload
that saves nothing sets no status at all, and the codes of a `return` and
of a script are taken as they come.
-/

namespace Webserv

open Bytes

/-- The response an action makes ready. -/
def Action.response? : Action → Option Bytes
  | .dispatch _ (.answered response) => some response
  | .cgiRespond _ response => some response
  | _ => none

/-- `response` begins with the version, a code of three digits and a
reason phrase. -/
def RealStatus (response : Bytes) : Prop :=
  ∃ code reason rest, code.length = 3 ∧ code.all isdigit = true
    ∧ reason ≠ [] ∧ cr ∉ reason ∧ lf ∉ reason
    ∧ response = lit "HTTP/1.1" ++ space :: (code ++ space :: reason) ++ crlf ++ rest

namespace ResponseBuilder

/-! ## The texts of `set_status` -/

/-- A code of three digits and a reason phrase. -/
def CodeAndReason (text : Bytes) : Prop :=
  (text.take 3).all isdigit = true ∧ getElem? text 3 = some space ∧ 4 < text.length
    ∧ cr ∉ text.drop 4 ∧ lf ∉ text.drop 4

instance decidableCodeAndReason : DecidablePred CodeAndReason := fun text =>
  inferInstanceAs (Decidable ((text.take 3).all isdigit = true ∧ getElem? text 3 = some space
    ∧ 4 < text.length ∧ cr ∉ text.drop 4 ∧ lf ∉ text.drop 4))

theorem codeAndReason_statusTable : ∀ entry ∈ statusTable, CodeAndReason entry.2 := by
  decide +kernel

theorem statusText_known {code : Int} (h : KnownStatus code) :
    CodeAndReason (statusText code) := by
  unfold statusText
  split
  · rename_i entry hfind
    exact codeAndReason_statusTable entry (List.mem_of_find?_eq_some hfind)
  · rename_i hnone
    obtain ⟨entry, hmem, hcode⟩ := h
    exact absurd (decide_eq_true hcode) (List.find?_eq_none.mp hnone entry hmem)

theorem statusText_unknown {code : Int} (h : ¬KnownStatus code) :
    statusText code = lit "UNDEFINED HTTP STATUS CODE" := by
  unfold statusText
  split
  · rename_i entry hfind
    exact absurd ⟨entry, List.mem_of_find?_eq_some hfind, by simpa using List.find?_some hfind⟩ h
  · rfl

theorem CodeAndReason.split {text : Bytes} (h : CodeAndReason text) :
    text = text.take 3 ++ space :: text.drop 4 := by
  obtain ⟨-, hspace, -⟩ := h
  obtain ⟨hlt, hget⟩ := List.getElem?_eq_some_iff.mp hspace
  rw [← hget, ← List.drop_eq_getElem_cons hlt, List.take_append_drop]

theorem CodeAndReason.realStatus {text : Bytes} (h : CodeAndReason text) (tail : Bytes) :
    RealStatus (lit "HTTP/1.1" ++ space :: text ++ crlf ++ tail) := by
  have hsplit := h.split
  obtain ⟨hdigits, hspace, hlen, hcr, hlf⟩ := h
  refine ⟨text.take 3, text.drop 4, tail, ?_, hdigits, ?_, hcr, hlf, ?_⟩
  · rw [List.length_take]
    omega
  · intro hnil
    have := congrArg List.length hnil
    rw [List.length_drop, List.length_nil] at this
    omega
  · rw [← hsplit]

/-- A status line begins with a digit. -/
theorem digit_of_realStatus {text tail : Bytes}
    (h : RealStatus (lit "HTTP/1.1" ++ space :: text ++ crlf ++ tail)) :
    ∃ c, (text ++ crlf).head? = some c ∧ isdigit c = true := by
  obtain ⟨code, reason, rest, hlen, hdigits, -, -, -, heq⟩ := h
  simp only [List.append_assoc, List.cons_append] at heq
  have heq := (List.cons.inj (List.append_cancel_left heq)).2
  cases code with
  | nil => cases hlen
  | cons c code =>
      rw [List.all_cons, Bool.and_eq_true] at hdigits
      refine ⟨c, ?_, hdigits.1⟩
      have hhead := congrArg List.head? heq
      rw [← List.append_assoc, List.head?_append_of_ne_nil _ (by simp [crlf])] at hhead
      exact hhead

theorem setsKnown_some (code : Int) : SetsKnown (some code) ↔ KnownStatus code :=
  ⟨fun ⟨_, heq, hknown⟩ => Option.some.inj heq ▸ hknown, fun hknown => ⟨code, rfl, hknown⟩⟩

/-- A status is real exactly when it was set to a known code. -/
theorem realStatus_iff (status : Option Int) (tail : Bytes) :
    RealStatus (lit "HTTP/1.1" ++ space :: (status.map statusText).getD [] ++ crlf ++ tail)
      ↔ SetsKnown status := by
  cases status with
  | none =>
      refine iff_of_false (fun h => ?_) ?_
      · obtain ⟨c, hc, hdigit⟩ := digit_of_realStatus h
        obtain rfl := Option.some.inj hc
        exact absurd hdigit (by decide)
      · rintro ⟨code, heq, -⟩
        cases heq
  | some code =>
      rw [setsKnown_some, Option.map_some, Option.getD_some]
      by_cases hknown : KnownStatus code
      · exact iff_of_true ((statusText_known hknown).realStatus tail) hknown
      · refine iff_of_false (fun h => ?_) hknown
        rw [statusText_unknown hknown] at h
        obtain ⟨c, hc, hdigit⟩ := digit_of_realStatus h
        obtain rfl : 85 = c := Option.some.inj hc
        exact absurd hdigit (by decide)

theorem response_realStatus {b : ResponseBuilder} (hversion : b.httpVersion = lit "HTTP/1.1")
    {status : Option Int} (hstatus : b.status = (status.map statusText).getD []) (env : Env) :
    RealStatus (b.generateResponseOnly env).2 ↔ SetsKnown status := by
  obtain ⟨tail, htail⟩ := generateResponseOnly_eq env b
  rw [htail, statusLine, hversion, hstatus]
  exact realStatus_iff status tail

/-- An error page is sent under its status, if that is known. -/
theorem setErrorPage_realStatus {W : Type} (os : OS W) (env : Env) (w : W) {b : ResponseBuilder}
    (hversion : b.httpVersion = lit "HTTP/1.1") (code : Int) :
    RealStatus ((b.setErrorPage os w code).generateResponseOnly env).2
      ↔ KnownStatus (toShort code) := by
  obtain ⟨headers, body, hpage⟩ := setErrorPage_eq os w b code
  have hstatus : (b.setErrorPage os w code).status
      = ((some (toShort code)).map statusText).getD [] := by
    rw [hpage]
    rfl
  have hversion' : (b.setErrorPage os w code).httpVersion = lit "HTTP/1.1" := by
    rw [hpage]
    exact hversion
  rw [response_realStatus hversion' hstatus, setsKnown_some]

/-! ## Requests -/

theorem knownStatus_errorCode : ∀ code ∈ requestErrorCodes, KnownStatus (toShort code) := by
  decide +kernel

/-- `build_response` answers with a real status exactly when the location
of the request sets one. -/
theorem buildResponse_realStatus {W : Type} {os : OS W} {env : Env} {w w' : W}
    {p : RequestParser} (herror : p.KnownError) (hformed : p.Formed) {b : ResponseBuilder}
    {response : Bytes} (h : (create os w env p).buildResponse os env w = some (b, w', response)) :
    RealStatus response
      ↔ (p.errorCode = 0 → ∀ l, p.locationConfig = some l → StatusSet os env w l p) := by
  have hbuilt := builtFrom_create os env w p
  have herr : (create os w env p).request.errorCode = p.errorCode := by
    rw [hbuilt.request]
    rfl
  by_cases hzero : p.errorCode = 0
  · obtain ⟨hcfg, hl⟩ : p.serverConfig.isSome ∧ p.locationConfig.isSome := by
      rcases hformed with hr | ⟨hcfg, hl | h404⟩
      · exact absurd hzero hr.errorCode
      · exact ⟨hcfg, hl⟩
      · rw [hzero] at h404
        cases h404
    obtain ⟨l, hl'⟩ := Option.isSome_iff_exists.mp hl
    have hlocation := hbuilt.locationConfig.trans hl'
    rw [buildResponse_routed os env (herr.trans hzero) hlocation, Option.some.injEq,
      Prod.mk.injEq, Prod.mk.injEq] at h
    obtain ⟨-, -, rfl⟩ := h
    obtain ⟨status, hreply, hset⟩ := reply_location os env w hbuilt.routes hlocation
    have hversion := ((answered_runLocation os env w hlocation).kept
      (kept_handleRedirection os (runLocation os env w (create os w env p) l).2 _)).httpVersion
    have hstatus := hreply.status
    rw [create_status os env w hcfg hl] at hstatus
    rw [response_realStatus (hversion.trans hbuilt.httpVersion) hstatus, hset, hbuilt.request,
      (SameRequest.source p).statusSet]
    exact ⟨fun h _ l' hl'' => Option.some.inj (hl'.symm.trans hl'') ▸ h, fun h => h hzero l hl'⟩
  · rw [buildResponse_error os env (herr ▸ hzero), Option.some.injEq, Prod.mk.injEq,
      Prod.mk.injEq, herr] at h
    obtain ⟨-, -, rfl⟩ := h
    refine iff_of_true ?_ fun hzero' => absurd hzero' hzero
    refine (setErrorPage_realStatus os env w hbuilt.httpVersion _).mpr ?_
    exact knownStatus_errorCode _ (herror.resolve_left hzero)

end ResponseBuilder

/-! ## The output of a script -/

namespace CgiHandler

open ResponseBuilder

/-- The header lines of a script. -/
def outputLines (cgiOutput : Bytes) : List Bytes :=
  split lf (((find doubleCrlf cgiOutput).map fun headerEnd => cgiOutput.take headerEnd).getD [])

/-- The code a header line sets. -/
def lineStatus (line : Bytes) : Option Nat :=
  let line := if line.getLast? = some cr then line.dropLast else line
  if line.idxOf colon ≠ line.length ∧ line.take (line.idxOf colon) = lit "Status" then
    statusOfLine line
  else none

/-- The codes a script sets. -/
def outputStatuses (cgiOutput : Bytes) : List Nat :=
  (outputLines cgiOutput).filterMap lineStatus

theorem statusOfLine_lt {line : Bytes} {code : Nat} (h : statusOfLine line = some code) :
    code < 600 := by
  simp only [statusOfLine] at h
  split at h
  · cases h
  split at h
  · rename_i hrange
    exact Option.some.inj h ▸ hrange.2
  · cases h

theorem toShort_of_lt {code : Nat} (h : code < 600) : toShort code = code := by
  unfold toShort
  omega

/-- A line sets the status it names, and no other. -/
theorem outputHeaderLine_status (s : OutputLoop) (line : Bytes) :
    (outputHeaderLine s line).b.status
        = ((lineStatus line).map fun code : Nat => statusText code).getD s.b.status
      ∧ ((outputHeaderLine s line).statusSet = true
        ↔ s.statusSet = true ∨ lineStatus line ≠ none) := by
  unfold outputHeaderLine lineStatus
  extract_lets line' colonPos headerName headerValue
  by_cases hcolon : colonPos = line'.length
  · rw [if_pos hcolon, if_neg fun h => h.1 hcolon]
    exact ⟨rfl, by simp⟩
  rw [if_neg hcolon]
  by_cases htype : headerName = lit "Content-Type"
  · have hne : lit "Content-Type" ≠ lit "Status" := by simp [lit]
    rw [if_pos htype, if_neg fun h => hne (htype.symm.trans h.2)]
    exact ⟨rfl, by simp⟩
  rw [if_neg htype]
  by_cases hname : headerName = lit "Status"
  · rw [if_pos hname, if_pos ⟨hcolon, hname⟩]
    cases hcode : statusOfLine line' with
    | none => exact ⟨rfl, by simp⟩
    | some code =>
        refine ⟨?_, by simp⟩
        simp only [setStatus, toShort_of_lt (statusOfLine_lt hcode), Option.map_some,
          Option.getD_some]
  · rw [if_neg hname, if_neg fun h => hname h.2]
    exact ⟨rfl, by simp⟩

/-- The last code counts. -/
theorem foldl_outputHeaderLine_status : ∀ (lines : List Bytes) (s : OutputLoop),
    (lines.foldl outputHeaderLine s).b.status
        = ((lines.filterMap lineStatus).getLast?.map fun code : Nat => statusText code).getD
          s.b.status
      ∧ ((lines.foldl outputHeaderLine s).statusSet = true
        ↔ s.statusSet = true ∨ lines.filterMap lineStatus ≠ [])
  | [], s => by simp
  | line :: lines, s => by
      obtain ⟨hline, hset⟩ := outputHeaderLine_status s line
      obtain ⟨hlines, hset'⟩ := foldl_outputHeaderLine_status lines (outputHeaderLine s line)
      rw [List.foldl_cons, hlines, hset', hline, hset]
      cases hcode : lineStatus line with
      | none => simp [hcode]
      | some code =>
          rw [List.filterMap_cons_some hcode, List.getLast?_cons]
          cases (lines.filterMap lineStatus).getLast? <;> simp

/-- The status behind the header loop: the last code, or 200. -/
theorem status_of_lines (lines : List Bytes) (b : ResponseBuilder) :
    (if (lines.foldl outputHeaderLine { b := b }).statusSet then
        (lines.foldl outputHeaderLine { b := b }).b
      else (lines.foldl outputHeaderLine { b := b }).b.setStatus 200).status
    = statusText (((lines.filterMap lineStatus).getLast?.getD 200 : Nat) : Int) := by
  obtain ⟨hstatus, hset⟩ := foldl_outputHeaderLine_status lines { b := b }
  cases hcodes : (lines.filterMap lineStatus).getLast? with
  | none =>
      have hnil : lines.filterMap lineStatus = [] := List.getLast?_eq_none_iff.mp hcodes
      rw [if_neg fun h => (hset.mp h).elim (fun h => by cases h) fun h => h hnil]
      rfl
  | some code =>
      have hne : lines.filterMap lineStatus ≠ [] := by
        intro hnil
        rw [hnil] at hcodes
        cases hcodes
      rw [if_pos (hset.mpr (Or.inr hne)), hstatus, hcodes]
      rfl

/-- The status of a script's response. -/
theorem processCgiOutput_status (cgiOutput : Bytes) (b : ResponseBuilder) :
    (processCgiOutput cgiOutput b).status
      = statusText (((outputStatuses cgiOutput).getLast?.getD 200 : Nat) : Int) := by
  unfold processCgiOutput outputStatuses outputLines
  cases hfind : find doubleCrlf cgiOutput with
  | none => exact status_of_lines _ (b.setStatus 200)
  | some headerEnd => exact status_of_lines _ (b.setStatus 200)

end CgiHandler

/-! ## Connections -/

namespace Connection

open RequestParser ResponseBuilder

variable {W : Type} {os : OS W}

/-- No builder is live but the one `_responseBuilder` points to. -/
def OneBuilder (c : Connection W) : Prop :=
  ∀ i b, c.builders.get? i = some b → c.client.responseBuilder = some i

namespace OneBuilder

variable {c c' : Connection W}

theorem of_delete {objects : Heap ResponseBuilder} {j : Option Nat}
    (h : ∀ i b, objects.get? i = some b → j = some i) (i : Nat) :
    (delete objects j).get? i = none := by
  cases j with
  | none =>
      cases hget : objects.get? i with
      | none => exact hget
      | some b => cases h i b hget
  | some j =>
      show (objects.free j).get? i = none
      rw [Heap.get?_free]
      split
      · rfl
      · rename_i hne
        cases hget : objects.get? i with
        | none => rfl
        | some b => exact absurd (Option.some.inj (h i b hget)).symm hne

/-- A builder is rewritten. -/
theorem of_set (h : OneBuilder c) {i : Nat} {b : ResponseBuilder}
    (hb : c.builders.get? i = some b) (b' : ResponseBuilder)
    (hclient : c'.client.responseBuilder = c.client.responseBuilder)
    (hbuilders : c'.builders = c.builders.set i b') : OneBuilder c' := by
  intro j b'' hj
  rw [hbuilders, Heap.get?_set_of_live hb] at hj
  rw [hclient]
  split at hj
  · rename_i heq
    exact heq ▸ h i b hb
  · exact h j b'' hj

theorem of_cgiBuilder (h : OneBuilder c) {env : Env} {p : RequestParser} {i : Nat}
    {b : ResponseBuilder} {l : Location} (hb : CgiBuilder os env c p c' i b l) :
    OneBuilder c' := by
  rcases ensureBuilder_cases hb.used hb.live with ⟨rfl, -⟩ | ⟨hnone, rfl, -, rfl⟩
  · exact h
  · intro j b' hj
    rw [Heap.get?_alloc] at hj
    split at hj
    · rename_i heq
      exact congrArg some heq.symm
    · rw [h j b' hj] at hnone
      cases hnone

theorem tick (h : OneBuilder c) (htick : Tick os c c') : OneBuilder c' := by
  cases htick with
  | terminate =>
      unfold terminated
      split
      · intro i b hi
        rw [of_delete h i] at hi
        cases hi
      · exact h
  | @answer env c p _ _ b world response _ =>
      intro i b' hi
      simp only [normalAnswer, Heap.get?_alloc, next_delete] at hi
      split at hi
      · rename_i heq
        exact congrArg some heq.symm
      · rw [of_delete h i] at hi
        cases hi
  | @refuse env c p hp hcgi c' c'' i b b' l hb hb' hc' code hcode =>
      have hone : OneBuilder c'' := by
        have hused := h.of_cgiBuilder hb
        rcases hc' with rfl | rfl | rfl
        · exact hused
        · exact hused
        · exact hused
      unfold errorAnswer
      exact hone.of_set (hb.dropped_live hc').2 _ rfl rfl
  | start env hp hcgi hb =>
      exact (h.of_cgiBuilder hb).of_set hb.live _ rfl rfl
  | finalize =>
      intro i b hi
      simp only [builderDeleted, of_delete h i] at hi
      cases hi
  | close hlive hb => exact h.of_set hb _ rfl rfl
  | complete env hh hi hb =>
      unfold cgiCompleted
      exact h.of_set hb _ rfl rfl
  | timeout =>
      unfold cgiTimedOut
      exact fun i b hi => h i b hi
  | _ => exact h

end OneBuilder

theorem Reachable.oneBuilder {c : Connection W} (h : Reachable os c) : OneBuilder c := by
  induction h with
  | accepted =>
      intro i b hi
      cases hi
  | tick h htick ih => exact ih.tick htick

theorem Reachable.configKept {c : Connection W} (h : Reachable os c) : ConfigKept c := by
  induction h with
  | accepted => exact configKept_accepted _ _ _ _ _ _ _
  | tick h htick ih => exact ih.tick htick

/-- `c'` is left with `response` made ready. -/
structure MadeReady (c c' : Connection W) (response : Bytes) : Prop where
  flag : c'.client.responseReady = true
  buffer : c'.client.responseBuffer = response
  action : ∃ m action, c'.trace = c.trace ++ [(m, action)] ∧ action.response? = some response

/-- The request that is dispatched goes to the code for scripts, has
failed, or is answered with a status. -/
def RequestSets (os : OS W) (env : Env) (c : Connection W) : Prop :=
  ∀ p, c.client.parser = some p → p.goesToCgi = false → p.errorCode = 0 →
    ∀ l, p.locationConfig = some l → StatusSet os env c.world l p

/-- The last code that the script of the handler sets is known. -/
def ScriptSets (c : Connection W) (i : Nat) : Prop :=
  ∀ handler, c.handlers.get? i = some handler →
    ∀ code ∈ (CgiHandler.outputStatuses handler.cgiOutput).getLast?, KnownStatus (code : Int)

variable {env : Env} {c c' : Connection W} {response : Bytes}

theorem MadeReady.response_eq {t t' : List (Moment × Action)} {m : Moment} {action : Action}
    (h : ∃ m action, t' = t ++ [(m, action)] ∧ action.response? = some response)
    (ht : t' = t ++ [(m, action)]) : action.response? = some response := by
  obtain ⟨m', action', ht', hresponse⟩ := h
  cases action_of_append (ht.symm.trans ht')
  exact hresponse

/-- A normal request that `build_response` answers has its response made
ready. -/
theorem answer_ready (os : OS W) (env : Env) {p : RequestParser} (hp : c.client.parser = some p)
    (hcgi : p.goesToCgi = false)
    (hbuild : ((create os c.world env p.setRequestLine).buildResponse os env c.world).isSome) :
    ∃ c' response, processCompletedRequest os env c = .ok () c' ∧ MadeReady c c' response := by
  obtain ⟨⟨b, world, response⟩, hbuild⟩ := Option.isSome_iff_exists.mp hbuild
  refine ⟨(c.withParser (some p.setRequestLine)).normalAnswer p.setRequestLine b world response,
    response, ?_, rfl, rfl, _, _, rfl, rfl⟩
  rw [processCompletedRequest_eq os env hp, hcgi, if_neg (by decide)]
  show (processNormalRequest os env p.setRequestLine).run _ = _
  simp only [processNormalRequest, EStateM.run_bind, EStateM.run_get]
  have hbuild' : (create os (c.withParser (some p.setRequestLine)).world env
      p.setRequestLine).buildResponse os env (c.withParser (some p.setRequestLine)).world
      = some (b, world, response) := hbuild
  rw [hbuild']
  rfl

theorem processNormalRequest_realStatus (h : ErrorsKept c) (hformed : ParserHas Formed c)
    {p : RequestParser} (hp : c.client.parser = some p)
    (hok : processNormalRequest os env p c = .ok () c') (hready : MadeReady c c' response) :
    RealStatus response
      ↔ (p.errorCode = 0 → ∀ l, p.locationConfig = some l → StatusSet os env c.world l p) := by
  have hrun : (processNormalRequest os env p).run c = .ok () c' := hok
  simp only [processNormalRequest, EStateM.run_bind, EStateM.run_get] at hrun
  cases hbuild : (create os c.world env p).buildResponse os env c.world with
  | none =>
      rw [hbuild] at hrun
      cases hrun
  | some r =>
      obtain ⟨b, world, response'⟩ := r
      rw [hbuild] at hrun
      cases hrun
      obtain rfl : response' = response := hready.buffer
      exact buildResponse_realStatus (h.parser p hp) (hformed p hp) hbuild

theorem processCgiRequest_realStatus (h : ErrorsKept c) {p : RequestParser}
    (hcgi : p.goesToCgi = true) (hok : processCgiRequest os env p c = .ok () c')
    (hready : MadeReady c c' response) : RealStatus response := by
  have hresult := processCgiRequest_result os env hcgi c
  rw [hok] at hresult
  cases hresult with
  | @refuse c' c'' i b b' l hb hb' hc' code hcode =>
      have hbuffer := hready.buffer
      subst hbuffer
      unfold errorAnswer errorResponse
      refine (setErrorPage_realStatus os env _ (h.cgiBuilder_version hb hb') code).mpr ?_
      rcases hcode with rfl | rfl
      · decide
      · decide
  | start hb huse hroute hcreate hstart =>
      have hresponse := MadeReady.response_eq hready.action
        (by simp only [handlerStarted, hb.trace]; rfl)
      cases hresponse

theorem scriptSets_iff {i : Nat} {handler : CgiHandler} (hlive : c.handlers.get? i = some handler) :
    ScriptSets c i ↔ KnownStatus
      (((CgiHandler.outputStatuses handler.cgiOutput).getLast?.getD 200 : Nat) : Int) := by
  have hscript : ScriptSets c i
      ↔ ∀ code ∈ (CgiHandler.outputStatuses handler.cgiOutput).getLast?,
        KnownStatus (code : Int) :=
    ⟨fun h => h handler hlive, fun h handler' hlive' =>
      Option.some.inj (hlive.symm.trans hlive') ▸ h⟩
  rw [hscript]
  cases (CgiHandler.outputStatuses handler.cgiOutput).getLast? with
  | none => exact iff_of_true (fun code hcode => by cases hcode) (by decide)
  | some code =>
      exact ⟨fun h => h code rfl, fun h code' hcode => Option.some.inj hcode ▸ h⟩

theorem finalizeCgi_realStatus (h : ErrorsKept c) (hone : OneBuilder c) {i : Nat}
    (hok : finalizeCgi env i c = .ok () c') (hready : MadeReady c c' response) :
    RealStatus response ↔ ScriptSets c i := by
  have hrun : (finalizeCgi env i).run c = .ok () c' := hok
  simp only [finalizeCgi, EStateM.run_bind, EStateM.run_get] at hrun
  cases hlive : c.handlers.get? i with
  | none =>
      rw [hlive] at hrun
      cases hrun
  | some handler =>
  rw [hlive] at hrun
  simp only at hrun
  cases hb : c.builders.get? handler.responseBuilder with
  | none =>
      rw [hb] at hrun
      cases hrun
  | some b =>
  rw [hb] at hrun
  simp only [onCgiComplete, EStateM.run_bind, EStateM.run_set, EStateM.run_get] at hrun
  split at hrun
  · cases hj : c.client.responseBuilder with
    | none =>
        simp only [cgiClosed, hj] at hrun
        cases hrun
    | some j =>
    obtain rfl : handler.responseBuilder = j :=
      Option.some.inj ((hone _ b hb).symm.trans hj)
    have hwritten : (c.cgiClosed i handler b).builders.get? handler.responseBuilder
        = some (CgiHandler.processCgiOutput handler.cgiOutput b) := by
      simp only [cgiClosed, Heap.get?_set_of_live hb, if_true]
    have hj' : (c.cgiClosed i handler b).client.responseBuilder
        = some handler.responseBuilder := hj
    simp only [hj', hwritten] at hrun
    cases hrun
    have hbuffer := hready.buffer
    subst hbuffer
    unfold cgiCompleted
    have hkept := CgiHandler.kept_processCgiOutput handler.cgiOutput b
    have hversion := hkept.httpVersion.trans (h.builders _ b hb)
    have hstatus : (CgiHandler.processCgiOutput handler.cgiOutput b).status
        = ((some (((CgiHandler.outputStatuses handler.cgiOutput).getLast?.getD 200 : Nat)
          : Int)).map statusText).getD [] :=
      CgiHandler.processCgiOutput_status handler.cgiOutput b
    exact (response_realStatus hversion hstatus env).trans
      ((setsKnown_some _).trans (scriptSets_iff hlive).symm)
  · cases hrun
    obtain ⟨m, action, htrace, -⟩ := hready.action
    exact (no_action htrace).elim

theorem checkCgiProgress_realStatus (hok : checkCgiProgress os env c = .ok () c')
    (hready : MadeReady c c' response) : RealStatus response := by
  have hrun : (checkCgiProgress os env).run c = .ok () c' := hok
  simp only [checkCgiProgress, EStateM.run_bind, EStateM.run_get] at hrun
  have hidle : c'.trace ≠ c.trace := by
    obtain ⟨m, action, htrace, -⟩ := hready.action
    exact fun heq => no_action (heq.symm.trans htrace)
  split at hrun
  · rename_i i _ _
    cases hlive : c.handlers.get? i with
    | none =>
        rw [hlive] at hrun
        cases hrun
    | some handler =>
        rw [hlive] at hrun
        simp only at hrun
        split at hrun
        · cases hp : c.client.parser with
          | none =>
              rw [hp] at hrun
              cases hrun
          | some p =>
              rw [hp] at hrun
              cases hrun
              have hbuffer := hready.buffer
              subst hbuffer
              have hversion := (builtFrom_create os env c.world p).httpVersion
              unfold cgiTimedOut errorResponse
              exact (setErrorPage_realStatus os env _ hversion 504).mpr (by decide)
        · cases hrun
          exact absurd rfl hidle
  · cases hrun
    exact absurd rfl hidle

theorem processCompletedRequest_realStatus (h : Reachable os c)
    (hok : processCompletedRequest os env c = .ok () c') (hready : MadeReady c c' response) :
    RealStatus response ↔ RequestSets os env c := by
  have hkept := h.errorsKept
  cases hp : c.client.parser with
  | none =>
      have hrun : (processCompletedRequest os env).run c = .ok () c' := hok
      simp only [processCompletedRequest, EStateM.run_bind, EStateM.run_get, hp] at hrun
      cases hrun
  | some p =>
  rw [processCompletedRequest_eq os env hp] at hok
  have hready' : MadeReady (c.withParser (some p.setRequestLine)) c' response :=
    ⟨hready.flag, hready.buffer, hready.action⟩
  have hsets : RequestSets os env c ↔ (p.goesToCgi = false → p.errorCode = 0 →
      ∀ l, p.locationConfig = some l → StatusSet os env c.world l p) :=
    ⟨fun h => h p hp, fun h p' hp' => Option.some.inj (hp.symm.trans hp') ▸ h⟩
  rw [hsets]
  cases hcgi : p.goesToCgi with
  | true =>
      rw [hcgi, if_pos rfl] at hok
      refine iff_of_true ?_ fun h => by cases h
      exact processCgiRequest_realStatus (hkept.requestLine hp)
        ((goesToCgi_setRequestLine p).trans hcgi) hok hready'
  | false =>
      rw [hcgi, if_neg (by decide)] at hok
      have hformed : ParserHas Formed (c.withParser (some p.setRequestLine)) := by
        intro q hq
        obtain rfl := Option.some.inj hq
        exact (h.configKept.parser p hp).copy p.headers p.setRequestLine.requestLine
      have hreal := processNormalRequest_realStatus (hkept.requestLine hp) hformed rfl hok hready'
      have hset := SameRequest.requestLine p
      refine hreal.trans ⟨fun h _ herr l hl => ?_, fun h herr l hl => ?_⟩
      · exact (hset.statusSet l).mp (h herr l hl)
      · exact (hset.statusSet l).mpr (h rfl herr l hl)

end Connection

open Connection

/-- Whatever has happened on a connection, the next response that is made
ready has a real status exactly when the request, or the output of the
script, sets one. -/
theorem status_real {W : Type} (os : OS W) (env : Env) {c c' : Connection W}
    (h : Reachable os c) {response : Bytes} (hready : MadeReady c c' response) :
    (processCompletedRequest os env c = .ok () c' → (RealStatus response ↔ RequestSets os env c))
      ∧ (∀ i, finalizeCgi env i c = .ok () c' → (RealStatus response ↔ ScriptSets c i))
      ∧ (checkCgiProgress os env c = .ok () c' → RealStatus response) :=
  ⟨fun hok => processCompletedRequest_realStatus h hok hready,
    fun _ hok => finalizeCgi_realStatus h.errorsKept h.oneBuilder hok hready,
    fun hok => checkCgiProgress_realStatus hok hready⟩

/-! ## Sample requests -/

/-- A request for a file. -/
def pageHead : Segment := ⟨lit "GET /a HTTP/1.1\r\nHost: a\r\n\r\n", by decide +kernel⟩

theorem status_real_page : ∃ c' response, MadeReady (headParsed pageHead) c' response
    ∧ RealStatus response := by
  have hp : (headParsed pageHead).client.parser
      = some (routed scriptServers (parsedTo {} pageHead.val).1) := rfl
  have hfacts : ((find doubleCrlf pageHead.val).isSome
        ∧ ({} : RequestParser).parseRequest pageHead.val
          = some (.returned (parsedTo {} pageHead.val).1 (parsedTo {} pageHead.val).2))
      ∧ (routed scriptServers (parsedTo {} pageHead.val).1).goesToCgi = false
      ∧ (routed scriptServers (parsedTo {} pageHead.val).1).locationConfig
        = some { location := lit "/", root := lit "/www" }
      ∧ ((ResponseBuilder.create flatOs () { now := 0 }
          (routed scriptServers (parsedTo {} pageHead.val).1).setRequestLine).buildResponse
            flatOs { now := 0 } ()).isSome := by
    decide +kernel
  obtain ⟨⟨hhead, hparse⟩, hcgi, hlocation, hbuild⟩ := hfacts
  obtain ⟨c', response, hok, hready⟩ := answer_ready flatOs { now := 0 } hp hcgi hbuild
  refine ⟨c', response, hready, ?_⟩
  have hreachable : Reachable flatOs (headParsed pageHead) := reachable_headParsed hhead hparse
  refine ((status_real flatOs { now := 0 } hreachable hready).1 hok).mpr ?_
  intro p hp' _ _ l hl
  obtain rfl := Option.some.inj (hp.symm.trans hp')
  obtain rfl := Option.some.inj (hlocation.symm.trans hl)
  exact Or.inr (Or.inr ⟨rfl, fun h => absurd h.1 (by decide +kernel)⟩)

/-- A server that takes uploads in `/up`, and its file system. -/
def storeServers : ServerGroup where
  first := { locations := [{ location := lit "/", root := lit "/www", uploadStore := lit "/up" }] }

def storeOs : OS Unit :=
  { flatOs with stat := fun _ path => some ⟨decide (path = lit "/up"), true⟩ }

/-- A form is sent that has a field and no file. -/
def formHead : Segment :=
  ⟨lit "POST / HTTP/1.1\r\nHost: a\r\nContent-Length: 57\r\n"
    ++ lit "Content-Type: multipart/form-data; boundary=b\r\n\r\n", by decide +kernel⟩

def formBody : Segment :=
  ⟨lit "--b\r\nContent-Disposition: form-data; name=\"a\"\r\n\r\n1\r\n--b--", by decide +kernel⟩

/-- A connection that has read the form. -/
def formRead : Connection Unit :=
  let c := (accepted false false 0 3 4 storeServers ()).received { now := 0 } formHead
  let p := routed storeServers (parsedTo {} formHead.val).1
  let c := (c.parsed {} p (parsedTo {} formHead.val).2).received { now := 0 } formBody
  c.parsed p (parsedTo p c.client.requestBuffer).1 (parsedTo p c.client.requestBuffer).2

/-- The connection before it parses the body of the form. -/
def formHeld : Connection Unit :=
  (((accepted false false 0 3 4 storeServers ()).received { now := 0 } formHead).parsed {}
    (routed storeServers (parsedTo {} formHead.val).1) (parsedTo {} formHead.val).2).received
      { now := 0 } formBody

theorem reachable_formHeld : Reachable storeOs formHeld := by
  have hhead : Reachable storeOs
      ((accepted false false 0 3 4 storeServers ()).received { now := 0 } formHead) :=
    .tick (.accepted false false 0 3 4 storeServers ()) (.receive _ formHead rfl)
  have hfacts : (find doubleCrlf formHead.val).isSome
      ∧ ({} : RequestParser).parseRequest formHead.val
        = some (.returned (parsedTo {} formHead.val).1 (parsedTo {} formHead.val).2) := by
    decide +kernel
  exact .tick (.tick hhead (.parseHead (fun p hp => by cases hp) hfacts.1 hfacts.2))
    (.receive { now := 0 } formBody rfl)

theorem reachable_formRead : Reachable storeOs formRead := by
  have hfacts : (routed storeServers (parsedTo {} formHead.val).1).state = .body
      ∧ bodyTooLarge formHeld.client = .ok none
      ∧ (routed storeServers (parsedTo {} formHead.val).1).parseRequest
          formHeld.client.requestBuffer
        = some (.returned
            (parsedTo (routed storeServers (parsedTo {} formHead.val).1)
              formHeld.client.requestBuffer).1
            (parsedTo (routed storeServers (parsedTo {} formHead.val).1)
              formHeld.client.requestBuffer).2) := by
    decide +kernel
  exact .tick reachable_formHeld (.parseBody rfl hfacts.1 hfacts.2.1 hfacts.2.2)

theorem exists_of_any {α : Type*} {P : α → Prop} [DecidablePred P] {o : Option α}
    (h : o.any (fun a => decide (P a)) = true) : ∃ a, o = some a ∧ P a := by
  obtain ⟨a, ho, ha⟩ := (Option.any_eq_true _ _).mp h
  exact ⟨a, ho, of_decide_eq_true ha⟩

/-- The form goes to the handler of `POST`, which saves no file of it. -/
theorem formRead_facts : ∃ p, formRead.client.parser = some p ∧ p.goesToCgi = false
    ∧ p.errorCode = 0
    ∧ p.locationConfig
      = some { location := lit "/", root := lit "/www", uploadStore := lit "/up" }
    ∧ ((ResponseBuilder.create storeOs formRead.world { now := 0 }
        p.setRequestLine).buildResponse storeOs { now := 0 } formRead.world).isSome
    ∧ ResponseBuilder.routeOf
        { location := lit "/", root := lit "/www", uploadStore := lit "/up" } p.httpMethod
      = some .doPost
    ∧ (ResponseBuilder.uploadBoundary p).isSome
    ∧ ResponseBuilder.savedUploads storeOs { now := 0 } formRead.world
        { location := lit "/", root := lit "/www", uploadStore := lit "/up" } p = [] := by
  refine exists_of_any ?_
  decide +kernel

/-- The form is answered without a status. -/
theorem not_status_real :
    ¬∀ (W : Type) (os : OS W) (env : Env) (c c' : Connection W) (response : Bytes),
      Reachable os c → MadeReady c c' response → processCompletedRequest os env c = .ok () c' →
        RealStatus response := by
  intro h
  obtain ⟨p, hp, hcgi, herror, hlocation, hbuild, hroute, hboundary, hnone⟩ := formRead_facts
  obtain ⟨c', response, hok, hready⟩ := answer_ready storeOs { now := 0 } hp hcgi hbuild
  have hsets := (processCompletedRequest_realStatus reachable_formRead hok hready).mp
    (h Unit storeOs { now := 0 } formRead c' response reachable_formRead hready hok)
  rcases hsets p hp hcgi herror _ hlocation with hredirect | ⟨hreturn, -⟩ | ⟨-, hsaved⟩
  · cases hredirect
  · cases hreturn
  · exact hsaved ⟨hroute, rfl, hboundary, hnone⟩

end Webserv
