import Webserv.ErrorAnswers
import Webserv.ExpectContinue
import Webserv.Redirection

/-!
# The Connection field

The `Connection` field of a response is written by the builder, from its
copy of a request or as a script has said it, and the decision to close
is made behind the last byte, from the parser of the connection. They
agree as long as the parser is still that of the request
(`truthful_run`). A request that is refused past the response buffer is
told what it asked for, and the connection is closed.
-/

namespace Webserv

open Bytes Program

/-- What a response says that the connection will be. -/
def connectionWord (close : Bool) : Bytes := if close then lit "close" else lit "keep-alive"

/-- A recipient takes the field for the `Connection` field. -/
def isConnection (e : Bytes × Bytes) : Bool := decide (e.1.map tolower = lit "connection")

/-- The values of the `Connection` fields. -/
def connectionValues (fields : List (Bytes × Bytes)) : List Bytes :=
  (fields.filter isConnection).map Prod.snd

/-- The response is written with one `Connection` field, of this value. -/
def Says (response word : Bytes) : Prop :=
  ∃ b : ResponseBuilder, response = b.generateResponseString
    ∧ connectionValues b.headers.entries = [word]

namespace ResponseBuilder

/-! ## Names of fields -/

/-- The other fields that are written or looked up with a response. -/
def otherFields : List Bytes :=
  [lit "Accept-Ranges", lit "Allow", lit "Content-Length", lit "Content-Type", lit "Date",
    lit "Location", lit "Server", lit "Set-Cookie", lit "cookie", lit "content-type"]

theorem ne_connection : ∀ name ∈ otherFields, name.map tolower ≠ lit "connection" := by
  decide +kernel

theorem map_tolower_connection : (lit "Connection").map tolower = lit "connection"
    ∧ (lit "connection").map tolower = lit "connection" := by
  decide +kernel

theorem ne_of_map_tolower {key : Bytes} (h : key.map tolower ≠ lit "connection") :
    key ≠ lit "Connection" ∧ key ≠ lit "connection" := by
  refine ⟨?_, ?_⟩
  · rintro rfl
    exact h map_tolower_connection.1
  · rintro rfl
    exact h map_tolower_connection.2

/-- The values of the `Connection` fields that the response of a builder
will have. -/
def announced (b : ResponseBuilder) : List Bytes :=
  (if (b.headers.get? (lit "Connection")).isNone then
    [connectionWord b.request.isConnectionClose] else [])
  ++ connectionValues b.headers.entries

section Values

theorem connectionValues_append (fields fields' : List (Bytes × Bytes)) :
    connectionValues (fields ++ fields') = connectionValues fields ++ connectionValues fields' := by
  simp [connectionValues]

theorem connectionValues_perm {fields fields' : List (Bytes × Bytes)} (h : fields.Perm fields') :
    (connectionValues fields).Perm (connectionValues fields') :=
  (h.filter _).map _

theorem connectionValues_eq_nil {fields : List (Bytes × Bytes)}
    (h : ∀ e ∈ fields, isConnection e = false) : connectionValues fields = [] := by
  rw [connectionValues, List.filter_eq_nil_iff.mpr fun e he => by simp [h e he]]
  rfl

/-- Fields with another name do not matter. -/
theorem connectionValues_filter {fields : List (Bytes × Bytes)} {keep : Bytes × Bytes → Bool}
    (h : ∀ e ∈ fields, isConnection e = true → keep e = true) :
    connectionValues (fields.filter keep) = connectionValues fields := by
  rw [connectionValues, connectionValues, List.filter_filter]
  congr 1
  refine List.filter_congr fun e he => ?_
  cases hconn : isConnection e with
  | false => rfl
  | true => rw [h e he hconn]; rfl

end Values

section Sent

variable (env : Env) (b : ResponseBuilder)

theorem connectionValues_lastFields : connectionValues (lastFields b)
    = if (b.headers.get? (lit "Connection")).isNone then
        [connectionWord b.request.isConnectionClose] else [] := by
  have hallow : connectionValues (b.locationConfig.toList.flatMap (fun l =>
      if b.statusCode = 405 && (b.headers.get? (lit "Allow")).isNone then
        [(lit "Allow", joinMethods l.allowedMethods)]
      else [])) = [] := by
    refine connectionValues_eq_nil fun e he => ?_
    obtain ⟨l, -, he⟩ := List.mem_flatMap.mp he
    split at he
    · obtain rfl := List.mem_singleton.mp he
      exact decide_eq_false (ne_connection _ (by simp [otherFields]))
    · cases he
  rw [lastFields, connectionValues_append, hallow, List.nil_append]
  split
  · have hname : isConnection (lit "Connection", if b.request.isConnectionClose then lit "close"
        else lit "keep-alive") = true :=
      decide_eq_true map_tolower_connection.1
    rw [connectionValues, List.filter_cons_of_pos hname]
    rfl
  · rfl

theorem connectionValues_firstFields : connectionValues (firstFields env b) = [] := by
  refine connectionValues_eq_nil fun e he => ?_
  have hname : e.1 ∈ [lit "Content-Type", lit "Date", lit "Server"] := by
    unfold firstFields at he
    split at he
    · exact List.mem_map_of_mem (f := Prod.fst) he
    · exact List.mem_cons_of_mem _ (List.mem_map_of_mem (f := Prod.fst) he)
  refine decide_eq_false (ne_connection _ ?_)
  simp only [List.mem_cons, List.not_mem_nil, or_false] at hname
  rcases hname with h | h | h <;> simp [otherFields, h]

theorem connectionValues_lengthField : connectionValues (lengthField b) = [] := by
  refine connectionValues_eq_nil fun e he => ?_
  unfold lengthField at he
  split at he
  · obtain rfl := List.mem_singleton.mp he
    exact decide_eq_false (ne_connection _ (by simp [otherFields]))
  · cases he

theorem connectionValues_keptFields :
    connectionValues (keptFields b) = connectionValues b.headers.entries := by
  refine connectionValues_filter fun e _ hconn => ?_
  have hne : ∀ name ∈ otherFields, e.1 ≠ name :=
    fun name hname heq => ne_connection name hname (heq ▸ of_decide_eq_true hconn)
  have hserver := hne (lit "Server") (by simp [otherFields])
  have hdate := hne (lit "Date") (by simp [otherFields])
  have hlength := hne (lit "Content-Length") (by simp [otherFields])
  simp [overwritten, hserver, hdate, hlength]

/-- The response says what its builder announces. -/
theorem says_generateResponseOnly {b : ResponseBuilder} {word : Bytes}
    (h : announced b = [word]) : Says (b.generateResponseOnly env).2 word := by
  refine ⟨b.includeRequiredHeaders env, rfl, ?_⟩
  have hperm := connectionValues_perm (perm_includeRequiredHeaders env b)
  rw [connectionValues_append, connectionValues_append, connectionValues_append,
    connectionValues_lastFields, connectionValues_lengthField, connectionValues_firstFields,
    connectionValues_keptFields, List.nil_append, List.nil_append] at hperm
  have hsaid : (if (b.headers.get? (lit "Connection")).isNone then
      [connectionWord b.request.isConnectionClose] else [])
      ++ connectionValues b.headers.entries = [word] := h
  rw [hsaid] at hperm
  exact List.perm_singleton.mp hperm

end Sent

/-! ## Builders of one request -/

/-- A builder with no `Connection` field announces what its request asks
for. -/
theorem announced_of_fields {b : ResponseBuilder}
    (h : ∀ name value, b.headers.get? name = some value → name.map tolower ≠ lit "connection") :
    announced b = [connectionWord b.request.isConnectionClose] := by
  have hnone : b.headers.get? (lit "Connection") = none := by
    cases hget : b.headers.get? (lit "Connection") with
    | none => rfl
    | some value => exact absurd map_tolower_connection.1 (h _ _ hget)
  have hvalues : connectionValues b.headers.entries = [] :=
    connectionValues_eq_nil fun e he => decide_eq_false (h e.1 e.2 (OrdMap.mem_entries.mp he))
  rw [announced, hnone, hvalues]
  rfl

theorem PageField.ne_connection {name value : Bytes} (h : PageField name value) :
    name.map tolower ≠ lit "connection" := by
  cases h with
  | contentType => exact ResponseBuilder.ne_connection _ (by simp [otherFields])
  | acceptRanges => exact ResponseBuilder.ne_connection _ (by simp [otherFields])

section Fresh

variable {W : Type} {os : OS W} {env : Env} {w : W} {p : RequestParser}

theorem Reply.announced {b : ResponseBuilder} {status : Option Int} {location : Option Bytes}
    (h : Reply status location (create os w env p) b)
    (hclose : b.request.isConnectionClose = p.isConnectionClose) :
    announced b = [connectionWord p.isConnectionClose] := by
  rw [← hclose]
  refine announced_of_fields fun name value hget => ?_
  rcases h.fields name value hget with rfl | hget' | hpage
  · exact ne_connection _ (by simp [otherFields])
  · rcases create_fields os env w p hget' with hpage | ⟨rfl, -⟩
    · exact hpage.ne_connection
    · exact ne_connection _ (by simp [otherFields])
  · exact hpage.ne_connection

/-- A look-up of another field. -/
theorem isConnectionClose_getHeaderValue (p : RequestParser) {key : Bytes}
    (h : key ≠ lit "connection") :
    (p.getHeaderValue key).1.isConnectionClose = p.isConnectionClose := by
  simp only [RequestParser.isConnectionClose, RequestParser.getHeaderValue, OrdMap.getOrInsert]
  cases p.headers.get? key with
  | some value => rfl
  | none => rw [OrdMap.get?_insert_of_ne _ h]

variable (os env w p) in
theorem isConnectionClose_create :
    (create os w env p).request.isConnectionClose = p.isConnectionClose := by
  rw [(builtFrom_create os env w p).request]
  exact isConnectionClose_getHeaderValue p
    (ne_of_map_tolower (ne_connection _ (by simp [otherFields]))).2

theorem Kept.isConnectionClose {b b' : ResponseBuilder}
    (h : Kept b b') : b'.request.isConnectionClose = b.request.isConnectionClose := by
  rw [h.request]

theorem isConnectionClose_runLocation (b : ResponseBuilder) (l : Location) :
    (runLocation os env w b l).1.request.isConnectionClose = b.request.isConnectionClose := by
  unfold runLocation
  split
  · extract_lets b'
    have h : Kept b b' := ((Kept.refl b).setStatus _).setBody _
    split
    · exact (h.setHeaders _ _).isConnectionClose
    · exact h.isConnectionClose
  · simp only
    split
    · exact ((Kept.refl (b.initRoutes l)).setErrorPage 405).isConnectionClose
    · rename_i route _
      cases route with
      | doGet => exact (kept_doGet os env w (b.initRoutes l) l).isConnectionClose
      | doPost =>
          exact (kept_doPost os env w (b.initRoutes l) l).isConnectionClose.trans
            (isConnectionClose_getHeaderValue _
              (ne_of_map_tolower (ne_connection _ (by simp [otherFields]))).2)
      | doDelete => exact (kept_doDelete os w (b.initRoutes l) l).isConnectionClose

/-- The response to a request says what the request asks for. -/
theorem says_buildResponse {b : ResponseBuilder} {w' : W} {response : Bytes}
    (h : (create os w env p).buildResponse os env w = some (b, w', response)) :
    Says response (connectionWord p.isConnectionClose) := by
  have hbuilt := builtFrom_create os env w p
  have hclose := isConnectionClose_create os env w p
  by_cases hzero : (create os w env p).request.errorCode = 0
  · cases hl : (create os w env p).locationConfig with
    | none => simp [buildResponse, hzero, hl] at h
    | some l =>
        rw [buildResponse_routed os env hzero hl, Option.some.injEq, Prod.mk.injEq,
          Prod.mk.injEq] at h
        obtain ⟨rfl, -, rfl⟩ := h
        obtain ⟨status, hreply, -⟩ := reply_location os env w hbuilt.routes hl
        have hredirect := kept_handleRedirection os (runLocation os env w (create os w env p) l).2
          (runLocation os env w (create os w env p) l).1
        exact says_generateResponseOnly env (hreply.announced (hredirect.isConnectionClose.trans
          ((isConnectionClose_runLocation _ l).trans hclose)))
  · rw [buildResponse_error os env hzero, Option.some.injEq, Prod.mk.injEq, Prod.mk.injEq] at h
    obtain ⟨rfl, -, rfl⟩ := h
    have hkept : Kept (create os w env p) ((create os w env p).setErrorPage os w
        (create os w env p).request.errorCode) := (Kept.refl _).setErrorPage _
    exact says_generateResponseOnly env (((Reply.refl _).setErrorPage _).announced
      (hkept.isConnectionClose.trans hclose))

end Fresh

/-! ## A builder that is used again -/

/-- `b'` announces what `b` does. -/
structure SameAnnounced (b b' : ResponseBuilder) : Prop where
  close : b'.request.isConnectionClose = b.request.isConnectionClose
  field : b'.headers.get? (lit "Connection") = b.headers.get? (lit "Connection")
  values : (connectionValues b'.headers.entries).Perm (connectionValues b.headers.entries)

namespace SameAnnounced

variable {b b' : ResponseBuilder}

theorem refl (b : ResponseBuilder) : SameAnnounced b b := ⟨rfl, rfl, .refl _⟩

/-- Another field is set. -/
theorem setHeaders (h : SameAnnounced b b') {key : Bytes}
    (hkey : key.map tolower ≠ lit "connection") (value : Bytes) :
    SameAnnounced b (b'.setHeaders key value) where
  close := h.close
  field := (OrdMap.get?_insert_of_ne b'.headers (ne_of_map_tolower hkey).1 value).trans h.field
  values := by
    refine List.Perm.trans ?_ h.values
    refine (connectionValues_perm (perm_replaced (.refl b'.headers.entries) value)).trans ?_
    have hkept : connectionValues (b'.headers.entries.filter fun e => decide (e.1 ≠ key))
        = connectionValues b'.headers.entries := by
      refine connectionValues_filter fun e _ hconn => decide_eq_true ?_
      rintro rfl
      exact hkey (of_decide_eq_true hconn)
    rw [connectionValues, List.filter_cons_of_neg (by simpa [isConnection] using hkey)]
    exact hkept ▸ .refl _

theorem setBody (h : SameAnnounced b b') (body : Bytes) : SameAnnounced b (b'.setBody body) :=
  ⟨h.close, h.field, h.values⟩

theorem setStatus (h : SameAnnounced b b') (code : Int) : SameAnnounced b (b'.setStatus code) := by
  have hranges : SameAnnounced b (b'.setHeaders (lit "Accept-Ranges") (lit "bytes")) :=
    h.setHeaders (ne_connection _ (by simp [otherFields])) _
  refine ⟨h.close, ?_, ?_⟩
  · simp only [ResponseBuilder.setStatus]
    split
    · exact hranges.field
    · exact h.field
  · simp only [ResponseBuilder.setStatus]
    split
    · exact hranges.values
    · exact h.values

theorem setErrorPage {W : Type} (os : OS W) (w : W) (h : SameAnnounced b b') (code : Int) :
    SameAnnounced b (b'.setErrorPage os w code) := by
  have hstatus := h.setStatus code
  have hfile (name : Bytes) : SameAnnounced b ((b'.setStatus code).readFile os w name).1 := by
    unfold readFile
    split
    · exact hstatus
    · exact hstatus.setHeaders (ne_connection _ (by simp [otherFields])) _
  have hpage : SameAnnounced b ((b'.setStatus code).generateErrorPage os w).1 := by
    simp only [generateErrorPage]
    split
    · rename_i name _
      split
      · exact hfile name
      · exact (hfile name).setHeaders (ne_connection _ (by simp [otherFields])) _
    · split
      · exact hstatus
      · exact hstatus.setHeaders (ne_connection _ (by simp [otherFields])) _
  exact hpage.setBody _

theorem announced (h : SameAnnounced b b') {word : Bytes} (hb : b.announced = [word]) :
    b'.announced = [word] := by
  have hperm : b'.announced.Perm b.announced := by
    simp only [ResponseBuilder.announced, h.field, h.close]
    exact h.values.append_left _
  rw [hb] at hperm
  exact List.perm_singleton.mp hperm

end SameAnnounced

/-- An error page of a new builder. -/
theorem says_errorPage {W : Type} (os : OS W) (env env' : Env) (w w' : W) (p : RequestParser)
    (code : Int) : Says (((create os w env p).setErrorPage os w' code).generateResponseOnly env').2
      (connectionWord p.isConnectionClose) := by
  have hfresh : announced (create os w env p) = [connectionWord p.isConnectionClose] :=
    (Reply.refl _).announced (isConnectionClose_create os env w p)
  exact says_generateResponseOnly env' (((SameAnnounced.refl _).setErrorPage os w' code).announced
    hfresh)

end ResponseBuilder

open ResponseBuilder

namespace Connection

/-! ## What is said and what is done -/

/-- The response an action makes ready. -/
def response? (e : Moment × Action) : Option Bytes :=
  match e.2 with
  | .dispatch _ (.answered response) => some response
  | .cgiRespond _ response => some response
  | _ => none

/-- The response that is being sent. -/
def lastResponse? (history : List (Moment × Action)) : Option Bytes :=
  history.reverse.findSome? response?

/-- The next thing that is done is to close the connection. -/
def closes (after : List (Moment × Action)) : Bool :=
  after.head?.any fun e => decide (e.2 = .close)

/-- The last byte of the response buffer is sent. -/
def SendsLast (e : Moment × Action) : Prop := e.2 = .send e.1.client.responseBuffer

/-- A response is sent past the response buffer. -/
def SendsPast (e : Moment × Action) (response : Bytes) : Prop :=
  e.2 = .sendDirect response ∧ response ≠ continueText

/-- What every response says of the connection is what is done. -/
structure Truthful (history : List (Moment × Action)) : Prop where
  buffered : ∀ before e after, history = before ++ e :: after → SendsLast e →
    ∃ response, lastResponse? before = some response
      ∧ Says response (connectionWord (closes after))
  past : ∀ before e after response, history = before ++ e :: after → SendsPast e response →
    Says response (connectionWord (closes after))

/-- The parser stays that of the request while its response is sent, a
builder is not used for another request, a script says nothing else, and
a request is refused past the response buffer only if it asks for the
connection to be closed. -/
def Agrees (e : Moment × Action) : Prop :=
  match e.2 with
  | .parsed _ after => e.1.client.responseBuffer ≠ [] → after.state = .body ∨ after.goesToCgi →
      after.isConnectionClose = !shouldKeepAlive e.1.client
  | .dispatch p (.answered _) => p.goesToCgi → ∀ b ∈ e.1.builder,
      announced b = [connectionWord p.isConnectionClose]
  | .cgiRespond _ response => ∀ b ∈ e.1.builder,
      (∃ env, response = (b.generateResponseOnly env).2) →
        announced b = [connectionWord (!shouldKeepAlive e.1.client)]
  | .sendDirect _ => ∀ p, bodyTooLarge e.1.client = .ok (some p) → p.isConnectionClose
  | _ => True

variable {W : Type}

/-- The response in the buffer says what will be done. -/
def PendingTold (c : Connection W) : Prop :=
  c.client.responseBuffer ≠ [] → ∃ response, lastResponse? c.trace = some response
    ∧ Says response (connectionWord (!shouldKeepAlive c.client))

/-- A response has just been sent. -/
def JustSent (history : List (Moment × Action)) : Prop :=
  ∃ e, history.getLast? = some e ∧ (SendsLast e ∨ ∃ response, SendsPast e response)

/-- What the runs keep. -/
structure Told (c : Connection W) : Prop where
  truthful : Truthful c.trace
  pending : PendingTold c
  settled : JustSent c.trace → c.client.responseBuffer = []

/-! ## Histories -/

section Histories

variable {history : List (Moment × Action)} {e : Moment × Action}

theorem lastResponse?_append (history : List (Moment × Action)) (e : Moment × Action) :
    lastResponse? (history ++ [e]) = (response? e).or (lastResponse? history) := by
  rw [lastResponse?, List.reverse_append, List.reverse_singleton, List.singleton_append,
    List.findSome?_cons]
  cases response? e <;> rfl

theorem justSent_append : JustSent (history ++ [e])
    ↔ SendsLast e ∨ ∃ response, SendsPast e response := by
  simp [JustSent]

/-- The last action in front of `e`, or an earlier one. -/
theorem closes_cut {after es : List (Moment × Action)} (h : after ≠ [] ∨ e.2 ≠ .close) :
    closes (after ++ e :: es) = closes after := by
  cases after with
  | nil => exact decide_eq_false (h.resolve_left (fun hne => hne rfl))
  | cons x after => rfl

/-- One more action, and what follows it at once. -/
theorem Truthful.extend (h : Truthful history) {es : List (Moment × Action)}
    (hclose : e.2 = .close → ¬JustSent history)
    (hes : ∀ x ∈ es, ¬SendsLast x ∧ ∀ response, ¬SendsPast x response)
    (hlast : SendsLast e → ∃ response, lastResponse? history = some response
      ∧ Says response (connectionWord (closes es)))
    (hpast : ∀ response, SendsPast e response → Says response (connectionWord (closes es))) :
    Truthful (history ++ e :: es) := by
  -- an action is one of the history, `e`, or one behind it
  have hcut {before after : List (Moment × Action)} {x : Moment × Action}
      (heq : history ++ e :: es = before ++ x :: after)
      (hx : SendsLast x ∨ ∃ response, SendsPast x response) :
      before = history ∧ x = e ∧ after = es
        ∨ ∃ after', history = before ++ x :: after' ∧ closes after = closes after' := by
    have hmem {t : List (Moment × Action)} (ht : es = t ++ x :: after) : False := by
      obtain ⟨hnot, hnot'⟩ := hes x (ht ▸ List.mem_append_right _ List.mem_cons_self)
      rcases hx with hx | ⟨response, hx⟩
      · exact hnot hx
      · exact hnot' response hx
    rcases List.append_eq_append_iff.mp heq with ⟨t, rfl, htail⟩ | ⟨t, rfl, htail⟩
    · cases t with
      | nil =>
          obtain ⟨rfl, rfl⟩ := List.cons_eq_cons.mp htail
          exact .inl ⟨List.append_nil _, rfl, rfl⟩
      | cons y t => exact (hmem (List.cons_eq_cons.mp htail).2).elim
    · cases t with
      | nil =>
          obtain ⟨rfl, rfl⟩ := List.cons_eq_cons.mp htail
          exact .inl ⟨(List.append_nil _).symm, rfl, rfl⟩
      | cons y t =>
          obtain ⟨rfl, rfl⟩ := List.cons_eq_cons.mp htail
          refine .inr ⟨t, rfl, closes_cut ?_⟩
          by_cases hnil : t = []
          · refine .inr fun hclosed => hclose hclosed ⟨x, ?_, hx⟩
            rw [hnil, List.getLast?_concat]
          · exact .inl hnil
  refine ⟨fun before x after heq hx => ?_, fun before x after response heq hx => ?_⟩
  · rcases hcut heq (.inl hx) with ⟨rfl, rfl, rfl⟩ | ⟨after', hbefore, hsame⟩
    · exact hlast hx
    · rw [hsame]
      exact h.buffered before x after' hbefore hx
  · rcases hcut heq (.inr ⟨response, hx⟩) with ⟨rfl, rfl, rfl⟩ | ⟨after', hbefore, hsame⟩
    · exact hpast response hx
    · rw [hsame]
      exact h.past before x after' response hbefore hx

/-- An action that sends no end of a response. -/
theorem Truthful.append (h : Truthful history) (he : ¬JustSent (history ++ [e]))
    (hclose : e.2 = .close → ¬JustSent history) : Truthful (history ++ [e]) :=
  h.extend hclose (fun _ hx => by cases hx) (fun hx => absurd (justSent_append.mpr (.inl hx)) he)
    fun response hx => absurd (justSent_append.mpr (.inr ⟨response, hx⟩)) he

end Histories

/-! ## Steps -/

/-- An action that sends no end of a response, and does not close. -/
structure Plain (e : Moment × Action) : Prop where
  open' : e.2 ≠ .close
  last : ¬SendsLast e
  past : ∀ response, ¬SendsPast e response

theorem Plain.not_justSent {history : List (Moment × Action)} {e : Moment × Action}
    (h : Plain e) : ¬JustSent (history ++ [e]) := by
  rw [justSent_append, not_or, not_exists]
  exact ⟨h.last, h.past⟩

/-- Only bytes that are sent, and the close, are not plain. -/
theorem plain_of {m : Moment} {action : Action} (hclose : action ≠ .close)
    (hsend : ∀ bytes, action ≠ .send bytes) (hpast : ∀ bytes, action ≠ .sendDirect bytes) :
    Plain (m, action) :=
  ⟨hclose, hsend _, fun response h => hpast response h.1⟩

section Steps

variable {c c' : Connection W}

theorem PendingTold.of_same (h : PendingTold c)
    (hbuffer : c'.client.responseBuffer = c.client.responseBuffer)
    (hresponse : lastResponse? c'.trace = lastResponse? c.trace)
    (hkeep : shouldKeepAlive c'.client = shouldKeepAlive c.client) : PendingTold c' := by
  unfold PendingTold
  rw [hbuffer, hresponse, hkeep]
  exact h

theorem Told.same (h : Told c) (htrace : c'.trace = c.trace)
    (hbuffer : c'.client.responseBuffer = c.client.responseBuffer)
    (hkeep : shouldKeepAlive c'.client = shouldKeepAlive c.client) : Told c' := by
  refine ⟨htrace ▸ h.truthful, h.pending.of_same hbuffer (by rw [htrace]) hkeep, ?_⟩
  rw [htrace, hbuffer]
  exact h.settled

/-- One more plain action. -/
theorem Told.log (htruth : Truthful c.trace) {e : Moment × Action}
    (htrace : c'.trace = c.trace ++ [e]) (he : Plain e) (hpending : PendingTold c') :
    Told c' := by
  refine ⟨?_, hpending, fun hsent => ?_⟩
  · rw [htrace]
    exact htruth.append he.not_justSent fun hclosed => absurd hclosed he.open'
  · rw [htrace] at hsent
    exact absurd hsent he.not_justSent

theorem Told.not_justSent (h : Told c) (hbuffer : c.client.responseBuffer ≠ []) :
    ¬JustSent c.trace :=
  fun hsent => hbuffer (h.settled hsent)

theorem Told.terminated (h : Told c) (hsent : ¬JustSent c.trace) : Told c.terminated := by
  unfold Connection.terminated
  split
  · have hclose : ¬JustSent (c.trace ++ [(c.moment, .close)]) := by
      rw [justSent_append]
      rintro (hlast | ⟨response, hpast⟩)
      · cases hlast
      · cases hpast.1
    exact ⟨h.truthful.append hclose fun _ => hsent, fun hne => absurd rfl hne,
      fun hlast => absurd hlast hclose⟩
  · exact h

/-- A parser that agrees with the response in the buffer. -/
theorem Told.parsed (h : Told c) {before q : RequestParser} {rest : Bytes}
    (hagrees : Agrees (c.moment, .parsed before q)) (hq : q.state = .body ∨ q.goesToCgi) :
    PendingTold (c.parsed before q rest) := by
  intro hne
  obtain ⟨response, hlast, hword⟩ := h.pending hne
  have hclose : q.isConnectionClose = !shouldKeepAlive c.client := hagrees hne hq
  have hkeep : shouldKeepAlive (c.parsed before q rest).client = !q.isConnectionClose := rfl
  refine ⟨response, ?_, ?_⟩
  · rw [Connection.parsed, lastResponse?_append]
    exact hlast
  · rw [hkeep, Bool.not_not, hclose]
    exact hword

/-! ## Dispatch -/

variable {os : OS W} {env : Env}

/-- A response that is made ready. -/
theorem told_answered {m : Moment} {p : RequestParser} {response : Bytes}
    (htruth : Truthful c.trace)
    (htrace : c'.trace = c.trace ++ [(m, .dispatch p (.answered response))])
    (hparser : c'.client.parser = some p)
    (hword : Says response (connectionWord p.isConnectionClose)) : Told c' := by
  refine Told.log htruth htrace (plain_of (by simp) (by simp) (by simp)) fun _ => ⟨response, ?_, ?_⟩
  · rw [htrace, lastResponse?_append]
    rfl
  · rw [shouldKeepAlive, hparser, Option.any_some, Bool.not_not]
    exact hword

theorem told_processCgiRequest {p : RequestParser} (hcgi : p.goesToCgi = true)
    (hparser : c.client.parser = some p) (htruth : Truthful c.trace) (hpending : PendingTold c)
    (hcond : Meeting Agrees c') (hok : processCgiRequest os env p c = .ok () c') : Told c' := by
  have hresult := processCgiRequest_result os env hcgi c
  rw [hok] at hresult
  cases hresult with
  | @refuse c₁ c₂ i b b' l hb hb' hc' code hcode =>
      obtain ⟨pending, -, hclient⟩ := hb.dropped_client hc'
      have htrace := hb.dropped_trace hc'
      have hlogged : (errorAnswer os env c.moment p c₂ i b' code).trace = c.trace
          ++ [(c.moment, .dispatch p (.answered (errorResponse os env c₂.world b' code).2))] := by
        rw [← htrace]
        rfl
      refine told_answered htruth hlogged (by simp only [errorAnswer, hclient]; exact hparser) ?_
      have hagrees := hcond _ (hlogged ▸ List.mem_append_right _ List.mem_cons_self)
      have hannounced : announced b = [connectionWord p.isConnectionClose] := by
        rcases ensureBuilder_cases hb.used hb.live with ⟨-, -, hfound⟩ | ⟨-, -, rfl, -⟩
        · exact hagrees hcgi b hfound
        · exact (Reply.refl _).announced (isConnectionClose_create os env c.world p)
      have hsame : SameAnnounced b b' := by
        rcases hb' with rfl | rfl
        · exact .refl b'
        · exact ⟨rfl, rfl, .refl _⟩
      exact says_generateResponseOnly env ((hsame.setErrorPage os _ code).announced hannounced)
  | @start c₁ i b l hb huse hroute h h' hcreate hstart =>
      have htrace := hb.trace
      have hlogged : (handlerStarted c.moment p c₁ i (b.initRoutes l) h').trace
          = c.trace ++ [(c.moment, .dispatch p (.started c₁.handlers.next h'.interpreter))] := by
        rw [← htrace]
        rfl
      refine Told.log htruth hlogged (plain_of (by simp) (by simp) (by simp)) ?_
      refine hpending.of_same ?_ ?_ ?_
      · simp only [handlerStarted, hb.client]
      · rw [hlogged, lastResponse?_append]
        rfl
      · simp only [handlerStarted, hb.client, shouldKeepAlive]

/-- A completed request is dispatched. The response in the buffer only
matters if it stays there. -/
theorem told_processCompletedRequest {q : RequestParser} (hq : c.client.parser = some q)
    (htruth : Truthful c.trace) (hpending : q.goesToCgi = true → PendingTold c)
    (hcond : Meeting Agrees c') (hok : processCompletedRequest os env c = .ok () c') : Told c' := by
  have hrun : (processCompletedRequest os env).run c = .ok () c' := hok
  simp only [processCompletedRequest, EStateM.run_bind, EStateM.run_get, hq,
    EStateM.run_set] at hrun
  split at hrun
  · rename_i hcgi
    refine told_processCgiRequest (c := c.withParser (some q.setRequestLine)) hcgi rfl htruth ?_
      hcond hrun
    have hpending' := hpending ((RequestParser.goesToCgi_setRequestLine q).symm.trans hcgi)
    refine hpending'.of_same rfl rfl ?_
    simp only [withParser, shouldKeepAlive, hq]
    rfl
  · simp only [processNormalRequest, EStateM.run_bind, EStateM.run_get] at hrun
    split at hrun
    · cases hrun
    · rename_i b world response hbuild
      cases hrun
      exact told_answered htruth rfl rfl (says_buildResponse hbuild)

/-! ## Input -/

theorem told_parseReceived (h : Told c) (hcond : Meeting Agrees c')
    (hgrows : ∀ before q rest, Meeting Agrees c' → processCompletedRequest os env
      (c.parsed before q rest) = .ok () c' → Meeting Agrees (c.parsed before q rest))
    (hok : parseReceived os env c = .ok () c') : Told c' := by
  obtain rfl | ⟨before, q, rest, -, ⟨hstate, rfl⟩ | ⟨hstate, hdone⟩⟩ :=
    parseReceived_cases os env hok
  · exact h
  · have hagrees := hcond _ (List.mem_append_right _ List.mem_cons_self)
    exact Told.log h.truthful rfl (plain_of (by simp) (by simp) (by simp))
      (h.parsed hagrees (.inl hstate))
  · have hagrees := hgrows before q rest hcond hdone _
      (List.mem_append_right _ List.mem_cons_self)
    have hplain : Plain (c.moment, .parsed before q) := plain_of (by simp) (by simp) (by simp)
    refine told_processCompletedRequest (c := c.parsed before q rest) rfl ?_
      (fun hcgi => h.parsed hagrees (.inr hcgi)) hcond hdone
    exact h.truthful.append hplain.not_justSent fun hclosed => absurd hclosed hplain.open'

/-- A read that is entered. -/
theorem told_read (h : Told c) : Told (c.log c.moment .read) :=
  Told.log h.truthful rfl (plain_of (by simp) (by simp) (by simp)) (h.pending.of_same rfl
    (by rw [Connection.log, lastResponse?_append]; rfl) rfl)

theorem not_justSent_read (c : Connection W) : ¬JustSent (c.log c.moment .read).trace :=
  (plain_of (by simp) (by simp) (by simp) : Plain (c.moment, .read)).not_justSent

theorem told_segmentRead (h : Told c) (segment : Segment) : Told (segmentRead env c segment) := by
  have hread : Told ((c.log c.moment .read).received env segment) :=
    (told_read h).same rfl rfl rfl
  unfold segmentRead expectHandled
  split
  · have hplain : Plain (((c.log c.moment .read).received env segment).moment,
        .sendDirect continueText) := by
      refine ⟨by simp, by simp [SendsLast], ?_⟩
      rintro response ⟨heq, hne⟩
      exact hne (Action.sendDirect.inj heq).symm
    refine Told.log hread.truthful rfl hplain (hread.pending.of_same rfl ?_ rfl)
    rw [Connection.continueSent, lastResponse?_append]
    rfl
  · exact hread

/-- A request that is refused past the response buffer. -/
theorem told_tooLarge (h : Told c) (hs : c.client.isStarted = true) {p : RequestParser}
    (hlarge : bodyTooLarge c.client = .ok (some p)) {response : Bytes}
    (hword : Says response (connectionWord p.isConnectionClose))
    (hcond : Meeting Agrees ((c.log c.moment .read).log c.moment
      (.sendDirect response)).terminated) :
    Told ((c.log c.moment .read).log c.moment (.sendDirect response)).terminated := by
  generalize hc' : (c.log c.moment .read).log c.moment (.sendDirect response) = c' at hcond ⊢
  have hs' : c'.client.isStarted = true := by rw [← hc']; exact hs
  have htrace : c'.terminated.trace = (c.log c.moment .read).trace
      ++ [(c.moment, .sendDirect response), (c'.moment, .close)] := by
    rw [Connection.terminated, if_pos hs', ← hc']
    simp [Connection.log]
  have hclient : c'.terminated.client.responseBuffer = [] := by
    rw [Connection.terminated, if_pos hs']
  have hclose : p.isConnectionClose = true :=
    hcond (c.moment, .sendDirect response)
      (htrace ▸ List.mem_append_right _ List.mem_cons_self) p hlarge
  rw [hclose] at hword
  refine ⟨?_, fun hne => absurd hclient hne, fun _ => hclient⟩
  rw [htrace]
  refine (told_read h).truthful.extend (fun heq => by cases heq) ?_ (fun hlast => by cases hlast)
    fun response' hpast => ?_
  · intro x hx
    obtain rfl := List.mem_singleton.mp hx
    exact ⟨by simp [SendsLast], by simp [SendsPast]⟩
  · obtain rfl := Action.sendDirect.inj hpast.1
    exact hword

/-! ## What every method leaves -/

/-- Only plain actions have been added. -/
def Plainly (c c' : Connection W) : Prop :=
  ∃ es, c'.trace = c.trace ++ es ∧ ∀ e ∈ es, Plain e

namespace Plainly

theorem of_eq (htrace : c'.trace = c.trace) : Plainly c c' :=
  ⟨[], by rw [htrace, List.append_nil], fun _ he => by cases he⟩

theorem of_append {e : Moment × Action} (htrace : c'.trace = c.trace ++ [e]) (he : Plain e) :
    Plainly c c' :=
  ⟨[e], htrace, List.forall_mem_singleton.mpr he⟩

theorem trans {c'' : Connection W} (h : Plainly c c') (h' : Plainly c' c'') : Plainly c c'' := by
  obtain ⟨es, htrace, hes⟩ := h
  obtain ⟨es', htrace', hes'⟩ := h'
  refine ⟨es ++ es', ?_, List.forall_mem_append.mpr ⟨hes, hes'⟩⟩
  rw [htrace', htrace, List.append_assoc]

theorem meeting {Cond : Moment × Action → Prop} (h : Plainly c c') (hcond : Meeting Cond c') :
    Meeting Cond c := by
  obtain ⟨es, htrace, -⟩ := h
  exact fun e he => hcond e (htrace ▸ List.mem_append_left _ he)

theorem truthful (h : Plainly c c') (htruth : Truthful c.trace) : Truthful c'.trace := by
  obtain ⟨es, htrace, hes⟩ := h
  rw [htrace]
  clear htrace
  induction es using List.reverseRecOn with
  | nil =>
      rw [List.append_nil]
      exact htruth
  | append_singleton es e ih =>
      obtain ⟨hes, he⟩ := List.forall_mem_append.mp hes
      have hplain := he e List.mem_cons_self
      rw [← List.append_assoc]
      exact (ih hes).append hplain.not_justSent fun hclosed => absurd hclosed hplain.open'

end Plainly

theorem plainly_cgiRequest {p : RequestParser} (hcgi : p.goesToCgi = true) (c : Connection W) :
    Plainly c (final (processCgiRequest os env p c)) := by
  have hdispatched (m : Moment) (o : Outcome) : Plain (m, .dispatch p o) :=
    plain_of (by simp) (by simp) (by simp)
  have hresult := processCgiRequest_result os env hcgi c
  generalize processCgiRequest os env p c = r at hresult
  cases hresult with
  | crash => exact .of_append rfl (hdispatched _ _)
  | refuse hb hb' hc' hcode =>
      exact .of_append (by simp only [final, errorAnswer, hb.dropped_trace hc']; rfl)
        (hdispatched _ _)
  | start hb =>
      exact .of_append (by simp only [final, handlerStarted, hb.trace]; rfl) (hdispatched _ _)

theorem plainly_completed {P : Connection W → Prop} :
    Makes Plainly P (processCompletedRequest os env) := by
  refine makes_processCompletedRequest (fun c p _ => .of_eq rfl)
    (fun p c hcgi => plainly_cgiRequest hcgi c) (fun c p => ?_) fun c p b world response => ?_
  · exact .of_append rfl (plain_of (by simp) (by simp) (by simp))
  · exact .of_append rfl (plain_of (by simp) (by simp) (by simp))

theorem plainly_parseReceived (os : OS W) (env : Env) (c : Connection W) :
    Plainly c (final (parseReceived os env c)) := by
  have hmakes : Makes Plainly (fun t => t = c) (parseReceived os env) := by
    refine makes_parseReceived os env (fun c before p rest => ?_) (fun _ => plainly_completed)
      fun c => .of_eq rfl
    exact .of_append rfl (plain_of (by simp) (by simp) (by simp))
  exact hmakes.step (fun _ => .of_eq rfl) (fun _ _ _ => .trans) rfl

/-- A method leaves a history that is truthful, and keeps what runs keep
if it returns. -/
structure LeavesTold (result : EStateM.Result Fault (Connection W) Unit) : Prop where
  truthful : Truthful (final result).trace
  told : ∀ c', result = .ok () c' → Told c'

theorem LeavesTold.ok (h : Told c) : LeavesTold (.ok () c) :=
  ⟨h.truthful, fun c' heq => by cases heq; exact h⟩

theorem leavesTold_handleIncomingData (h : Told c) (hs : c.client.isStarted = true)
    (data : Option Segment) (hcond : Meeting Agrees (final (handleIncomingData os env data c))) :
    LeavesTold (handleIncomingData os env data c) := by
  have hread := told_read h
  cases hlarge : bodyTooLarge c.client with
  | error fault =>
      rw [handleIncomingData_fault os env data hlarge]
      exact ⟨hread.truthful, fun c' heq => by cases heq⟩
  | ok large =>
  cases large with
  | some p =>
      rw [handleIncomingData_tooLarge env data hlarge] at hcond ⊢
      exact .ok (told_tooLarge h hs hlarge (says_errorPage os env env _ _ p 413) hcond)
  | none =>
  cases data with
  | none =>
      rw [handleIncomingData_closed os env hlarge]
      exact .ok (hread.terminated (not_justSent_read c))
  | some segment =>
      rw [handleIncomingData_eq os env segment hlarge] at hcond ⊢
      have hbefore : Told (segmentRead env c segment) := told_segmentRead h segment
      have hplainly := plainly_parseReceived os env (segmentRead env c segment)
      refine ⟨hplainly.truthful hbefore.truthful, fun c' hok => ?_⟩
      have hcond' : Meeting Agrees c' := by
        rw [hok] at hcond
        exact hcond
      refine told_parseReceived hbefore hcond' (fun before q rest hcond'' hdone => ?_) hok
      have hcompleted : Makes Plainly
          (fun t => t = (segmentRead env c segment).parsed before q rest)
          (processCompletedRequest os env) := plainly_completed
      have hsteps := hcompleted.step (fun _ => .of_eq rfl) (fun _ _ _ => .trans) rfl
      rw [hdone] at hsteps
      exact hsteps.meeting hcond''

/-! ## Output and pipes -/

/-- A preorder that keeps what runs keep. -/
def KeepsTold (c c' : Connection W) : Prop :=
  Plainly c c' ∧ (Meeting Agrees c' → Told c → Told c')

namespace KeepsTold

theorem refl (c : Connection W) : KeepsTold c c := ⟨.of_eq rfl, fun _ h => h⟩

theorem trans {c'' : Connection W} (h : KeepsTold c c') (h' : KeepsTold c' c'') :
    KeepsTold c c'' :=
  ⟨h.1.trans h'.1, fun hcond hc => h'.2 hcond (h.2 (h'.1.meeting hcond) hc)⟩

theorem of_same (htrace : c'.trace = c.trace)
    (hbuffer : c'.client.responseBuffer = c.client.responseBuffer)
    (hkeep : shouldKeepAlive c'.client = shouldKeepAlive c.client) : KeepsTold c c' :=
  ⟨.of_eq htrace, fun _ h => h.same htrace hbuffer hkeep⟩

/-- The response of a script, or the page in its place. -/
theorem responded {m : Moment} {k : Nat} {response : Bytes}
    (htrace : c'.trace = c.trace ++ [(m, .cgiRespond k response)])
    (hword : Meeting Agrees c' → Says response (connectionWord (!shouldKeepAlive c'.client))) :
    KeepsTold c c' := by
  have hplain : Plain (m, .cgiRespond k response) := plain_of (by simp) (by simp) (by simp)
  refine ⟨.of_append htrace hplain, fun hcond h => ?_⟩
  refine Told.log h.truthful htrace hplain fun _ => ⟨response, ?_, hword hcond⟩
  rw [htrace, lastResponse?_append]
  rfl

/-- The rule of the methods that keep it. -/
theorem of_makes {x : Method W Unit} (hx : Makes KeepsTold (fun t => t = c) x) :
    KeepsTold c (final (x c)) :=
  hx.step .refl (fun _ _ _ => .trans) rfl

end KeepsTold

theorem keepsTold_checkCgiProgress (os : OS W) (env : Env) (c : Connection W) :
    KeepsTold c (final (checkCgiProgress os env c)) := by
  refine .of_makes (makes_checkCgiProgress (fun c k p hp => ?_) fun c => .of_same rfl rfl rfl)
  refine .responded rfl fun _ => ?_
  have hclose : (!shouldKeepAlive (cgiTimedOut os env c k p).client) = p.isConnectionClose := by
    simp only [cgiTimedOut, shouldKeepAlive, hp, Option.any_some, Bool.not_not]
  rw [hclose]
  exact says_errorPage os env env _ _ p 504

theorem keepsTold_onPipeEvent (env : Env) (k : Nat) (ev : PipeEvent) (c : Connection W) :
    KeepsTold c (final (onPipeEvent env k ev c)) := by
  refine .of_makes (makes_onPipeEvent (fun c i b _ hi hb => ?_)
    (fun c handler b _ _ => .of_same rfl rfl rfl)
    (fun c handler handler' _ => .of_same rfl rfl rfl) ev)
  refine .responded rfl fun hcond => says_generateResponseOnly env ?_
  have hbuilder : c.moment.builder = some b := by
    rw [moment, builder?, hi]
    exact hb
  exact hcond (c.moment, .cgiRespond k _) (List.mem_append_right _ List.mem_cons_self) b hbuilder
    ⟨env, rfl⟩

theorem chunkSent_trace (env : Env) (c : Connection W) (n : Nat) : (c.chunkSent env n).trace
    = c.trace ++ [(c.moment, .send (c.client.responseBuffer.take n))] := rfl

/-- The end of a response closes the connection if its parser asks for
it, and does nothing that is seen otherwise. -/
theorem finalized_outcome {c : Connection W} (hs : c.client.isStarted = true)
    (hnil : c.client.responseBuffer = []) :
    ∃ es, (finalized c).trace = c.trace ++ es ∧ (∀ x ∈ es, x.2 = .close)
      ∧ closes es = !shouldKeepAlive c.client ∧ (finalized c).client.responseBuffer = [] := by
  unfold finalized
  split
  · rename_i hclose
    have hs' : c.builderDeleted.client.isStarted = true := hs
    rw [terminated, if_pos hs']
    refine ⟨[(c.builderDeleted.moment, .close)], rfl, List.forall_mem_singleton.mpr rfl, ?_, rfl⟩
    rw [hclose]
    rfl
  · rename_i hopen
    have hkeep : (!shouldKeepAlive c.client) = false := by simpa using hopen
    rw [hkeep]
    split
    · exact ⟨[], (List.append_nil _).symm, (fun _ hx => by cases hx), rfl, hnil⟩
    · exact ⟨[], (List.append_nil _).symm, (fun _ hx => by cases hx), rfl, hnil⟩

theorem Told.responds (h : Told c) (hsound : Sound c) (hresponds : Responds env c c') :
    Told c' := by
  cases hresponds with
  | idle => exact h
  | dropped hne => exact h.terminated (h.not_justSent hne)
  | part n hleft =>
      have hne : c.client.responseBuffer ≠ [] := by
        intro hnil
        rw [hnil, List.drop_nil] at hleft
        exact hleft rfl
      have hplain : Plain (c.moment, .send (c.client.responseBuffer.take n)) := by
        refine ⟨by simp, fun hlast => hleft ?_, by simp [SendsPast]⟩
        have htake : c.client.responseBuffer.take n = c.client.responseBuffer :=
          Action.send.inj hlast
        rw [← htake, List.drop_take, Nat.sub_self, List.take_zero]
      refine Told.log h.truthful (chunkSent_trace env c n) hplain fun _ => ?_
      obtain ⟨response, hlast, hword⟩ := h.pending hne
      refine ⟨response, ?_, hword⟩
      rw [chunkSent_trace, lastResponse?_append]
      exact hlast
  | last n hne hdone =>
      obtain ⟨response, hlast, hword⟩ := h.pending hne
      have hs : c.client.isStarted = true := hsound.started fun hclean => hne hclean.responseBuffer
      obtain ⟨es, htrace, hes, hcloses, hnil⟩ :=
        finalized_outcome (c := c.chunkSent env n) hs hdone
      refine ⟨?_, fun hne' => absurd hnil hne', fun _ => hnil⟩
      have hkeep : shouldKeepAlive (c.chunkSent env n).client = shouldKeepAlive c.client := rfl
      rw [htrace, chunkSent_trace, List.append_assoc, List.singleton_append]
      refine h.truthful.extend (fun heq => by cases heq) (fun x hx => ?_)
        (fun _ => ⟨response, hlast, ?_⟩) (fun response' hpast => by cases hpast.1)
      · have hclose := hes x hx
        exact ⟨by rw [SendsLast, hclose]; simp, by simp [SendsPast, hclose]⟩
      · rw [hcloses, hkeep]
        exact hword

/-! ## Runs -/

theorem leavesTold_onInput (h : Told c) (hs : c.client.isStarted = true)
    (input : Option (Option Segment)) (hcond : Meeting Agrees (final (onInput os env input c))) :
    LeavesTold (onInput os env input c) := by
  cases input with
  | none => exact .ok h
  | some data => exact leavesTold_handleIncomingData h hs data hcond

theorem Meeting.of_bind {Cond : Moment × Action → Prop} {x : Method W Unit}
    {f : Unit → Method W Unit} {c : Connection W}
    (hf : ∀ c', Relation.ReflTransGen (Tick os) c' (final (f () c')))
    (hcond : Meeting Cond (final ((x >>= f) c))) : Meeting Cond (final (x c)) := by
  change Meeting Cond (final (EStateM.bind x f c)) at hcond
  unfold EStateM.bind at hcond
  cases hx : x c with
  | ok a c' =>
      rw [hx] at hcond
      exact hcond.of_reaches (hf c')
  | error e c' =>
      rw [hx] at hcond
      exact hcond

theorem LeavesTold.bind {x : Method W Unit} {f : Unit → Method W Unit} {c : Connection W}
    (hx : LeavesTold (x c)) (hcond : Meeting Agrees (final ((x >>= f) c)))
    (hf : ∀ c', x c = .ok () c' → Meeting Agrees (final (f () c')) → LeavesTold (f () c')) :
    LeavesTold ((x >>= f) c) := by
  change LeavesTold (EStateM.bind x f c)
  change Meeting Agrees (final (EStateM.bind x f c)) at hcond
  unfold EStateM.bind at hcond ⊢
  cases hr : x c with
  | ok a c' =>
      rw [hr] at hcond
      exact hf c' hr hcond
  | error e c' =>
      rw [hr] at hx
      exact ⟨hx.truthful, fun c'' heq => by cases heq⟩

theorem KeepsTold.leaves {x : Method W Unit} (hkeeps : KeepsTold c (final (x c))) (h : Told c)
    (hcond : Meeting Agrees (final (x c))) : LeavesTold (x c) := by
  refine ⟨hkeeps.1.truthful h.truthful, fun c' hok => ?_⟩
  have htold := hkeeps.2 hcond h
  rw [hok] at htold
  exact htold

variable (os env) in
theorem reaches_onOutput (output : Option Sent) (c : Connection W) :
    Relation.ReflTransGen (Tick os) c (final (onOutput os env output c)) := by
  have hticks : Ticks os (fun _ => True) (onOutput os env output) anywhere := by
    cases output with
    | none => exact Meets.pure fun _ _ => trivial
    | some sent =>
        exact Meets.bind (ticks_checkCgiProgress env) fun _ => ticks_handleResponse env sent
  exact hticks.reaches trivial

theorem leavesTold_onOutput (h : Told c) (hsound : Sound c) (output : Option Sent)
    (hcond : Meeting Agrees (final (onOutput os env output c))) :
    LeavesTold (onOutput os env output c) := by
  cases output with
  | none => exact .ok h
  | some sent =>
      have hresponse (c' : Connection W) :
          Relation.ReflTransGen (Tick os) c' (final (handleResponse env sent c')) :=
        (ticks_handleResponse (P := fun _ => True) env sent).reaches trivial
      have hcheck := (keepsTold_checkCgiProgress os env c).leaves h
        (Meeting.of_bind (f := fun _ => handleResponse env sent) hresponse hcond)
      refine hcheck.bind hcond fun c₁ hok _ => ?_
      have hreaches : Relation.ReflTransGen (Tick os) c (final (checkCgiProgress os env c)) :=
        (ticks_checkCgiProgress (P := fun _ => True) env).reaches trivial
      rw [hok] at hreaches
      obtain ⟨c₂, hresult, hresponds, -⟩ := handleResponse_responds env sent c₁
      rw [hresult]
      exact .ok ((hcheck.told c₁ hok).responds (hsound.reaches hreaches) hresponds)

theorem leavesTold_step (h : Told c) (hsound : Sound c) (ev : Event)
    (hcond : Meeting Agrees (final (step os ev c))) : LeavesTold (step os ev c) := by
  cases ev with
  | client env input output =>
      have hstep : step os (.client env input output) c
          = if c.client.isStarted then onEvent os env input output c else .ok () c := by
        show (step os (.client env input output)).run c = _
        simp only [step, EStateM.run_bind, EStateM.run_get]
        split
        · rfl
        · rfl
      rw [hstep] at hcond ⊢
      split at hcond
      · rename_i hs
        rw [if_pos hs]
        have hinput := leavesTold_onInput h hs input
          (Meeting.of_bind (f := fun _ => onOutput os env output) (reaches_onOutput os env output)
            hcond)
        refine hinput.bind hcond fun c₁ hok hcond' => ?_
        have hreaches : Relation.ReflTransGen (Tick os) c (final (onInput os env input c)) := by
          cases input with
          | none => exact .refl
          | some data =>
              exact (ticks_handleIncomingData (P := fun t => t = c) env data
                fun _ ht => ht ▸ hs).reaches rfl
        rw [hok] at hreaches
        exact leavesTold_onOutput (hinput.told c₁ hok) (hsound.reaches hreaches) output hcond'
      · rename_i hs
        rw [if_neg hs]
        exact .ok h
  | pipe env k ev =>
      have hstep : step os (.pipe env k ev) c
          = if c.pipeRegistered k then onPipeEvent env k ev c else .ok () c := by
        show (step os (.pipe env k ev)).run c = _
        simp only [step, EStateM.run_bind, EStateM.run_get]
        split
        · rfl
        · rfl
      rw [hstep] at hcond ⊢
      split at hcond
      · rename_i hregistered
        rw [if_pos hregistered]
        exact (keepsTold_onPipeEvent env k ev c).leaves h hcond
      · rename_i hregistered
        rw [if_neg hregistered]
        exact .ok h

theorem leavesTold_run : ∀ (evs : List Event) {c : Connection W}, Told c → Sound c →
    Meeting Agrees (final (run os evs c)) → LeavesTold (run os evs c)
  | [], _, h, _, _ => .ok h
  | ev :: evs, c, h, hsound, hcond => by
      have hstep := leavesTold_step h hsound ev
        (Meeting.of_bind (f := fun _ => run os evs) (run_reaches os evs) hcond)
      refine hstep.bind hcond fun c₁ hok hcond' => ?_
      have hreaches : Relation.ReflTransGen (Tick os) c (final (step os ev c)) :=
        (ticks_step (P := fun _ => True) ev).reaches trivial
      rw [hok] at hreaches
      exact leavesTold_run evs (hstep.told c₁ hok) (hsound.reaches hreaches) hcond'

theorem told_accepted (garbage continueSent : Bool) (lastActivity : Int) (fd fd' : Nat)
    (serverConfigs : ServerGroup) (world : W) :
    Told (accepted garbage continueSent lastActivity fd fd' serverConfigs world) := by
  refine ⟨⟨fun before e after heq => ?_, fun before e after response heq => ?_⟩,
    fun hne => absurd rfl hne, fun _ => rfl⟩
  · exact absurd heq.symm (by simp [accepted])
  · exact absurd heq.symm (by simp [accepted])

end Steps

end Connection

open Connection

/-- In every run whose actions all agree, what every response says of the
connection is what is done behind its last byte. -/
theorem truthful_run {W : Type} (os : OS W) (garbage continueSent : Bool) (lastActivity : Int)
    (fd fd' : Nat) (serverConfigs : ServerGroup) (world : W) (evs : List Event)
    (h : Meeting Agrees (final (run os evs
      (accepted garbage continueSent lastActivity fd fd' serverConfigs world)))) :
    Truthful (final (run os evs
      (accepted garbage continueSent lastActivity fd fd' serverConfigs world))).trace :=
  (leavesTold_run evs (told_accepted garbage continueSent lastActivity fd fd' serverConfigs world)
    (sound_accepted garbage continueSent lastActivity fd fd' serverConfigs world) h).truthful

/-- An action that cannot disagree. -/
def agreeable (e : Moment × Action) : Bool :=
  match e.2 with
  | .parsed _ _ => decide (e.1.client.responseBuffer = [])
  | .dispatch p _ => !p.goesToCgi
  | .cgiRespond _ _ | .sendDirect _ => false
  | .read | .send _ | .close => true

theorem agrees_of_agreeable {e : Moment × Action} (h : agreeable e = true) : Agrees e := by
  obtain ⟨m, action⟩ := e
  cases action with
  | parsed before after => exact fun hne => absurd (of_decide_eq_true h) hne
  | dispatch p o =>
      cases o with
      | answered response =>
          intro hcgi
          simp [agreeable, hcgi] at h
      | _ => trivial
  | cgiRespond k response => cases h
  | sendDirect bytes => cases h
  | _ => trivial

/-- A request for a file and its response. -/
theorem truthful_run_get :
    Truthful (final (run flatOs getEvents
      (accepted false false 0 3 4 scriptServers ()))).trace := by
  refine truthful_run flatOs false false 0 3 4 scriptServers () getEvents fun e he => ?_
  have hall : (final (run flatOs getEvents
      (accepted false false 0 3 4 scriptServers ()))).trace.all agreeable = true := by
    decide +kernel
  exact agrees_of_agreeable (List.all_eq_true.mp hall e he)

/-- The text of a response has its `Connection` field. -/
theorem Says.infix {response word : Bytes} (h : Says response word) :
    lit "connection" ++ lit ": " ++ word.map tolower ++ crlf <:+: response.map tolower := by
  obtain ⟨b, rfl, hvalues⟩ := h
  have hmem : word ∈ connectionValues b.headers.entries := hvalues ▸ List.mem_cons_self
  obtain ⟨⟨name, value⟩, hfield, rfl⟩ := List.mem_map.mp hmem
  obtain ⟨hfield, hname⟩ := List.mem_filter.mp hfield
  have hinfix := (ResponseBuilder.field_infix hfield).map tolower
  rw [List.map_append, List.map_append, List.map_append, of_decide_eq_true hname] at hinfix
  exact hinfix

/-- The history ends with a response sent past the response buffer that
does not say that the connection will be closed, which it then is. -/
def saysOther (history : List (Moment × Action)) : Bool :=
  match history with
  | [(_, .sendDirect response), (_, .close)] =>
      decide (response ≠ continueText)
        && !decide (lit "connection" ++ lit ": " ++ (lit "close").map tolower ++ crlf
          <:+: response.map tolower)
  | _ => false

/-- A request that is refused is told that the connection is kept. -/
theorem not_truthful_run :
    ¬∀ (W : Type) (os : OS W) (garbage continueSent : Bool) (lastActivity : Int) (fd fd' : Nat)
      (serverConfigs : ServerGroup) (world : W) (evs : List Event),
      Truthful (final (run os evs
        (accepted garbage continueSent lastActivity fd fd' serverConfigs world))).trace := by
  intro h
  have htruth := h Unit flatOs false false 0 3 4 fourBytes () partEvents
  have hother : saysOther ((final (run flatOs partEvents
      (accepted false false 0 3 4 fourBytes ()))).trace.drop 3) = true := by
    decide +kernel
  generalize (final (run flatOs partEvents (accepted false false 0 3 4 fourBytes ()))).trace = t
    at htruth hother
  have hsplit := List.take_append_drop 3 t
  generalize t.drop 3 = after at hother hsplit
  unfold saysOther at hother
  split at hother
  · rename_i m response m'
    obtain ⟨hne, hinfix⟩ := Bool.and_eq_true_iff.mp hother
    have hword := htruth.past (t.take 3) (m, .sendDirect response) [(m', .close)] response
      hsplit.symm ⟨rfl, of_decide_eq_true hne⟩
    simp only [Bool.not_eq_true', decide_eq_false_iff_not] at hinfix
    exact hinfix hword.infix
  · cases hother

end Webserv
