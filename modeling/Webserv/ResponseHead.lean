import Webserv.MessageHead
import Webserv.RouteReplies

/-!
# The head of a response

`generate_response_string` writes one text for each header field. The
fields are those of the builder in front of `include_required_headers`,
without the ones that are overwritten or erased, and the required ones.
What a recipient reads are the lines of all these texts.
-/

namespace Webserv

open Bytes CrlfLines MessageHead

namespace ResponseBuilder

/-! ## The lines of the head -/

/-- The text of a header field. -/
def fieldText (e : Bytes × Bytes) : Bytes := e.1 ++ lit ": " ++ e.2

/-- The lines a recipient reads of header fields. -/
def fieldLines (fields : List (Bytes × Bytes)) : List Bytes :=
  fields.flatMap fun e => linesOf (fieldText e)

theorem isLine_fieldLines {fields : List (Bytes × Bytes)} {line : Bytes}
    (h : line ∈ fieldLines fields) : IsLine line := by
  obtain ⟨e, -, he⟩ := List.mem_flatMap.mp h
  exact isLine_linesOf he

theorem unlines_fieldLines : ∀ fields : List (Bytes × Bytes),
    unlines (fieldLines fields) = (fields.map fun e => e.1 ++ lit ": " ++ e.2 ++ crlf).flatten
  | [] => rfl
  | e :: fields => by
      have hcons : fieldLines (e :: fields) = linesOf (fieldText e) ++ fieldLines fields :=
        List.flatMap_cons
      rw [hcons, unlines_append, unlines_linesOf, unlines_fieldLines fields]
      rfl

theorem generateResponseString_eq (b : ResponseBuilder) :
    b.generateResponseString
      = unlines ((b.httpVersion ++ space :: b.status) :: fieldLines b.headers.entries)
        ++ cr :: lf :: b.body := by
  rw [unlines_cons, unlines_fieldLines]
  simp [generateResponseString, statusLine, crlf]

/-! ## The required fields -/

/-- Whether `include_required_headers` overwrites or erases the field. -/
def overwritten (b : ResponseBuilder) (name : Bytes) : Bool :=
  decide (name = lit "Server") || decide (name = lit "Date")
    || decide (name = lit "Content-Length")
      && (b.headers.get? (lit "Transfer-Encoding")).all fun coding =>
        decide (coding = lit "chunked")

/-- The fields of the builder that are sent as they are. -/
def keptFields (b : ResponseBuilder) : List (Bytes × Bytes) :=
  b.headers.entries.filter fun e => !b.overwritten e.1

/-- The Content-Length that is written. -/
def lengthField (b : ResponseBuilder) : List (Bytes × Bytes) :=
  if (b.headers.get? (lit "Transfer-Encoding")).isNone then
    [(lit "Content-Length", decimal b.body.length)]
  else []

/-- The fields that are written in front of the Content-Length. -/
def firstFields (env : Env) (b : ResponseBuilder) : List (Bytes × Bytes) :=
  (if (b.headers.get? (lit "Content-Type")).isNone && !b.request.isCgiRequest then
    [(lit "Content-Type", detectMimeType b.request.requestUri)]
  else []) ++ [(lit "Date", env.httpDate), (lit "Server", webservName)]

/-- The fields that are written behind it. -/
def lastFields (b : ResponseBuilder) : List (Bytes × Bytes) :=
  b.locationConfig.toList.flatMap (fun l =>
    if b.statusCode = 405 && (b.headers.get? (lit "Allow")).isNone then
      [(lit "Allow", joinMethods l.allowedMethods)]
    else [])
  ++ if (b.headers.get? (lit "Connection")).isNone then
    [(lit "Connection", if b.request.isConnectionClose then lit "close" else lit "keep-alive")]
  else []

section Maps

variable {m : HeaderMap} {es : List (Bytes × Bytes)} {k : Bytes}

/-- A field that was not there is written. -/
theorem perm_new (h : m.entries.Perm es) {P : Bool} (hget : P = true → m.get? k = none)
    (v : Bytes) :
    (if P then m.insert k v else m).entries.Perm ((if P then [(k, v)] else []) ++ es) := by
  cases P with
  | true => exact (OrdMap.perm_insert_new (hget rfl) v).trans (h.cons _)
  | false => exact h

/-- A field is overwritten. -/
theorem perm_replaced (h : m.entries.Perm es) (v : Bytes) :
    (m.insert k v).entries.Perm ((k, v) :: es.filter fun e => decide (e.1 ≠ k)) :=
  (OrdMap.perm_insert (fun _ => decide_eq_true_iff) m v).trans ((h.filter _).cons _)

theorem perm_erased (h : m.entries.Perm es) :
    (m.erase k).entries.Perm (es.filter fun e => decide (e.1 ≠ k)) := by
  rw [OrdMap.entries_erase fun _ => decide_eq_true_iff]
  exact h.filter _

end Maps

/-- No field in front of the Content-Length has its name. -/
theorem firstFields_ne (env : Env) (b : ResponseBuilder) :
    ∀ e ∈ firstFields env b, e.1 ≠ lit "Content-Length" := by
  intro e he
  have hname : e.1 ∈ [lit "Content-Type", lit "Date", lit "Server"] := by
    unfold firstFields at he
    split at he
    · exact List.mem_map_of_mem (f := Prod.fst) he
    · exact List.mem_cons_of_mem _ (List.mem_map_of_mem (f := Prod.fst) he)
  intro heq
  rw [heq] at hname
  exact absurd hname (by decide +kernel)

theorem filter_firstFields (env : Env) (b : ResponseBuilder) (es : List (Bytes × Bytes)) :
    (firstFields env b ++ es).filter (fun e => decide (e.1 ≠ lit "Content-Length"))
      = firstFields env b ++ es.filter fun e => decide (e.1 ≠ lit "Content-Length") := by
  rw [List.filter_append,
    List.filter_eq_self.mpr fun e he => decide_eq_true (firstFields_ne env b e he)]

theorem headers_ite {P : Bool} (b : ResponseBuilder) (k v : Bytes) :
    (if P then b.setHeaders k v else b).headers
      = if P then b.headers.insert k v else b.headers := by
  cases P <;> rfl

theorem get?_headers_ite {P : Bool} (b : ResponseBuilder) {k name : Bytes} (h : k ≠ name)
    (v : Bytes) :
    (if P then b.setHeaders k v else b).headers.get? name = b.headers.get? name := by
  rw [headers_ite]
  split
  · exact OrdMap.get?_insert_of_ne _ h v
  · rfl

theorem headersOnly_ite {P : Bool} (b : ResponseBuilder) (k v : Bytes) :
    HeadersOnly b (if P then b.setHeaders k v else b) :=
  ((HeadersOnly.refl b).setHeaders k v).ite (.refl b)

/-! ## The steps of `include_required_headers` -/

section Steps

variable (env : Env) (b : ResponseBuilder)

def dated : ResponseBuilder :=
  (b.setHeaders (lit "Server") webservName).setHeaders (lit "Date") env.httpDate

def typed : ResponseBuilder :=
  if ((dated env b).headers.get? (lit "Content-Type")).isNone && !b.request.isCgiRequest then
    (dated env b).setHeaders (lit "Content-Type") (detectMimeType b.request.requestUri)
  else dated env b

def framed : ResponseBuilder :=
  match (typed env b).headers.get? (lit "Transfer-Encoding") with
  | some coding =>
      if coding = lit "chunked" then
        { typed env b with headers := (typed env b).headers.erase (lit "Content-Length") }
      else typed env b
  | none =>
      (typed env b).setHeaders (lit "Content-Length") (decimal (typed env b).body.length)

def connected : ResponseBuilder :=
  if ((framed env b).headers.get? (lit "Connection")).isNone then
    (framed env b).setHeaders (lit "Connection")
      (if (framed env b).request.isConnectionClose then lit "close" else lit "keep-alive")
  else framed env b

theorem includeRequiredHeaders_eq : b.includeRequiredHeaders env
    = match (connected env b).locationConfig with
      | some l =>
          if (connected env b).statusCode = 405
              && ((connected env b).headers.get? (lit "Allow")).isNone then
            (connected env b).setHeaders (lit "Allow") (joinMethods l.allowedMethods)
          else connected env b
      | none => connected env b :=
  rfl

theorem headersOnly_typed : HeadersOnly b (typed env b) :=
  .trans (((HeadersOnly.refl b).setHeaders _ _).setHeaders _ _) (headersOnly_ite _ _ _)

theorem headersOnly_framed : HeadersOnly b (framed env b) := by
  have h := headersOnly_typed env b
  unfold framed
  split
  · split
    · exact h.trans rfl
    · exact h
  · exact h.setHeaders _ _

theorem headersOnly_connected : HeadersOnly b (connected env b) :=
  (headersOnly_framed env b).trans (headersOnly_ite _ _ _)

/-! Every step leaves the fields with other names. -/

variable {name : Bytes} (hserver : lit "Server" ≠ name) (hdate : lit "Date" ≠ name)

include hserver hdate

theorem get?_dated : (dated env b).headers.get? name = b.headers.get? name := by
  simp only [dated, setHeaders]
  rw [OrdMap.get?_insert_of_ne _ hdate, OrdMap.get?_insert_of_ne _ hserver]

theorem get?_typed (htype : lit "Content-Type" ≠ name) :
    (typed env b).headers.get? name = b.headers.get? name :=
  (get?_headers_ite _ htype _).trans (get?_dated env b hserver hdate)

theorem get?_framed (htype : lit "Content-Type" ≠ name) (hlength : lit "Content-Length" ≠ name) :
    (framed env b).headers.get? name = b.headers.get? name := by
  rw [← get?_typed env b hserver hdate htype]
  unfold framed
  split
  · split
    · rw [OrdMap.get?_erase, if_neg hlength]
    · rfl
  · exact OrdMap.get?_insert_of_ne _ hlength _

theorem get?_connected (htype : lit "Content-Type" ≠ name)
    (hlength : lit "Content-Length" ≠ name) (hconnection : lit "Connection" ≠ name) :
    (connected env b).headers.get? name = b.headers.get? name :=
  (get?_headers_ite _ hconnection _).trans (get?_framed env b hserver hdate htype hlength)

end Steps

/-! ## The fields of the response -/

section Fields

variable (env : Env) (b : ResponseBuilder)

/-- What is left of the builder's fields behind Server and Date. -/
def undated : List (Bytes × Bytes) :=
  (b.headers.entries.filter fun e => decide (e.1 ≠ lit "Server")).filter
    fun e => decide (e.1 ≠ lit "Date")

theorem keptFields_eq : keptFields b
    = if (b.headers.get? (lit "Transfer-Encoding")).all
        (fun coding => decide (coding = lit "chunked")) then
        (undated b).filter fun e => decide (e.1 ≠ lit "Content-Length")
      else undated b := by
  unfold keptFields overwritten undated
  cases (b.headers.get? (lit "Transfer-Encoding")).all fun coding =>
      decide (coding = lit "chunked") with
  | true =>
      rw [if_pos rfl, List.filter_filter, List.filter_filter]
      refine List.filter_congr fun e _ => ?_
      simp [Bool.and_comm, Bool.and_assoc]
  | false =>
      rw [if_neg (by decide), List.filter_filter]
      refine List.filter_congr fun e _ => ?_
      simp [Bool.and_comm]

theorem perm_dated : (dated env b).headers.entries.Perm
    ([(lit "Date", env.httpDate), (lit "Server", webservName)] ++ undated b) := by
  have hserver := perm_replaced (k := lit "Server") (.refl b.headers.entries) webservName
  have hdate := perm_replaced (k := lit "Date") hserver env.httpDate
  rwa [List.filter_cons_of_pos (by simp [lit])] at hdate

theorem perm_typed : (typed env b).headers.entries.Perm (firstFields env b ++ undated b) := by
  have hget : (dated env b).headers.get? (lit "Content-Type")
      = b.headers.get? (lit "Content-Type") :=
    get?_dated env b (by simp [lit]) (by simp [lit])
  simp only [typed, headers_ite, firstFields, List.append_assoc, hget]
  refine perm_new (perm_dated env b) (fun h => hget.trans ?_) _
  simpa using (Bool.and_eq_true_iff.mp h).1

theorem perm_framed : (framed env b).headers.entries.Perm
    (lengthField b ++ (firstFields env b ++ keptFields b)) := by
  have htype := perm_typed env b
  have hget : (typed env b).headers.get? (lit "Transfer-Encoding")
      = b.headers.get? (lit "Transfer-Encoding") :=
    get?_typed env b (by simp [lit]) (by simp [lit]) (by simp [lit])
  have hbody : (typed env b).body = b.body := by rw [headersOnly_typed env b]
  unfold framed lengthField
  rw [keptFields_eq, hget]
  cases b.headers.get? (lit "Transfer-Encoding") with
  | none =>
      have hlength := perm_replaced (k := lit "Content-Length") htype (decimal b.body.length)
      rw [filter_firstFields] at hlength
      rw [hbody]
      exact hlength
  | some coding =>
      by_cases hcoding : coding = lit "chunked"
      · have herased := perm_erased (k := lit "Content-Length") htype
        have hall : (some coding).all (fun coding => decide (coding = lit "chunked")) = true :=
          decide_eq_true hcoding
        rw [filter_firstFields] at herased
        rw [hall, if_pos rfl]
        simp only [if_pos hcoding]
        exact herased
      · have hall : (some coding).all (fun coding => decide (coding = lit "chunked")) = false :=
          decide_eq_false hcoding
        rw [hall, if_neg Bool.false_ne_true]
        simp only [if_neg hcoding]
        exact htype

theorem perm_connected : (connected env b).headers.entries.Perm
    ((if (b.headers.get? (lit "Connection")).isNone then
      [(lit "Connection", if b.request.isConnectionClose then lit "close" else lit "keep-alive")]
    else []) ++ (lengthField b ++ (firstFields env b ++ keptFields b))) := by
  have hget : (framed env b).headers.get? (lit "Connection")
      = b.headers.get? (lit "Connection") :=
    get?_framed env b (by simp [lit]) (by simp [lit]) (by simp [lit])
      (by simp [lit])
  have hrequest : (framed env b).request = b.request := by rw [headersOnly_framed env b]
  simp only [connected, headers_ite, hget, hrequest]
  exact perm_new (perm_framed env b) (fun h => hget.trans (by simpa using h)) _

/-- The fields of the response: the required ones, and what is kept of
the builder's. -/
theorem perm_includeRequiredHeaders : (b.includeRequiredHeaders env).headers.entries.Perm
    (lastFields b ++ (lengthField b ++ (firstFields env b ++ keptFields b))) := by
  have hget : (connected env b).headers.get? (lit "Allow")
      = b.headers.get? (lit "Allow") :=
    get?_connected env b (by simp [lit]) (by simp [lit]) (by simp [lit])
      (by simp [lit]) (by simp [lit])
  have honly := headersOnly_connected env b
  have hlocation : (connected env b).locationConfig = b.locationConfig := by rw [honly]
  have hcode : (connected env b).statusCode = b.statusCode := by rw [honly]
  rw [includeRequiredHeaders_eq, lastFields, List.append_assoc, hlocation, hcode, hget]
  cases b.locationConfig with
  | none => exact perm_connected env b
  | some l =>
      simp only [headers_ite, Option.toList_some, List.flatMap_singleton]
      refine perm_new (perm_connected env b) (fun h => hget.trans ?_) _
      simpa using (Bool.and_eq_true_iff.mp h).2

end Fields

/-! ## Reading the response -/

/-- A recipient finds the body behind the head exactly when no line of a
header field is empty; then the lines are the fields it reads. -/
theorem read_response {b : ResponseBuilder} (hversion : b.httpVersion = lit "HTTP/1.1")
    (hstatus : cr ∉ b.status) (m : Message) :
    read b.generateResponseString = some m ∧ m.rest = b.body
      ↔ [] ∉ fieldLines b.headers.entries
        ∧ m = ⟨lit "HTTP/1.1" ++ space :: b.status, fieldLines b.headers.entries, b.body⟩ := by
  have hstart : lit "HTTP/1.1" ++ space :: b.status ≠ []
      ∧ IsLine (lit "HTTP/1.1" ++ space :: b.status) := by
    refine ⟨List.append_ne_nil_of_right_ne_nil _ (List.cons_ne_nil _ _), isLine_of_noCr ?_⟩
    rw [List.mem_append, List.mem_cons]
    rintro (h | h | h)
    · exact absurd h (by decide +kernel)
    · exact absurd h (by decide)
    · exact hstatus h
  rw [generateResponseString_eq, hversion]
  exact read_head hstart (fun l h => isLine_fieldLines h) b.body m

end ResponseBuilder

end Webserv
