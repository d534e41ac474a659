import Webserv.HeaderInjection
import Webserv.StatusLine

/-!
# Where a response ends

`include_required_headers` writes a Content-Length over the one in its
map, where there is no `Transfer-Encoding`. The map tells names apart by
their case, and a recipient does not: what the script has under another
spelling stays beside the length that is written, and what it has under
`Transfer-Encoding` takes its place.
-/

namespace Webserv

open Bytes CrlfLines MessageHead

namespace ResponseBuilder

/-! ## The builders that are sent -/

/-- The builders whose responses are generated, for any request,
configuration, file system and output of a script. -/
inductive Built {W : Type} (os : OS W) : ResponseBuilder → Prop where
  | created (env : Env) (w : W) {p : RequestParser}
      (hwords : ∀ l, p.locationConfig = some l → l.Tokenized) : Built os (create os w env p)
  | errorPage {b : ResponseBuilder} (h : Built os b) (w : W) (code : Int) :
      Built os (b.setErrorPage os w code)
  | routes {b : ResponseBuilder} (h : Built os b) (l : Location) : Built os (b.initRoutes l)
  | located (env : Env) (w : W) {p : RequestParser} {l : Location}
      (hwords : ∀ l, p.locationConfig = some l → l.Tokenized) (hl : p.locationConfig = some l) :
      Built os (handleRedirection os (runLocation os env w (create os w env p) l).2
        (runLocation os env w (create os w env p) l).1)
  | script {b : ResponseBuilder} (h : Built os b) (cgiOutput : Bytes) :
      Built os (CgiHandler.processCgiOutput cgiOutput b)
  | sent {b : ResponseBuilder} (h : Built os b) (env : Env) :
      Built os (b.generateResponseOnly env).1

/-- What the start line and the `Allow` field are made of. -/
structure Sendable (b : ResponseBuilder) : Prop where
  version : b.httpVersion = lit "HTTP/1.1"
  status : cr ∉ b.status
  methods : ∀ l, b.locationConfig = some l → ∀ method ∈ l.allowedMethods, NoBreak method

theorem Sendable.kept {b b' : ResponseBuilder} (h : Sendable b) (hkept : Kept b b')
    (hstatus : cr ∉ b'.status) : Sendable b' where
  version := hkept.httpVersion.trans h.version
  status := hstatus
  methods := fun l hl => h.methods l (hkept.locationConfig ▸ hl)

section Sendable

variable {W : Type} {os : OS W}

variable (os) in
theorem sendable_create (env : Env) (w : W) {p : RequestParser}
    (hwords : ∀ l, p.locationConfig = some l → l.Tokenized) : Sendable (create os w env p) where
  version := (builtFrom_create os env w p).httpVersion
  status := (Reply.refl (create os w env p)).noCr
  methods := fun l hl =>
    (hwords l ((builtFrom_create os env w p).locationConfig ▸ hl)).allowedMethods

theorem Built.sendable {b : ResponseBuilder} (h : Built os b) : Sendable b := by
  induction h with
  | created env w hwords => exact sendable_create os env w hwords
  | @errorPage b _ w code ih =>
      obtain ⟨headers, body, hpage⟩ := setErrorPage_eq os w b code
      refine ih.kept ((Kept.refl b).setErrorPage code) ?_
      rw [hpage]
      exact (noBreak_statusText _).1
  | routes _ l ih => exact ⟨ih.version, ih.status, ih.methods⟩
  | @located env w p l hwords hl =>
      have hnew := sendable_create os env w hwords
      have hbuilt := builtFrom_create os env w p
      have hlocation := hbuilt.locationConfig.trans hl
      have hrun := (answered_runLocation os env w hlocation).kept
        (kept_handleRedirection os (runLocation os env w (create os w env p) l).2 _)
      obtain ⟨status, hreply, -⟩ := reply_location os env w hbuilt.routes hlocation
      exact ⟨hrun.httpVersion.trans hnew.version, hreply.noCr,
        fun l' hl' => hnew.methods l' (hrun.locationConfig ▸ hl')⟩
  | @script b _ cgiOutput ih =>
      refine ih.kept (CgiHandler.kept_processCgiOutput cgiOutput b) ?_
      rw [CgiHandler.processCgiOutput_status]
      exact (noBreak_statusText _).1
  | @sent b _ env ih =>
      refine ih.kept (Kept.refl b).generateResponseOnly ?_
      have honly := headersOnly_includeRequiredHeaders env b
      show cr ∉ (b.includeRequiredHeaders env).status
      rw [honly]
      exact ih.status

end Sendable

/-! ## The fields of plain names -/

theorem lower_headerNames : ∀ name ∈ headerNames,
    name.map tolower ≠ lit "transfer-encoding"
      ∧ (name ≠ lit "Content-Length" → name.map tolower ≠ lit "content-length") := by
  decide +kernel

theorem fieldName_plain {e : Bytes × Bytes} (h : PlainField e) :
    fieldName (fieldText e) = e.1.map tolower := by
  rw [fieldName, fieldText_eq, takeWhile_name (headerNames_plain e.1 h.1).2.1]

/-- The lines of plain fields are not empty, and bear the names of the
fields. -/
theorem lines_plain {fields : List (Bytes × Bytes)} (h : ∀ e ∈ fields, PlainField e) :
    ∀ line ∈ fieldLines fields, line ≠ [] ∧ ∃ e ∈ fields, fieldName line = e.1.map tolower := by
  intro line hline
  obtain ⟨e, he, hline⟩ := List.mem_flatMap.mp hline
  obtain ⟨hlines, hne, -⟩ := (h e he).lines
  rw [hlines, List.mem_singleton] at hline
  subst hline
  exact ⟨hne, e, he, fieldName_plain (h e he)⟩

theorem noCoding_plain {fields : List (Bytes × Bytes)} (h : ∀ e ∈ fields, PlainField e) :
    valuesOf (lit "transfer-encoding") (fieldLines fields) = [] := by
  refine valuesOf_eq_nil fun line hline => ?_
  obtain ⟨-, e, he, hname⟩ := lines_plain h line hline
  rw [hname]
  exact (lower_headerNames e.1 (h e he).1).1

theorem noLength_plain {fields : List (Bytes × Bytes)} (h : ∀ e ∈ fields, PlainField e)
    (hne : ∀ e ∈ fields, e.1 ≠ lit "Content-Length") :
    valuesOf (lit "content-length") (fieldLines fields) = [] := by
  refine valuesOf_eq_nil fun line hline => ?_
  obtain ⟨-, e, he, hname⟩ := lines_plain h line hline
  rw [hname]
  exact (lower_headerNames e.1 (h e he).1).2 (hne e he)

theorem trim_decimal (n : Nat) : trim (lit " \t") (space :: decimal n) = decimal n := by
  have hkeep : ∀ c ∈ decimal n, ¬decide (c ∈ lit " \t") = true := by
    intro c hc hmem
    have hblank : ∀ d ∈ lit " \t", isdigit d = false := by simp [lit, isdigit]
    have hdigit := isdigit_decimal n c hc
    rw [hblank c (of_decide_eq_true hmem)] at hdigit
    cases hdigit
  have hspace : decide (space ∈ lit " \t") = true := by simp [lit, space]
  have hstart : (decimal n).dropWhile (fun c => decide (c ∈ lit " \t")) = decimal n :=
    List.dropWhile_eq_self_iff.mpr fun hlt => hkeep _ (List.getElem_mem hlt)
  have hend : (decimal n).rdropWhile (fun c => decide (c ∈ lit " \t")) = decimal n :=
    List.rdropWhile_eq_self_iff.mpr fun hne => hkeep _ (List.getLast_mem hne)
  rw [trim, List.dropWhile_cons_of_pos (p := fun c => decide (c ∈ lit " \t")) hspace, hstart, hend]

/-- The Content-Length that is written says the length of the body. -/
theorem length_lengthField (b : ResponseBuilder) :
    (valuesOf (lit "content-length") (fieldLines (lengthField b))).map lengthSaid
      = if (b.headers.get? (lit "Transfer-Encoding")).isNone then [some b.body.length] else [] := by
  unfold lengthField
  split
  · have hplain : PlainField (lit "Content-Length", decimal b.body.length) :=
      plainField (by simp [headerNames]) (noBreak_decimal _)
    have hlines : fieldLines [(lit "Content-Length", decimal b.body.length)]
        = [fieldText (lit "Content-Length", decimal b.body.length)] := by
      rw [fieldLines, List.flatMap_singleton, hplain.lines.1]
    have hlower : (lit "Content-Length").map tolower = lit "content-length" := by decide +kernel
    have hcolon : colon ∉ lit "Content-Length" := by simp [lit, colon]
    have hname : fieldName (fieldText (lit "Content-Length", decimal b.body.length))
        = lit "content-length" := (fieldName_plain hplain).trans hlower
    have hvalue : fieldValue (fieldText (lit "Content-Length", decimal b.body.length))
        = decimal b.body.length := by
      rw [fieldValue, fieldText_eq, dropWhile_name hcolon, List.tail_cons, trim_decimal]
    rw [hlines, valuesOf,
      List.filter_cons_of_pos (p := fun line => decide (fieldName line = lit "content-length"))
        (decide_eq_true hname),
      List.filter_nil, List.map_singleton, hvalue, List.map_singleton, lengthSaid_decimal]
  · rfl

/-! ## The response -/

/-- What the builder has, beside what is overwritten, tells a recipient
nothing wrong: no line of it is empty, it names no coding but that of the
body, and no length, unless its `Transfer-Encoding` keeps one from being
written. -/
structure FieldsFramed (InCoding : Bytes → Bytes → Prop) (b : ResponseBuilder) : Prop where
  whole : [] ∉ fieldLines (keptFields b)
  codings : ∀ coding ∈ valuesOf (lit "transfer-encoding") (fieldLines (keptFields b)),
    InCoding coding b.body
  length : (valuesOf (lit "content-length") (fieldLines (keptFields b))).map lengthSaid
    = if (b.headers.get? (lit "Transfer-Encoding")).isNone then [] else [some b.body.length]

theorem perm_fieldLines {fields fields' : List (Bytes × Bytes)} (h : fields.Perm fields') :
    (fieldLines fields).Perm (fieldLines fields') :=
  h.flatMap_right _

theorem fieldLines_append (fields fields' : List (Bytes × Bytes)) :
    fieldLines (fields ++ fields') = fieldLines fields ++ fieldLines fields' :=
  List.flatMap_append

theorem lastFields_ne (b : ResponseBuilder) :
    ∀ e ∈ lastFields b, e.1 ≠ lit "Content-Length" := by
  intro e he
  have hname : e.1 ∈ [lit "Allow", lit "Connection"] := by
    rcases List.mem_append.mp he with he | he
    · obtain ⟨l, -, he⟩ := List.mem_flatMap.mp he
      split at he
      · obtain rfl := List.mem_singleton.mp he
        exact List.mem_cons_self
      · cases he
    · split at he
      · obtain rfl := List.mem_singleton.mp he
        exact List.mem_cons_of_mem _ List.mem_cons_self
      · cases he
  intro heq
  rw [heq] at hname
  exact absurd hname (by decide +kernel)

section Sent

variable {InCoding : Bytes → Bytes → Prop} {env : Env} {b : ResponseBuilder}

/-- The required fields say one length, and only the builder's own can
say more. -/
theorem framed_fields (hdate : NoBreak env.httpDate)
    (hwords : ∀ l, b.locationConfig = some l → ∀ method ∈ l.allowedMethods, NoBreak method) :
    [] ∉ fieldLines (b.includeRequiredHeaders env).headers.entries
        ∧ Framed InCoding (fieldLines (b.includeRequiredHeaders env).headers.entries) b.body
      ↔ FieldsFramed InCoding b := by
  have hlast := plain_lastFields hwords
  have hlength := plain_lengthField (b := b)
  have hfirst := plain_firstFields (b := b) hdate
  have hperm := perm_fieldLines (perm_includeRequiredHeaders env b)
  simp only [fieldLines_append] at hperm
  have hcodings : valuesOf (lit "transfer-encoding") (fieldLines (lastFields b)
      ++ (fieldLines (lengthField b) ++ (fieldLines (firstFields env b)
        ++ fieldLines (keptFields b))))
      = valuesOf (lit "transfer-encoding") (fieldLines (keptFields b)) := by
    simp only [valuesOf_append, noCoding_plain hlast, noCoding_plain hlength,
      noCoding_plain hfirst, List.nil_append]
  have hlengths : (valuesOf (lit "content-length") (fieldLines (lastFields b)
      ++ (fieldLines (lengthField b) ++ (fieldLines (firstFields env b)
        ++ fieldLines (keptFields b))))).map lengthSaid
      = (if (b.headers.get? (lit "Transfer-Encoding")).isNone then [some b.body.length] else [])
        ++ (valuesOf (lit "content-length") (fieldLines (keptFields b))).map lengthSaid := by
    simp only [valuesOf_append, noLength_plain hlast (lastFields_ne b),
      noLength_plain hfirst (firstFields_ne env b), List.nil_append, List.map_append,
      length_lengthField]
  have hwhole : [] ∉ fieldLines (b.includeRequiredHeaders env).headers.entries
      ↔ [] ∉ fieldLines (keptFields b) := by
    have hplain {fields : List (Bytes × Bytes)} (h : ∀ e ∈ fields, PlainField e) :
        [] ∉ fieldLines fields := fun hmem => (lines_plain h [] hmem).1 rfl
    rw [hperm.mem_iff]
    simp only [List.mem_append, hplain hlast, hplain hlength, hplain hfirst, false_or]
  rw [hwhole]
  constructor
  · rintro ⟨hnil, hframed⟩
    have hframed := hframed.of_perm hperm
    refine ⟨hnil, fun coding hc => hframed.codings coding (hcodings ▸ hc), ?_⟩
    have hsaid := hframed.length
    rw [hlengths] at hsaid
    split at hsaid
    · rename_i hnone
      rw [if_pos hnone]
      exact List.append_cancel_left (hsaid.trans (List.append_nil _).symm)
    · rename_i hsome
      rw [if_neg hsome]
      exact hsaid
  · rintro ⟨hnil, hcoded, hsaid⟩
    refine ⟨hnil, Framed.of_perm ⟨?_, fun coding hc => hcoded coding (hcodings ▸ hc)⟩ hperm.symm⟩
    rw [hlengths, hsaid]
    split
    · rfl
    · rfl

end Sent

end ResponseBuilder

open ResponseBuilder

/-- A client reads exactly the builder's body from what is generated, when
the fields of the builder that are not overwritten tell nothing wrong, and
only then. -/
theorem selfDelimiting_generateResponseOnly {W : Type} {os : OS W} {b : ResponseBuilder}
    (h : Built os b) {env : Env} (hdate : NoBreak env.httpDate)
    (InCoding : Bytes → Bytes → Prop) :
    SelfDelimiting InCoding (b.generateResponseOnly env).2 b.body ↔ FieldsFramed InCoding b := by
  have hsend := h.sendable
  have honly := headersOnly_includeRequiredHeaders env b
  have hbody : (b.includeRequiredHeaders env).body = b.body := by rw [honly]
  have hversion : (b.includeRequiredHeaders env).httpVersion = lit "HTTP/1.1" := by
    rw [honly]
    exact hsend.version
  have hstatus : cr ∉ (b.includeRequiredHeaders env).status := by
    rw [honly]
    exact hsend.status
  have hread := read_response hversion hstatus
  rw [hbody] at hread
  rw [← framed_fields hdate hsend.methods]
  constructor
  · rintro ⟨m, hm, hrest, hframed⟩
    obtain ⟨hnil, rfl⟩ := (hread m).mp ⟨hm, hrest⟩
    exact ⟨hnil, hframed⟩
  · rintro ⟨hnil, hframed⟩
    obtain ⟨hm, hrest⟩ := (hread _).mpr ⟨hnil, rfl⟩
    exact ⟨_, hm, hrest, hframed⟩

/-- What is made of a script's output for an accepted request. -/
def scriptBuilder (cgiOutput : Bytes) : ResponseBuilder :=
  CgiHandler.processCgiOutput cgiOutput (create flatOs () { now := 0 } pageRequest)

theorem built_scriptBuilder (cgiOutput : Bytes) : Built flatOs (scriptBuilder cgiOutput) := by
  have hwords : ∀ l, pageRequest.locationConfig = some l → l.Tokenized := by
    intro l hl
    obtain rfl := Option.some.inj hl
    exact pageLocation_tokenized
  exact .script (.created { now := 0 } () hwords) cgiOutput

theorem selfDelimiting_script : SelfDelimiting (fun _ _ => False)
    ((scriptBuilder (lit "Content-Type: text/html\r\n\r\nhello")).generateResponseOnly
      { now := 0 }).2
    (scriptBuilder (lit "Content-Type: text/html\r\n\r\nhello")).body := by
  refine (selfDelimiting_generateResponseOnly (built_scriptBuilder _) (by decide) _).mpr ?_
  refine ⟨by decide +kernel, fun coding hc => ?_, by decide +kernel⟩
  have hnone : valuesOf (lit "transfer-encoding") (fieldLines (keptFields
      (scriptBuilder (lit "Content-Type: text/html\r\n\r\nhello")))) = [] := by
    decide +kernel
  rw [hnone] at hc
  cases hc

/-- A script says a length under another spelling: the response has two. -/
theorem not_selfDelimiting :
    ¬∃ InCoding : Bytes → Bytes → Prop, ∀ (W : Type) (os : OS W) (b : ResponseBuilder),
      Built os b → ∀ env, SelfDelimiting InCoding (b.generateResponseOnly env).2 b.body := by
  rintro ⟨InCoding, h⟩
  obtain ⟨m, hread, -, hframed⟩ :=
    h Unit flatOs _ (built_scriptBuilder (lit "Content-length: 3\r\n\r\nhello")) { now := 0 }
  have htwo : ∀ m ∈ read ((scriptBuilder (lit
      "Content-length: 3\r\n\r\nhello")).generateResponseOnly { now := 0 }).2,
      (valuesOf (lit "content-length") m.fields).length = 2 := by
    decide +kernel
  have hone := congrArg List.length hframed.length
  rw [List.length_map, htwo m hread] at hone
  cases hone

end Webserv
