import Webserv.ResponseHead
import Webserv.StatusLine

/-!
# Line breaks in header fields

The header fields of a response are named by constants, and all values
but that of `Location` are put together from constants, numbers, the date
and words of the configuration, none of which holds a line break. The
value of `Location` may be the decoded URI of the request, or end with
the file name of an upload, and these may.
-/

namespace Webserv

open Bytes CrlfLines MessageHead

/-- No CR and no LF. -/
def NoBreak (s : Bytes) : Prop := cr ∉ s ∧ lf ∉ s

instance decidableNoBreak : DecidablePred NoBreak := fun s =>
  inferInstanceAs (Decidable (cr ∉ s ∧ lf ∉ s))

theorem noBreak_append {s t : Bytes} : NoBreak (s ++ t) ↔ NoBreak s ∧ NoBreak t := by
  simp only [NoBreak, List.mem_append, not_or]
  exact ⟨fun h => ⟨⟨h.1.1, h.2.1⟩, h.1.2, h.2.2⟩, fun h => ⟨⟨h.1.1, h.2.1⟩, h.1.2, h.2.2⟩⟩

theorem noBreak_digits {s : Bytes} (h : s.all isdigit = true) : NoBreak s := by
  rw [List.all_eq_true] at h
  exact ⟨fun hc => absurd (h _ hc) (by decide), fun hc => absurd (h _ hc) (by decide)⟩

theorem noBreak_decimal (n : Nat) : NoBreak (decimal n) :=
  noBreak_digits (List.all_eq_true.mpr (isdigit_decimal n))

theorem noBreak_decimal2 (n : Nat) : NoBreak (decimal2 n) := by
  unfold decimal2
  split
  · have hzero : NoBreak ([48] ++ decimal n) :=
      noBreak_append.mpr ⟨by decide, noBreak_decimal n⟩
    exact hzero
  · exact noBreak_decimal n

theorem noBreak_timestampStr (tm : Tm) : NoBreak (timestampStr tm) := by
  simp only [timestampStr, noBreak_append, noBreak_decimal, noBreak_decimal2, and_self]

theorem noBreak_generateSessionId (env : Env) : NoBreak (generateSessionId env) := by
  have hbar : NoBreak (lit "_") := by simp [NoBreak, lit, cr, lf]
  simp only [generateSessionId, noBreak_append, noBreak_decimal, noBreak_decimal2, hbar, and_self]

/-- The words of a location that get into header fields hold no line
break: `tokenize` reads words without white space. -/
structure Location.Tokenized (l : Location) : Prop where
  allowedMethods : ∀ method ∈ l.allowedMethods, NoBreak method
  redirectUrl : NoBreak l.redirectUrl
  uploadStore : NoBreak l.uploadStore

namespace ResponseBuilder

theorem noBreak_joinMethods : ∀ {methods : List Bytes}, (∀ method ∈ methods, NoBreak method) →
    NoBreak (joinMethods methods)
  | [], _ => by decide
  | [method], h => h method List.mem_cons_self
  | method :: method' :: methods, h => by
      have hcomma : NoBreak (lit ", ") := by simp [NoBreak, lit, cr, lf]
      have hrest := noBreak_joinMethods fun m hm => h m (List.mem_cons_of_mem method hm)
      rw [joinMethods, noBreak_append, noBreak_append]
      · exact ⟨⟨h method List.mem_cons_self, hcomma⟩, hrest⟩
      · exact fun heq => by cases heq

theorem noBreak_sessionCookie (env : Env) : NoBreak (sessionCookie env) := by
  simp only [sessionCookie, noBreak_append, noBreak_generateSessionId, noBreak_decimal, and_true]
  simp [NoBreak, lit, cr, lf]

theorem noBreak_contentTypes : ∀ value ∈ contentTypes, NoBreak value := by decide +kernel

theorem CodeAndReason.noBreak {text : Bytes} (h : CodeAndReason text) : NoBreak text := by
  have hsplit := h.split
  obtain ⟨hdigits, -, -, hreason⟩ := h
  have hspace : NoBreak [space] := by decide
  have htail : NoBreak ([space] ++ text.drop 4) := noBreak_append.mpr ⟨hspace, hreason⟩
  rw [hsplit]
  exact noBreak_append.mpr ⟨noBreak_digits hdigits, htail⟩

theorem noBreak_statusText (code : Int) : NoBreak (statusText code) := by
  unfold statusText
  split
  · rename_i entry hfind
    exact (codeAndReason_statusTable entry (List.mem_of_find?_eq_some hfind)).noBreak
  · simp [NoBreak, lit, cr, lf]

/-! ## The fields of a response -/

/-- The names of header fields. -/
def headerNames : List Bytes :=
  [lit "Accept-Ranges", lit "Allow", lit "Connection", lit "Content-Length", lit "Content-Type",
    lit "Date", lit "Location", lit "Server", lit "Set-Cookie"]

theorem headerNames_plain : ∀ name ∈ headerNames, NoBreak name ∧ colon ∉ name ∧ name ≠ [] := by
  decide +kernel

/-- The field is named by a constant, and its value has no line break. -/
def PlainField (e : Bytes × Bytes) : Prop := e.1 ∈ headerNames ∧ NoBreak e.2

theorem plainField {name value : Bytes} (hname : name ∈ headerNames) (hvalue : NoBreak value) :
    PlainField (name, value) :=
  ⟨hname, hvalue⟩

theorem PageField.plain {name value : Bytes} (h : PageField name value) :
    PlainField (name, value) := by
  cases h with
  | contentType hvalue =>
      exact plainField (by simp [headerNames]) (noBreak_contentTypes value hvalue)
  | acceptRanges =>
      exact plainField (by simp [headerNames]) (by simp [NoBreak, lit, cr, lf])

section Fields

variable {env : Env} {b : ResponseBuilder}

theorem plain_firstFields (hdate : NoBreak env.httpDate) :
    ∀ e ∈ firstFields env b, PlainField e := by
  have hlast : ∀ e ∈ [(lit "Date", env.httpDate), (lit "Server", webservName)], PlainField e := by
    intro e he
    rcases List.mem_cons.mp he with rfl | he
    · exact plainField (by simp [headerNames]) hdate
    · obtain rfl := List.mem_singleton.mp he
      exact plainField (by simp [headerNames]) (by simp [NoBreak, lit, webservName, cr, lf])
  intro e he
  unfold firstFields at he
  split at he
  · rcases List.mem_cons.mp he with rfl | he
    · exact (PageField.contentType (detectMimeType_mem _)).plain
    · exact hlast e he
  · exact hlast e he

theorem plain_lengthField : ∀ e ∈ lengthField b, PlainField e := by
  intro e he
  unfold lengthField at he
  split at he
  · obtain rfl := List.mem_singleton.mp he
    exact plainField (by simp [headerNames]) (noBreak_decimal _)
  · cases he

theorem plain_lastFields
    (hwords : ∀ l, b.locationConfig = some l → ∀ method ∈ l.allowedMethods, NoBreak method) :
    ∀ e ∈ lastFields b, PlainField e := by
  intro e he
  rcases List.mem_append.mp he with he | he
  · obtain ⟨l, hl, he⟩ := List.mem_flatMap.mp he
    split at he
    · obtain rfl := List.mem_singleton.mp he
      exact plainField (by simp [headerNames])
        (noBreak_joinMethods (hwords l (Option.mem_toList.mp hl)))
    · cases he
  · split at he
    · obtain rfl := List.mem_singleton.mp he
      refine plainField (by simp [headerNames]) ?_
      split
      · simp [NoBreak, lit, cr, lf]
      · simp [NoBreak, lit, cr, lf]
    · cases he

section Built

variable {W : Type} {os : OS W} {w : W} {p : RequestParser} {status : Option Int}
  {location : Option Bytes}

/-- The fields in front of `include_required_headers`. -/
theorem Reply.plain (h : Reply status location (create os w env p) b) {name value : Bytes}
    (hget : b.headers.get? name = some value) :
    name = lit "Location" ∧ location = some value ∨ PlainField (name, value) := by
  have hcreate {name value : Bytes} (hget : (create os w env p).headers.get? name = some value) :
      PlainField (name, value) := by
    rcases create_fields os env w p hget with hpage | ⟨rfl, rfl⟩
    · exact hpage.plain
    · exact plainField (by simp [headerNames]) (noBreak_sessionCookie env)
  by_cases hname : name = lit "Location"
  · subst hname
    rw [h.location] at hget
    cases hlocation : location with
    | none =>
        rw [hlocation, Option.none_or] at hget
        exact Or.inr (hcreate hget)
    | some value' =>
        rw [hlocation] at hget
        exact Or.inl ⟨rfl, hget⟩
  · rcases h.fields name value hget with hname' | hget' | hpage
    · exact absurd hname' hname
    · exact Or.inr (hcreate hget')
    · exact Or.inr hpage.plain

theorem Reply.noCr (h : Reply status location (create os w env p) b) : cr ∉ b.status := by
  have hcreate : cr ∉ (create os w env p).status := by
    obtain ⟨b₀, b, -, hempty, ⟨status, hreply⟩, -, hstatus, -⟩ := create_reply os env w p
    rw [hstatus, hreply.status, hempty]
    cases status with
    | none => exact List.not_mem_nil
    | some code => exact (noBreak_statusText code).1
  rw [h.status]
  cases status with
  | none => exact hcreate
  | some code => exact (noBreak_statusText code).1

/-- The fields of the response. -/
theorem Reply.response_plain (h : Reply status location (create os w env p) b)
    (hdate : NoBreak env.httpDate)
    (hwords : ∀ l, b.locationConfig = some l → ∀ method ∈ l.allowedMethods, NoBreak method) :
    ∀ e ∈ (b.includeRequiredHeaders env).headers.entries,
      e.1 = lit "Location" ∧ location = some e.2 ∨ PlainField e := by
  intro e he
  rw [(perm_includeRequiredHeaders env b).mem_iff, List.mem_append, List.mem_append,
    List.mem_append] at he
  rcases he with he | he | he | he
  · exact Or.inr (plain_lastFields hwords e he)
  · exact Or.inr (plain_lengthField e he)
  · exact Or.inr (plain_firstFields hdate e he)
  · exact h.plain (OrdMap.mem_entries.mp (List.mem_filter.mp he).1)

/-- `Location` is sent as it is. -/
theorem Reply.response_location (h : Reply status location (create os w env p) b)
    {value : Bytes} (hlocation : location = some value) :
    (lit "Location", value) ∈ (b.includeRequiredHeaders env).headers.entries := by
  have hget : b.headers.get? (lit "Location") = some value := by
    rw [h.location, hlocation]
    rfl
  have hkept : overwritten b (lit "Location") = false := by
    have hserver : lit "Location" ≠ lit "Server" := by simp [lit]
    have hdate : lit "Location" ≠ lit "Date" := by simp [lit]
    have hlength : lit "Location" ≠ lit "Content-Length" := by simp [lit]
    simp only [overwritten, decide_eq_false hserver, decide_eq_false hdate,
      decide_eq_false hlength, Bool.false_and, Bool.or_self]
  rw [(perm_includeRequiredHeaders env b).mem_iff]
  simp only [List.mem_append]
  refine Or.inr (Or.inr (Or.inr (List.mem_filter.mpr ⟨OrdMap.mem_entries.mpr hget, ?_⟩)))
  rw [hkept]
  rfl

end Built

end Fields

/-! ## Reading the fields -/

/-- No name and no value of a field has a line break, and the head says
the status line, these fields and nothing else. -/
structure NotSplit (b : ResponseBuilder) (response : Bytes) : Prop where
  fields : ∀ e ∈ b.headers.entries, NoBreak e.1 ∧ NoBreak e.2
  read : ∃ m, read response = some m ∧ m.start = lit "HTTP/1.1" ++ space :: b.status
    ∧ m.fields.map unpack = b.headers.entries ∧ m.rest = b.body

theorem fieldText_eq (e : Bytes × Bytes) : fieldText e = e.1 ++ colon :: space :: e.2 := by
  have hlit : lit ": " = [colon, space] := by simp [lit]
  rw [fieldText, hlit, List.append_assoc]
  rfl

/-- A plain field is one line, and is read as it is. -/
theorem PlainField.lines {e : Bytes × Bytes} (h : PlainField e) :
    linesOf (fieldText e) = [fieldText e] ∧ fieldText e ≠ [] ∧ unpack (fieldText e) = e := by
  obtain ⟨hname, hcolon, hne⟩ := headerNames_plain e.1 h.1
  have hbreak : NoBreak (fieldText e) := by
    rw [fieldText, noBreak_append, noBreak_append]
    exact ⟨⟨hname, by simp [NoBreak, lit, cr, lf]⟩, h.2⟩
  refine ⟨linesOf_line (isLine_of_noCr hbreak.1), ?_, ?_⟩
  · rw [fieldText_eq]
    exact List.append_ne_nil_of_right_ne_nil _ (List.cons_ne_nil _ _)
  · rw [fieldText_eq, unpack_field hcolon]

theorem fieldLines_plain : ∀ {fields : List (Bytes × Bytes)}, (∀ e ∈ fields, PlainField e) →
    [] ∉ fieldLines fields ∧ (fieldLines fields).map unpack = fields
  | [], _ => ⟨List.not_mem_nil, rfl⟩
  | e :: fields, h => by
      obtain ⟨hlines, hne, hunpack⟩ := (h e List.mem_cons_self).lines
      obtain ⟨hnil, hmap⟩ := fieldLines_plain fun e' he' => h e' (List.mem_cons_of_mem e he')
      have hcons : fieldLines (e :: fields) = fieldText e :: fieldLines fields := by
        rw [fieldLines, List.flatMap_cons, hlines]
        rfl
      rw [hcons]
      refine ⟨fun hmem => ?_, ?_⟩
      · rcases List.mem_cons.mp hmem with heq | hmem
        · exact hne heq.symm
        · exact hnil hmem
      · rw [List.map_cons, hunpack, hmap]

theorem notSplit_of_plain {b : ResponseBuilder} (hversion : b.httpVersion = lit "HTTP/1.1")
    (hstatus : cr ∉ b.status) (h : ∀ e ∈ b.headers.entries, PlainField e) :
    NotSplit b b.generateResponseString := by
  obtain ⟨hnil, hmap⟩ := fieldLines_plain h
  obtain ⟨hread, -⟩ := (read_response hversion hstatus _).mpr ⟨hnil, rfl⟩
  exact ⟨fun e he => ⟨(headerNames_plain e.1 (h e he).1).1, (h e he).2⟩,
    _, hread, rfl, hmap, rfl⟩

section Answers

variable {W : Type} {os : OS W} {env : Env} {w : W} {p : RequestParser}

/-- A response is not split exactly when its `Location` has no line
break. -/
theorem Reply.notSplit_iff {b : ResponseBuilder} {status : Option Int} {location : Option Bytes}
    (h : Reply status location (create os w env p) b) (hversion : b.httpVersion = lit "HTTP/1.1")
    (hdate : NoBreak env.httpDate)
    (hwords : ∀ l, b.locationConfig = some l → ∀ method ∈ l.allowedMethods, NoBreak method) :
    NotSplit (b.generateResponseOnly env).1 (b.generateResponseOnly env).2
      ↔ ∀ value, location = some value → NoBreak value := by
  have honly := headersOnly_includeRequiredHeaders env b
  have hversion' : (b.includeRequiredHeaders env).httpVersion = lit "HTTP/1.1" := by
    rw [honly]
    exact hversion
  have hstatus : cr ∉ (b.includeRequiredHeaders env).status := by
    rw [honly]
    exact h.noCr
  refine ⟨fun hsplit value hlocation => ?_, fun hlocation => ?_⟩
  · exact (hsplit.fields _ (h.response_location hlocation)).2
  · refine notSplit_of_plain hversion' hstatus fun e he => ?_
    rcases h.response_plain hdate hwords e he with ⟨hname, hvalue⟩ | hplain
    · refine ⟨?_, hlocation _ hvalue⟩
      rw [hname]
      simp [headerNames]
    · exact hplain

variable (os env w) in
/-- The request does not get a line break into `Location`: neither with a
URI that names a directory, nor with the name of the last file it
uploads. -/
structure NoBreakSent (l : Location) (p : RequestParser) : Prop where
  directory : routeOf l p.httpMethod = some .doGet ∨ routeOf l p.httpMethod = some .doDelete →
    directoryRedirect os w l p.requestUri = true → NoBreak p.requestUri
  upload : routeOf l p.httpMethod = some .doPost →
    validateUploadPath os w l.uploadStore = true →
    ∀ filename, (savedUploads os env w l p).getLast? = some filename → NoBreak filename

theorem noBreak_uploadPath {l : Location} (hwords : l.Tokenized) (filename : Bytes) :
    NoBreak (uploadPath env l filename) ↔ NoBreak filename := by
  have hslash : NoBreak (lit "/") := by simp [NoBreak, lit, cr, lf]
  have hupload : NoBreak (lit "upload_") := by simp [NoBreak, lit, cr, lf]
  have hbar : NoBreak (lit "_") := by simp [NoBreak, lit, cr, lf]
  simp only [uploadPath, safeName, noBreak_append, hwords.uploadStore, hslash, hupload,
    noBreak_timestampStr, hbar, true_and]

variable (os w) in
theorem noBreak_directoryLocation (l : Location) (uri : Bytes) :
    (∀ value, directoryLocation os w l uri = some value → NoBreak value)
      ↔ (directoryRedirect os w l uri = true → NoBreak uri) := by
  have hslash : NoBreak (lit "/") := by simp [NoBreak, lit, cr, lf]
  unfold directoryLocation
  cases directoryRedirect os w l uri with
  | false => exact iff_of_true (fun value heq => by cases heq) fun h => by cases h
  | true =>
      refine ⟨fun h _ => (noBreak_append.mp (h _ rfl)).1, fun h value heq => ?_⟩
      obtain rfl := Option.some.inj heq
      exact noBreak_append.mpr ⟨h rfl, hslash⟩

variable (os env w) in
theorem noBreak_postLocation {l : Location} (hwords : l.Tokenized) (p : RequestParser) :
    (∀ value, postLocation os env w l p = some value → NoBreak value)
      ↔ (validateUploadPath os w l.uploadStore = true →
        ∀ filename, (savedUploads os env w l p).getLast? = some filename → NoBreak filename) := by
  unfold postLocation
  cases validateUploadPath os w l.uploadStore with
  | false => exact iff_of_true (fun value heq => by cases heq) fun h => by cases h
  | true =>
      rw [if_pos rfl]
      refine ⟨fun h _ filename hlast => ?_, fun h value heq => ?_⟩
      · exact (noBreak_uploadPath hwords filename).mp (h _ (by rw [hlast]; rfl))
      · obtain ⟨filename, hlast, rfl⟩ := Option.map_eq_some_iff.mp heq
        exact (noBreak_uploadPath hwords filename).mpr (h rfl filename hlast)

theorem noBreak_routeLocation {l : Location} (hwords : l.Tokenized) (p : RequestParser) :
    (∀ value, routeLocation os env w l p = some value → NoBreak value)
      ↔ NoBreakSent os env w l p := by
  have hdirectory := noBreak_directoryLocation os w l p.requestUri
  have hpost := noBreak_postLocation os env w hwords p
  unfold routeLocation
  cases hroute : routeOf l p.httpMethod with
  | none =>
      refine iff_of_true (fun value heq => by cases heq) ⟨fun h => ?_, fun h => ?_⟩
      · rw [hroute] at h
        rcases h with h | h <;> cases h
      · rw [hroute] at h
        cases h
  | some route =>
  cases route with
  | doPost =>
      refine hpost.trans ⟨fun h => ⟨fun h' => ?_, fun _ => h⟩, fun h => h.upload hroute⟩
      rw [hroute] at h'
      rcases h' with h' | h' <;> cases h'
  | doGet =>
      refine hdirectory.trans ⟨fun h => ⟨fun _ => h, fun h' => ?_⟩, fun h =>
        h.directory (Or.inl hroute)⟩
      rw [hroute] at h'
      cases h'
  | doDelete =>
      refine hdirectory.trans ⟨fun h => ⟨fun _ => h, fun h' => ?_⟩, fun h =>
        h.directory (Or.inr hroute)⟩
      rw [hroute] at h'
      cases h'

theorem noBreakSent_iff {l : Location} (hwords : l.Tokenized) (p : RequestParser) :
    (∀ value, replyLocation os env w l p = some value → NoBreak value)
      ↔ (l.isRedirect = false → l.hasReturn = false → NoBreakSent os env w l p) := by
  unfold replyLocation
  cases hredirect : l.isRedirect with
  | true =>
      rw [if_pos rfl]
      refine iff_of_true (fun value heq => ?_) fun h => by cases h
      exact Option.some.inj heq ▸ hwords.redirectUrl
  | false =>
  rw [if_neg Bool.false_ne_true]
  cases hreturn : l.hasReturn with
  | true =>
      rw [if_pos rfl]
      exact iff_of_true (fun value heq => by cases heq) fun _ h => by cases h
  | false =>
  rw [if_neg Bool.false_ne_true, noBreak_routeLocation hwords]
  exact ⟨fun h _ _ => h, fun h => h rfl rfl⟩

end Answers

end ResponseBuilder

open ResponseBuilder

/-- `build_response` lets the header of a response be split exactly when
the URI of a directory, or the name of an upload, with a line break gets
into `Location`. -/
theorem notSplit_buildResponse {W : Type} (os : OS W) (env : Env) (w : W) (p : RequestParser)
    (hdate : NoBreak env.httpDate) (hwords : ∀ l, p.locationConfig = some l → l.Tokenized)
    {b : ResponseBuilder} {w' : W} {response : Bytes}
    (h : (create os w env p).buildResponse os env w = some (b, w', response)) :
    NotSplit b response ↔ (p.errorCode = 0 → ∀ l, p.locationConfig = some l →
      l.isRedirect = false → l.hasReturn = false → NoBreakSent os env w l p) := by
  have hbuilt := builtFrom_create os env w p
  have herr : (create os w env p).request.errorCode = p.errorCode := by
    rw [hbuilt.request]
    rfl
  have hmethods : ∀ l, p.locationConfig = some l → ∀ method ∈ l.allowedMethods, NoBreak method :=
    fun l hl => (hwords l hl).allowedMethods
  by_cases hzero : p.errorCode = 0
  · cases hl : p.locationConfig with
    | none => simp [buildResponse, herr, hzero, hbuilt.locationConfig, hl] at h
    | some l =>
        have hlocation := hbuilt.locationConfig.trans hl
        rw [buildResponse_routed os env (herr.trans hzero) hlocation, Option.some.injEq,
          Prod.mk.injEq, Prod.mk.injEq] at h
        obtain ⟨rfl, -, rfl⟩ := h
        obtain ⟨status, hreply, -⟩ := reply_location os env w hbuilt.routes hlocation
        have hkept := (answered_runLocation os env w hlocation).kept
          (kept_handleRedirection os (runLocation os env w (create os w env p) l).2 _)
        rw [hreply.notSplit_iff (hkept.httpVersion.trans hbuilt.httpVersion) hdate fun l' hl' =>
          hmethods l' (hbuilt.locationConfig ▸ hkept.locationConfig ▸ hl'), hbuilt.request,
          (SameRequest.source p).replyLocation, noBreakSent_iff (hwords l hl)]
        exact ⟨fun h _ l' hl' => Option.some.inj hl' ▸ h, fun h => h hzero l rfl⟩
  · rw [buildResponse_error os env (herr ▸ hzero), Option.some.injEq, Prod.mk.injEq,
      Prod.mk.injEq] at h
    obtain ⟨rfl, -, rfl⟩ := h
    refine iff_of_true ?_ fun hzero' => absurd hzero' hzero
    have hreply : Reply _ none (create os w env p)
        ((create os w env p).setErrorPage os w (create os w env p).request.errorCode) :=
      (Reply.refl _).setErrorPage _
    have hkept : Kept (create os w env p)
        ((create os w env p).setErrorPage os w (create os w env p).request.errorCode) :=
      (Kept.refl _).setErrorPage _
    refine (hreply.notSplit_iff (hkept.httpVersion.trans hbuilt.httpVersion) hdate fun l' hl' =>
      hmethods l' (hbuilt.locationConfig ▸ hkept.locationConfig ▸ hl')).mpr ?_
    intro value heq
    cases heq

/-- Locations of a sample configuration, and an accepted request for a
file. -/
def pageLocation : Location := { location := lit "/", root := lit "/www" }

def pageServers : ServerGroup where
  first := { locations := [pageLocation] }

theorem pageLocation_tokenized : pageLocation.Tokenized where
  allowedMethods := by simp [pageLocation, NoBreak, lit, cr, lf]
  redirectUrl := by decide
  uploadStore := by decide

def pageRequest : RequestParser where
  httpMethod := lit "GET"
  requestUri := lit "/a"
  httpVersion := lit "HTTP/1.1"
  headers := OrdMap.empty.insert (lit "host") (lit "a")
  state := .done
  serverConfig := some pageServers.first
  locationConfig := some pageLocation

theorem notSplit_page : ∃ b w' response,
    (create flatOs () { now := 0 } pageRequest).buildResponse flatOs { now := 0 } ()
      = some (b, w', response) ∧ NotSplit b response := by
  have hbuild : ((create flatOs () { now := 0 } pageRequest).buildResponse flatOs { now := 0 }
      ()).isSome := by
    decide +kernel
  obtain ⟨⟨b, w', response⟩, hbuild⟩ := Option.isSome_iff_exists.mp hbuild
  refine ⟨b, w', response, hbuild, ?_⟩
  refine (notSplit_buildResponse flatOs { now := 0 } () pageRequest (by decide) ?_ hbuild).mpr ?_
  · intro l hl
    obtain rfl := Option.some.inj hl
    exact pageLocation_tokenized
  · intro _ l hl _ _
    obtain rfl := Option.some.inj hl
    exact ⟨fun _ h => absurd h (by decide +kernel), fun h => absurd h (by decide +kernel)⟩

/-- A request for a directory, with a line break in its URI. -/
def splitRequest : Bytes := lit "GET /a%0d%0aSet-Cookie:%20b HTTP/1.1\r\nHost: a\r\n\r\n"

/-- What the parser makes of it. -/
def splitParser : RequestParser where
  httpMethod := lit "GET"
  requestUri := lit "/a\r\nSet-Cookie: b"
  httpVersion := lit "HTTP/1.1"
  headers := OrdMap.empty.insert (lit "host") (lit "a")
  state := .done

/-- A file system where every path is a directory. -/
def directoryOs : OS Unit := { flatOs with stat := fun _ _ => some ⟨true, true⟩ }

/-- The header of an accepted request's response is split. -/
theorem not_notSplit :
    ¬∀ (W : Type) (os : OS W) (env : Env) (w : W) (servers : ServerGroup) (request rest : Bytes)
      (p : RequestParser), ({} : RequestParser).parseRequest request = some (.returned p rest) →
      p.errorCode = 0 → ∀ b w' response,
        (create os w env (p.matchLocation servers)).buildResponse os env w
          = some (b, w', response) → NotSplit b response := by
  intro h
  have hbroken : ((create directoryOs () { now := 0 } (splitParser.matchLocation
      pageServers)).buildResponse directoryOs { now := 0 } ()).any
      (fun r => decide (¬∀ e ∈ r.1.headers.entries, NoBreak e.1 ∧ NoBreak e.2)) = true := by
    decide +kernel
  obtain ⟨⟨b, w', response⟩, hr, hsplit⟩ := (Option.any_eq_true _ _).mp hbroken
  refine of_decide_eq_true hsplit ?_
  exact (h Unit directoryOs { now := 0 } () pageServers splitRequest [] splitParser
    (by decide +kernel) rfl b w' response hr).fields

end Webserv
