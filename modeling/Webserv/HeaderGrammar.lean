import Mathlib.Data.Finset.Card
import Webserv.HeaderLines

/-!
# The grammar of a head

`HeadGrammar` says which lists of header lines make a head, without
reference to a loop. The flags and the map of the loop are read off the
lines that have passed (`behindLines_*`), so each check of a line is a
statement about the lines before it, and the head is accepted exactly
when the whole list satisfies the grammar.
-/

namespace Webserv

open Bytes CrlfLines

namespace RequestParser

/-- One of the lines has the name. -/
def Named (name : Bytes) (lines : List Bytes) : Prop := ∃ line ∈ lines, fieldName line = name

/-- The lists of lines that are a head of a request with the method. -/
structure HeadGrammar (method : Bytes) (lines : List Bytes) : Prop where
  line : ∀ line ∈ lines, HeaderLine line
  host : lines.countP (fun line => fieldName line = lit "host") = 1
  length : ∀ line ∈ lines, ∀ line' ∈ lines, fieldName line = lit "content-length" →
    fieldName line' = lit "content-length" → fieldValue line = fieldValue line'
  /-- fewer than a hundred names are there before each line -/
  count : ∀ before line after, lines = before ++ line :: after →
    (before.map fieldName).toFinset.card < maxHeaderCount
  framing : ¬(Named (lit "content-length") lines ∧ Named (lit "transfer-encoding") lines)
  post : method = lit "POST" →
    Named (lit "content-length") lines ∨ Named (lit "transfer-encoding") lines

/-- The last line with the name. -/
def lastLine (name : Bytes) (lines : List Bytes) : Option Bytes :=
  lines.reverse.find? fun line => fieldName line = name

/-! ## The loop behind its lines -/

theorem behindLines_snoc (l : HeaderLoop) (lines : List Bytes) (line : Bytes) :
    behindLines l (lines ++ [line]) = behindLine (behindLines l lines) line := by
  rw [behindLines, List.foldl_append]
  rfl

/-- Each line is checked behind those before it. -/
theorem linesOk_iff : ∀ {lines : List Bytes} {l : HeaderLoop}, LinesOk l lines ↔
    ∀ before line after, lines = before ++ line :: after → LineOk (behindLines l before) line
  | [], l => by
      refine iff_of_true trivial fun before line after h => ?_
      exact absurd h.symm (by simp)
  | line :: lines, l => by
      have ih : LinesOk (behindLine l line) lines ↔ _ := linesOk_iff
      refine ⟨fun h before line' after heq => ?_, fun h => ⟨h [] line lines rfl, ?_⟩⟩
      · cases before with
        | nil =>
            obtain ⟨rfl, -⟩ := List.cons.inj heq
            exact h.1
        | cons line₀ before =>
            obtain ⟨rfl, htail⟩ := List.cons.inj heq
            exact ih.mp h.2 before line' after htail
      · exact ih.mpr fun before line' after heq =>
          h (line :: before) line' after (congrArg (line :: ·) heq)

/-- A flag that each line with the name raises, and no other line changes. -/
theorem behindLines_flag (flag : HeaderLoop → Bool) {name : Bytes}
    (hline : ∀ l line, flag (behindLine l line) = (flag l || decide (fieldName line = name)))
    (l : HeaderLoop) (lines : List Bytes) :
    flag (behindLines l lines) = true ↔ flag l = true ∨ Named name lines := by
  induction lines using List.reverseRecOn with
  | nil => simp [behindLines, Named]
  | append_singleton lines line ih =>
      rw [behindLines_snoc, hline, Bool.or_eq_true, ih, decide_eq_true_eq, or_assoc]
      simp [Named, or_and_right, exists_or]

theorem behindLines_hasHost (l : HeaderLoop) (lines : List Bytes) :
    (behindLines l lines).hasHost = true
      ↔ l.hasHost = true ∨ Named (lit "host") lines :=
  behindLines_flag HeaderLoop.hasHost (fun _ _ => rfl) l lines

theorem behindLines_hasContentLength (l : HeaderLoop) (lines : List Bytes) :
    (behindLines l lines).p.hasContentLength = true
      ↔ l.p.hasContentLength = true ∨ Named (lit "content-length") lines :=
  behindLines_flag (fun l => l.p.hasContentLength) (fun _ _ => rfl) l lines

theorem behindLines_hasTransferEncoding (l : HeaderLoop) (lines : List Bytes) :
    (behindLines l lines).p.hasTransferEncoding = true
      ↔ l.p.hasTransferEncoding = true ∨ Named (lit "transfer-encoding") lines :=
  behindLines_flag (fun l => l.p.hasTransferEncoding) (fun _ _ => rfl) l lines

/-- The remembered Content-Length is that of one of the lines. -/
theorem behindLines_contentLengthValue (l : HeaderLoop) (lines : List Bytes) :
    (¬Named (lit "content-length") lines
        ∧ (behindLines l lines).contentLengthValue = l.contentLengthValue)
      ∨ ∃ line ∈ lines, fieldName line = lit "content-length"
        ∧ (behindLines l lines).contentLengthValue = fieldValue line := by
  induction lines using List.reverseRecOn with
  | nil => exact Or.inl ⟨by simp [Named], rfl⟩
  | append_singleton lines line ih =>
      rw [behindLines_snoc]
      simp only [behindLine]
      by_cases hkey : fieldName line = lit "content-length"
      · rw [if_pos hkey]
        exact Or.inr ⟨line, by simp, hkey, rfl⟩
      · rw [if_neg hkey]
        rcases ih with ⟨hno, heq⟩ | ⟨line', hmem, hkey', heq⟩
        · refine Or.inl ⟨?_, heq⟩
          rintro ⟨line', hmem, hkey'⟩
          rcases List.mem_append.mp hmem with hmem | hmem
          · exact hno ⟨line', hmem, hkey'⟩
          · exact hkey (List.mem_singleton.mp hmem ▸ hkey')
        · exact Or.inr ⟨line', List.mem_append_left _ hmem, hkey', heq⟩

/-- The map behind the lines has the value of the last line of a name. -/
theorem behindLines_headers {l : HeaderLoop} (hl : l.p.headers = OrdMap.empty)
    (lines : List Bytes) (name : Bytes) :
    (behindLines l lines).p.headers.get? name = (lastLine name lines).map storedValue := by
  induction lines using List.reverseRecOn with
  | nil =>
      rw [behindLines, List.foldl_nil, hl]
      rfl
  | append_singleton lines line ih =>
      rw [behindLines_snoc]
      simp only [behindLine, withField, OrdMap.get?_insert, lastLine, List.reverse_append,
        List.reverse_singleton, List.singleton_append, List.find?_cons]
      by_cases hkey : fieldName line = name
      · simp [hkey]
      · simp only [if_neg hkey, decide_eq_false hkey]
        exact ih

theorem lastLine_isSome {name : Bytes} {lines : List Bytes} :
    (lastLine name lines).isSome ↔ Named name lines := by
  simp [lastLine, Named, List.find?_isSome]

/-- The map behind the lines has as many fields as there are names. -/
theorem behindLines_size {l : HeaderLoop} (hl : l.p.headers = OrdMap.empty)
    (lines : List Bytes) :
    (behindLines l lines).p.headers.size = (lines.map fieldName).toFinset.card := by
  induction lines using List.reverseRecOn with
  | nil =>
      rw [behindLines, List.foldl_nil, hl]
      rfl
  | append_singleton lines line ih =>
      have hkeys : ((behindLines l lines).p.headers.get? (fieldName line)).isSome
          ↔ fieldName line ∈ (lines.map fieldName).toFinset := by
        rw [behindLines_headers hl, Option.isSome_map, lastLine_isSome]
        simp [Named]
      rw [behindLines_snoc]
      simp only [behindLine, withField, OrdMap.size_insert, List.map_append, List.map_singleton,
        List.toFinset_append, ih]
      have hinsert : (lines.map fieldName).toFinset ∪ [fieldName line].toFinset
          = insert (fieldName line) (lines.map fieldName).toFinset := by
        ext name
        simp
      rw [hinsert]
      split
      · rename_i hsome
        rw [Finset.insert_eq_of_mem (hkeys.mp hsome)]
      · rename_i hnone
        rw [Finset.card_insert_of_notMem fun hmem => hnone (hkeys.mpr hmem)]

/-! ## The list of lines -/

/-- One element has the property iff one does, and none that has it stands
before another. -/
theorem countP_eq_one_iff {α : Type} {P : α → Bool} : ∀ {xs : List α}, xs.countP P = 1 ↔
    (∃ x ∈ xs, P x = true) ∧ ∀ before x after, xs = before ++ x :: after → P x = true →
      ∀ y ∈ before, P y = false
  | [] => by simp
  | a :: xs => by
      have ih : xs.countP P = 1 ↔ _ := countP_eq_one_iff
      cases ha : P a with
      | false =>
          rw [List.countP_cons_of_neg (by simp [ha]), ih]
          refine and_congr ⟨fun ⟨x, hx, hP⟩ => ⟨x, List.mem_cons_of_mem a hx, hP⟩, ?_⟩ ?_
          · rintro ⟨x, hx, hP⟩
            rcases List.mem_cons.mp hx with rfl | hx
            · rw [ha] at hP
              cases hP
            · exact ⟨x, hx, hP⟩
          · refine ⟨fun h before x after heq hP y hy => ?_, fun h before x after heq hP y hy =>
              h (a :: before) x after (congrArg (a :: ·) heq) hP y (List.mem_cons_of_mem a hy)⟩
            cases before with
            | nil => cases hy
            | cons b before =>
                obtain ⟨rfl, htail⟩ := List.cons.inj heq
                rcases List.mem_cons.mp hy with rfl | hy
                · exact ha
                · exact h before x after htail hP y hy
      | true =>
          rw [List.countP_cons_of_pos (by simp [ha])]
          have hzero : xs.countP P + 1 = 1 ↔ ∀ x ∈ xs, ¬P x = true := by
            rw [← List.countP_eq_zero]
            omega
          rw [hzero]
          refine ⟨fun h => ⟨⟨a, List.mem_cons_self, ha⟩, fun before x after heq hP y hy => ?_⟩,
            fun h x hx hP => ?_⟩
          · cases before with
            | nil => cases hy
            | cons b before =>
                obtain ⟨rfl, rfl⟩ := List.cons.inj heq
                exact absurd hP (h x (by simp))
          · obtain ⟨before, after, rfl⟩ := List.append_of_mem hx
            have hno := h.2 (a :: before) x after rfl hP a List.mem_cons_self
            rw [ha] at hno
            cases hno

/-- A parser in front of its first header line. -/
structure FreshHead (p : RequestParser) : Prop where
  errorCode : p.errorCode = 0
  headers : p.headers = OrdMap.empty
  length : p.hasContentLength = false
  coding : p.hasTransferEncoding = false

section Fresh

variable {p : RequestParser} {lines : List Bytes}

/-- The lines a fresh parser takes, but for the Host field. -/
theorem linesOk_fresh (hp : FreshHead p) : LinesOk { p := p, rest := [] } lines ↔
    (∀ line ∈ lines, HeaderLine line)
      ∧ (∀ line ∈ lines, ∀ line' ∈ lines, fieldName line = lit "content-length" →
        fieldName line' = lit "content-length" → fieldValue line = fieldValue line')
      ∧ (∀ before line after, lines = before ++ line :: after →
        fieldName line = lit "host" → ¬Named (lit "host") before)
      ∧ ∀ before line after, lines = before ++ line :: after →
        (before.map fieldName).toFinset.card < maxHeaderCount := by
  have hhost (before : List Bytes) : (behindLines { p := p, rest := [] } before).hasHost = true
      ↔ Named (lit "host") before := by
    rw [behindLines_hasHost]
    simp
  have hlength (before : List Bytes) :
      (behindLines { p := p, rest := [] } before).p.hasContentLength = true
        ↔ Named (lit "content-length") before := by
    rw [behindLines_hasContentLength]
    simp [hp.length]
  have hsize (before : List Bytes) :=
    behindLines_size (l := { p := p, rest := [] }) hp.headers before
  rw [linesOk_iff]
  constructor
  · intro h
    refine ⟨fun line hmem => ?_, ?_, fun before line after heq hkey hnamed => ?_,
      fun before line after heq => ?_⟩
    · obtain ⟨before, after, rfl⟩ := List.append_of_mem hmem
      exact (h before line after rfl).wellFormed
    · -- a line agrees with the value that is remembered, and so does the next
      have hlast : ∀ ls, ls <+: lines → ∀ line ∈ ls, fieldName line = lit "content-length" →
          (behindLines { p := p, rest := [] } ls).contentLengthValue = fieldValue line := by
        intro ls
        induction ls using List.reverseRecOn with
        | nil => exact fun _ line hmem => by cases hmem
        | append_singleton ls line₀ ih =>
            rintro ⟨after, hafter⟩ line hmem hkey
            rw [behindLines_snoc]
            simp only [behindLine]
            rcases List.mem_append.mp hmem with hmem | hmem
            · have hold := ih ⟨line₀ :: after, by simpa using hafter⟩ line hmem hkey
              split
              · rename_i hkey₀
                have hok := h ls line₀ after (by simpa using hafter.symm)
                have hseen := (hlength ls).mpr ⟨line, hmem, hkey⟩
                rw [← hok.length hkey₀ hseen, hold]
              · exact hold
            · obtain rfl := List.mem_singleton.mp hmem
              rw [if_pos hkey]
      intro line hmem line' hmem' hkey hkey'
      rw [← hlast lines List.prefix_rfl line hmem hkey,
        hlast lines List.prefix_rfl line' hmem' hkey']
    · have hno := (h before line after heq).host hkey
      rw [(hhost before).mpr hnamed] at hno
      cases hno
    · rw [← hsize before]
      exact (h before line after heq).count
  · rintro ⟨hform, hsame, hone, hcount⟩ before line after heq
    have hmem : line ∈ lines := by simp [heq]
    refine ⟨hform line hmem, fun hkey hseen => ?_, fun hkey => ?_, ?_⟩
    · rcases behindLines_contentLengthValue { p := p, rest := [] } before with
        ⟨hno, -⟩ | ⟨line', hmem', hkey', hvalue⟩
      · exact absurd ((hlength before).mp hseen) hno
      · rw [hvalue]
        exact hsame line' (by simp [heq, hmem']) line hmem hkey' hkey
    · have hno := mt (hhost before).mp (hone before line after heq hkey)
      simpa using hno
    · rw [hsize before]
      exact hcount before line after heq

end Fresh

/-! ## The end of the head -/

/-- The parser returns without an error. -/
def Succeeds (r : ParseExit) : Prop := ∃ p rest, r = .returned p rest ∧ p.errorCode = 0

/-- What the empty line asks of the lines before it. -/
structure HeadComplete (l : HeaderLoop) : Prop where
  host : l.hasHost = true
  framing : ¬(l.p.hasContentLength = true ∧ l.p.hasTransferEncoding = true)
  post : l.p.httpMethod = lit "POST" →
    l.p.hasContentLength = true ∨ l.p.hasTransferEncoding = true

theorem not_succeeds_logError {p : RequestParser} (h : p.errorCode = 0) {code : Nat}
    (hc : code ≠ 0) (rest : Bytes) : ¬Succeeds (.returned (p.logError code) rest) := by
  rintro ⟨q, rest', heq, herr⟩
  rw [ParseExit.returned.injEq] at heq
  rw [← heq.1, logError_errorCode h] at herr
  exact hc herr

theorem endOfHeaders_cases {l : HeaderLoop} (h : l.p.errorCode = 0) (rest : Bytes) :
    (HeadComplete l ∧ ∃ state, (state = .body ∨ state = .done)
        ∧ endOfHeaders l rest = .returned { l.p with state := state } rest)
      ∨ (¬HeadComplete l ∧ ¬Succeeds (endOfHeaders l rest)) := by
  have hnot := fun code (hc : code ≠ 0) => not_succeeds_logError h hc l.rest
  simp only [endOfHeaders]
  split
  · rename_i hhost
    refine Or.inr ⟨fun hdone => ?_, hnot 400 (by decide)⟩
    rw [hdone.host] at hhost
    cases hhost
  rename_i hhost
  split
  · rename_i hboth
    exact Or.inr ⟨fun hdone => hdone.framing (by simpa using hboth), hnot 400 (by decide)⟩
  rename_i hboth
  split
  · rename_i hnone
    simp only [Bool.and_eq_true, Bool.not_eq_true'] at hnone
    split
    · rename_i hpost
      refine Or.inr ⟨fun hdone => ?_, hnot 411 (by decide)⟩
      rcases hdone.post hpost with hlength | hcoding
      · rw [hnone.1] at hlength
        cases hlength
      · rw [hnone.2] at hcoding
        cases hcoding
    · rename_i hpost
      exact Or.inl ⟨⟨by simpa using hhost, by simpa using hboth, fun hm => absurd hm hpost⟩,
        .done, Or.inr rfl, rfl⟩
  · rename_i hsome
    refine Or.inl ⟨⟨by simpa using hhost, by simpa using hboth, fun _ => ?_⟩,
      .body, Or.inl rfl, rfl⟩
    simp only [Bool.and_eq_true, Bool.not_eq_true', not_and_or, Bool.not_eq_false] at hsome
    exact hsome

theorem behindLines_frame (l : HeaderLoop) (lines : List Bytes) :
    HeadFrame l.p (behindLines l lines).p := by
  induction lines using List.reverseRecOn with
  | nil => rfl
  | append_singleton lines line ih =>
      rw [behindLines_snoc]
      exact ih.withField _ _

/-- The grammar of a head: the lines the loop takes, and what the empty
line asks of them. -/
theorem headGrammar_iff {p : RequestParser} (hp : FreshHead p) {lines : List Bytes} :
    HeadGrammar p.httpMethod lines ↔ LinesOk { p := p, rest := [] } lines
      ∧ HeadComplete (behindLines { p := p, rest := [] } lines) := by
  have hmethod : (behindLines { p := p, rest := [] } lines).p.httpMethod = p.httpMethod := by
    rw [behindLines_frame]
  have hhost : (behindLines { p := p, rest := [] } lines).hasHost = true
      ↔ Named (lit "host") lines := by
    rw [behindLines_hasHost]
    simp
  have hlength : (behindLines { p := p, rest := [] } lines).p.hasContentLength = true
      ↔ Named (lit "content-length") lines := by
    rw [behindLines_hasContentLength]
    simp [hp.length]
  have hcoding : (behindLines { p := p, rest := [] } lines).p.hasTransferEncoding = true
      ↔ Named (lit "transfer-encoding") lines := by
    rw [behindLines_hasTransferEncoding]
    simp [hp.coding]
  have hone : lines.countP (fun line => fieldName line = lit "host") = 1
      ↔ Named (lit "host") lines ∧ ∀ before line after, lines = before ++ line :: after →
        fieldName line = lit "host" → ¬Named (lit "host") before := by
    rw [countP_eq_one_iff]
    simp [Named]
  rw [linesOk_fresh hp]
  constructor
  · intro h
    refine ⟨⟨h.line, h.length, (hone.mp h.host).2, h.count⟩, hhost.mpr (hone.mp h.host).1, ?_, ?_⟩
    · rw [hlength, hcoding]
      exact h.framing
    · rw [hlength, hcoding, hmethod]
      exact h.post
  · rintro ⟨⟨hline, hsame, hfirst, hcount⟩, hdone⟩
    refine ⟨hline, hone.mpr ⟨hhost.mp hdone.host, hfirst⟩, hsame, hcount, ?_, ?_⟩
    · rw [← hlength, ← hcoding]
      exact hdone.framing
    · rw [← hlength, ← hcoding, ← hmethod]
      exact hdone.post

/-- `parse_headers` accepts the grammar and nothing else, and stores the
last value of each name. -/
theorem parseHeaders_grammar {p : RequestParser} (hp : FreshHead p) {lines : List Bytes}
    (hlines : ∀ line ∈ lines, line ≠ [] ∧ ¬[cr, lf] <:+: line) (tail : Bytes) :
    (Succeeds (p.parseHeaders (unlines lines ++ [cr, lf] ++ tail))
        ↔ HeadGrammar p.httpMethod lines)
      ∧ (HeadGrammar p.httpMethod lines → ∃ q,
        p.parseHeaders (unlines lines ++ [cr, lf] ++ tail) = .returned q tail
          ∧ q.errorCode = 0 ∧ (q.state = .body ∨ q.state = .done)
          ∧ ∀ name, q.headers.get? name = (lastLine name lines).map storedValue) := by
  have hlines' : ∀ line ∈ lines, line ≠ [] ∧ IsLine line := fun line hmem =>
    ⟨(hlines line hmem).1, isLine_iff.mpr (hlines line hmem).2⟩
  have herr : (behindLines { p := p, rest := [] } lines).p.errorCode = 0 := by
    rw [behindLines_frame]
    exact hp.errorCode
  rw [show unlines lines ++ [cr, lf] ++ tail = unlines lines ++ cr :: lf :: tail by simp,
    headGrammar_iff hp]
  rcases parseHeaders_lines p hlines' tail with ⟨hok, heq⟩ | ⟨hbad, q, code, rest, hq, hc, heq⟩
  · rw [heq]
    rcases endOfHeaders_cases (l := { behindLines { p := p, rest := [] } lines with
        rest := cr :: lf :: tail }) herr tail with
      ⟨hdone, state, hstate, hend⟩ | ⟨hmissing, hnot⟩
    · have hdone' : HeadComplete (behindLines { p := p, rest := [] } lines) :=
        ⟨hdone.host, hdone.framing, hdone.post⟩
      rw [hend]
      refine ⟨iff_of_true ⟨_, _, rfl, herr⟩ ⟨hok, hdone'⟩, fun _ => ⟨_, rfl, herr, hstate, ?_⟩⟩
      exact behindLines_headers hp.headers lines
    · have hmissing' : ¬HeadComplete (behindLines { p := p, rest := [] } lines) :=
        fun h => hmissing ⟨h.host, h.framing, h.post⟩
      exact ⟨iff_of_false hnot fun h => hmissing' h.2, fun h => absurd h.2 hmissing'⟩
  · rw [heq]
    exact ⟨iff_of_false (not_succeeds_logError (hq.trans hp.errorCode) hc rest) fun h => hbad h.1,
      fun h => absurd h.1 hbad⟩

/-- A head with a field that is lower-cased. -/
theorem parseHeaders_grammar_expect :
    (Succeeds (({ httpMethod := lit "GET" } : RequestParser).parseHeaders
        (unlines [lit "Host: a", lit "Expect: 100-Continue"] ++ [cr, lf] ++ lit "x"))
        ↔ HeadGrammar (lit "GET") [lit "Host: a", lit "Expect: 100-Continue"])
      ∧ (HeadGrammar (lit "GET") [lit "Host: a", lit "Expect: 100-Continue"] → ∃ q,
        ({ httpMethod := lit "GET" } : RequestParser).parseHeaders
            (unlines [lit "Host: a", lit "Expect: 100-Continue"] ++ [cr, lf] ++ lit "x")
            = .returned q (lit "x")
          ∧ q.errorCode = 0 ∧ (q.state = .body ∨ q.state = .done)
          ∧ ∀ name, q.headers.get? name
            = (lastLine name [lit "Host: a", lit "Expect: 100-Continue"]).map storedValue) :=
  parseHeaders_grammar (p := { httpMethod := lit "GET" }) ⟨rfl, rfl, rfl, rfl⟩
    (by decide) (lit "x")

end RequestParser

end Webserv
