import Webserv.HeaderGrammar
import Webserv.ParseTermination

/-!
# Where the head ends

The driver looks for the first empty line, the parser reads line by line.
Both come to the same end of the head (`head_agrees`), and what the parser
makes of a head does not depend on what follows it
(`CompleteHead.append`).
-/

namespace Webserv

open Bytes CrlfLines WhileLoop RequestParser

namespace RequestParser

/-! ## The request line -/

/-- What `parse_request_line` makes of a line, and whether it is taken. -/
def requestLineOf (p : RequestParser) (line : Bytes) : RequestParser × Bool :=
  if maxRequestLineLength < line.length + 2 then (p.logError 414, false)
  else
    match split space line with
    | [method, uri, version] =>
        let (p, ok) := p.setRequestLineParts method uri version
        (if ok then { p with state := .headers } else p, ok)
    | _ => (p.logError 400, false)

theorem parseRequestLine_line (p : RequestParser) {line u : Bytes} (hline : IsLine line)
    (hu : u ≠ []) :
    p.parseRequestLine (line ++ cr :: lf :: u) = ((p.requestLineOf line).1,
      if (p.requestLineOf line).2 then u else line ++ cr :: lf :: u) := by
  have hsplit : line ++ cr :: lf :: u = (line ++ [cr, lf]) ++ u := by simp
  have hend := findLineEnd_crlf u hline
  have hdrop : (line ++ cr :: lf :: u).drop (line.length + 2) = u := by
    rw [hsplit, List.drop_left' (by simp)]
  have hne : ¬line.length + 2 = (line ++ cr :: lf :: u).length := by
    have := List.length_pos_iff.mpr hu
    simp only [List.length_append, List.length_cons]
    omega
  have hsub : line.length + 2 - 2 = line.length := by omega
  simp only [parseRequestLine, requestLineOf, hend, if_neg hne, hsub, List.take_left, hdrop]
  by_cases hlong : maxRequestLineLength < line.length + 2
  · simp only [if_pos hlong]
    rfl
  simp only [if_neg hlong]
  generalize split space line = parts
  rcases parts with _ | ⟨method, _ | ⟨uri, _ | ⟨version, _ | ⟨more, parts⟩⟩⟩⟩
  · rfl
  · rfl
  · rfl
  · obtain ⟨q, ok, hr⟩ : ∃ q ok, p.setRequestLineParts method uri version = (q, ok) :=
      ⟨_, _, rfl⟩
    simp only [hr]
    cases ok with
    | true => rfl
    | false => rfl
  · rfl

/-- A line that is not taken does not lead to the header fields. -/
theorem requestLineOf_state {line : Bytes}
    (h : (({} : RequestParser).requestLineOf line).1.state = .headers) :
    (({} : RequestParser).requestLineOf line).2 = true := by
  revert h
  simp only [requestLineOf]
  split
  · exact fun h => by cases h
  split
  · rename_i method uri version _
    rcases setRequestLineParts_cases (p := {}) rfl method uri version with
      ⟨-, heq⟩ | ⟨-, q, code, hq, -, heq⟩ | ⟨-, joined, -, -, -, heq⟩
    · rw [heq]
      exact fun h => by cases h
    · rw [heq]
      simp only [Bool.false_eq_true, if_false, logError_state hq]
      exact fun h => by cases h
    · rw [heq]
      exact fun _ => rfl
  · exact fun h => by cases h

/-- Only an accepted line leads to the header fields. -/
theorem withLine_of_headers {buffer rest : Bytes} {p : RequestParser}
    (hline : ({} : RequestParser).parseRequestLine buffer = (p, rest))
    (hp : p.state = .headers) :
    ∃ method joined, p = ({} : RequestParser).withLine method joined := by
  rcases parseRequestLine_cases (p := {}) rfl buffer with
    ⟨-, method, heq⟩ | ⟨-, q, code, hq, -, heq⟩ | ⟨-, method, target, joined, -, -, -, heq⟩
  · rw [heq, Prod.mk.injEq] at hline
    rw [← hline.1] at hp
    cases hp
  · rw [heq, Prod.mk.injEq] at hline
    rw [← hline.1, logError_state hq] at hp
    cases hp
  · rw [heq, Prod.mk.injEq] at hline
    exact ⟨method, joined, hline.1.symm⟩

theorem endOfHeaders_rest {l : HeaderLoop} (h : l.p.errorCode = 0) (headerEnd : Bytes) :
    ∃ q rest, endOfHeaders l headerEnd = .returned q rest
      ∧ (q.state = .errorParse ∨ rest = headerEnd) := by
  simp only [endOfHeaders]
  split
  · exact ⟨_, _, rfl, Or.inl (logError_state h 400)⟩
  split
  · exact ⟨_, _, rfl, Or.inl (logError_state h 400)⟩
  split
  · split
    · exact ⟨_, _, rfl, Or.inl (logError_state h 411)⟩
    · exact ⟨_, _, rfl, Or.inr rfl⟩
  · exact ⟨_, _, rfl, Or.inr rfl⟩

end RequestParser

/-! ## The head in the buffer -/

/-- A buffer with an empty line begins with a line and a head. -/
theorem exists_head {buffer : Bytes} (h : doubleCrlf <:+: buffer) :
    ∃ line lines tail, IsLine line ∧ (∀ l ∈ lines, l ≠ [] ∧ IsLine l)
      ∧ buffer = unlines (line :: lines) ++ cr :: lf :: tail := by
  obtain ⟨line, u, rfl, hline⟩ := emptyLineAhead_crlf (Or.inr h)
  have hahead := emptyLineAhead_of_infix hline h
  obtain ⟨lines, tail, hlines, rfl⟩ := EmptyLineAhead.lines hahead
  exact ⟨line, lines, tail, hline, hlines, by simp⟩

/-- The offset the driver finds. -/
theorem head_offset {line tail : Bytes} {lines : List Bytes} (hline : IsLine line)
    (hlines : ∀ l ∈ lines, l ≠ [] ∧ IsLine l) {k : Nat}
    (h : find doubleCrlf (unlines (line :: lines) ++ cr :: lf :: tail) = some k) :
    k + 4 = (unlines (line :: lines) ++ [cr, lf]).length := by
  have hk := (find_blank_unlines (t := tail) hline hlines).symm.trans h
  obtain rfl := Option.some.inj hk
  simp only [unlines_cons, List.length_append, List.length_cons, List.length_nil]
  omega

theorem head_drop {line tail : Bytes} {lines : List Bytes} (hline : IsLine line)
    (hlines : ∀ l ∈ lines, l ≠ [] ∧ IsLine l) {k : Nat}
    (h : find doubleCrlf (unlines (line :: lines) ++ cr :: lf :: tail) = some k) :
    (unlines (line :: lines) ++ cr :: lf :: tail).drop (k + 4) = tail := by
  rw [show unlines (line :: lines) ++ cr :: lf :: tail
    = (unlines (line :: lines) ++ [cr, lf]) ++ tail by simp,
    List.drop_left' (head_offset hline hlines h).symm]

/-- In every round of the header loop the line ends behind its CRLF. -/
theorem always_lineEnd {rest : Bytes} (h : EmptyLineAhead rest) (p : RequestParser) :
    Always parseHeadersIter (fun l => 2 ≤ findLineEnd l.rest) { p := p, rest := rest } := by
  have hahead : Always parseHeadersIter (fun l => EmptyLineAhead l.rest)
      { p := p, rest := rest } := by
    refine always_of_invariant (fun l l' hl hiter => ?_) h
    obtain ⟨hend, -, hrest, -⟩ := parseHeadersIter_inl hiter
    rw [hrest]
    rcases hl with ⟨s, hs⟩ | hinf
    · rw [← hs, List.cons_append, List.cons_append, findLineEnd, if_pos ⟨rfl, rfl⟩] at hend
      exact absurd hend (Nat.lt_irrefl 2)
    · exact EmptyLineAhead.drop hinf
  intro l hl
  obtain ⟨w, u, heq, hno⟩ := emptyLineAhead_crlf (hahead l hl)
  rw [heq, findLineEnd_crlf u hno]
  omega

/-- The parser stops where the driver has found the end of the head, or
with an error, and no line on the way ends before it begins. -/
theorem head_agrees {buffer : Bytes} {h : Nat} (hfind : find doubleCrlf buffer = some h)
    {p : RequestParser} {rest : Bytes}
    (hline : ({} : RequestParser).parseRequestLine buffer = (p, rest)) (hp : p.state = .headers) :
    Always parseHeadersIter (fun l => 2 ≤ findLineEnd l.rest) { p := p, rest := rest }
      ∧ ∃ q rest', p.parseHeaders rest = .returned q rest' ∧ q.state ≠ .headers
        ∧ (q.state = .errorParse ∨ rest' = buffer.drop (h + 4)) := by
  have hcrlf : doubleCrlf <:+: buffer := infix_of_find (by rw [hfind]; rfl)
  obtain ⟨line, lines, tail, hl, hls, rfl⟩ := exists_head hcrlf
  have herr : p.errorCode = 0 := by
    obtain ⟨method, joined, rfl⟩ := withLine_of_headers hline hp
    rfl
  have hrest : rest = unlines lines ++ cr :: lf :: tail := by
    have hbuffer : unlines (line :: lines) ++ cr :: lf :: tail
        = line ++ cr :: lf :: (unlines lines ++ cr :: lf :: tail) := by simp
    rw [hbuffer, parseRequestLine_line {} hl (by simp), Prod.mk.injEq] at hline
    rw [← hline.1] at hp
    rw [← hline.2, if_pos (requestLineOf_state hp)]
  have hahead : EmptyLineAhead rest := by
    have hdrop := EmptyLineAhead.drop hcrlf
    rw [unlines_cons, List.append_assoc, List.cons_append, List.cons_append,
      drop_findLineEnd hl] at hdrop
    rw [hrest]
    exact hdrop
  refine ⟨always_lineEnd hahead p, ?_⟩
  obtain ⟨q, rest', hexit, hstate⟩ := parseHeaders_ended herr hahead
  refine ⟨q, rest', hexit, hstate, ?_⟩
  rw [head_drop hl hls hfind]
  have hlines := parseHeaders_lines p hls tail
  rw [← hrest, hexit] at hlines
  rcases hlines with ⟨-, heq⟩ | ⟨-, q', code, rest'', hq, -, heq⟩
  · have herr' : (behindLines { p := p, rest := [] } lines).p.errorCode = 0 := by
      rw [behindLines_frame]
      exact herr
    obtain ⟨q', rest'', hend, hstop⟩ := endOfHeaders_rest
      (l := { behindLines { p := p, rest := [] } lines with rest := cr :: lf :: tail }) herr' tail
    rw [hend, ParseExit.returned.injEq] at heq
    rw [heq.1, heq.2]
    exact hstop
  · rw [ParseExit.returned.injEq] at heq
    rw [heq.1]
    exact Or.inl (logError_state (hq.trans herr) code)

/-- A head with a bare CR and LF in a value, and a body. -/
theorem head_agrees_bare :
    Always parseHeadersIter (fun l => 2 ≤ findLineEnd l.rest)
        { p := ({} : RequestParser).withLine (lit "GET") (lit "/"),
          rest := lit "Host: a\rb\nc\r\n\r\nxy" }
      ∧ ∃ q rest', (({} : RequestParser).withLine (lit "GET") (lit "/")).parseHeaders
          (lit "Host: a\rb\nc\r\n\r\nxy") = .returned q rest' ∧ q.state ≠ .headers
        ∧ (q.state = .errorParse
          ∨ rest' = (lit "GET / HTTP/1.1\r\nHost: a\rb\nc\r\n\r\nxy").drop (27 + 4)) :=
  head_agrees
    (show find doubleCrlf (lit "GET / HTTP/1.1\r\nHost: a\rb\nc\r\n\r\nxy") = some 27 by
      decide +kernel)
    (by decide +kernel) rfl

/-- What ends with its first empty line has no part that holds one. -/
theorem find_part_of_ends {head part : Bytes}
    (hends : find doubleCrlf head = some (head.length - 4)) (hpart : part <+: head)
    (hlt : part.length < head.length) : find doubleCrlf part = none := by
  cases hfind : find doubleCrlf part with
  | none => rfl
  | some k =>
      obtain ⟨u, rfl⟩ := hpart
      have hk := Option.some.inj ((find_append u hfind).symm.trans hends)
      have hshort := find_le hfind
      have hhead := find_le hends
      have hfour : doubleCrlf.length = 4 := rfl
      omega

/-! ## A head alone -/

/-- Nothing is behind the head, and a fresh parser makes `p` of it. -/
structure CompleteHead (head : Bytes) (p : RequestParser) : Prop where
  ends : find doubleCrlf head = some (head.length - 4)
  read : ∃ q rest, ({} : RequestParser).parseRequestLine head = (q, rest) ∧ q.state = .headers
    ∧ q.parseHeaders rest = .returned p []
  accepted : p.errorCode = 0

theorem endOfHeaders_accepted {l : HeaderLoop} (h : l.p.errorCode = 0) {headerEnd : Bytes}
    {p : RequestParser} {rest : Bytes} (hend : endOfHeaders l headerEnd = .returned p rest)
    (hp : p.errorCode = 0) (rest' headerEnd' : Bytes) :
    endOfHeaders { l with rest := rest' } headerEnd' = .returned p headerEnd' := by
  have hlog : ∀ {code : Nat}, code ≠ 0 →
      ParseExit.returned (l.p.logError code) l.rest = .returned p rest → False := by
    intro code hc heq
    rw [ParseExit.returned.injEq] at heq
    rw [← heq.1, logError_errorCode h] at hp
    exact hc hp
  simp only [endOfHeaders] at hend ⊢
  split at hend
  · exact (hlog (by decide) hend).elim
  rename_i hhost
  rw [if_neg hhost]
  split at hend
  · exact (hlog (by decide) hend).elim
  rename_i hboth
  rw [if_neg hboth]
  split at hend
  · rename_i hnone
    rw [if_pos hnone]
    split at hend
    · exact (hlog (by decide) hend).elim
    · rename_i hpost
      rw [ParseExit.returned.injEq] at hend
      rw [if_neg hpost, hend.1]
  · rename_i hsome
    rw [ParseExit.returned.injEq] at hend
    rw [if_neg hsome, hend.1]

namespace CompleteHead

variable {head : Bytes} {p : RequestParser}

theorem lines (h : CompleteHead head p) : ∃ line lines, IsLine line
    ∧ (∀ l ∈ lines, l ≠ [] ∧ IsLine l) ∧ head = unlines (line :: lines) ++ [cr, lf] := by
  obtain ⟨line, lines, tail, hl, hls, rfl⟩ :=
    exists_head (infix_of_find (by rw [h.ends]; rfl))
  refine ⟨line, lines, hl, hls, ?_⟩
  have hlen := head_offset hl hls h.ends
  have htail : tail = [] := by
    rw [← List.length_eq_zero_iff]
    simp only [List.length_append, List.length_cons, List.length_nil] at hlen
    omega
  rw [htail]

/-- What is behind the head is left unread, and makes no difference. -/
theorem append (h : CompleteHead head p) (tail : Bytes) : ∃ method joined rest,
    ({} : RequestParser).parseRequestLine (head ++ tail)
        = (({} : RequestParser).withLine method joined, rest)
      ∧ rest ≠ [] ∧ (({} : RequestParser).withLine method joined).parseHeaders rest
        = .returned p tail := by
  obtain ⟨line, lines, hl, hls, hhead⟩ := h.lines
  obtain ⟨q, rest, hline, hq, hread⟩ := h.read
  obtain ⟨method, joined, hmethod⟩ := withLine_of_headers hline hq
  have hsplit : ∀ tail, head ++ tail = line ++ cr :: lf :: (unlines lines ++ cr :: lf :: tail) := by
    intro tail
    rw [hhead]
    simp
  have hnil := hsplit []
  rw [List.append_nil] at hnil
  rw [hnil, parseRequestLine_line {} hl (by simp), Prod.mk.injEq] at hline
  have hok := requestLineOf_state (hline.1 ▸ hq)
  rw [if_pos hok] at hline
  obtain ⟨hq', hrest⟩ := hline
  have herr : q.errorCode = 0 := by
    rw [hmethod]
    rfl
  refine ⟨method, joined, unlines lines ++ cr :: lf :: tail, ?_, by simp, ?_⟩
  · rw [hsplit, parseRequestLine_line {} hl (by simp), if_pos hok, hq', hmethod]
  rw [← hmethod]
  have herr' : (behindLines { p := q, rest := [] } lines).p.errorCode = 0 := by
    rw [behindLines_frame]
    exact herr
  have hlines := parseHeaders_lines q hls []
  rw [hrest, hread] at hlines
  rcases hlines with ⟨hoks, heq⟩ | ⟨-, q', code, rest', hq₀, hc, heq⟩
  · rcases parseHeaders_lines q hls tail with ⟨-, heq'⟩ | ⟨hbad, -⟩
    · rw [heq']
      exact endOfHeaders_accepted (l := { behindLines { p := q, rest := [] } lines with
        rest := cr :: lf :: [] }) herr' heq.symm h.accepted _ _
    · exact absurd hoks hbad
  · rw [ParseExit.returned.injEq] at heq
    have hp := h.accepted
    rw [heq.1, logError_errorCode (hq₀.trans herr)] at hp
    exact absurd hp hc

/-- A head asks for a body, or it is the whole request. -/
theorem outcome (h : CompleteHead head p) : EntersBody p
    ∨ p.state = .done ∧ p.hasContentLength = false ∧ p.hasTransferEncoding = false := by
  obtain ⟨method, joined, rest, -, -, hread⟩ := h.append [cr]
  have hout := parseHeaders_outcome (p := ({} : RequestParser).withLine method joined) rfl
    (fieldsAccepted_withLine method joined) rest
  rw [hread] at hout
  cases hout with
  | refused q code _ hq hc =>
      have hp := h.accepted
      rw [logError_errorCode hq] at hp
      exact absurd hp hc
  | done p _ hf hp hframing hm => exact Or.inr ⟨rfl, hframing⟩
  | body p _ hf hp hframing => exact Or.inl (entersBody_of_head hf hp hframing)

theorem ne_nil (h : CompleteHead head p) (tail : Bytes) : head ++ tail ≠ [] := by
  obtain ⟨line, lines, -, -, rfl⟩ := h.lines
  simp

theorem find (h : CompleteHead head p) (tail : Bytes) :
    Bytes.find doubleCrlf (head ++ tail) = some (head.length - 4) :=
  find_append tail h.ends

/-- No part of the head ends it. -/
theorem find_part (h : CompleteHead head p) {part : Bytes} (hpart : part <+: head)
    (hlt : part.length < head.length) : Bytes.find doubleCrlf part = none :=
  find_part_of_ends h.ends hpart hlt

/-! ## A call on a head and what is behind it -/

/-- Two rounds take the head. -/
theorem parseRequest (h : CompleteHead head p) (tail : Bytes) :
    ({} : RequestParser).parseRequest (head ++ tail)
      = if tail = [] then some (.returned p []) else run parseRequestIter 2 (p, tail) := by
  obtain ⟨method, joined, rest, hline, hrest, hread⟩ := h.append tail
  have hne := h.ne_nil tail
  have hfirst : parseRequestIter ({}, head ++ tail)
      = .inl (({} : RequestParser).withLine method joined, rest) := by
    simp [parseRequestIter, hne, hline, nextRound, hrest, withLine]
  have hsecond : parseRequestIter (({} : RequestParser).withLine method joined, rest)
      = nextRound p tail := by
    have hstate : (({} : RequestParser).withLine method joined).state = .headers := rfl
    simp only [parseRequestIter, hrest, hstate, hread, false_or, reduceCtorEq, if_false]
  have hp : p.state ≠ .errorParse := by
    rcases h.outcome with henter | ⟨hstate, -⟩
    · rw [henter.state]
      decide
    · rw [hstate]
      decide
  have hcall : ({} : RequestParser).parseRequest (head ++ tail)
      = run parseRequestIter 4 ({}, head ++ tail) := rfl
  rw [hcall, run_inl hfirst]
  by_cases htail : tail = []
  · have hleft : nextRound p tail = .inr (.returned p []) := by
      rw [nextRound, if_pos (Or.inr htail), htail]
    rw [if_pos htail, run_inr (hsecond.trans hleft)]
  · have hnext : nextRound p tail = .inl (p, tail) :=
      if_neg fun h => h.elim hp htail
    rw [if_neg htail, run_inl (hsecond.trans hnext)]

theorem parseRequest_done (h : CompleteHead head p) (hdone : p.state = .done) (tail : Bytes) :
    ({} : RequestParser).parseRequest (head ++ tail) = some (.returned p tail) := by
  rw [h.parseRequest]
  split
  · rename_i htail
    rw [htail]
  · exact run_inr (parseRequestIter_over (Or.inr (Or.inl hdone))) 1

theorem parseRequest_body (h : CompleteHead head p) (hp : p.state = .body) {tail rest : Bytes}
    (hne : tail ≠ []) {q : RequestParser} (hbody : p.parseBody tail = (q, rest))
    (hq : q.state = .done ∨ q.state = .errorParse ∨ rest = []) :
    ({} : RequestParser).parseRequest (head ++ tail) = some (.returned q rest) := by
  have hround := parseRequestIter_body hp hne
  rw [hbody] at hround
  rw [h.parseRequest, if_neg hne]
  by_cases hleft : q.state = .errorParse ∨ rest = []
  · exact run_inr (hround.trans (if_pos hleft)) 1
  · rw [run_inl (hround.trans (if_neg hleft))]
    have hdone := hq.resolve_right hleft
    exact run_inr (parseRequestIter_over (Or.inr (Or.inl hdone))) 0

end CompleteHead

end Webserv
