import Webserv.ChunkedBody

/-!
# The segmentation of a chunked body

`driveBody` is the loop between `recv` and `parse_request` for a parser
in BODY: append the segment, parse, erase what was consumed, stop at
DONE or ERROR_PARSE. Its result is compared between two ways to cut the
same bytes into segments.
-/

namespace Webserv

open Bytes ChunkStream RequestParser

/-- The parser and the unread bytes after the segments; `none` if a call
throws or does not end. -/
def driveBody (p : RequestParser) (buffer : Bytes) :
    List Bytes → Option (RequestParser × Bytes)
  | [] => some (p, buffer)
  | segment :: segments =>
      match p.parseRequest (buffer ++ segment) with
      | some (.returned p rest) =>
          if p.state = .done ∨ p.state = .errorParse then
            some (p, rest ++ segments.flatten)
          else driveBody p rest segments
      | _ => none

/-- What the driver can tell of a parser and the unread bytes. -/
structure BodyOutcome where
  state : ParseState
  errorCode : Nat
  body : Bytes
  unread : Bytes
deriving DecidableEq

def bodyOutcome (r : RequestParser × Bytes) : BodyOutcome :=
  ⟨r.1.state, r.1.errorCode, r.1.body, r.2⟩

/-- No boundary between two segments is one of the places `CutOk`
forbids, for a stream read from the position `q` on. -/
def CutsOk (q : Pos) : List Bytes → Prop
  | [] => True
  | [_] => True
  | s :: s' :: segments =>
      CutOk (feed chunkSize q s) ∧ CutsOk (feed chunkSize q s) (s' :: segments)

theorem RequestParser.InChunkedBody.parseRequest_eq {p : RequestParser}
    (hp : p.InChunkedBody) (t : Bytes) :
    p.parseRequest t
      = some (.returned (p.parseChunkedBody t).1 (p.parseChunkedBody t).2) := by
  rw [parseRequest, if_pos hp.state, parseBody_chunked hp]

theorem flatten_ne_nil {segments : List Bytes} (hne : segments ≠ [])
    (h : ∀ s ∈ segments, s ≠ []) : segments.flatten ≠ [] := by
  obtain ⟨s, segments, rfl⟩ := List.exists_cons_of_ne_nil hne
  intro h'
  exact h s (List.mem_cons_self ..) (List.append_eq_nil_iff.mp h').1

/-- Between allowed cuts the segments are parsed as if they had come at
once. -/
theorem driveBody_of_cutsOk {p : RequestParser} (hp : p.InChunkedBody) {buffer : Bytes} :
    ∀ {segments : List Bytes}, segments ≠ [] → (∀ s ∈ segments, s ≠ []) →
      CutsOk (feed chunkSize p.posOf buffer) segments →
      driveBody p buffer segments = some (p.parseChunkedBody (buffer ++ segments.flatten))
  | [], hnil, _, _ => absurd rfl hnil
  | [s], _, _, _ => by
      simp only [driveBody, hp.parseRequest_eq, List.flatten_cons, List.flatten_nil,
        List.append_nil, ite_self]
  | s :: s' :: segments, _, hne, ⟨hcut, hcuts⟩ => by
      have hrest : (s' :: segments).flatten ≠ [] :=
        flatten_ne_nil (List.cons_ne_nil _ _) fun x hx => hne x (List.mem_cons_of_mem _ hx)
      rw [← feed_append] at hcut hcuts
      obtain ⟨hgo, hstop⟩ := hp.parseChunkedBody_append hcut hrest
      have hflat : buffer ++ (s :: s' :: segments).flatten
          = buffer ++ s ++ (s' :: segments).flatten := by
        rw [List.flatten_cons, List.append_assoc]
      rw [driveBody, hp.parseRequest_eq, hflat]
      by_cases hbody : (p.parseChunkedBody (buffer ++ s)).1.state = .body
      · obtain ⟨hp₁, hfeed, heq⟩ := hgo hbody
        simp only [hbody, reduceCtorEq, or_self, if_false]
        rw [driveBody_of_cutsOk hp₁ (List.cons_ne_nil _ _)
          (fun x hx => hne x (List.mem_cons_of_mem _ hx)) (hfeed ▸ hcuts), heq]
      · obtain ⟨hover, heq⟩ := hstop hbody
        simp only [if_pos hover, heq]

/-! ## Forbidden cuts

A forbidden cut is reached with the decoder at the start of a size line
(`cut_reached`), and a CRLF behind the cut tells the two ways apart. -/

/-- The bytes that complete a CRLF behind the byte `c`. -/
def completeCrlf (c : UInt8) : Bytes := if c = cr then [lf] else [cr, lf]

theorem completeCrlf_ne_nil (c : UInt8) : completeCrlf c ≠ [] := by
  unfold completeCrlf
  split <;> exact List.cons_ne_nil _ _

theorem noCrlf_append_cr : ∀ {t : Bytes}, NoCrlf t → NoCrlf (t ++ [cr])
  | [], _ => trivial
  | [a], _ => ⟨fun h => absurd h.2 (by decide), trivial⟩
  | _ :: b :: t, h => ⟨h.1, noCrlf_append_cr (t := b :: t) h.2⟩

/-- A line without CRLF and the bytes that complete it. -/
theorem completeCrlf_line {t : Bytes} {c : UInt8} (h : NoCrlf (t ++ [c])) :
    ∃ w, t ++ [c] ++ completeCrlf c = w ++ cr :: lf :: [] ∧ NoCrlf (w ++ [cr]) := by
  unfold completeCrlf
  split
  · rename_i hc
    subst hc
    exact ⟨t, by simp, h⟩
  · exact ⟨t ++ [c], by simp, noCrlf_append_cr h⟩

namespace RequestParser

theorem CutOk_posOf (p : RequestParser) : CutOk p.posOf := by
  unfold posOf
  split
  · split <;> trivial
  · exact Nat.zero_le 1

/-- A call on a buffer that ends with a size line leaves it unread. -/
theorem parseChunkedBody_line {p : RequestParser} (hr : p.readingChunkData = false)
    {t : Bytes} {c : UInt8} (h : NoCrlf (t ++ [c])) :
    p.parseChunkedBody (t ++ [c] ++ completeCrlf c)
      = (p, t ++ [c] ++ completeCrlf c) := by
  obtain ⟨w, heq, hno⟩ := completeCrlf_line h
  have hne : w ++ cr :: lf :: [] ≠ [] := by simp
  rw [heq]
  refine parseChunkedBody_inr ?_
  rw [parseChunkedBodyIter_idle hne hr, startChunk_crlf hno, if_pos rfl]

theorem logError_body (p : RequestParser) (code : Nat) : (p.logError code).body = p.body := by
  unfold logError
  split <;> rfl

/-- A round only adds to the body. -/
theorem parseChunkedBodyIter_body (s : RequestParser × Bytes) :
    s.1.body <+: ((parseChunkedBodyIter s).elim id id).1.body := by
  obtain ⟨p, t⟩ := s
  simp only [parseChunkedBodyIter]
  split
  · exact List.prefix_rfl
  · split
    · have hread : p.body <+: (p.readChunkData t).1.body := List.prefix_append _ _
      simp only [finishChunk]
      split
      · split
        · exact hread
        · split
          · simpa only [Sum.elim_inr, id, logError_body] using hread
          · exact hread
      · exact hread
    · simp only [startChunk]
      split
      · exact List.prefix_rfl
      · split
        · simp only [Sum.elim_inr, id, logError_body]
          exact List.prefix_rfl
        · split
          · split
            · exact List.prefix_rfl
            · split
              · simp only [Sum.elim_inr, id, logError_body]
                exact List.prefix_rfl
              · exact List.prefix_rfl
          · exact List.prefix_rfl

theorem parseChunkedBody_body (p : RequestParser) (t : Bytes) :
    p.body <+: (p.parseChunkedBody t).1.body :=
  parseChunkedBody_keeps (I := fun s => p.body <+: s.1.body)
    (fun s hs => hs.trans (parseChunkedBodyIter_body s)) List.prefix_rfl

/-- How a forbidden cut is reached. -/
theorem InChunkedBody.cut_reached {p : RequestParser} (hp : p.InChunkedBody) {t : Bytes}
    (hcut : ¬CutOk (feed chunkSize p.posOf t)) :
    ∃ (p₁ : RequestParser) (t₁ : Bytes),
      p₁.InChunkedBody ∧ p₁.readingChunkData = false
      ∧ (∀ b, p.parseChunkedBody (t ++ b) = p₁.parseChunkedBody (t₁ ++ b))
      ∧ ((NoCrlf t₁ ∧ 2 ≤ t₁.length)
        ∨ ∃ w c, t₁ = w ++ [cr, lf, c] ∧ NoCrlf (w ++ [cr])
          ∧ chunkSize (w ++ [cr, lf]) = some 0) := by
  induction hn : t.length using Nat.strongRecOn generalizing p t with
  | ind n ih =>
      by_cases ht : t = []
      · subst ht
        exact absurd (CutOk_posOf p) hcut
      cases hp.round ht with
      | more p₁ t₁ hp₁ hne hlt hfeed hiter =>
          obtain ⟨p₂, t₂, hp₂, hr, hD, hend⟩ := ih t₁.length (hn ▸ hlt) hp₁ (hfeed ▸ hcut) rfl
          exact ⟨p₂, t₂, hp₂, hr, fun b => (parseChunkedBody_inl (hiter b)).trans (hD b), hend⟩
      | stop p₁ t₁ hstate hfeed hiter =>
          refine absurd ?_ hcut
          rcases hfeed with h | h <;> rw [h] <;> trivial
      | wait p₁ t₁ hp₁ hunread hok hfeed hiter hresume => exact absurd hok hcut
      | unterminated hr hno hlen => exact ⟨p, t, hp, hr, fun b => rfl, Or.inl ⟨hno, hlen⟩⟩
      | lastByte w c hr ht hno hsize hfeed hiter =>
          exact ⟨p, t, hp, hr, fun b => rfl, Or.inr ⟨w, c, ht, hno, hsize⟩⟩

end RequestParser

/-- Two segments, the first of which leaves the parser in BODY. -/
theorem driveBody_two {p : RequestParser} (hp : p.InChunkedBody) {t b : Bytes} :
    driveBody p [] [t, b] =
      if (p.parseChunkedBody t).1.state = .done
          ∨ (p.parseChunkedBody t).1.state = .errorParse then
        some ((p.parseChunkedBody t).1, (p.parseChunkedBody t).2 ++ b)
      else driveBody (p.parseChunkedBody t).1 (p.parseChunkedBody t).2 [b] := by
  simp only [driveBody, List.nil_append, hp.parseRequest_eq, List.flatten_cons,
    List.flatten_nil, List.append_nil]

theorem driveBody_one {p : RequestParser} (hp : p.InChunkedBody) (buffer b : Bytes) :
    driveBody p buffer [b] = some (p.parseChunkedBody (buffer ++ b)) := by
  simp only [driveBody, hp.parseRequest_eq, List.flatten_nil, List.append_nil, ite_self]

/-- Behind a forbidden cut a CRLF is enough for the segmentation to show. -/
theorem cut_matters {p : RequestParser} (hp : p.InChunkedBody) {t : Bytes}
    (hcut : ¬CutOk (feed chunkSize p.posOf t)) :
    ∃ b, b ≠ [] ∧ (driveBody p [] [t, b]).map bodyOutcome
      ≠ (driveBody p [] [t ++ b]).map bodyOutcome := by
  obtain ⟨p₁, t₁, hp₁, hr, hD, hend⟩ := hp.cut_reached hcut
  have hD0 := hD []
  rw [List.append_nil, List.append_nil] at hD0
  rcases hend with ⟨hno, hlen⟩ | ⟨w, c, rfl, hno, hsize⟩
  · have hne : t₁ ≠ [] := fun h => by rw [h] at hlen; exact absurd hlen (by decide)
    obtain ⟨l, c, rfl⟩ : ∃ l c, t₁ = l ++ [c] :=
      ⟨t₁.dropLast, t₁.getLast hne, (List.dropLast_append_getLast hne).symm⟩
    refine ⟨completeCrlf c, completeCrlf_ne_nil c, ?_⟩
    have hiter := (parseChunkedBodyIter_idle hne hr).trans (startChunk_noCrlf hno hne)
    have hlast : (l ++ [c]).drop ((l ++ [c]).length - 1) = [c] := by
      rw [List.length_append, List.length_singleton, Nat.add_sub_cancel,
        List.drop_left]
    rw [List.dropLast_concat, hlast] at hiter
    rw [driveBody_two hp, driveBody_one hp, List.nil_append, hD0, hD,
      parseChunkedBody_line hr hno]
    cases hs : chunkSize l with
    | none =>
        -- the first part of the line is refused, the whole line is not yet read
        rw [hs] at hiter
        rw [parseChunkedBody_inr hiter, if_pos (Or.inr (hp₁.logError_state 400))]
        intro h
        have hstate := congrArg BodyOutcome.state (Option.some.inj h)
        exact absurd ((hp₁.logError_state 400).symm.trans (hstate.trans hp₁.state))
          (by decide)
    | some n =>
        cases n with
        | zero =>
            -- all but the last byte of the line is consumed
            rw [hs] at hiter
            simp only [hp₁.set_size_zero hr] at hiter
            rw [parseChunkedBody_inr hiter]
            simp only [hp₁.state, reduceCtorEq, or_self, if_false]
            have hline := parseChunkedBody_line (p := p₁) hr (t := []) (c := c) trivial
            rw [List.nil_append] at hline
            rw [driveBody_one hp₁, hline]
            intro h
            have hunread := congrArg (List.length ∘ BodyOutcome.unread) (Option.some.inj h)
            simp only [Function.comp, bodyOutcome, List.length_append,
              List.length_singleton] at hunread hlen
            omega
        | succ n =>
            -- the last byte of the line is taken for data
            rw [hs] at hiter
            have hlt := chunkSize_lt hs
            have hp₂ := (hp₁.openChunk (Nat.succ_ne_zero n) hlt).fillChunk rfl
              (s := [c]) (Nat.succ_le_succ (Nat.zero_le n))
            rw [parseChunkedBody_inl hiter,
              parseChunkedBody_openChunk_byte hp₁ (Nat.succ_ne_zero n) hlt]
            simp only [hp₂.state, reduceCtorEq, or_self, if_false]
            rw [driveBody_one hp₂]
            intro h
            have hbody := congrArg (List.length ∘ BodyOutcome.body) (Option.some.inj h)
            have hgrow := (parseChunkedBody_body
              ((p₁.openChunk (n + 1)).fillChunk [c]) ([] ++ completeCrlf c)).length_le
            simp only [Function.comp, bodyOutcome] at hbody
            rw [hbody] at hgrow
            simp only [fillChunk, openChunk, List.length_append, List.length_singleton]
              at hgrow
            omega
  · have hsplit : w ++ [cr, lf, c] = w ++ cr :: lf :: [c] := rfl
    have hlast : p₁.parseChunkedBody (w ++ [cr, lf, c]) = (p₁, [c]) := by
      refine parseChunkedBody_inr ?_
      rw [parseChunkedBodyIter_idle (by simp) hr, hsplit, startChunk_crlf hno,
        if_neg (List.cons_ne_nil c []), hsize]
      simp [hp₁.set_size_zero hr]
    refine ⟨completeCrlf c, completeCrlf_ne_nil c, ?_⟩
    have hline := parseChunkedBody_line (p := p₁) hr (t := []) (c := c) trivial
    rw [driveBody_two hp, driveBody_one hp, List.nil_append, hD0, hD, hlast]
    simp only [hp₁.state, reduceCtorEq, or_self, if_false]
    rw [driveBody_one hp₁, ← List.nil_append [c], hline]
    -- the whole stream is finished or refused, the cut one is still in BODY
    have hover : (p₁.parseChunkedBody (w ++ [cr, lf, c] ++ completeCrlf c)).1.state ≠ .body := by
      have hu : c :: completeCrlf c ≠ [] := List.cons_ne_nil _ _
      have hlen : ¬(c :: completeCrlf c).length < 2 := by
        have := List.length_pos_iff.mpr (completeCrlf_ne_nil c)
        simp only [List.length_cons]
        omega
      have hiter := (parseChunkedBodyIter_idle (p := p₁)
        (t := w ++ cr :: lf :: (c :: completeCrlf c)) (by simp) hr).trans
        (startChunk_crlf hno)
      rw [if_neg hu, hsize] at hiter
      simp only [hp₁.set_size_zero hr, if_neg hlen] at hiter
      rw [List.append_assoc]
      split at hiter
      · rw [show w ++ ([cr, lf, c] ++ completeCrlf c) = w ++ cr :: lf :: (c :: completeCrlf c)
          from rfl, parseChunkedBody_inr hiter, hp₁.logError_state]
        decide
      · rw [show w ++ ([cr, lf, c] ++ completeCrlf c) = w ++ cr :: lf :: (c :: completeCrlf c)
          from rfl, parseChunkedBody_inr hiter]
        intro h
        cases h
    intro h
    exact hover ((congrArg BodyOutcome.state (Option.some.inj h)).symm.trans hp₁.state)

/-! ## Segmentation

The parser as it enters BODY stands at the start of a size line. -/

/-- Two ways to cut a stream end alike. -/
def SegmentsAgree (p : RequestParser) (segments segments' : List Bytes) : Prop :=
  (driveBody p [] segments).map bodyOutcome = (driveBody p [] segments').map bodyOutcome

theorem driveBody_eq_one {p : RequestParser} (hp : p.InChunkedBody)
    (hr : p.readingChunkData = false) {segments : List Bytes} (hne : segments ≠ [])
    (hsegments : ∀ s ∈ segments, s ≠ []) (hcuts : CutsOk (.size []) segments) :
    driveBody p [] segments = some (p.parseChunkedBody segments.flatten) := by
  rw [← posOf_idle hr, ← feed_nil chunkSize p.posOf] at hcuts
  simpa only [List.nil_append] using driveBody_of_cutsOk hp hne hsegments hcuts

/-- A single cut is harmless, whatever follows it, exactly where `CutOk`
allows it, and any two ways to cut a stream at such places agree. -/
theorem driveBody_segmentsAgree {p : RequestParser} (hp : p.InChunkedBody)
    (hr : p.readingChunkData = false) :
    (∀ t, t ≠ [] →
      ((∀ b, b ≠ [] → SegmentsAgree p [t, b] [t ++ b]) ↔ CutOk (feed chunkSize (.size []) t)))
    ∧ ∀ segments segments', segments ≠ [] → segments' ≠ [] →
      (∀ s ∈ segments, s ≠ []) → (∀ s ∈ segments', s ≠ []) →
      segments.flatten = segments'.flatten →
      CutsOk (.size []) segments → CutsOk (.size []) segments' →
      SegmentsAgree p segments segments' := by
  refine ⟨fun t ht => ⟨fun hagree => ?_, fun hcut b hb => ?_⟩, ?_⟩
  · by_contra hcut
    rw [← posOf_idle hr] at hcut
    obtain ⟨b, hb, hdiffer⟩ := cut_matters hp hcut
    exact hdiffer (hagree b hb)
  · have htwo : ∀ s ∈ [t, b], s ≠ [] := by simp [ht, hb]
    rw [SegmentsAgree, driveBody_one hp,
      driveBody_eq_one hp hr (List.cons_ne_nil t [b]) htwo ⟨hcut, trivial⟩]
    simp
  · intro segments segments' hne hne' hs hs' hflat hcuts hcuts'
    rw [SegmentsAgree, driveBody_eq_one hp hr hne hs hcuts,
      driveBody_eq_one hp hr hne' hs' hcuts', hflat]

/-- A parser behind the head of a chunked request. -/
def chunkedParser : RequestParser :=
  { state := .body
    hasTransferEncoding := true
    headers := OrdMap.empty.insert (lit "transfer-encoding") (lit "chunked") }

theorem chunkedParser_inChunkedBody : chunkedParser.InChunkedBody :=
  ⟨rfl, rfl, rfl, by decide, fun _ => ⟨rfl, rfl⟩, (nomatch ·)⟩

theorem driveBody_segmentsAgree_hello :
    SegmentsAgree chunkedParser [lit "5\r\nhel", lit "lo\r\n0\r\n", lit "\r\n"]
      [lit "5\r\nhello\r\n0\r\n\r\n"] :=
  (driveBody_segmentsAgree chunkedParser_inChunkedBody rfl).2 _ _
    (by decide) (by decide) (by decide) (by decide) (by decide)
    ⟨by decide, by decide, trivial⟩ trivial

/-- With the last LF in a segment of its own the body never ends. -/
theorem driveBody_not_segmentsAgree :
    ¬∀ p : RequestParser, p.InChunkedBody → p.readingChunkData = false →
      ∀ segments segments', segments ≠ [] → segments' ≠ [] →
      (∀ s ∈ segments, s ≠ []) → (∀ s ∈ segments', s ≠ []) →
      segments.flatten = segments'.flatten → SegmentsAgree p segments segments' := by
  intro h
  have hdiffer : ¬SegmentsAgree chunkedParser
      [lit "5\r\nhello\r\n0\r\n\r", lit "\n"] [lit "5\r\nhello\r\n0\r\n\r\n"] := by
    unfold SegmentsAgree
    decide +kernel
  exact hdiffer (h chunkedParser chunkedParser_inChunkedBody rfl _ _
    (by decide) (by decide) (by decide) (by decide) (by decide))

end Webserv
