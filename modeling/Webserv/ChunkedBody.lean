import Webserv.ChunkStream
import Webserv.RequestParser

/-!
# The chunked body parser against the chunked coding

`posOf` reads off the parser fields where the decoder stands in the
coding. Each round of `parse_chunked_body` is described once
(`ChunkRound`), and two facts follow by induction on the unread bytes:
where the decoder can be suspended and resumed
(`parseChunkedBody_append`), and which ends of a buffer leave it waiting
with bytes unread (`parseChunkedBody_waits`).
-/

namespace Webserv

open Bytes ChunkStream

namespace RequestParser

/-- A parser in the middle of a chunked body. -/
structure InChunkedBody (p : RequestParser) : Prop where
  state : p.state = .body
  errorCode : p.errorCode = 0
  flag : p.hasTransferEncoding = true
  coding : p.headers.get? (lit "transfer-encoding") = some (lit "chunked")
  idle : p.readingChunkData = false → p.currentChunkSize = 0 ∧ p.currentChunkRead = 0
  busy : p.readingChunkData = true →
    p.currentChunkRead ≤ p.currentChunkSize ∧ 0 < p.currentChunkSize
      ∧ p.currentChunkSize < word

/-- The position in the coding the parser's fields stand for. -/
def posOf (p : RequestParser) : Pos :=
  if p.readingChunkData then
    if p.currentChunkRead = p.currentChunkSize then .dataEnd []
    else .data p.currentChunkSize (p.currentChunkSize - p.currentChunkRead)
  else .size []

end RequestParser

/-! ## Lines -/

theorem findLineEnd_of_noCrlf : ∀ {t : Bytes}, NoCrlf t → findLineEnd t = t.length - 1
  | [], _ => rfl
  | [_], _ => rfl
  | a :: b :: t, h => by
      rw [findLineEnd, if_neg h.1, findLineEnd_of_noCrlf h.2]
      simp only [List.length_cons]
      omega

theorem findLineEnd_crlf : ∀ {w : Bytes} (u : Bytes), NoCrlf (w ++ [cr]) →
    findLineEnd (w ++ cr :: lf :: u) = w.length + 2
  | [], u, _ => by rw [List.nil_append, findLineEnd, if_pos ⟨rfl, rfl⟩]; rfl
  | [a], u, h => by
      rw [List.cons_append, List.nil_append, findLineEnd,
        if_neg (fun h' => absurd h'.2 (by decide)), findLineEnd, if_pos ⟨rfl, rfl⟩]
      rfl
  | a :: b :: w, u, h => by
      rw [List.cons_append, List.cons_append, findLineEnd, if_neg h.1,
        ← List.cons_append, findLineEnd_crlf u h.2]
      rfl

/-- A buffer holds no CRLF, or it splits at its first one. -/
theorem noCrlf_or_crlf : ∀ t : Bytes,
    NoCrlf t ∨ ∃ w u, t = w ++ cr :: lf :: u ∧ NoCrlf (w ++ [cr])
  | [] => Or.inl trivial
  | [_] => Or.inl trivial
  | a :: b :: t => by
      by_cases hab : a = cr ∧ b = lf
      · obtain ⟨rfl, rfl⟩ := hab
        exact Or.inr ⟨[], t, rfl, trivial⟩
      · rcases noCrlf_or_crlf (b :: t) with h | ⟨w, u, heq, hw⟩
        · exact Or.inl ⟨hab, h⟩
        · refine Or.inr ⟨a :: w, u, by rw [heq]; rfl, ?_⟩
          cases w with
          | nil => exact ⟨fun h => absurd h.2 (by decide), trivial⟩
          | cons b' w =>
              obtain rfl : b = b' := (List.cons.inj heq).1
              exact ⟨hab, hw⟩

/-- A size line is interpreted when its LF comes. -/
theorem feed_size_crlf (sizeOf : Bytes → Option Nat) {w : Bytes} (u : Bytes)
    (h : NoCrlf (w ++ [cr])) :
    feed sizeOf (.size []) (w ++ cr :: lf :: u)
      = feed sizeOf (afterSize sizeOf (w ++ [cr, lf])) u := by
  have hsplit : w ++ cr :: lf :: u = (w ++ [cr]) ++ lf :: u := by simp
  have hline : feed sizeOf (.size []) (w ++ [cr]) = .size (w ++ [cr]) := by
    rw [feed_size_of_noCrlf sizeOf (fun c _ h' => by simp at h') h, List.nil_append]
  rw [hsplit, feed_append, hline, feed_cons, step, if_pos ⟨by simp, rfl⟩]
  simp

/-! ## Sizes fit the word -/

namespace RequestParser

theorem chunkSize_lt {line : Bytes} {n : Nat} (h : chunkSize line = some n) :
    n < word := by
  simp only [chunkSize] at h
  split at h
  · obtain rfl := Option.some.inj h
    exact strtoul_lt 16 _
  · cases h

/-! ## Rounds -/

theorem parseBody_coding {p : RequestParser} (hflag : p.hasTransferEncoding = true)
    (hcoding : p.headers.get? (lit "transfer-encoding") = some (lit "chunked"))
    (rest : Bytes) : p.parseBody rest = p.parseChunkedBody rest := by
  have hget : p.headers.getOrInsert (lit "transfer-encoding") []
      = (p.headers, lit "chunked") := by
    rw [OrdMap.getOrInsert, hcoding]
  simp only [parseBody, if_pos hflag, getHeaderValue, hget]
  rfl

theorem parseBody_chunked {p : RequestParser} (hp : p.InChunkedBody) (rest : Bytes) :
    p.parseBody rest = p.parseChunkedBody rest :=
  parseBody_coding hp.flag hp.coding rest

theorem parseChunkedBody_nil (p : RequestParser) : p.parseChunkedBody [] = (p, []) :=
  WhileLoop.total_inr (by simp [parseChunkedBodyIter])

theorem parseChunkedBody_inl {p : RequestParser} {t : Bytes} {s : RequestParser × Bytes}
    (h : parseChunkedBodyIter (p, t) = .inl s) :
    p.parseChunkedBody t = s.1.parseChunkedBody s.2 :=
  WhileLoop.total_inl h

theorem parseChunkedBody_inr {p : RequestParser} {t : Bytes} {s : RequestParser × Bytes}
    (h : parseChunkedBodyIter (p, t) = .inr s) : p.parseChunkedBody t = s :=
  WhileLoop.total_inr h

theorem parseChunkedBodyIter_busy {p : RequestParser} {t : Bytes} (ht : t ≠ [])
    (hr : p.readingChunkData = true) :
    parseChunkedBodyIter (p, t)
      = (p.readChunkData t).1.finishChunk (p.readChunkData t).2 := by
  simp only [parseChunkedBodyIter, if_neg ht, if_pos hr]

theorem parseChunkedBodyIter_idle {p : RequestParser} {t : Bytes} (ht : t ≠ [])
    (hr : p.readingChunkData = false) :
    parseChunkedBodyIter (p, t) = p.startChunk t := by
  simp [parseChunkedBodyIter, ht, hr]

/-- A round leaves the rest of its bytes. -/
theorem parseChunkedBodyIter_suffix (s : RequestParser × Bytes) :
    ((parseChunkedBodyIter s).elim id id).2 <:+ s.2 := by
  obtain ⟨p, t⟩ := s
  simp only [parseChunkedBodyIter]
  split
  · exact List.suffix_rfl
  split
  · have hread : (p.readChunkData t).2 <:+ t := List.drop_suffix _ _
    simp only [finishChunk]
    split
    · split
      · exact hread
      · split
        · exact hread
        · exact (List.drop_suffix 2 _).trans hread
    · exact hread
  · have hline : t.drop (findLineEnd t) <:+ t := List.drop_suffix _ _
    simp only [startChunk]
    split
    · exact List.suffix_rfl
    split
    · exact List.suffix_rfl
    split
    · split
      · exact hline
      · split
        · exact hline
        · exact (List.drop_suffix 2 _).trans hline
    · exact hline

/-- What every round keeps, a call does. -/
theorem parseChunkedBody_keeps {I : RequestParser × Bytes → Prop}
    (hround : ∀ s, I s → I ((parseChunkedBodyIter s).elim id id)) {p : RequestParser} {t : Bytes}
    (h : I (p, t)) : I (p.parseChunkedBody t) := by
  refine WhileLoop.total_invariant ?_ ?_ h
  · intro s r hs hiter
    have hnext := hround s hs
    rw [hiter] at hnext
    exact hnext
  · intro s s' hs hiter
    have hnext := hround s hs
    rw [hiter] at hnext
    exact hnext

theorem parseChunkedBody_suffix (p : RequestParser) (t : Bytes) :
    (p.parseChunkedBody t).2 <:+ t :=
  parseChunkedBody_keeps (I := fun s => s.2 <:+ t)
    (fun s hs => (parseChunkedBodyIter_suffix s).trans hs) List.suffix_rfl

/-- The parser behind the size line of a chunk of `n` bytes. -/
def openChunk (p : RequestParser) (n : Nat) : RequestParser :=
  { p with currentChunkSize := n, currentChunkRead := 0, readingChunkData := true }

/-- The parser behind the CRLF of a chunk. -/
def closeChunk (p : RequestParser) : RequestParser :=
  { p with currentChunkRead := 0, currentChunkSize := 0, readingChunkData := false }

theorem InChunkedBody.openChunk {p : RequestParser} (hp : p.InChunkedBody) {n : Nat}
    (hpos : n ≠ 0) (hlt : n < word) : (p.openChunk n).InChunkedBody :=
  ⟨hp.state, hp.errorCode, hp.flag, hp.coding, (nomatch ·),
    fun _ => ⟨Nat.zero_le n, Nat.pos_of_ne_zero hpos, hlt⟩⟩

theorem InChunkedBody.closeChunk {p : RequestParser} (hp : p.InChunkedBody) :
    p.closeChunk.InChunkedBody :=
  ⟨hp.state, hp.errorCode, hp.flag, hp.coding, fun _ => ⟨rfl, rfl⟩, (nomatch ·)⟩

theorem InChunkedBody.logError_state {p : RequestParser} (hp : p.InChunkedBody)
    (code : Nat) : (p.logError code).state = .errorParse := by
  rw [logError, if_pos hp.errorCode]

theorem posOf_idle {p : RequestParser} (hr : p.readingChunkData = false) :
    p.posOf = .size [] := by
  simp [posOf, hr]

theorem posOf_openChunk (p : RequestParser) {n : Nat} (hpos : n ≠ 0) :
    (p.openChunk n).posOf = .data n n := by
  simp [posOf, RequestParser.openChunk, hpos.symm]

/-- With no chunk in progress the recorded size is already zero. -/
theorem InChunkedBody.set_size_zero {p : RequestParser} (hp : p.InChunkedBody)
    (hr : p.readingChunkData = false) : { p with currentChunkSize := 0 } = p := by
  have h0 := (hp.idle hr).1
  cases p
  simp only at h0
  rw [h0]

/-- A buffer that stops inside a size line. -/
theorem startChunk_noCrlf {p : RequestParser} {t : Bytes} (hno : NoCrlf t)
    (hne : t ≠ []) :
    p.startChunk t =
      match chunkSize t.dropLast with
      | none => .inr (p.logError 400, t)
      | some 0 => .inr ({ p with currentChunkSize := 0 }, t.drop (t.length - 1))
      | some n => .inl (p.openChunk n, t.drop (t.length - 1)) := by
  have hpos := List.length_pos_iff.mpr hne
  have hend : t.length - 1 ≠ t.length := by omega
  have hone : t.length - (t.length - 1) < 2 := by omega
  simp only [startChunk, findLineEnd_of_noCrlf hno, if_neg hend,
    ← List.dropLast_eq_take, List.length_drop, if_pos hone]
  cases chunkSize t.dropLast with
  | none => rfl
  | some n =>
      cases n with
      | zero => rfl
      | succ n => rfl

/-- A buffer whose first size line is complete. -/
theorem startChunk_crlf {p : RequestParser} {w u : Bytes} (hno : NoCrlf (w ++ [cr])) :
    p.startChunk (w ++ cr :: lf :: u) =
      if u = [] then .inr (p, w ++ [cr, lf])
      else
        match chunkSize (w ++ [cr, lf]) with
        | none => .inr (p.logError 400, w ++ cr :: lf :: u)
        | some 0 =>
            let p := { p with currentChunkSize := 0 }
            if u.length < 2 then .inr (p, u)
            else if u.take 2 ≠ [cr, lf] then .inr (p.logError 400, u)
            else .inr ({ p with state := .done }, u.drop 2)
        | some n => .inl (p.openChunk n, u) := by
  have hsplit : w ++ cr :: lf :: u = (w ++ [cr, lf]) ++ u := by simp
  have htake : (w ++ cr :: lf :: u).take (w.length + 2) = w ++ [cr, lf] := by
    rw [hsplit, List.take_left' (by simp)]
  have hdrop : (w ++ cr :: lf :: u).drop (w.length + 2) = u := by
    rw [hsplit, List.drop_left' (by simp)]
  have hlen : (w ++ cr :: lf :: u).length = w.length + 2 + u.length := by
    simp only [List.length_append, List.length_cons]
    omega
  simp only [startChunk, findLineEnd_crlf u hno, htake, hdrop, hlen]
  by_cases hu : u = []
  · simp [hu]
  · have hne : w.length + 2 ≠ w.length + 2 + u.length := by
      have := List.length_pos_iff.mpr hu
      omega
    rw [if_neg hne, if_neg hu]
    cases chunkSize (w ++ [cr, lf]) with
    | none => rfl
    | some n =>
        cases n with
        | zero => rfl
        | succ n => rfl

/-- The parser after copying `s` into the current chunk. -/
def fillChunk (p : RequestParser) (s : Bytes) : RequestParser :=
  { p with body := p.body ++ s, currentChunkRead := p.currentChunkRead + s.length }

/-- The bytes the current chunk still lacks. -/
def chunkLeft (p : RequestParser) : Nat := p.currentChunkSize - p.currentChunkRead

section Busy

variable {p : RequestParser} (hp : p.InChunkedBody) (hr : p.readingChunkData = true)
include hp hr

theorem InChunkedBody.readChunkData_eq (t : Bytes) :
    p.readChunkData t
      = (p.fillChunk (t.take p.chunkLeft), t.drop p.chunkLeft) := by
  obtain ⟨hle, -, hlt⟩ := hp.busy hr
  have hleft : wsub p.currentChunkSize p.currentChunkRead = p.chunkLeft :=
    wsub_of_le hle hlt
  simp only [readChunkData, hleft, fillChunk, List.length_take]
  rcases Nat.le_total p.chunkLeft t.length with h | h
  · rw [Nat.min_eq_left h]
  · rw [Nat.min_eq_right h, List.take_of_length_le (Nat.le_refl _),
      List.take_of_length_le h, List.drop_of_length_le (Nat.le_refl _),
      List.drop_of_length_le h]

theorem InChunkedBody.fillChunk {s : Bytes} (hs : s.length ≤ p.chunkLeft) :
    (p.fillChunk s).InChunkedBody := by
  obtain ⟨hle, hpos, hlt⟩ := hp.busy hr
  refine ⟨hp.state, hp.errorCode, hp.flag, hp.coding, fun h => ?_, fun _ => ⟨?_, hpos, hlt⟩⟩
  · exact absurd (h.symm.trans hr) (by decide)
  · simp only [chunkLeft, RequestParser.fillChunk] at hs ⊢
    omega

/-- Data copied in two parts is data copied at once. -/
theorem InChunkedBody.readChunkData_append (t b : Bytes) :
    (p.readChunkData t).1.readChunkData ((p.readChunkData t).2 ++ b)
      = p.readChunkData (t ++ b) := by
  have htake : (t.take p.chunkLeft).length ≤ p.chunkLeft := by
    rw [List.length_take]; exact Nat.min_le_left _ _
  have hfill := hp.fillChunk hr htake
  rw [hp.readChunkData_eq hr, hp.readChunkData_eq hr, hfill.readChunkData_eq hr]
  have hleft : (p.fillChunk (t.take p.chunkLeft)).chunkLeft
      = p.chunkLeft - (t.take p.chunkLeft).length := by
    simp only [chunkLeft, RequestParser.fillChunk]
    omega
  rw [hleft, List.length_take]
  show ((p.fillChunk _).fillChunk ((t.drop p.chunkLeft ++ b).take _),
    (t.drop p.chunkLeft ++ b).drop _) = _
  rcases Nat.le_total p.chunkLeft t.length with h | h
  · rw [Nat.min_eq_left h, Nat.sub_self, List.take_zero, List.drop_zero,
      List.take_append_of_le_length h, List.drop_append_of_le_length h]
    simp [RequestParser.fillChunk]
  · rw [Nat.min_eq_right h, List.drop_of_length_le h, List.take_of_length_le h,
      List.nil_append, List.take_append, List.drop_append, List.take_of_length_le h,
      List.drop_of_length_le h]
    simp [RequestParser.fillChunk, Nat.add_assoc]

theorem InChunkedBody.posOf_busy_feed (t : Bytes) :
    feed chunkSize p.posOf t
      = if t.length < p.chunkLeft then .data p.currentChunkSize (p.chunkLeft - t.length)
        else feed chunkSize (.dataEnd []) (t.drop p.chunkLeft) := by
  obtain ⟨hle, hpos, hlt⟩ := hp.busy hr
  by_cases heq : p.currentChunkRead = p.currentChunkSize
  · have h0 : p.chunkLeft = 0 := by simp only [chunkLeft]; omega
    rw [if_neg (by omega), h0, List.drop_zero]
    simp only [posOf, if_pos hr, if_pos heq]
  · have hpos' : 0 < p.chunkLeft := by simp only [chunkLeft]; omega
    have hpos_eq : p.posOf = .data p.currentChunkSize p.chunkLeft := by
      simp only [posOf, if_pos hr, if_neg heq, chunkLeft]
    rw [hpos_eq]
    split
    · rename_i hlt'
      exact feed_data_of_lt chunkSize hlt'
    · rename_i hge
      have hsplit : t = t.take p.chunkLeft ++ t.drop p.chunkLeft :=
        (List.take_append_drop _ _).symm
      have hlen : (t.take p.chunkLeft).length = p.chunkLeft := by
        rw [List.length_take]; omega
      calc feed chunkSize (.data p.currentChunkSize p.chunkLeft) t
          = feed chunkSize (feed chunkSize (.data p.currentChunkSize p.chunkLeft)
              (t.take p.chunkLeft)) (t.drop p.chunkLeft) := by
            rw [← feed_append, ← hsplit]
        _ = feed chunkSize (.dataEnd []) (t.drop p.chunkLeft) := by
            rw [feed_data_length chunkSize hlen hpos']

end Busy

/-- A buffer ending here leaves the decoder waiting with bytes unread. -/
def WaitsUnread : Pos → Prop
  | .size line => line ≠ [] ∧ chunkSize line.dropLast = some 0
  | .badSize => True
  | .data n left => left = n
  | .dataEnd got => got ≠ []
  | .last _ => True
  | .finished => False
  | .failed => False

/-- The stream may be cut here: not in a size line behind its first byte,
and not inside the CRLF of the last chunk. -/
def CutOk : Pos → Prop
  | .size line => line.length ≤ 1
  | .last got => got = []
  | _ => True

instance : DecidablePred CutOk := fun q => by
  cases q <;> unfold CutOk <;> infer_instance

instance : DecidablePred WaitsUnread := fun q => by
  cases q <;> unfold WaitsUnread <;> infer_instance

/-- What a round of `parse_chunked_body` does, whatever follows the
buffer. -/
inductive ChunkRound (p : RequestParser) (t : Bytes) : Prop where
  /-- a chunk or a size line is complete, and the loop goes on -/
  | more (p₁ : RequestParser) (t₁ : Bytes) (hp₁ : p₁.InChunkedBody)
      (hne : t₁ ≠ [] ∨ p₁.readingChunkData = false) (hlt : t₁.length < t.length)
      (hfeed : feed chunkSize p₁.posOf t₁ = feed chunkSize p.posOf t)
      (hiter : ∀ b, parseChunkedBodyIter (p, t ++ b) = .inl (p₁, t₁ ++ b))
  /-- the body is complete or refused -/
  | stop (p₁ : RequestParser) (t₁ : Bytes)
      (hstate : p₁.state = .done ∨ p₁.state = .errorParse)
      (hfeed : feed chunkSize p.posOf t = .finished ∨ feed chunkSize p.posOf t = .failed)
      (hiter : ∀ b, parseChunkedBodyIter (p, t ++ b) = .inr (p₁, t₁ ++ b))
  /-- the buffer ends where the decoder can be resumed -/
  | wait (p₁ : RequestParser) (t₁ : Bytes) (hp₁ : p₁.InChunkedBody)
      (hunread : t₁ ≠ [] ↔ WaitsUnread (feed chunkSize p.posOf t))
      (hcut : CutOk (feed chunkSize p.posOf t))
      (hfeed : feed chunkSize p₁.posOf t₁ = feed chunkSize p.posOf t)
      (hiter : parseChunkedBodyIter (p, t) = .inr (p₁, t₁))
      (hresume : ∀ b, b ≠ [] → p.parseChunkedBody (t ++ b) = p₁.parseChunkedBody (t₁ ++ b))
  /-- the buffer ends inside a size line, behind its first byte -/
  | unterminated (hr : p.readingChunkData = false) (hno : NoCrlf t) (hlen : 2 ≤ t.length)
  /-- the buffer ends inside the CRLF of the last chunk -/
  | lastByte (w : Bytes) (c : UInt8) (hr : p.readingChunkData = false)
      (ht : t = w ++ [cr, lf, c]) (hno : NoCrlf (w ++ [cr]))
      (hsize : chunkSize (w ++ [cr, lf]) = some 0)
      (hfeed : feed chunkSize p.posOf t = .last [c])
      (hiter : parseChunkedBodyIter (p, t) = .inr (p, [c]))

theorem eq_singleton_of_short {u : Bytes} (hne : u ≠ []) (hshort : u.length < 2) :
    ∃ c, u = [c] := by
  obtain ⟨c, u, rfl⟩ := List.exists_cons_of_ne_nil hne
  rw [List.length_cons] at hshort
  exact ⟨c, by rw [List.length_eq_zero_iff.mp (show u.length = 0 by omega)]⟩

theorem take_two_crlf {u : Bytes} (h : u.take 2 = [cr, lf]) :
    u = cr :: lf :: u.drop 2 := by
  rw [← List.take_append_drop 2 u, h]
  rfl

theorem take_two_append {u : Bytes} (b : Bytes) (h : ¬u.length < 2) :
    (u ++ b).take 2 = u.take 2 :=
  List.take_append_of_le_length (by omega)

/-- Two bytes that are no CRLF end the stream in `failed`. -/
theorem feed_crlf_failed {wait : Bytes → Pos} {next : Pos}
    (hstep : ∀ got c, step chunkSize (wait got) c = crlfStep got c wait next) {u : Bytes}
    (hlen : ¬u.length < 2) (hne : u.take 2 ≠ [cr, lf]) :
    feed chunkSize (wait []) u = .failed := by
  match u, hlen, hne with
  | [], hlen, _ => exact (hlen (by decide)).elim
  | [_], hlen, _ => exact (hlen (Nat.lt_succ_self 1)).elim
  | a :: b :: u, _, hne =>
      have hab : ¬(a = cr ∧ b = lf) := fun h => hne (by rw [h.1, h.2]; rfl)
      rw [feed_cons, hstep, crlfStep, feed_cons, hstep, crlfStep, if_neg hab, feed_failed]

theorem InChunkedBody.round_busy {p : RequestParser} (hp : p.InChunkedBody)
    (hr : p.readingChunkData = true) {t : Bytes} (ht : t ≠ []) : ChunkRound p t := by
  have hne : ∀ b, t ++ b ≠ [] := fun b h => ht (List.append_eq_nil_iff.mp h).1
  obtain ⟨hle, hpos, hlt⟩ := hp.busy hr
  have hfeed := hp.posOf_busy_feed hr t
  have hpos_t := List.length_pos_iff.mpr ht
  have htake : (t.take p.chunkLeft).length ≤ p.chunkLeft := by
    rw [List.length_take]; exact Nat.min_le_left _ _
  have hfill := hp.fillChunk hr htake
  have hresume : ∀ b, b ≠ [] → p.parseChunkedBody (t ++ b)
      = (p.fillChunk (t.take p.chunkLeft)).parseChunkedBody (t.drop p.chunkLeft ++ b) := by
    intro b hb
    have hne' : t.drop p.chunkLeft ++ b ≠ [] := fun h => hb (List.append_eq_nil_iff.mp h).2
    have hround : parseChunkedBodyIter (p.fillChunk (t.take p.chunkLeft),
        t.drop p.chunkLeft ++ b) = parseChunkedBodyIter (p, t ++ b) := by
      have happ := hp.readChunkData_append hr t b
      rw [hp.readChunkData_eq hr t] at happ
      rw [parseChunkedBodyIter_busy (p := p.fillChunk _) hne' hr,
        parseChunkedBodyIter_busy (hne b) hr, happ]
    cases hiter : parseChunkedBodyIter (p, t ++ b) with
    | inl s => rw [parseChunkedBody_inl hiter, parseChunkedBody_inl (hround.trans hiter)]
    | inr s => rw [parseChunkedBody_inr hiter, parseChunkedBody_inr (hround.trans hiter)]
  by_cases hpart : t.length < p.chunkLeft
  · -- the data of the chunk goes on behind the buffer
    have hread : (p.fillChunk (t.take p.chunkLeft)).currentChunkRead
        ≠ (p.fillChunk (t.take p.chunkLeft)).currentChunkSize := by
      simp only [RequestParser.fillChunk, List.length_take, chunkLeft] at hpart ⊢
      omega
    rw [if_pos hpart] at hfeed
    refine .wait _ _ hfill ?_ (by rw [hfeed]; trivial) ?_ ?_ hresume
    · rw [hfeed, List.drop_of_length_le (by omega)]
      simp only [WaitsUnread, ne_eq, not_true_eq_false, false_iff, chunkLeft]
      omega
    · rw [hfeed, List.drop_of_length_le (by omega), feed_nil]
      simp only [posOf, if_neg hread]
      rw [if_pos (show (p.fillChunk (t.take p.chunkLeft)).readingChunkData = true from hr)]
      simp only [RequestParser.fillChunk, List.length_take, chunkLeft] at hpart ⊢
      congr 1
      omega
    · rw [parseChunkedBodyIter_busy ht hr, hp.readChunkData_eq hr]
      simp only [finishChunk, if_neg hread]
  · -- the data of the chunk is complete
    have hread : (p.fillChunk (t.take p.chunkLeft)).currentChunkRead
        = (p.fillChunk (t.take p.chunkLeft)).currentChunkSize := by
      simp only [RequestParser.fillChunk, List.length_take, chunkLeft] at hpart ⊢
      omega
    rw [if_neg hpart] at hfeed
    have hposOf : (p.fillChunk (t.take p.chunkLeft)).posOf = .dataEnd [] := by
      simp only [posOf, if_pos hread]
      exact if_pos hr
    have hiter : ∀ b, parseChunkedBodyIter (p, t ++ b)
        = (p.fillChunk (t.take p.chunkLeft)).finishChunk (t.drop p.chunkLeft ++ b) := by
      intro b
      rw [parseChunkedBodyIter_busy (hne b) hr, hp.readChunkData_eq hr,
        List.take_append_of_le_length (by omega), List.drop_append_of_le_length (by omega)]
    have hiter0 := hiter []
    rw [List.append_nil, List.append_nil] at hiter0
    have hlen_u : (t.drop p.chunkLeft).length ≤ t.length := by
      rw [List.length_drop]; exact Nat.sub_le _ _
    generalize t.drop p.chunkLeft = u at *
    generalize p.fillChunk (t.take p.chunkLeft) = p₁ at *
    by_cases hshort : u.length < 2
    · have hcases : u = [] ∨ ∃ c, u = [c] := by
        by_cases hu : u = []
        · exact Or.inl hu
        · exact Or.inr (eq_singleton_of_short hu hshort)
      refine .wait p₁ u hfill ?_ ?_ (by rw [hposOf, hfeed]) ?_ hresume
      · rw [hfeed]
        rcases hcases with rfl | ⟨c, rfl⟩
        · simp [WaitsUnread]
        · simp [WaitsUnread, step, crlfStep]
      · rw [hfeed]
        rcases hcases with rfl | ⟨c, rfl⟩ <;> trivial
      · rw [hiter0]
        simp only [finishChunk, if_pos hread, if_pos hshort]
    · have hshort' : ∀ b, ¬(u ++ b).length < 2 := fun b => by
        rw [List.length_append]; omega
      by_cases hcrlf : u.take 2 = [cr, lf]
      · refine .more p₁.closeChunk (u.drop 2) hfill.closeChunk (Or.inr rfl) ?_ ?_ ?_
        · rw [List.length_drop]; omega
        · rw [hfeed, take_two_crlf hcrlf]
          simp [posOf, RequestParser.closeChunk, step, crlfStep]
        · intro b
          rw [hiter]
          simp only [finishChunk, if_pos hread, if_neg (hshort' b),
            take_two_append b hshort, hcrlf, ne_eq, not_true_eq_false, if_false]
          rw [List.drop_append_of_le_length (by omega)]
          rfl
      · refine .stop (p₁.logError 400) u (Or.inr (hfill.logError_state 400)) (Or.inr ?_) ?_
        · rw [hfeed]
          exact feed_crlf_failed (fun _ _ => rfl) hshort hcrlf
        · intro b
          rw [hiter]
          simp only [finishChunk, if_pos hread, if_neg (hshort' b),
            take_two_append b hshort, ne_eq, hcrlf, not_false_eq_true, if_true]

theorem InChunkedBody.round_idle {p : RequestParser} (hp : p.InChunkedBody)
    (hr : p.readingChunkData = false) {t : Bytes} (ht : t ≠ []) : ChunkRound p t := by
  have hiter : ∀ b, parseChunkedBodyIter (p, t ++ b) = p.startChunk (t ++ b) := fun b =>
    parseChunkedBodyIter_idle (fun h => ht (List.append_eq_nil_iff.mp h).1) hr
  have hiter0 := hiter []
  rw [List.append_nil] at hiter0
  rcases noCrlf_or_crlf t with hno | ⟨w, u, rfl, hno⟩
  · by_cases hlen : 2 ≤ t.length
    · exact .unterminated hr hno hlen
    · -- a single byte is left alone
      obtain ⟨c, rfl⟩ := eq_singleton_of_short ht (Nat.lt_of_not_le hlen)
      refine .wait p [c] hp ?_ ?_ rfl ?_ (fun b _ => rfl)
      · rw [posOf_idle hr]
        simp [WaitsUnread, step, chunkSize_nil]
      · rw [posOf_idle hr]
        simp [CutOk, step]
      · rw [hiter0, startChunk_noCrlf hno ht]
        simp [chunkSize_nil, hp.set_size_zero hr]
  · have hfeed := feed_size_crlf chunkSize u hno
    rw [← posOf_idle hr] at hfeed
    by_cases hu : u = []
    · -- the buffer ends with the size line, which is left for the next call
      subst hu
      refine .wait p _ hp ?_ ?_ rfl ?_ (fun b _ => rfl)
      · rw [hfeed, feed_nil]
        refine iff_of_true ht ?_
        unfold afterSize
        split
        · trivial
        · trivial
        · exact rfl
      · rw [hfeed, feed_nil]
        unfold afterSize
        split
        · trivial
        · exact rfl
        · trivial
      · rw [hiter0, startChunk_crlf hno, if_pos rfl]
    · have happ : ∀ b, w ++ cr :: lf :: u ++ b = w ++ cr :: lf :: (u ++ b) := fun b => by
        simp
      have hu' : ∀ b, u ++ b ≠ [] := fun b h => hu (List.append_eq_nil_iff.mp h).1
      have hlen_u : u.length < (w ++ cr :: lf :: u).length := by
        simp only [List.length_append, List.length_cons]; omega
      cases hsize : chunkSize (w ++ [cr, lf]) with
      | none =>
          refine .stop (p.logError 400) (w ++ cr :: lf :: u)
            (Or.inr (hp.logError_state 400)) (Or.inr ?_) ?_
          · rw [hfeed, afterSize, hsize]
            obtain ⟨c, u, rfl⟩ := List.exists_cons_of_ne_nil hu
            exact feed_failed chunkSize u
          · intro b
            rw [hiter, happ, startChunk_crlf hno, if_neg (hu' b), hsize]
      | some n =>
          cases n with
          | zero =>
              have hzero := hp.set_size_zero hr
              rw [afterSize, hsize] at hfeed
              by_cases hshort : u.length < 2
              · obtain ⟨c, rfl⟩ := eq_singleton_of_short hu hshort
                refine .lastByte w c hr rfl hno hsize hfeed ?_
                rw [hiter0, startChunk_crlf hno, if_neg hu, hsize]
                simp [hzero]
              · have hshort' : ∀ b, ¬(u ++ b).length < 2 := fun b => by
                  rw [List.length_append]; omega
                by_cases hcrlf : u.take 2 = [cr, lf]
                · refine .stop { p with currentChunkSize := 0, state := .done }
                    (u.drop 2) (Or.inl rfl) (Or.inl ?_) ?_
                  · rw [hfeed, take_two_crlf hcrlf]
                    simp [step, crlfStep]
                  · intro b
                    rw [hiter, happ, startChunk_crlf hno, if_neg (hu' b), hsize]
                    simp only [hzero, if_neg (hshort' b), take_two_append b hshort, hcrlf,
                      ne_eq, not_true_eq_false, if_false]
                    rw [List.drop_append_of_le_length (by omega)]
                · refine .stop (p.logError 400) u (Or.inr (hp.logError_state 400))
                    (Or.inr ?_) ?_
                  · rw [hfeed]
                    exact feed_crlf_failed (fun _ _ => rfl) hshort hcrlf
                  · intro b
                    rw [hiter, happ, startChunk_crlf hno, if_neg (hu' b), hsize]
                    simp only [hzero, if_neg (hshort' b), take_two_append b hshort, ne_eq,
                      hcrlf, not_false_eq_true, if_true]
          | succ n =>
              refine .more (p.openChunk (n + 1)) u
                (hp.openChunk (Nat.succ_ne_zero n) (chunkSize_lt hsize)) (Or.inl hu) hlen_u
                ?_ ?_
              · rw [hfeed, afterSize, hsize, posOf_openChunk p (Nat.succ_ne_zero n)]
                rfl
              · intro b
                rw [hiter, happ, startChunk_crlf hno, if_neg (hu' b), hsize]
                rfl

theorem InChunkedBody.round {p : RequestParser} (hp : p.InChunkedBody) {t : Bytes}
    (ht : t ≠ []) : ChunkRound p t := by
  cases hr : p.readingChunkData with
  | true => exact hp.round_busy hr ht
  | false => exact hp.round_idle hr ht

/-! ## Whole buffers -/

/-- A buffer cut where `CutOk` allows it can be parsed in two calls. -/
theorem InChunkedBody.parseChunkedBody_append {p : RequestParser} (hp : p.InChunkedBody)
    {t b : Bytes} (hcut : CutOk (feed chunkSize p.posOf t)) (hb : b ≠ []) :
    ((p.parseChunkedBody t).1.state = .body →
        (p.parseChunkedBody t).1.InChunkedBody
        ∧ feed chunkSize (p.parseChunkedBody t).1.posOf (p.parseChunkedBody t).2
          = feed chunkSize p.posOf t
        ∧ p.parseChunkedBody (t ++ b)
          = (p.parseChunkedBody t).1.parseChunkedBody ((p.parseChunkedBody t).2 ++ b))
      ∧ ((p.parseChunkedBody t).1.state ≠ .body →
        ((p.parseChunkedBody t).1.state = .done ∨ (p.parseChunkedBody t).1.state = .errorParse)
        ∧ p.parseChunkedBody (t ++ b)
          = ((p.parseChunkedBody t).1, (p.parseChunkedBody t).2 ++ b)) := by
  induction hn : t.length using Nat.strongRecOn generalizing p t with
  | ind n ih =>
      by_cases ht : t = []
      · subst ht
        rw [parseChunkedBody_nil]
        exact ⟨fun _ => ⟨hp, rfl, rfl⟩, fun h => absurd hp.state h⟩
      cases hp.round ht with
      | more p₁ t₁ hp₁ hne hlt hfeed hiter =>
          have hiter0 := hiter []
          rw [List.append_nil, List.append_nil] at hiter0
          rw [parseChunkedBody_inl hiter0, parseChunkedBody_inl (hiter b), ← hfeed]
          exact ih t₁.length (hn ▸ hlt) hp₁ (hfeed ▸ hcut) rfl
      | stop p₁ t₁ hstate hfeed hiter =>
          have hiter0 := hiter []
          rw [List.append_nil, List.append_nil] at hiter0
          rw [parseChunkedBody_inr hiter0, parseChunkedBody_inr (hiter b)]
          refine ⟨fun h => ?_, fun _ => ⟨hstate, rfl⟩⟩
          rcases hstate with h' | h' <;> cases h.symm.trans h'
      | wait p₁ t₁ hp₁ hunread _ hfeed hiter hresume =>
          rw [parseChunkedBody_inr hiter]
          exact ⟨fun _ => ⟨hp₁, hfeed, hresume b hb⟩, fun h => absurd hp₁.state h⟩
      | unterminated hr hno hlen =>
          rw [posOf_idle hr, feed_size_of_noCrlf chunkSize (fun c _ h => by simp at h) hno]
            at hcut
          simp only [CutOk, List.nil_append] at hcut
          omega
      | lastByte _ c hr _ _ _ hfeed hiter =>
          rw [hfeed] at hcut
          exact absurd hcut (List.cons_ne_nil c [])

/-- A chunk of which one byte has come. -/
theorem parseChunkedBody_openChunk_byte {p : RequestParser} (hp : p.InChunkedBody)
    {n : Nat} (hpos : n ≠ 0) (hlt : n < word) (c : UInt8) :
    (p.openChunk n).parseChunkedBody [c] = ((p.openChunk n).fillChunk [c], []) := by
  have hone : [c].length ≤ n := Nat.one_le_iff_ne_zero.mpr hpos
  have hiter := parseChunkedBodyIter_busy (p := p.openChunk n) (List.cons_ne_nil c []) rfl
  rw [(hp.openChunk hpos hlt).readChunkData_eq rfl,
    show (p.openChunk n).chunkLeft = n from rfl,
    List.drop_of_length_le hone, List.take_of_length_le hone] at hiter
  simp only [finishChunk, List.length_nil, Nat.zero_lt_two, if_true, ite_self] at hiter
  exact parseChunkedBody_inr hiter

/-- A call on a size line whose end has not come takes it for a whole one:
it is refused, or its last byte is left, or is the first of the chunk. -/
theorem InChunkedBody.parseChunkedBody_unterminated {p : RequestParser} (hp : p.InChunkedBody)
    (hr : p.readingChunkData = false) {t : Bytes} (hno : NoCrlf t) (hlen : 2 ≤ t.length) :
    ∃ c, (chunkSize t.dropLast = none ∧ p.parseChunkedBody t = (p.logError 400, t))
      ∨ (chunkSize t.dropLast = some 0 ∧ p.parseChunkedBody t = (p, [c]))
      ∨ ∃ m, chunkSize t.dropLast = some (m + 1)
        ∧ p.parseChunkedBody t = ((p.openChunk (m + 1)).fillChunk [c], []) := by
  have hnil : t ≠ [] := by
    rintro rfl
    exact absurd hlen (by decide)
  have hiter := (parseChunkedBodyIter_idle hnil hr).trans (startChunk_noCrlf hno hnil)
  obtain ⟨c, hc⟩ := eq_singleton_of_short (u := t.drop (t.length - 1))
    (fun h => by simp only [List.drop_eq_nil_iff] at h; omega)
    (by rw [List.length_drop]; omega)
  refine ⟨c, ?_⟩
  cases hsize : chunkSize t.dropLast with
  | none =>
      rw [hsize] at hiter
      exact Or.inl ⟨rfl, parseChunkedBody_inr hiter⟩
  | some m =>
      rw [hsize, hc] at hiter
      cases m with
      | zero =>
          simp only [hp.set_size_zero hr] at hiter
          exact Or.inr (Or.inl ⟨rfl, parseChunkedBody_inr hiter⟩)
      | succ m =>
          refine Or.inr (Or.inr ⟨m, rfl, (parseChunkedBody_inl hiter).trans ?_⟩)
          exact parseChunkedBody_openChunk_byte hp (Nat.succ_ne_zero m) (chunkSize_lt hsize) c

/-- A call leaves the decoder waiting with bytes unread exactly at the
ends `WaitsUnread` names, and then the next call on these bytes does so
too. -/
theorem InChunkedBody.parseChunkedBody_waits {p : RequestParser} (hp : p.InChunkedBody)
    {t : Bytes} (ht : t ≠ [] ∨ p.readingChunkData = false) :
    ((p.parseChunkedBody t).1.state = .body ∧ (p.parseChunkedBody t).2 ≠ []
        ↔ WaitsUnread (feed chunkSize p.posOf t))
      ∧ (WaitsUnread (feed chunkSize p.posOf t) →
        (p.parseChunkedBody t).1.InChunkedBody
        ∧ WaitsUnread (feed chunkSize (p.parseChunkedBody t).1.posOf
            (p.parseChunkedBody t).2)) := by
  induction hn : t.length using Nat.strongRecOn generalizing p t with
  | ind n ih =>
      by_cases hnil : t = []
      · subst hnil
        rw [parseChunkedBody_nil, posOf_idle (ht.resolve_left (fun h => h rfl))]
        simp [WaitsUnread]
      cases hp.round hnil with
      | more p₁ t₁ hp₁ hne hlt hfeed hiter =>
          have hiter0 := hiter []
          rw [List.append_nil, List.append_nil] at hiter0
          rw [parseChunkedBody_inl hiter0, ← hfeed]
          exact ih t₁.length (hn ▸ hlt) hp₁ hne rfl
      | stop p₁ t₁ hstate hfeed hiter =>
          have hiter0 := hiter []
          rw [List.append_nil, List.append_nil] at hiter0
          have hno : ¬WaitsUnread (feed chunkSize p.posOf t) := by
            rcases hfeed with h | h <;> rw [h] <;> exact id
          rw [parseChunkedBody_inr hiter0]
          refine ⟨iff_of_false (fun h => ?_) hno, fun h => absurd h hno⟩
          rcases hstate with h' | h' <;> cases h.1.symm.trans h'
      | wait p₁ t₁ hp₁ hunread _ hfeed hiter hresume =>
          rw [parseChunkedBody_inr hiter]
          exact ⟨⟨fun h => hunread.mp h.2, fun h => ⟨hp₁.state, hunread.mpr h⟩⟩,
            fun h => ⟨hp₁, hfeed ▸ h⟩⟩
      | unterminated hr hno hlen =>
          have hline : feed chunkSize p.posOf t = .size t := by
            rw [posOf_idle hr, feed_size_of_noCrlf chunkSize (fun c _ h => by simp at h) hno,
              List.nil_append]
          rw [hline]
          obtain ⟨c, ⟨hsize, hcall⟩ | ⟨hsize, hcall⟩ | ⟨m, hsize, hcall⟩⟩ :=
            hp.parseChunkedBody_unterminated hr hno hlen
          · have hno' : ¬WaitsUnread (.size t) := by simp [WaitsUnread, hsize]
            rw [hcall]
            refine ⟨iff_of_false (fun h => ?_) hno', fun h => absurd h hno'⟩
            exact absurd ((hp.logError_state 400).symm.trans h.1) (by decide)
          · rw [hcall, posOf_idle hr]
            have hone : feed chunkSize (.size []) [c] = .size [c] := by simp [step]
            exact ⟨iff_of_true ⟨hp.state, List.cons_ne_nil c []⟩ ⟨hnil, hsize⟩,
              fun _ => ⟨hp, by rw [hone]; exact ⟨List.cons_ne_nil c [], chunkSize_nil⟩⟩⟩
          · have hno' : ¬WaitsUnread (.size t) := by simp [WaitsUnread, hsize]
            rw [hcall]
            exact ⟨iff_of_false (fun h => h.2 rfl) hno', fun h => absurd h hno'⟩
      | lastByte _ c hr _ _ _ hfeed hiter =>
          have hone : feed chunkSize (.size []) [c] = .size [c] := by simp [step]
          rw [parseChunkedBody_inr hiter, hfeed, posOf_idle hr]
          exact ⟨iff_of_true ⟨hp.state, List.cons_ne_nil c []⟩ trivial,
            fun _ => ⟨hp, by rw [hone]; exact ⟨List.cons_ne_nil c [], chunkSize_nil⟩⟩⟩

/-- A call leaves the decoder in BODY, or it is over. -/
theorem InChunkedBody.parseChunkedBody_state {p : RequestParser} (hp : p.InChunkedBody)
    (t : Bytes) :
    (p.parseChunkedBody t).1.state = .body ∨ (p.parseChunkedBody t).1.state = .done
      ∨ (p.parseChunkedBody t).1.state = .errorParse := by
  induction hn : t.length using Nat.strongRecOn generalizing p t with
  | ind n ih =>
      by_cases hnil : t = []
      · rw [hnil, parseChunkedBody_nil]
        exact Or.inl hp.state
      cases hp.round hnil with
      | more p₁ t₁ hp₁ hne hlt hfeed hiter =>
          have hiter0 := hiter []
          rw [List.append_nil, List.append_nil] at hiter0
          rw [parseChunkedBody_inl hiter0]
          exact ih t₁.length (hn ▸ hlt) hp₁ t₁ rfl
      | stop p₁ t₁ hstate hfeed hiter =>
          have hiter0 := hiter []
          rw [List.append_nil, List.append_nil] at hiter0
          rw [parseChunkedBody_inr hiter0]
          exact Or.inr hstate
      | wait p₁ t₁ hp₁ _ _ _ hiter _ =>
          rw [parseChunkedBody_inr hiter]
          exact Or.inl hp₁.state
      | unterminated hr hno hlen =>
          obtain ⟨c, ⟨-, hcall⟩ | ⟨-, hcall⟩ | ⟨m, -, hcall⟩⟩ :=
            hp.parseChunkedBody_unterminated hr hno hlen
          · rw [hcall]
            exact Or.inr (Or.inr (hp.logError_state 400))
          · rw [hcall]
            exact Or.inl hp.state
          · rw [hcall]
            exact Or.inl hp.state
      | lastByte _ c hr _ _ _ _ hiter =>
          rw [parseChunkedBody_inr hiter]
          exact Or.inl hp.state

end RequestParser

end Webserv
