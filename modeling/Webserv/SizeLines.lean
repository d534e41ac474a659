import Webserv.ChunkedCoding
import Webserv.RequestHead

/-!
# What the chunked decoder takes for a size line

A size line is trimmed and given to `strtoul`, which takes signs, a `0x`,
blanks, no digits at all and numbers that do not fit. A call accepts
nothing but chunked bodies if and only if none of the size lines it
reads is of this kind (`chunkedOnly_iff`).
-/

namespace Webserv

open Bytes CrlfLines

/-- A size line as the grammar has it: digits for a number that fits. -/
def SizeDigits (line : Bytes) : Prop :=
  line ≠ [] ∧ (∀ c ∈ line, isxdigit c = true) ∧ number 16 line < word

/-- The complete size lines a buffer has, each with what is behind its
CRLF. -/
inductive SizeLineAt : Bytes → Bytes → Bytes → Prop where
  | first {line behind : Bytes} (hline : IsLine line) (hbehind : behind ≠ []) :
      SizeLineAt (line ++ cr :: lf :: behind) line behind
  /-- behind a chunk of the size the first line has -/
  | next {line data buffer line' behind : Bytes} (hline : IsLine line)
      (hsize : RequestParser.chunkSize (line ++ [cr, lf]) = some data.length) (hdata : data ≠ [])
      (h : SizeLineAt buffer line' behind) :
      SizeLineAt (line ++ cr :: lf :: (data ++ cr :: lf :: buffer)) line' behind

/-- A call that is done has read a chunked body, and a size line that is
none is refused where it is. -/
structure ChunkedOnly (p : RequestParser) (buffer : Bytes) : Prop where
  done : (p.parseChunkedBody buffer).1.state = .done → ∃ chunks zero, ZeroSize zero
    ∧ buffer = encodeChunks chunks zero ++ (p.parseChunkedBody buffer).2
    ∧ (p.parseChunkedBody buffer).1.body = p.body ++ chunksData chunks
  refused : ∀ line behind, SizeLineAt buffer line behind → ¬SizeDigits line →
    (p.parseChunkedBody buffer).1.state = .errorParse
      ∧ (p.parseChunkedBody buffer).2 = line ++ cr :: lf :: behind

namespace RequestParser

/-- Between two chunks, without an error. -/
structure BeforeChunk (p : RequestParser) : Prop where
  state : p.state = .body
  errorCode : p.errorCode = 0
  idle : p.readingChunkData = false

variable {p : RequestParser}

theorem BeforeChunk.next (h : BeforeChunk p) (data : Bytes) :
    BeforeChunk ({ p with body := p.body ++ data } : RequestParser).closeChunk :=
  ⟨h.state, h.errorCode, rfl⟩

theorem BeforeChunk.refuses (h : BeforeChunk p) : (p.logError 400).state = .errorParse := by
  rw [logError, if_pos h.errorCode]

/-! ## The data of a chunk -/

theorem readChunkData_openChunk {n : Nat} (hlt : n < word) (u : Bytes) :
    (p.openChunk n).readChunkData u = ((p.openChunk n).fillChunk (u.take n), u.drop n) := by
  have hleft : wsub n 0 = n := wsub_of_le (Nat.zero_le n) hlt
  simp only [readChunkData, openChunk, hleft, fillChunk, List.length_take]
  rcases Nat.le_total n u.length with h | h
  · rw [Nat.min_eq_left h]
  · rw [Nat.min_eq_right h, List.take_of_length_le (Nat.le_refl _), List.take_of_length_le h,
      List.drop_of_length_le (Nat.le_refl _), List.drop_of_length_le h]

/-- How a call goes on behind a size line: it waits for the rest of the
chunk, finds no CRLF behind the data, or reads the next chunk. -/
inductive ChunkRead (p : RequestParser) (n : Nat) (u : Bytes) : Prop where
  | waits (h : ((p.openChunk n).parseChunkedBody u).1.state = p.state)
      (hno : ∀ data buffer, data.length = n → u ≠ data ++ cr :: lf :: buffer)
  | fails (data rest : Bytes) (hdata : data.length = n) (hu : u = data ++ rest)
      (hrest : rest.take 2 ≠ [cr, lf])
      (h : (p.openChunk n).parseChunkedBody u
        = (((p.openChunk n).fillChunk data).logError 400, rest))
  | reads (data buffer : Bytes) (hdata : data.length = n) (hu : u = data ++ cr :: lf :: buffer)
      (h : (p.openChunk n).parseChunkedBody u
        = ({ p with body := p.body ++ data } : RequestParser).closeChunk.parseChunkedBody buffer)

theorem chunkRead {n : Nat} (hlt : n < word) (u : Bytes) : ChunkRead p n u := by
  by_cases hnil : u = []
  · subst hnil
    refine .waits ?_ fun data buffer _ h => ?_
    · rw [parseChunkedBody_nil]
      rfl
    · have hlength := congrArg List.length h
      simp at hlength
  have hiter := parseChunkedBodyIter_busy (p := p.openChunk n) hnil rfl
  rw [readChunkData_openChunk hlt] at hiter
  have hread : ((p.openChunk n).fillChunk (u.take n)).currentChunkRead = (u.take n).length :=
    Nat.zero_add _
  have hsize : ((p.openChunk n).fillChunk (u.take n)).currentChunkSize = n := rfl
  simp only [finishChunk, hread, hsize, List.length_take] at hiter
  by_cases hshort : u.length < n
  · rw [if_neg (by omega)] at hiter
    refine .waits ?_ fun data buffer hdata h => ?_
    · rw [parseChunkedBody_inr hiter]
      rfl
    · have hlength := congrArg List.length h
      simp only [List.length_append, List.length_cons, hdata] at hlength
      omega
  have hdata : (u.take n).length = n := by
    rw [List.length_take]
    omega
  rw [if_pos (by omega)] at hiter
  by_cases hcut : (u.drop n).length < 2
  · rw [if_pos hcut] at hiter
    refine .waits ?_ fun data buffer hdata h => ?_
    · rw [parseChunkedBody_inr hiter]
      rfl
    · rw [h, ← hdata, List.drop_left] at hcut
      simp only [List.length_cons] at hcut
      omega
  rw [if_neg hcut] at hiter
  by_cases hcrlf : (u.drop n).take 2 = [cr, lf]
  · rw [if_neg (not_not.mpr hcrlf)] at hiter
    have hrest : u.drop n = cr :: lf :: (u.drop n).drop 2 := by
      conv_lhs => rw [← List.take_append_drop 2 (u.drop n), hcrlf]
      rfl
    refine .reads (u.take n) ((u.drop n).drop 2) hdata ?_ ?_
    · rw [← hrest, List.take_append_drop]
    · rw [parseChunkedBody_inl hiter]
      rfl
  · rw [if_pos hcrlf] at hiter
    exact .fails (u.take n) (u.drop n) hdata (List.take_append_drop n u).symm hcrlf
      (parseChunkedBody_inr hiter)

/-! ## The first size line -/

/-- The first line of a buffer is determined. -/
theorem first_line {line line' u u' : Bytes} (hline : IsLine line) (hline' : IsLine line')
    (h : line ++ cr :: lf :: u = line' ++ cr :: lf :: u') : line = line' ∧ u = u' := by
  have hend := findLineEnd_crlf u hline
  rw [h, findLineEnd_crlf u' hline'] at hend
  obtain ⟨hlines, hrest⟩ := List.append_inj h (by omega)
  exact ⟨hlines, (List.cons.inj (List.cons.inj hrest).2).2⟩

/-- A size line that is taken is left behind. -/
theorem sizeLineAt_taken {buffer line behind : Bytes} (h : SizeLineAt buffer line behind)
    {n : Nat} (hsize : chunkSize (line ++ [cr, lf]) = some n) :
    ∀ {p : RequestParser}, BeforeChunk p →
      (p.parseChunkedBody buffer).2.length < (line ++ cr :: lf :: behind).length := by
  induction h with
  | @first line behind hline hbehind =>
      intro p hp
      have hiter := parseChunkedBodyIter_idle (t := line ++ cr :: lf :: behind) (by simp) hp.idle
      rw [startChunk_crlf hline, if_neg hbehind, hsize] at hiter
      have hlonger : behind.length < (line ++ cr :: lf :: behind).length := by
        simp only [List.length_append, List.length_cons]
        omega
      refine Nat.lt_of_le_of_lt ?_ hlonger
      cases n with
      | zero =>
          simp only at hiter
          split at hiter
          · rw [parseChunkedBody_inr hiter]
          · split at hiter
            · rw [parseChunkedBody_inr hiter]
            · rw [parseChunkedBody_inr hiter]
              simp
      | succ n =>
          rw [parseChunkedBody_inl hiter]
          exact (parseChunkedBody_suffix _ _).length_le
  | @next line data buffer line' behind hline hsize' hdata _ ih =>
      intro p hp
      have hpos : data.length ≠ 0 := fun h => hdata (List.length_eq_zero_iff.mp h)
      have hiter := parseChunkedBodyIter_idle
        (t := line ++ cr :: lf :: (data ++ cr :: lf :: buffer)) (by simp) hp.idle
      rw [startChunk_crlf hline, if_neg (by simp), hsize'] at hiter
      have hopen : parseChunkedBodyIter (p, line ++ cr :: lf :: (data ++ cr :: lf :: buffer))
          = .inl (p.openChunk data.length, data ++ cr :: lf :: buffer) := by
        rw [hiter]
        split
        · rename_i heq
          cases heq
        · rename_i heq
          exact absurd (Option.some.inj heq) hpos
        · rename_i heq
          rw [Option.some.inj heq]
      rw [parseChunkedBody_inl hopen]
      cases chunkRead (p := p) (chunkSize_lt hsize') (data ++ cr :: lf :: buffer) with
      | waits _ hno => exact absurd rfl (hno data buffer rfl)
      | fails data' rest hdata' hu hrest _ =>
          obtain ⟨-, rfl⟩ := List.append_inj hu hdata'.symm
          simp at hrest
      | reads data' buffer' hdata' hu h =>
          obtain ⟨rfl, hbuffer⟩ := List.append_inj hu hdata'.symm
          obtain rfl := (List.cons.inj (List.cons.inj hbuffer).2).2
          rw [h]
          exact ih hsize (hp.next data)

/-! ## Chunked bodies -/

theorem xdigitVal_pos : ∀ {c : UInt8}, isxdigit c = true → xdigitVal c = 0 → c = 48 := by
  have hfin : ∀ n : Fin 256, isxdigit (UInt8.ofFin n) = true → xdigitVal (UInt8.ofFin n) = 0 →
      UInt8.ofFin n = 48 := by
    decide +kernel
  exact fun {c} => hfin c.toFin

theorem zeros_of_number : ∀ {digits : Bytes} {acc : Nat}, (∀ c ∈ digits, isxdigit c = true) →
    digits.foldl (fun value c => value * 16 + xdigitVal c) acc = 0 →
    acc = 0 ∧ ∀ c ∈ digits, c = 48
  | [], acc, _, h => ⟨h, fun c hc => by cases hc⟩
  | c :: digits, acc, hhex, h => by
      rw [List.foldl_cons] at h
      obtain ⟨hacc, hrest⟩ := zeros_of_number (fun d hd => hhex d (List.mem_cons_of_mem _ hd)) h
      have hzero : xdigitVal c = 0 := by omega
      refine ⟨by omega, fun d hd => ?_⟩
      rcases List.mem_cons.mp hd with rfl | hd
      · exact xdigitVal_pos (hhex d List.mem_cons_self) hzero
      · exact hrest d hd

theorem zeroSize_of_digits {line : Bytes} (h : SizeDigits line)
    (hzero : number 16 line = 0) : ZeroSize line :=
  ⟨h.1, (zeros_of_number h.2.1 hzero).2⟩

/-- `strtoul` takes digits only, or refuses, wherever the decoder reads a
size line. -/
def SizesPlain (buffer : Bytes) : Prop :=
  ∀ line behind, SizeLineAt buffer line behind →
    SizeDigits line ∨ chunkSize (line ++ [cr, lf]) = none

theorem not_sizeLineAt_noCrlf {buffer line behind : Bytes} (h : ChunkStream.NoCrlf buffer) :
    ¬SizeLineAt buffer line behind := by
  intro hline
  refine not_crlf_infix h ?_
  cases hline with
  | first => exact ⟨line, behind, List.append_assoc line [cr, lf] behind⟩
  | @next first data rest => exact ⟨first, _, List.append_assoc first [cr, lf] _⟩

/-- A buffer without a CRLF does not end a body. -/
theorem noCrlf_waits {buffer : Bytes} (hp : BeforeChunk p) (h : ChunkStream.NoCrlf buffer) :
    (p.parseChunkedBody buffer).1.state ≠ .done := by
  have hbody : p.state ≠ .done := by
    rw [hp.state]
    decide
  by_cases hnil : buffer = []
  · rw [hnil, parseChunkedBody_nil]
    exact hbody
  have hiter := (parseChunkedBodyIter_idle hnil hp.idle).trans (startChunk_noCrlf h hnil)
  cases hsize : chunkSize buffer.dropLast with
  | none =>
      rw [hsize] at hiter
      rw [parseChunkedBody_inr hiter, hp.refuses]
      decide
  | some n =>
      rw [hsize] at hiter
      cases n with
      | zero =>
          rw [parseChunkedBody_inr hiter]
          exact hbody
      | succ n =>
          rw [parseChunkedBody_inl hiter]
          have hone : (buffer.drop (buffer.length - 1)).length ≤ 1 := by
            rw [List.length_drop]
            omega
          cases chunkRead (p := p) (chunkSize_lt hsize) (buffer.drop (buffer.length - 1)) with
          | waits hstate =>
              rw [hstate]
              exact hbody
          | fails data rest _ _ _ heq =>
              rw [heq, logError, if_pos]
              · exact fun h => by cases h
              · exact hp.errorCode
          | reads data rest _ hu _ =>
              rw [hu] at hone
              simp only [List.length_append, List.length_cons] at hone
              omega

/-- A size line that is read at the first CRLF, or behind its chunk. -/
theorem sizeLineAt_line {line behind line' behind' : Bytes} (hline : IsLine line)
    (h : SizeLineAt (line ++ cr :: lf :: behind) line' behind') :
    (line' = line ∧ behind' = behind ∧ behind ≠ [])
      ∨ ∃ data buffer, behind = data ++ cr :: lf :: buffer ∧ data ≠ []
        ∧ chunkSize (line ++ [cr, lf]) = some data.length ∧ SizeLineAt buffer line' behind' := by
  generalize heq : line ++ cr :: lf :: behind = whole at h
  cases h with
  | first hline' hbehind =>
      obtain ⟨rfl, rfl⟩ := first_line hline hline' heq
      exact Or.inl ⟨rfl, rfl, hbehind⟩
  | next hline' hsize hdata h =>
      obtain ⟨rfl, rfl⟩ := first_line hline hline' heq
      exact Or.inr ⟨_, _, rfl, hdata, hsize, h⟩

theorem chunkedOnly_of_plain : ∀ (n : Nat) {p : RequestParser} {buffer : Bytes},
    buffer.length = n → BeforeChunk p → SizesPlain buffer → ChunkedOnly p buffer := by
  intro n
  induction n using Nat.strongRecOn with
  | ind n ih =>
  intro p buffer hn hp hplain
  have hbody : p.state ≠ .done := by
    rw [hp.state]
    decide
  rcases noCrlf_or_crlf buffer with hno | ⟨w, u, rfl, hw⟩
  · exact ⟨fun hdone => absurd hdone (noCrlf_waits hp hno),
      fun line behind h => absurd h (not_sizeLineAt_noCrlf hno)⟩
  have hiter := parseChunkedBodyIter_idle (t := w ++ cr :: lf :: u) (by simp) hp.idle
  rw [startChunk_crlf hw] at hiter
  by_cases hu : u = []
  · rw [if_pos hu] at hiter
    refine ⟨fun hdone => ?_, fun line behind h => ?_⟩
    · rw [parseChunkedBody_inr hiter] at hdone
      exact absurd hdone hbody
    · rcases sizeLineAt_line hw h with ⟨-, -, hne⟩ | ⟨data, buffer, hbehind, -⟩
      · exact absurd hu hne
      · rw [hu] at hbehind
        simp at hbehind
  rw [if_neg hu] at hiter
  have hfirst := hplain w u (.first hw hu)
  cases hsize : chunkSize (w ++ [cr, lf]) with
  | none =>
      rw [hsize] at hiter
      have herror := parseChunkedBody_inr hiter
      refine ⟨fun hdone => ?_, fun line behind h _ => ?_⟩
      · rw [herror, hp.refuses] at hdone
        cases hdone
      · rcases sizeLineAt_line hw h with ⟨rfl, rfl, -⟩ | ⟨data, buffer, -, -, hsome, -⟩
        · rw [herror]
          exact ⟨hp.refuses, rfl⟩
        · cases hsize.symm.trans hsome
  | some k =>
  have hdigits : SizeDigits w := hfirst.resolve_right fun h => by cases hsize.symm.trans h
  have hk : number 16 w = k :=
    Option.some.inj ((chunkSize_digits hdigits.2.1 hdigits.2.2).symm.trans hsize)
  rw [hsize] at hiter
  cases k with
  | zero =>
      have hrefused : ∀ line behind, SizeLineAt (w ++ cr :: lf :: u) line behind →
          ¬SizeDigits line → False := by
        intro line behind h hbad
        rcases sizeLineAt_line hw h with ⟨rfl, -, -⟩ | ⟨data, buffer, -, hdata, hsome, -⟩
        · exact hbad hdigits
        · have hlength := Option.some.inj (hsize.symm.trans hsome)
          exact hdata (List.length_eq_zero_iff.mp hlength.symm)
      refine ⟨fun hdone => ?_, fun line behind h hbad => (hrefused line behind h hbad).elim⟩
      simp only at hiter
      split at hiter
      · rw [parseChunkedBody_inr hiter] at hdone
        exact absurd hdone hbody
      · split at hiter
        · rw [parseChunkedBody_inr hiter, logError, if_pos hp.errorCode] at hdone
          cases hdone
        · rename_i hcrlf
          have hcrlf : u.take 2 = [cr, lf] := by simpa using hcrlf
          rw [parseChunkedBody_inr hiter]
          refine ⟨[], w, zeroSize_of_digits hdigits hk, ?_, (List.append_nil p.body).symm⟩
          have hrest : u = cr :: lf :: u.drop 2 := by
            conv_lhs => rw [← List.take_append_drop 2 u, hcrlf]
            rfl
          conv_lhs => rw [hrest]
          simp [encodeChunks]
  | succ k =>
      have hopen : p.parseChunkedBody (w ++ cr :: lf :: u)
          = (p.openChunk (k + 1)).parseChunkedBody u := parseChunkedBody_inl hiter
      have hbehind : ∀ line behind, SizeLineAt (w ++ cr :: lf :: u) line behind →
          ¬SizeDigits line → ∃ data buffer, u = data ++ cr :: lf :: buffer
            ∧ data.length = k + 1 ∧ SizeLineAt buffer line behind := by
        intro line behind h hbad
        rcases sizeLineAt_line hw h with ⟨rfl, -, -⟩ | ⟨data, buffer, hu', -, hsome, h⟩
        · exact absurd hdigits hbad
        · exact ⟨data, buffer, hu', (Option.some.inj (hsize.symm.trans hsome)).symm, h⟩
      cases chunkRead (p := p) (chunkSize_lt hsize) u with
      | waits hstate hno =>
          refine ⟨fun hdone => ?_, fun line behind h hbad => ?_⟩
          · rw [hopen, hstate] at hdone
            exact absurd hdone hbody
          · obtain ⟨data, buffer, hu', hdata, -⟩ := hbehind line behind h hbad
            exact absurd hu' (hno data buffer hdata)
      | fails data rest hdata hu' hrest heq =>
          refine ⟨fun hdone => ?_, fun line behind h hbad => ?_⟩
          · rw [hopen, heq, logError, if_pos] at hdone
            · cases hdone
            · exact hp.errorCode
          · obtain ⟨data', buffer, hu'', hdata', -⟩ := hbehind line behind h hbad
            obtain ⟨-, rfl⟩ := List.append_inj (hu'.symm.trans hu'') (hdata.trans hdata'.symm)
            simp at hrest
      | reads data buffer hdata hu' heq =>
          have hne : data ≠ [] := by
            rintro rfl
            cases hdata
          have hsize' : chunkSize (w ++ [cr, lf]) = some data.length := by rw [hdata, hsize]
          have hshort : buffer.length < n := by
            rw [← hn, hu']
            simp only [List.length_append, List.length_cons]
            omega
          have hrest := @ih buffer.length hshort _ buffer rfl (hp.next data)
            fun line behind h => hplain line behind (hu' ▸ .next hw hsize' hne h)
          refine ⟨fun hdone => ?_, fun line behind h hbad => ?_⟩
          · rw [hopen, heq] at hdone ⊢
            obtain ⟨chunks, zero, hzero, hbuffer, hdata'⟩ := hrest.done hdone
            have hfits : data.length < word := chunkSize_lt hsize'
            refine ⟨⟨w, data, hdigits.2.1, by rw [hk, hdata], hfits, hne⟩ :: chunks, zero, hzero,
              ?_, ?_⟩
            · conv_lhs => rw [hu', hbuffer]
              simp [encodeChunks, Chunk.encode]
            · rw [hdata']
              exact List.append_assoc p.body data (chunksData chunks)
          · obtain ⟨data', buffer', hu'', hdata', h⟩ := hbehind line behind h hbad
            obtain ⟨rfl, hbuffer⟩ := List.append_inj (hu'.symm.trans hu'')
              (hdata.trans hdata'.symm)
            obtain rfl := (List.cons.inj (List.cons.inj hbuffer).2).2
            rw [hopen, heq]
            exact hrest.refused line behind h hbad

/-- A call accepts chunked bodies only, and refuses the size lines that
are none, if and only if `strtoul` takes none but digits there. -/
theorem chunkedOnly_iff {p : RequestParser} (hp : BeforeChunk p) (buffer : Bytes) :
    ChunkedOnly p buffer ↔ SizesPlain buffer := by
  refine ⟨fun h line behind hline => ?_, chunkedOnly_of_plain _ rfl hp⟩
  by_cases hdigits : SizeDigits line
  · exact Or.inl hdigits
  refine Or.inr ?_
  cases hsize : chunkSize (line ++ [cr, lf]) with
  | none => rfl
  | some n =>
      have hstops := (h.refused line behind hline hdigits).2
      have htaken := sizeLineAt_taken hline hsize hp
      rw [hstops] at htaken
      exact absurd htaken (Nat.lt_irrefl _)

theorem chunkedOnly_iff_hello : ChunkedOnly { state := .body } (lit "5\r\nhello\r\n0\r\n\r\n")
    ↔ SizesPlain (lit "5\r\nhello\r\n0\r\n\r\n") :=
  chunkedOnly_iff ⟨rfl, rfl, rfl⟩ _

/-- A size line without digits ends the body. -/
theorem not_chunkedOnly :
    ¬∀ (p : RequestParser), BeforeChunk p → ∀ buffer, ChunkedOnly p buffer := by
  intro h
  have honly := h { state := .body } ⟨rfl, rfl, rfl⟩ (lit "\r\n\r\nGET")
  have hline : SizeLineAt (lit "\r\n\r\nGET") [] (lit "\r\nGET") :=
    @SizeLineAt.first [] _ trivial (by decide)
  have hstate := (honly.refused [] (lit "\r\nGET") hline fun hdigits => hdigits.1 rfl).1
  have hiter : parseChunkedBodyIter ({ state := .body }, lit "\r\n\r\nGET")
      = .inr ({ state := .done }, lit "GET") := by
    decide +kernel
  rw [parseChunkedBody_inr hiter] at hstate
  cases hstate

end RequestParser

end Webserv
