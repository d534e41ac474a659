import Webserv.ChunkedBody
import Webserv.CrlfLines

/-!
# Chunked decoding undoes chunked encoding

A `Chunk` is written as its size line, its bytes and a CRLF. One chunk
takes the decoder two rounds, whatever its bytes are
(`parseChunkedBody_encode`), so a call on an encoded body returns behind
it with the bytes of all chunks (`parseRequest_encode`).
-/

namespace Webserv

open Bytes CrlfLines

/-- A chunk that is not the last one, with the digits of its size. -/
structure Chunk where
  digits : Bytes
  data : Bytes
  hex : ∀ c ∈ digits, isxdigit c = true
  size : number 16 digits = data.length
  fits : data.length < word
  nonempty : data ≠ []

def Chunk.encode (chunk : Chunk) : Bytes :=
  chunk.digits ++ [cr, lf] ++ chunk.data ++ [cr, lf]

/-- The size of the last chunk, in one or more digits. -/
def ZeroSize (zero : Bytes) : Prop := zero ≠ [] ∧ ∀ c ∈ zero, c = 48

/-- A chunked body, its last chunk with the size line `zero`. -/
def encodeChunks (chunks : List Chunk) (zero : Bytes) : Bytes :=
  (chunks.map Chunk.encode).flatten ++ zero ++ [cr, lf, cr, lf]

def chunksData (chunks : List Chunk) : Bytes := (chunks.map Chunk.data).flatten

/-! ## Size lines -/

theorem noCrlf_digits : ∀ {digits : Bytes}, (∀ c ∈ digits, isxdigit c = true) →
    IsLine digits
  | [], _ => trivial
  | [c], h => ⟨fun hc => absurd (hc.1 ▸ h c List.mem_cons_self) (by decide), trivial⟩
  | c :: d :: digits, h =>
      ⟨fun hc => absurd (hc.1 ▸ h c List.mem_cons_self) (by decide),
        noCrlf_digits fun e he => h e (List.mem_cons_of_mem c he)⟩

theorem trim_digits {digits : Bytes} (h : ∀ c ∈ digits, isxdigit c = true) :
    trim (lit "\r\n \t") (digits ++ [cr, lf]) = digits := by
  have hkeep : ∀ c ∈ digits, ¬decide (c ∈ lit "\r\n \t") = true := by
    intro c hc hmem
    have hspace : ∀ d ∈ lit "\r\n \t", isspace d = true := by decide +kernel
    have hc' := (isxdigit_not (h c hc)).2.1
    rw [hspace c (of_decide_eq_true hmem)] at hc'
    cases hc'
  have hend : digits.rdropWhile (fun c => decide (c ∈ lit "\r\n \t")) = digits :=
    List.rdropWhile_eq_self_iff.mpr fun hne => hkeep _ (List.getLast_mem hne)
  have hcrlf : (digits ++ [cr, lf]).rdropWhile (fun c => decide (c ∈ lit "\r\n \t")) = digits := by
    rw [show digits ++ [cr, lf] = (digits ++ [cr]) ++ [lf] by simp,
      List.rdropWhile_concat_pos _ _ _ (by decide), List.rdropWhile_concat_pos _ _ _ (by decide),
      hend]
  cases digits with
  | nil => decide
  | cons c digits =>
      rw [trim, List.cons_append, List.dropWhile_cons, if_neg (hkeep c List.mem_cons_self)]
      exact hcrlf

theorem ZeroSize.hex {zero : Bytes} (h : ZeroSize zero) : ∀ c ∈ zero, isxdigit c = true := by
  intro c hc
  rw [h.2 c hc]
  decide

theorem ZeroSize.number {zero : Bytes} (h : ZeroSize zero) : number 16 zero = 0 := by
  have hzero : ∀ zero : Bytes, (∀ c ∈ zero, c = 48) → Bytes.number 16 zero = 0 := by
    intro zero hzero
    induction zero with
    | nil => rfl
    | cons c zero ih =>
        obtain rfl := hzero c List.mem_cons_self
        exact ih fun d hd => hzero d (List.mem_cons_of_mem _ hd)
  exact hzero zero h.2

namespace RequestParser

theorem chunkSize_digits {digits : Bytes} (h : ∀ c ∈ digits, isxdigit c = true)
    (hlt : number 16 digits < word) :
    chunkSize (digits ++ [cr, lf]) = some (number 16 digits) := by
  rw [chunkSize, trim_digits h, strtoul_digits fun c hc => isDigit_sixteen (h c hc),
    signedValue_of_lt hlt]
  rfl

/-! ## Rounds -/

section Rounds

variable {p : RequestParser} (hidle : p.readingChunkData = false)
include hidle

theorem parseChunkedBodyIter_size (chunk : Chunk) {u : Bytes} (hu : u ≠ []) :
    parseChunkedBodyIter (p, chunk.digits ++ cr :: lf :: u)
      = .inl (p.openChunk chunk.data.length, u) := by
  have hsize := chunkSize_digits chunk.hex (by rw [chunk.size]; exact chunk.fits)
  rw [chunk.size] at hsize
  rw [parseChunkedBodyIter_idle (by simp) hidle, startChunk_crlf (noCrlf_digits chunk.hex),
    if_neg hu, hsize]
  have hpos := List.length_pos_iff.mpr chunk.nonempty
  split
  · rename_i heq
    cases heq
  · rename_i heq
    exact absurd (Option.some.inj heq) (Nat.ne_of_gt hpos)
  · rename_i n _ heq
    rw [Option.some.inj heq]

omit hidle in
/-- The bytes of a chunk are counted, so they may look like anything. -/
theorem parseChunkedBodyIter_data (chunk : Chunk) (u : Bytes) :
    parseChunkedBodyIter (p.openChunk chunk.data.length, chunk.data ++ cr :: lf :: u)
      = .inl (({ p with body := p.body ++ chunk.data } : RequestParser).closeChunk, u) := by
  have hleft : wsub chunk.data.length 0 = chunk.data.length :=
    wsub_of_le (Nat.zero_le _) chunk.fits
  have hmin : min chunk.data.length (chunk.data ++ cr :: lf :: u).length = chunk.data.length :=
    Nat.min_eq_left (by simp)
  have hread : (p.openChunk chunk.data.length).readChunkData (chunk.data ++ cr :: lf :: u)
      = ((p.openChunk chunk.data.length).fillChunk chunk.data, cr :: lf :: u) := by
    simp only [readChunkData, openChunk, hleft, hmin, List.take_left, List.drop_left, fillChunk]
  have hfull : ((p.openChunk chunk.data.length).fillChunk chunk.data).currentChunkRead
      = ((p.openChunk chunk.data.length).fillChunk chunk.data).currentChunkSize :=
    Nat.zero_add _
  have hlen : ¬(cr :: lf :: u).length < 2 := by simp
  rw [parseChunkedBodyIter_busy (by simp) rfl, hread]
  simp only [finishChunk, if_pos hfull, if_neg hlen]
  rfl

theorem parseChunkedBody_chunk (chunk : Chunk) (u : Bytes) :
    p.parseChunkedBody (chunk.encode ++ u)
      = ({ p with body := p.body ++ chunk.data } : RequestParser).closeChunk.parseChunkedBody
        u := by
  have hsplit : chunk.encode ++ u = chunk.digits ++ cr :: lf :: (chunk.data ++ cr :: lf :: u) := by
    simp [Chunk.encode]
  rw [hsplit, parseChunkedBody_inl (parseChunkedBodyIter_size hidle chunk (by simp)),
    parseChunkedBody_inl (parseChunkedBodyIter_data chunk u)]

theorem parseChunkedBody_zero {zero : Bytes} (h : ZeroSize zero) (rest : Bytes) :
    p.parseChunkedBody (zero ++ [cr, lf, cr, lf] ++ rest)
      = ({ p with currentChunkSize := 0, state := .done }, rest) := by
  have hsplit : zero ++ [cr, lf, cr, lf] ++ rest = zero ++ cr :: lf :: (cr :: lf :: rest) := by
    simp
  have hsize := chunkSize_digits h.hex (by rw [h.number]; decide)
  rw [h.number] at hsize
  refine parseChunkedBody_inr ?_
  rw [hsplit, parseChunkedBodyIter_idle (by simp) hidle, startChunk_crlf (noCrlf_digits h.hex),
    if_neg (by simp), hsize]
  have hlen : ¬(cr :: lf :: rest).length < 2 := by simp
  simp only [if_neg hlen]
  rfl

end Rounds

/-! ## The body -/

/-- The decoder on an encoded body, from any point between two chunks. -/
theorem parseChunkedBody_encode {zero : Bytes} (hzero : ZeroSize zero) (rest : Bytes) :
    ∀ (chunks : List Chunk) {p : RequestParser}, p.readingChunkData = false →
    ∃ q, p.parseChunkedBody (encodeChunks chunks zero ++ rest) = (q, rest) ∧ q.state = .done
      ∧ q.errorCode = p.errorCode ∧ q.body = p.body ++ chunksData chunks
  | [], p, hidle => by
      refine ⟨_, parseChunkedBody_zero hidle hzero rest, rfl, rfl, ?_⟩
      exact (List.append_nil p.body).symm
  | chunk :: chunks, p, hidle => by
      obtain ⟨q, hq, hstate, herr, hbody⟩ := parseChunkedBody_encode hzero rest chunks
        (p := ({ p with body := p.body ++ chunk.data } : RequestParser).closeChunk) rfl
      refine ⟨q, ?_, hstate, herr, ?_⟩
      · rw [← hq, ← parseChunkedBody_chunk hidle]
        simp [encodeChunks]
      · rw [hbody]
        exact List.append_assoc p.body chunk.data (chunksData chunks)

/-- A parser that is between two chunks of a chunked body. -/
structure BetweenChunks (p : RequestParser) : Prop where
  state : p.state = .body
  flag : p.hasTransferEncoding = true
  coding : p.headers.get? (lit "transfer-encoding") = some (lit "chunked")
  idle : p.readingChunkData = false

/-- One call on an encoded body decodes it, and leaves what is behind it
unread. -/
theorem parseRequest_encode {p : RequestParser} (hp : BetweenChunks p) (chunks : List Chunk)
    {zero : Bytes} (hzero : ZeroSize zero) (rest : Bytes) :
    ∃ q, p.parseRequest (encodeChunks chunks zero ++ rest) = some (.returned q rest)
      ∧ q.state = .done ∧ q.errorCode = p.errorCode ∧ q.body = p.body ++ chunksData chunks := by
  obtain ⟨q, hq, hresult⟩ := parseChunkedBody_encode hzero rest chunks hp.idle
  refine ⟨q, ?_, hresult⟩
  simp only [parseRequest, if_pos hp.state, parseBody_coding hp.flag hp.coding, hq]

/-- Two chunks whose sizes are written in different ways. The data of the
first looks like the last chunk. -/
def spellings : List Chunk :=
  [{ digits := lit "05", data := lit "0\r\n\r\n",
     hex := by decide +kernel, size := by decide +kernel,
     fits := by decide +kernel, nonempty := by decide +kernel },
   { digits := lit "A", data := lit "0123456789",
     hex := by decide +kernel, size := by decide +kernel,
     fits := by decide +kernel, nonempty := by decide +kernel }]

theorem parseRequest_encode_spellings :
    ∃ q, ({ state := .body
            hasTransferEncoding := true
            headers := OrdMap.empty.insert (lit "transfer-encoding") (lit "chunked") } :
          RequestParser).parseRequest (encodeChunks spellings (lit "00") ++ lit "GET")
        = some (.returned q (lit "GET"))
      ∧ q.state = .done ∧ q.errorCode = 0 ∧ q.body = [] ++ chunksData spellings :=
  parseRequest_encode ⟨rfl, rfl, by decide +kernel, rfl⟩ spellings
    (show ZeroSize (lit "00") from ⟨by decide +kernel, by decide +kernel⟩) (lit "GET")

end RequestParser

end Webserv
