import Webserv.BodyLimit
import Webserv.CompleteRequest
import Webserv.ErrorAnswers
import Webserv.ParseErrors

/-!
# The counters of a body

Two differences of sizes tell how much of a body is still to come: of the
chunk size and what has been read of the chunk, and of the length and what
has been read of the body. Both are unsigned, and both sizes are the
client's to choose, up to the largest word. They do not wrap because the
counters never pass the sizes: `Counted` is what every parser in BODY has,
and what every call of `parse_body` keeps.
-/

namespace Webserv

open Bytes

namespace RequestParser

/-! ## Chunks -/

/-- No more has been read of the current chunk than its size, and nothing
while its size line is waited for. -/
structure ChunkCounted (p : RequestParser) : Prop where
  read : p.currentChunkRead ≤ p.currentChunkSize
  size : p.currentChunkSize < word
  idle : p.readingChunkData = false → p.currentChunkRead = 0

namespace ChunkCounted

variable {p : RequestParser}

theorem wsub (h : ChunkCounted p) : Bytes.wsub p.currentChunkSize p.currentChunkRead
    = p.currentChunkSize - p.currentChunkRead :=
  wsub_of_le h.read h.size

theorem logError (h : ChunkCounted p) (code : Nat) : ChunkCounted (p.logError code) := by
  unfold RequestParser.logError
  split
  · exact ⟨h.read, h.size, h.idle⟩
  · exact h

theorem readChunkData (h : ChunkCounted p) (hr : p.readingChunkData = true) (rest : Bytes) :
    ChunkCounted (p.readChunkData rest).1 := by
  refine ⟨?_, h.size, fun hidle => absurd (hr.symm.trans hidle) (by decide)⟩
  have hread := h.read
  have hcopied : min (Bytes.wsub p.currentChunkSize p.currentChunkRead) rest.length
      ≤ p.currentChunkSize - p.currentChunkRead := by
    rw [h.wsub]
    exact Nat.min_le_left _ _
  simp only [RequestParser.readChunkData]
  omega

/-- A round keeps the counters of its chunk, or has done with it. -/
theorem round {s : RequestParser × Bytes} (h : ChunkCounted s.1) :
    ChunkCounted ((parseChunkedBodyIter s).elim id id).1 := by
  obtain ⟨p, rest⟩ := s
  simp only [parseChunkedBodyIter]
  split
  · exact h
  split
  · rename_i hr
    have hread := h.readChunkData hr rest
    simp only [finishChunk]
    split
    · split
      · exact hread
      · split
        · exact hread.logError 400
        · exact ⟨Nat.le_refl 0, show 0 < word by decide, fun _ => rfl⟩
    · exact hread
  · rename_i hr
    have hzero : p.currentChunkRead = 0 := h.idle (Bool.not_eq_true _ ▸ hr)
    simp only [startChunk]
    split
    · exact h
    split
    · exact h.logError 400
    · rename_i parsed hsize
      have hsized : ChunkCounted { p with currentChunkSize := parsed } :=
        ⟨hzero ▸ Nat.zero_le parsed, chunkSize_lt hsize, h.idle⟩
      split
      · split
        · exact hsized
        · split
          · exact hsized.logError 400
          · exact ⟨hsized.read, hsized.size, hsized.idle⟩
      · exact ⟨Nat.zero_le parsed, hsized.size, fun _ => rfl⟩

/-- The counters in every round of the chunk loop. -/
theorem always (h : ChunkCounted p) (buffer : Bytes) :
    WhileLoop.Always parseChunkedBodyIter (fun s => ChunkCounted s.1 ∧ s.2 <:+ buffer)
      (p, buffer) := by
  refine WhileLoop.always_of_invariant ?_ ⟨h, List.suffix_rfl⟩
  intro s s' hs hiter
  have hcounted := hs.1.round
  have hrest := parseChunkedBodyIter_suffix s
  rw [hiter] at hcounted hrest
  exact ⟨hcounted, hrest.trans hs.2⟩

theorem parseChunkedBody (h : ChunkCounted p) (buffer : Bytes) :
    ChunkCounted (p.parseChunkedBody buffer).1 :=
  parseChunkedBody_keeps (I := fun s => ChunkCounted s.1) (fun _ hs => hs.round) h

theorem parseBody (h : ChunkCounted p) (buffer : Bytes) :
    ChunkCounted (p.parseBody buffer).1 := by
  have hheader (key : Bytes) : ChunkCounted (p.getHeaderValue key).1 := ⟨h.read, h.size, h.idle⟩
  simp only [RequestParser.parseBody]
  split
  · split
    · exact (hheader _).parseChunkedBody buffer
    · exact (hheader _).logError 501
  split
  · simp only [parseContentLengthBody]
    split
    · refine ChunkCounted.logError ?_ 400
      exact ⟨h.read, h.size, h.idle⟩
    · simp only [readBody]
      split
      · exact ⟨h.read, h.size, h.idle⟩
      · exact ⟨h.read, h.size, h.idle⟩
  · exact h

end ChunkCounted

/-- A parser that has not failed counts its chunks. -/
theorem callRule_chunkCounted : CallRule (fun q => Running q ∧ ChunkCounted q)
    (fun q => Settled q ∧ (q.state ≠ .errorParse → ChunkCounted q)) where
  zero _ hq := hq.1.1
  wait _ hq := ⟨.inl hq.1, fun _ => hq.2⟩
  go _ hq hstate := ⟨hq.1.running hstate, hq.2 hstate⟩
  error q code hq hcode := by
    have hfailed := failed_logError hq hcode
    exact ⟨.inr hfailed, fun hstate => absurd hfailed.state hstate⟩
  method _ _ hq := ⟨hq.1, hq.2.read, hq.2.size, hq.2.idle⟩
  line q method joined hq :=
    ⟨callRule_settled.line q method joined hq.1, hq.2.read, hq.2.size, hq.2.idle⟩
  field _ _ _ hq := ⟨hq.1, hq.2.read, hq.2.size, hq.2.idle⟩
  ended q state hstate hq :=
    ⟨callRule_settled.ended q state hstate hq.1, hq.2.read, hq.2.size, hq.2.idle⟩
  body q rest hq := ⟨settled_parseBody hq.1 rest, fun _ => hq.2.parseBody rest⟩

/-! ## Lengths -/

/-- No more has been read of the body than its length, which is recorded
with the first part of the body. -/
structure LengthCounted (p : RequestParser) : Prop where
  coding : p.hasTransferEncoding = false
  body : p.body.length ≤ p.declaredLength
  value : p.body = [] ∨ p.contentLengthValue = p.declaredLength

theorem parseContentLengthBody_counts {p : RequestParser}
    (h : p.body.length ≤ p.declaredLength) (rest : Bytes) :
    (p.parseContentLengthBody rest).1.hasTransferEncoding = p.hasTransferEncoding
      ∧ (p.parseContentLengthBody rest).1.body.length ≤ p.declaredLength
      ∧ (p.parseContentLengthBody rest).1.contentLengthValue = p.declaredLength := by
  have hsnd := getHeaderValue_snd p (lit "content-length")
  have hbody : (p.getHeaderValue (lit "content-length")).1.body = p.body := rfl
  simp only [parseContentLengthBody, hsnd]
  rw [← lengthField, ← declaredLength]
  split
  · unfold logError
    split
    · exact ⟨rfl, h, rfl⟩
    · exact ⟨rfl, h, rfl⟩
  · have hcopied : (p.body ++ rest.take (min (wsub p.declaredLength p.body.length)
        rest.length)).length ≤ p.declaredLength := by
      rw [wsub_of_le h (strtoul_lt 10 p.lengthField), List.length_append, List.length_take]
      omega
    simp only [readBody, hbody]
    split
    · exact ⟨rfl, hcopied, rfl⟩
    · exact ⟨rfl, hcopied, rfl⟩

theorem LengthCounted.parseBody {p : RequestParser} (h : LengthCounted p)
    (hlength : p.hasContentLength = true) (rest : Bytes) :
    LengthCounted (p.parseBody rest).1 := by
  have hdeclared : (p.parseBody rest).1.declaredLength = p.declaredLength := by
    rw [declaredLength, (framed_parseBody p rest).lengthField]
    rfl
  have hmain : p.parseBody rest = p.parseContentLengthBody rest := by
    rw [RequestParser.parseBody, if_neg (by rw [h.coding]; decide), if_pos hlength]
  obtain ⟨hcoding, hbody, hvalue⟩ := parseContentLengthBody_counts h.body rest
  rw [← hmain] at hcoding hbody hvalue
  exact ⟨hcoding.trans h.coding, hdeclared ▸ hbody, .inr (hvalue.trans hdeclared.symm)⟩

/-! ## Calls of `parse_body` -/

/-- The parser behind further calls with `buffers`. -/
def bodyCalls (p : RequestParser) (buffers : List Bytes) : RequestParser :=
  buffers.foldl (fun q buffer => (q.parseBody buffer).1) p

/-- Neither counter has passed its size. -/
structure Counted (p : RequestParser) : Prop where
  chunk : ChunkCounted p
  length : p.hasContentLength = true → LengthCounted p

namespace Counted

variable {p : RequestParser}

theorem parseBody (h : Counted p) (buffer : Bytes) : Counted (p.parseBody buffer).1 := by
  refine ⟨h.chunk.parseBody buffer, fun hlength => ?_⟩
  have hlength' := (framed_parseBody p buffer).hasContentLength.symm.trans hlength
  exact (h.length hlength').parseBody hlength' buffer

theorem bodyCalls (h : Counted p) (buffers : List Bytes) : Counted (p.bodyCalls buffers) := by
  induction buffers generalizing p with
  | nil => exact h
  | cons buffer buffers ih => exact ih (h.parseBody buffer)

end Counted

/-- A call leaves a rest of its buffer. -/
theorem parseBody_suffix (p : RequestParser) (buffer : Bytes) :
    (p.parseBody buffer).2 <:+ buffer := by
  simp only [parseBody]
  split
  · split
    · exact parseChunkedBody_suffix _ buffer
    · exact List.suffix_rfl
  split
  · simp only [parseContentLengthBody]
    split
    · exact List.suffix_rfl
    · exact List.drop_suffix _ _
  · exact List.suffix_rfl

end RequestParser

/-! ## Parsers of a connection -/

open RequestParser

theorem EntersBody.lengthCounted {p : RequestParser} (h : EntersBody p)
    (hlength : p.hasContentLength = true) : LengthCounted p := by
  refine ⟨(h.awaiting hlength).coding, ?_, .inl h.body⟩
  rw [h.body]
  exact Nat.zero_le _

namespace Connection

/-- A fresh parser behind a head that is routed. -/
theorem counted_routed {p : RequestParser} {request rest : Bytes}
    (hcrlf : (find doubleCrlf request).isSome)
    (hparse : ({} : RequestParser).parseRequest request = some (.returned p rest))
    {servers : ServerGroup} (hstate : (routed servers p).state = .body) :
    Counted (routed servers p) := by
  have hfresh : ChunkCounted {} := ⟨Nat.le_refl 0, by decide, fun _ => rfl⟩
  obtain ⟨hsettled, hchunk⟩ := callRule_chunkCounted.parseRequest ⟨running_fresh, hfresh⟩ hparse
  rcases hsettled with hrunning | hfailed
  · have hnone : p.locationConfig = none := (kept_parseRequest hparse).locationConfig
    rw [routed_state servers hrunning.1 hnone] at hstate
    split at hstate
    · rename_i hfound
      obtain ⟨cfg, l, heq⟩ := matchLocation_some hnone hfound
      have hcounted := hchunk hrunning.2
      rw [routed, if_pos hrunning.1, heq]
      refine ⟨⟨hcounted.read, hcounted.size, hcounted.idle⟩, fun hlength => ?_⟩
      obtain ⟨p₀, rest₀, -, henter, hlength₀, rfl⟩ :=
        parseRequest_headLength (infix_of_find hcrlf) hparse hrunning.1 hlength
      have hread : LengthCounted (if rest₀ = [] then p₀ else (p₀.parseBody rest₀).1) := by
        split
        · exact henter.lengthCounted hlength₀
        · exact (henter.lengthCounted hlength₀).parseBody hlength₀ rest₀
      exact ⟨hread.coding, hread.body, hread.value⟩
    · cases hstate
  · have hrefused : routed servers p = p := if_neg hfailed.error
    rw [hrefused, hfailed.state] at hstate
    cases hstate

variable {W : Type} {os : OS W} {c : Connection W}

theorem Reachable.counted (h : Reachable os c) :
    ParserHas (fun p => p.state = .body → Counted p) c := by
  induction h with
  | accepted garbage continueSent lastActivity fd fd' serverConfigs world =>
      intro p hp
      cases hp
  | tick _ htick ih =>
      refine ih.tick ?_ ?_ ?_ htick
      · intro p rest hcrlf hparse _ hstate
        exact counted_routed hcrlf hparse hstate
      · intro p p' rest hcounted _ hstate _ hparse _ _
        rw [RequestParser.parseRequest, if_pos hstate, Option.some.injEq,
          ParseExit.returned.injEq] at hparse
        exact hparse.1 ▸ (hcounted hstate).parseBody _
      · intro p hcounted hstate
        have hp := hcounted hstate
        exact ⟨⟨hp.chunk.read, hp.chunk.size, hp.chunk.idle⟩, fun hlength =>
          ⟨(hp.length hlength).coding, (hp.length hlength).body, (hp.length hlength).value⟩⟩

/-- The counters of a body never wrap. The connection may have any parser
in BODY, and `parse_body` is called with any buffers: no more is read of
the body than its length and of a chunk than its size, so that the
differences are those of numbers; all positions lie in the buffer, and the
chunk loop ends. -/
theorem bodyCounters_bounded (hreach : Reachable os c) {p : RequestParser}
    (hp : c.client.parser = some p) (hstate : p.state = .body) (buffers : List Bytes)
    (buffer : Bytes) {q : RequestParser} (hq : q = p.bodyCalls buffers) :
    (q.hasContentLength = true → q.body.length ≤ q.declaredLength
        ∧ q.body.length ≤ q.contentLengthValue
        ∧ wsub q.declaredLength q.body.length = q.declaredLength - q.body.length)
      ∧ WhileLoop.Always parseChunkedBodyIter (fun s =>
          s.1.currentChunkRead ≤ s.1.currentChunkSize
            ∧ wsub s.1.currentChunkSize s.1.currentChunkRead
              = s.1.currentChunkSize - s.1.currentChunkRead
            ∧ s.2 <:+ buffer) (q, buffer)
      ∧ (q.parseBody buffer).2 <:+ buffer
      ∧ WhileLoop.Halts parseChunkedBodyIter (q, buffer) := by
  have hcounted : Counted q := hq ▸ (hreach.counted p hp hstate).bodyCalls buffers
  refine ⟨fun hlength => ?_, ?_, parseBody_suffix q buffer, ?_⟩
  · have hread := hcounted.length hlength
    refine ⟨hread.body, ?_, wsub_of_le hread.body (strtoul_lt 10 q.lengthField)⟩
    rcases hread.value with hnil | hvalue
    · rw [hnil]
      exact Nat.zero_le _
    · exact hvalue ▸ hread.body
  · intro s hs
    obtain ⟨hchunk, hrest⟩ := hcounted.chunk.always buffer s hs
    exact ⟨hchunk.read, hchunk.wsub, hrest⟩
  · exact ⟨q.parseChunkedBody buffer, WhileLoop.exits_total⟩

/-- The head of a chunked request, with a part of the first chunk. -/
def chunkHead : Segment :=
  ⟨lit "POST / HTTP/1.1\r\nHost: a\r\nTransfer-Encoding: chunked\r\n\r\n5\r\nab", by decide +kernel⟩

/-- The parser behind it, and behind one more byte of the chunk. -/
def chunkParser : RequestParser :=
  (routed scriptServers (parsedTo {} chunkHead.val).1).bodyCalls [lit "c"]

theorem bodyCounters_bounded_chunk :
    chunkParser.currentChunkRead ≤ chunkParser.currentChunkSize
      ∧ (chunkParser.parseBody (lit "de\r\n0\r\n\r\nGET")).2 <:+ lit "de\r\n0\r\n\r\nGET" := by
  have hfacts : (find doubleCrlf chunkHead.val).isSome
      ∧ ({} : RequestParser).parseRequest chunkHead.val
        = some (.returned (parsedTo {} chunkHead.val).1 (parsedTo {} chunkHead.val).2)
      ∧ (routed scriptServers (parsedTo {} chunkHead.val).1).state = .body := by
    decide +kernel
  obtain ⟨-, halways, hrest, -⟩ := bodyCounters_bounded
    (reachable_headParsed hfacts.1 hfacts.2.1) rfl hfacts.2.2 [lit "c"]
    (lit "de\r\n0\r\n\r\nGET") (q := chunkParser) rfl
  exact ⟨(halways _ (.start _)).1, hrest⟩

end Connection

end Webserv
