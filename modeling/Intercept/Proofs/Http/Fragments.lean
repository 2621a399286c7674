import Intercept.Proofs.Http.Place

/-!
# Fragmentation makes no difference

A request and its body are read off a stream whose bytes come in pieces. Where the pieces end does
not matter: two readers whose streams bring the same bytes in time, and then end, come to the same
head or the same refusal, write the same body, and leave the same bytes.

* `Reader.Supplied`: the stream brings all it has in time, and then its end.
* `Copying.Yields step b result left`: on a stream of the bytes `b`, `step` ends with `result` and
  leaves `left`. `Copying.Determined step b`: there is one such end.
* `TrailerLine`, `FramingLine`: the lines that stand between the data of a chunked body.

Results:
* `body_determined`: how copying a body ends, and what it leaves, is determined by the bytes.
* `fragments_read_alike`: so is all that comes of reading a request and copying its body.
-/

namespace Intercept.Http

/-! ## Streams that bring all they have -/

/-- The stream brings all it has in time, and then its end. -/
def Reader.Supplied (limit : Nat) (r : Reader) : Prop := r.Steady limit (r.bytes.length + 1)

namespace Copying

variable {α β : Type} {limit : Nat} {c : Copying}

/-- All there is comes in time, with the end behind it, and all of it is taken. -/
def Supplied (limit : Nat) (c : Copying) : Prop :=
  c.Ready limit (c.reader.bytes.length + 1) c.reader.bytes.length

/-! ## Steps that are determined by the bytes -/

/-- On a stream of the bytes `b` the step ends with `result` and leaves `left`. -/
def Yields (step : Nat → Copying → Copied α) (b : Bytes) (result : Except (Stop Error) α)
    (left : Bytes) : Prop :=
  ∀ ⦃limit : Nat⦄ ⦃c : Copying⦄, c.Supplied limit → c.reader.bytes = b →
    (step limit c).result = result ∧ (step limit c).state.reader.bytes = left

/-- The bytes determine how the step ends and what it leaves. -/
def Determined (step : Nat → Copying → Copied α) (b : Bytes) : Prop :=
  ∃ result left, Yields step b result left

variable {step : Nat → Copying → Copied α} {next : Nat → α → Copying → Copied β}
  {b front rest left : Bytes} {a : α} {s : Stop Error}

theorem Yields.determined {result : Except (Stop Error) α} (h : Yields step b result left) :
    Determined step b := ⟨result, left, h⟩

/-- A step that stops ends what was to come behind it. -/
theorem Yields.andThen_stop (h : Yields step b (.error s) left) :
    Determined (fun limit c => (step limit c).andThen (next limit)) b := by
  refine ⟨.error s, left, fun limit c hc hb => ?_⟩
  obtain ⟨hresult, hleft⟩ := h hc hb
  simp only [Copied.andThen, hresult]
  exact ⟨trivial, hleft⟩

/-- Behind a piece that is crossed the bytes that follow determine the rest. -/
theorem Crosses.determined (h : ∀ limit, Crosses limit (step limit) front a)
    (hnext : Determined (fun limit => next limit a) rest) :
    Determined (fun limit c => (step limit c).andThen (next limit)) (front ++ rest) := by
  obtain ⟨result, left, hyields⟩ := hnext
  refine ⟨result, left, fun limit c hc hb => ?_⟩
  rw [Supplied, hb, List.length_append, Nat.add_assoc] at hc
  obtain ⟨hresult, hready, hrest⟩ := h limit hc hb
  simp only [Copied.andThen, hresult]
  refine hyields ?_ hrest
  rw [Supplied, hrest]
  exact hready

/-! ## Lines and counted pieces -/

/-- Some bytes start with a line, or they hold no line feed. -/
theorem line_or_none (b : Bytes) : lf ∉ b ∨ ∃ l rest, IsLine l ∧ b = l ++ rest := by
  by_cases h : lf ∈ b
  · obtain ⟨front, rest, rfl, hfront⟩ := List.eq_append_cons_of_mem h
    exact .inr ⟨front ++ [lf], rest, ⟨front, hfront, rfl⟩, by simp⟩
  · exact .inl h

/-- A line that does not end is refused. -/
theorem line_yields (h : lf ∉ b) :
    Yields line b (.error (.failed
      (if mostInLine < b.length then .invalidRequest else .io .unexpectedEnd))) b := by
  rintro limit c hc rfl
  exact line_ended hc.steady h

/-- A counted piece that the stream ends in is refused. -/
theorem exact_yields {n : Nat} (h : b.length < n) :
    Yields (fun limit => exact limit n) b (.error (.failed (.io .unexpectedEnd))) [] := by
  rintro limit c hc rfl
  exact exact_ended hc h

end Copying

/-! ## Bodies -/

/-- The line `l` is one of the trailer lines at the front of some bytes. -/
inductive TrailerLine (l : Bytes) : Bytes → Prop
  | here {rest : Bytes} (line : IsLine l) : TrailerLine l (l ++ rest)
  | later {before rest : Bytes} (line : IsLine before) (more : ¬ LineEnd before)
      (h : TrailerLine l rest) : TrailerLine l (before ++ rest)

/-- The line `l` is one of those that frame the chunked body at the front of some bytes: it gives a
size, stands behind data, or is a trailer. The body need not be whole. -/
inductive FramingLine (l : Bytes) : Bytes → Prop
  | size {rest : Bytes} (line : IsLine l) : FramingLine l (l ++ rest)
  | ending {line data rest : Bytes} (size : TakenForSize data.length line) (some : data ≠ [])
      (ending : IsLine l) : FramingLine l (line ++ (data ++ (l ++ rest)))
  | later {line data behind rest : Bytes} (size : TakenForSize data.length line) (some : data ≠ [])
      (ending : IsLine behind) (h : FramingLine l rest) :
      FramingLine l (line ++ (data ++ (behind ++ rest)))
  | trailer {last rest : Bytes} (size : TakenForSize 0 last) (h : TrailerLine l rest) :
      FramingLine l (last ++ rest)

theorem IsLine.length_pos {l : Bytes} (h : IsLine l) : 0 < l.length := by
  obtain ⟨front, -, rfl⟩ := h
  rw [List.length_append]
  exact Nat.succ_pos _

namespace Copying

theorem trailers_determined (b : Bytes)
    (hlines : ∀ l, TrailerLine l b → l.length ≤ mostInLine + 1) : Determined trailers b := by
  rw [show trailers = _ from funext trailers_eq]
  rcases line_or_none b with hnone | ⟨l, rest, hl, rfl⟩
  · exact (line_yields hnone).andThen_stop
  refine Crosses.determined (fun limit => line_crosses limit hl (hlines l (.here hl))) ?_
  by_cases heol : l = [cr, lf] ∨ l = [lf]
  · simp only [if_pos heol]
    exact ⟨.ok (), rest, fun limit c _ hc => ⟨rfl, hc⟩⟩
  · simp only [if_neg heol]
    exact trailers_determined rest fun l' hl' =>
      hlines l' (.later hl (fun he => heol (lineEnd_iff.1 he)) hl')
termination_by b.length
decreasing_by
  subst b
  have := hl.length_pos
  rw [List.length_append]
  omega

theorem chunked_determined (b : Bytes)
    (hlines : ∀ l, FramingLine l b → l.length ≤ mostInLine + 1) : Determined chunked b := by
  induction hk : b.length using Nat.strongRecOn generalizing b with | ind k ih
  rw [show chunked = _ from funext chunked_eq]
  rcases line_or_none b with hnone | ⟨l, rest, hl, rfl⟩
  · exact (line_yields hnone).andThen_stop
  refine Crosses.determined (fun limit => line_crosses limit hl (hlines l (.size hl))) ?_
  cases hsize : chunkSize? l with
  | none => exact ⟨.error (.failed .invalidRequest), rest, fun limit c _ hc => ⟨rfl, hc⟩⟩
  | some n =>
    have htaken : TakenForSize n l := takenForSize_iff.2 ⟨hl, hsize⟩
    by_cases hn : n = 0
    · subst hn
      simp only [if_true]
      exact trailers_determined rest fun l' hl' => hlines l' (.trailer htaken hl')
    simp only [if_neg hn]
    by_cases hshort : rest.length < n
    · exact (exact_yields hshort).andThen_stop
    -- the data of the chunk is there in full
    obtain ⟨data, rest, rfl, rfl⟩ : ∃ data rest', data.length = n ∧ rest = data ++ rest' := by
      refine ⟨rest.take n, rest.drop n, ?_, (List.take_append_drop n rest).symm⟩
      exact List.length_take_of_le (by omega)
    have hdata : data ≠ [] := fun h0 => hn (congrArg List.length h0)
    refine Crosses.determined (fun limit => exact_crosses limit data) ?_
    rcases line_or_none rest with hnone | ⟨ending, rest, hending, rfl⟩
    · exact (line_yields hnone).andThen_stop
    have hshort := hlines ending (.ending htaken hdata hending)
    refine Crosses.determined (fun limit => line_crosses limit hending hshort) ?_
    have hlt : rest.length < k := by
      have := hl.length_pos
      simp only [← hk, List.length_append]
      omega
    exact ih _ hlt rest (fun l' hl' => hlines l' (.later htaken hdata hending hl')) rfl

/-- The bytes determine how copying a body ends and what it leaves, if no line of a chunked one is
too long. -/
theorem body_determined {framing : Framing} (b : Bytes)
    (hlines : framing = .chunked → ∀ l, FramingLine l b → l.length ≤ mostInLine + 1) :
    Determined (fun limit c => c.body limit framing) b := by
  cases framing with
  | empty => exact ⟨.ok (), b, fun limit c _ hc => ⟨rfl, hc⟩⟩
  | length n =>
    by_cases hshort : b.length < n
    · exact (exact_yields hshort).determined
    · refine ⟨.ok (), b.drop n, ?_⟩
      rintro limit c hc rfl
      have hready : c.Ready limit (n + 0) (n + 0) :=
        ⟨hc.steady.mono (by omega), hc.takes.mono (by omega)⟩
      have hdone := (exact_ready hready (by omega)).1
      exact ⟨hdone, (exact_bytes hdone).1⟩
  | chunked => exact chunked_determined b (hlines rfl)
  | untilClose =>
    refine ⟨.ok (), [], ?_⟩
    rintro limit c hc rfl
    exact toEnd_ready hc

end Copying

/-! ## A request and its body -/

/-- What reading a request comes to on a stream of the bytes `b`. -/
def requestOf (b : Bytes) : Except (Stop Error) Request :=
  match headEnd? b with
  | some n => (Request.ofRaw? (b.take n)).elim (.error (.failed .invalidRequest)) .ok
  | none => .error (.failed (if mostInHead < b.length then .headTooLarge else .invalidRequest))

/-- Reading a request off a stream that brings all it has goes by the bytes. -/
theorem Reader.readRequest_supplied {limit : Nat} {r : Reader} (h : r.Supplied limit)
    (hfits : ∀ n, headEnd? r.bytes = some n → n ≤ mostInHead) :
    (r.readRequest limit).result = requestOf r.bytes ∧
      (r.readRequest limit).reader.bytes = r.bytes.drop ((headEnd? r.bytes).getD 0) ∧
      ∀ q, requestOf r.bytes = .ok q → (r.readRequest limit).reader.Supplied limit := by
  rw [reader_readRequest, requestOf]
  cases hend : headEnd? r.bytes with
  | none =>
    obtain ⟨hresult, hbytes⟩ := readHead_ended .invalidRequest h hend
    refine ⟨?_, hbytes, fun q hq => by cases hq⟩
    unfold readRequest
    simp only [hresult]
  | some n =>
    have hn := (headEnd?_bounds hend).2
    have hwant : r.Steady limit (n + ((r.bytes.drop n).length + 1)) :=
      h.mono (by rw [List.length_drop]; omega)
    obtain ⟨hresult, hsteady, hbytes⟩ := readHead_steady .invalidRequest hwant hend (hfits n hend)
    refine ⟨readRequest_of_readHead hresult, hbytes, fun q _ => ?_⟩
    rw [Supplied, hbytes]
    exact hsteady

/-- **Fragmentation makes no difference.** Two streams that bring the same bytes in time and then
end, in whatever pieces, and a head that fits if there is one: reading a request comes to the same
head or the same refusal and leaves the same bytes. Copying the body that the head announces, to
sinks with room for it, then comes to the same end, has written the same bytes and leaves the same
bytes, if no line that frames a chunked body is too long. -/
theorem fragments_read_alike {limit limit' : Nat} {r r' : Reader} (hr : r.Supplied limit)
    (hr' : r'.Supplied limit') (hbytes : r.bytes = r'.bytes)
    (hfits : ∀ n, headEnd? r.bytes = some n → n ≤ mostInHead) :
    let head := r.readRequest limit
    let head' := r'.readRequest limit'
    head.result = head'.result ∧ head.reader.bytes = head'.reader.bytes ∧
    ∀ q, head.result = .ok q → ∀ sink sink' : Sink,
      sink.Takes head.reader.bytes.length → sink'.Takes head'.reader.bytes.length →
      (q.framing = .chunked →
        ∀ l, FramingLine l head.reader.bytes → l.length ≤ mostInLine + 1) →
      let body := Copying.body limit q.framing { reader := head.reader, sink := sink }
      let body' := Copying.body limit' q.framing { reader := head'.reader, sink := sink' }
      body.result = body'.result ∧ body.state.written = body'.state.written ∧
        body.state.reader.bytes = body'.state.reader.bytes := by
  intro head head'
  obtain ⟨hresult, hleft, hsupplied⟩ := Reader.readRequest_supplied hr hfits
  obtain ⟨hresult', hleft', hsupplied'⟩ := Reader.readRequest_supplied hr' (hbytes ▸ hfits)
  rw [hbytes] at hresult hleft hsupplied
  have hsame : head.reader.bytes = head'.reader.bytes := hleft.trans hleft'.symm
  refine ⟨hresult.trans hresult'.symm, hsame, fun q hq sink sink' hsink hsink' hlines => ?_⟩
  intro body body'
  have hok : requestOf r'.bytes = .ok q := hresult.symm.trans hq
  obtain ⟨result, left, hyields⟩ := Copying.body_determined head.reader.bytes hlines
  have hready : Copying.Supplied limit { reader := head.reader, sink := sink } :=
    ⟨hsupplied q hok, hsink⟩
  have hready' : Copying.Supplied limit' { reader := head'.reader, sink := sink' } :=
    ⟨hsupplied' q hok, hsink'⟩
  obtain ⟨hdone, hrest⟩ := hyields hready rfl
  obtain ⟨hdone', hrest'⟩ := hyields hready' hsame.symm
  have hbody : body.state.reader.bytes = body'.state.reader.bytes := hrest.trans hrest'.symm
  refine ⟨hdone.trans hdone'.symm, ?_, hbody⟩
  -- what was written and what is left are all there was, and the same is left
  have hkeeps : body.state.written ++ body.state.reader.bytes = head.reader.bytes :=
    (Copying.body_keeps hsink).bytes
  have hkeeps' : body'.state.written ++ body'.state.reader.bytes = head'.reader.bytes :=
    (Copying.body_keeps hsink').bytes
  rw [← hbody, ← hsame, ← hkeeps] at hkeeps'
  exact (List.append_cancel_right hkeeps').symm

theorem TrailerLine.length_le {l b : Bytes} (h : TrailerLine l b) : l.length ≤ b.length := by
  induction h with
  | here => simp
  | later _ _ _ ih => simp; omega

theorem FramingLine.length_le {l b : Bytes} (h : FramingLine l b) : l.length ≤ b.length := by
  induction h with
  | size => simp
  | ending => simp; omega
  | later _ _ _ _ ih => simp; omega
  | trailer _ h =>
    have := h.length_le
    simp
    omega

/-- A request with a chunked body. -/
def postRequest : Request where
  raw := ascii "POST / HTTP/1.1\r\nTransfer-Encoding: chunked\r\n\r\n"
  method := "POST".toList
  target := ['/']
  host := none
  framing := .chunked

/-- The request with its body and some bytes more. -/
def postBytes : Bytes := postRequest.raw ++ ascii "5;x\r\nhello\r\n0\r\n\r\nNEXT"

/-- Byte by byte a request and its chunked body are read as they are in one piece. -/
theorem fragments_read_alike_bytewise :
    let bytewise : Reader := { stream := .ofPieces (postBytes.map fun b => [b]) }
    let head := bytewise.readRequest 0
    let body := Copying.body 0 .chunked { reader := head.reader, sink := {} }
    head.result = .ok postRequest ∧ body.result = .ok () ∧
      body.state.written = ascii "5;x\r\nhello\r\n0\r\n\r\n" ∧
      body.state.reader.bytes = ascii "NEXT" := by
  intro bytewise head body
  let atOnce : Reader := { stream := .ofPieces [postBytes] }
  let whole := atOnce.readRequest 0
  have hwhole : whole.result = .ok postRequest := by decide +kernel
  have hleft : whole.reader.bytes = ascii "5;x\r\nhello\r\n0\r\n\r\nNEXT" := by decide +kernel
  have hatOnce : atOnce.Supplied 0 := Replay.Steady.ofPieces _
  have hbytewise : bytewise.Supplied 0 := Replay.Steady.ofPieces _
  obtain ⟨hhead, hsame, hbody⟩ :=
    fragments_read_alike hatOnce hbytewise (by decide +kernel) (by decide +kernel)
  obtain ⟨hresult, hwritten, hrest⟩ := hbody postRequest hwhole {} {} (.default _) (.default _)
    fun _ l hl => Nat.le_trans hl.length_le (by rw [hleft]; decide)
  exact ⟨hhead.symm.trans hwhole, hresult.symm.trans (by decide +kernel),
    hwritten.symm.trans (by decide +kernel), hrest.symm.trans (by decide +kernel)⟩

end Intercept.Http
