import Intercept.Proofs.Http.Chunks
import Intercept.Proofs.Http.HeadEnd
import Intercept.Proofs.Stream.Pace

/-!
# Reading and copying at a pace

What a reader and a copying step come to when the bytes that are waited for come in time and the
sink takes them. Where in the stream a piece ends, and where the next one begins, makes no
difference.

* `Reader.Steady limit want`: the stream brings what is missing of `want` bytes before the reader's
  waits are over, or all it has and then its end.
* `Copying.Ready limit want room`: so many bytes come in time, and so many are taken.
* `Copying.Crosses limit step front a`: where the bytes `front` come in time and are taken, `step`
  comes to `a` right behind them.

Results:
* `readHead_steady`, `readHead_ended`: a head that fits is cut off, and bytes that hold none are
  refused.
* `Crosses.andThen`: steps one behind the other cross pieces one behind the other.
* `exact_crosses`, `line_crosses`, `chunked_crosses`: counted pieces, lines and chunked bodies are
  crossed, if no line is too long.
* `exact_ended`, `line_ended`: a piece that the stream ends in is refused, in the one way that its
  bytes call for.
-/

namespace Intercept.Http

/-- Until when a wait that begins at `t` may last. -/
def latestWait (limit : Nat) (patience : Option Nat) (t : Nat) : Nat :=
  match patience with
  | some p => min (max t limit) (t + p)
  | none => max t limit

theorem le_latestWait (limit : Nat) (patience : Option Nat) (t : Nat) :
    t ≤ latestWait limit patience t := by
  cases patience <;> simp only [latestWait] <;> omega

theorem latestWait_mono (limit : Nat) (patience : Option Nat) {s t : Nat} (h : s ≤ t) :
    latestWait limit patience s ≤ latestWait limit patience t := by
  cases patience <;> simp only [latestWait] <;> omega

/-- The pace that a reader's waits allow. -/
def pace (limit : Nat) (patience : Option Nat) : Pace where
  latest := latestWait limit patience
  le_latest := le_latestWait limit patience
  mono := latestWait_mono limit patience

namespace Reader

/-- The stream brings what is missing of `want` bytes in time, or all it has and then its end. -/
def Steady (limit want : Nat) (r : Reader) : Prop :=
  r.stream.Steady (pace limit r.patience) r.now (want - r.buffer.length)

variable {limit want n : Nat} {r r' : Reader}

/-- What was read ahead is a part of all there is. -/
theorem length_buffer_le (r : Reader) : r.buffer.length ≤ r.bytes.length := by
  rw [Reader.bytes, List.length_append]
  exact Nat.le_add_right _ _

/-- The end is not found before all bytes were read. -/
theorem fill_ne_ended (h : r.buffer.length < r.bytes.length) : r.fill limit ≠ .ended r' := by
  intro hr
  have hended := bytes_of_fill_ended hr
  have hbytes : r'.bytes = r.bytes := bytes_of_fill hr
  rw [← hbytes, hended] at h
  exact Nat.lt_irrefl _ h

/-- When more is passed over than was read ahead, all that was read ahead is. -/
theorem buffer_skip (h : r.buffer.length ≤ n) : (r.skip n).buffer = [] := List.drop_eq_nil_of_le h

theorem length_bytes_skip (h : r.buffer.length ≤ n) :
    r.bytes.length = r.buffer.length + (r.skip n).bytes.length := by
  rw [Reader.bytes, Reader.bytes, buffer_skip h, List.nil_append, List.length_append]
  rfl

namespace Steady

theorem mono {fewer : Nat} (h : r.Steady limit want) (hle : fewer ≤ want) : r.Steady limit fewer :=
  Source.Steady.mono h (Nat.le_refl _) (by omega)

/-- Bytes that were read ahead are not waited for. -/
theorem skip (h : r.Steady limit (n + want)) (hle : n ≤ r.buffer.length) :
    (r.skip n).Steady limit want := by
  refine Source.Steady.mono h (Nat.le_refl _) ?_
  simp only [Reader.skip, List.length_drop]
  omega

theorem skip_all (h : r.Steady limit (r.buffer.length + want)) (hle : r.buffer.length ≤ n) :
    (r.skip n).Steady limit want := by
  rw [Steady, buffer_skip hle, List.length_nil, Nat.sub_zero]
  rwa [Steady, Nat.add_sub_cancel_left] at h

/-- Reading ahead keeps the pace. -/
theorem fill (h : r.Steady limit want) (hwant : r.buffer.length < want) :
    (∃ r', r.fill limit = .ended r') ∨ ∃ r', r.fill limit = .more r' ∧ r'.Steady limit want := by
  obtain ⟨⟨time, delivery, rest⟩, hread, hd⟩ := Replay.Steady.readBy h (by omega)
    (show 0 < readAhead by decide) (Nat.le_max_right r.now (r.deadline limit))
  unfold Reader.fill
  rw [hread]
  rcases hd with rfl | ⟨b, bs, rfl, hsteady⟩
  · exact .inl ⟨_, rfl⟩
  · refine .inr ⟨_, rfl, ?_⟩
    rw [Steady, List.length_append, Nat.sub_add_eq]
    exact hsteady

theorem more (h : r.Steady limit want) (hwant : r.buffer.length < want)
    (hr : r.fill limit = .more r') : r'.Steady limit want := by
  rcases h.fill hwant with ⟨r'', hr'⟩ | ⟨r'', hr', hsteady⟩
  · cases hr.symm.trans hr'
  · cases hr.symm.trans hr'
    exact hsteady

/-- No wait for bytes that come in time is cut off. -/
theorem fill_ne_stopped {s : Stop Error} (h : r.Steady limit want)
    (hwant : r.buffer.length < want) : r.fill limit ≠ .stopped s r' := by
  intro hr
  rcases h.fill hwant with ⟨r'', hr'⟩ | ⟨r'', hr', -⟩ <;> cases hr.symm.trans hr'

end Steady

/-- A short enough piece is read ahead at once. -/
theorem fill_piece {piece : Bytes} {pieces : List Bytes} (limit : Nat)
    (hstream : r.stream = .ofPieces (piece :: pieces)) (hne : piece ≠ [])
    (hshort : piece.length ≤ readAhead) :
    r.fill limit = .more { r with buffer := r.buffer ++ piece, stream := .ofPieces pieces } := by
  obtain ⟨buffer, stream, patience, now⟩ := r
  obtain rfl : stream = .ofPieces (piece :: pieces) := hstream
  obtain ⟨b, bs, rfl⟩ := List.exists_cons_of_ne_nil hne
  unfold fill
  rw [Replay.readBy_piece _ now pieces hne hshort]

/-! ## Heads -/

/-- A head that fits is cut off. -/
theorem readHead_steady (incomplete : Error) (h : r.Steady limit (n + want))
    (hend : headEnd? r.bytes = some n) (hfits : n ≤ mostInHead) :
    (r.readHead incomplete limit).result = .ok (r.bytes.take n) ∧
      (r.readHead incomplete limit).reader.Steady limit want ∧
      (r.readHead incomplete limit).reader.bytes = r.bytes.drop n := by
  fun_induction readHead incomplete limit r with
  | case1 r m hm =>
    obtain rfl : m = n := Option.some.inj ((headEnd?_append hm).symm.trans hend)
    have hle := (headEnd?_bounds hm).2
    refine ⟨by rw [Reader.bytes, List.take_append_of_le_length hle], ?_, ?_⟩
    · exact h.skip hle
    · rw [Reader.bytes, Reader.bytes, List.drop_append_of_le_length hle]
  | case2 r hnone hlarge =>
    have := length_buffer_lt hend hnone
    omega
  | case3 r hnone hlarge r' hr ih =>
    have hbytes : r'.bytes = r.bytes := bytes_of_fill hr
    have hlt := length_buffer_lt hend hnone
    rw [← hbytes] at hend ⊢
    exact ih (h.more (by omega) hr) hend
  | case4 r hnone hlarge r' hr =>
    have := (headEnd?_bounds hend).2
    have := length_buffer_lt hend hnone
    exact absurd hr (fill_ne_ended (by omega))
  | case5 r hnone hlarge s r' hr =>
    have := length_buffer_lt hend hnone
    exact absurd hr (h.fill_ne_stopped (by omega))

/-- Bytes that hold no head are refused, as too many or because the stream ends. -/
theorem readHead_ended (incomplete : Error) (h : r.Steady limit (r.bytes.length + 1))
    (hend : headEnd? r.bytes = none) :
    (r.readHead incomplete limit).result = .error (.failed
        (if mostInHead < r.bytes.length then .headTooLarge else incomplete)) ∧
      (r.readHead incomplete limit).reader.bytes = r.bytes := by
  fun_induction readHead incomplete limit r with
  | case1 r m hm => cases hend.symm.trans (headEnd?_append hm)
  | case2 r hnone hlarge =>
    have := r.length_buffer_le
    rw [if_pos (by omega)]
    exact ⟨rfl, rfl⟩
  | case3 r hnone hlarge r' hr ih =>
    have hbytes : r'.bytes = r.bytes := bytes_of_fill hr
    have := r.length_buffer_le
    have hsteady := h.more (by omega) hr
    rw [← hbytes] at hend hsteady ⊢
    exact ih hsteady hend
  | case4 r hnone hlarge r' hr =>
    have hbytes : r'.bytes = r.bytes := bytes_of_fill hr
    rw [← hbytes, bytes_of_fill_ended hr, if_neg hlarge]
    exact ⟨rfl, rfl⟩
  | case5 r hnone hlarge s r' hr =>
    have := r.length_buffer_le
    exact absurd hr (h.fill_ne_stopped (by omega))

/-- What is left behind a request head is what is left behind any head. -/
theorem reader_readRequest (limit : Nat) (r : Reader) :
    (r.readRequest limit).reader = (r.readHead .invalidRequest limit).reader := by
  unfold readRequest
  simp only
  split <;> rfl

theorem reader_readResponse (headRequest : Bool) (limit : Nat) (r : Reader) :
    (r.readResponse headRequest limit).reader = (r.readHead .invalidResponse limit).reader := by
  unfold readResponse
  simp only
  split <;> rfl

/-- A head that was cut off is all that a response is read from. -/
theorem readResponse_of_readHead {headRequest : Bool} {raw : Bytes}
    (h : (r.readHead .invalidResponse limit).result = .ok raw) :
    (r.readResponse headRequest limit).result =
      (Response.ofRaw? headRequest raw).elim (.error (.failed .invalidResponse)) .ok := by
  unfold readResponse
  simp only
  rw [h]

end Reader

/-! ## Copying -/

/-- A step and, when it is done, another one behind it. -/
def Copied.andThen {α β : Type} (first : Copied α) (next : α → Copying → Copied β) : Copied β :=
  match first.result with
  | .ok a => next a first.state
  | .error s => ⟨.error s, first.state⟩

namespace Copying

/-- So many bytes come in time, and so many are taken. -/
structure Ready (limit want room : Nat) (c : Copying) : Prop where
  steady : c.reader.Steady limit want
  takes : c.sink.Takes room

variable {limit want room n : Nat} {c : Copying}

/-- Where the bytes `front` come in time and are taken, the step comes to `a` right behind them. -/
def Crosses {α : Type} (limit : Nat) (step : Copying → Copied α) (front : Bytes) (a : α) : Prop :=
  ∀ ⦃c : Copying⦄ ⦃want room : Nat⦄ ⦃rest : Bytes⦄,
    c.Ready limit (front.length + want) (front.length + room) → c.reader.bytes = front ++ rest →
      (step c).result = .ok a ∧ (step c).state.Ready limit want room ∧
        (step c).state.reader.bytes = rest

theorem Crosses.done {α : Type} (limit : Nat) (a : α) :
    Crosses limit (fun c => ⟨.ok a, c⟩) [] a := by
  intro c want room rest hready hbytes
  rw [List.length_nil, Nat.zero_add, Nat.zero_add] at hready
  exact ⟨rfl, hready, hbytes⟩

/-- Steps one behind the other cross pieces one behind the other. -/
theorem Crosses.andThen {α β : Type} {step : Copying → Copied α} {next : α → Copying → Copied β}
    {front front' : Bytes} {a : α} {b : β} (h : Crosses limit step front a)
    (h' : Crosses limit (next a) front' b) :
    Crosses limit (fun c => (step c).andThen next) (front ++ front') b := by
  intro c want room rest hready hbytes
  rw [List.length_append, Nat.add_assoc, Nat.add_assoc] at hready
  obtain ⟨hfirst, hready, hbytes⟩ := h hready (by rw [hbytes, List.append_assoc])
  simp only [Copied.andThen, hfirst]
  exact h' hready hbytes

/-- An offer that the sink has room for does not fail. -/
theorem put_takes {bytes : Bytes} (h : c.sink.Takes (bytes.length + room)) :
    (c.put bytes).result = .ok () ∧ (c.put bytes).state.sink.Takes room := by
  obtain ⟨hfault, htakes⟩ := h.writeAll (Nat.le_add_right _ _)
  refine ⟨?_, by rwa [Nat.add_sub_cancel_left] at htakes⟩
  unfold put
  simp only [hfault]

/-- A piece that is there in full is copied. -/
theorem exact_ready (h : c.Ready limit (n + want) (n + room)) (hbytes : n ≤ c.reader.bytes.length) :
    (c.exact limit n).result = .ok () ∧ (c.exact limit n).state.Ready limit want room := by
  have hput (n : Nat) (c : Copying) (h : c.sink.Takes (n + room)) :
      (c.put (c.reader.buffer.take n)).result = .ok () ∧
        (c.put (c.reader.buffer.take n)).state.sink.Takes (n - c.reader.buffer.length + room) :=
    put_takes (h.mono (by rw [List.length_take]; omega))
  fun_induction exact limit n c with
  | case1 n c done s hs =>
    cases hs.symm.trans (hput n c h.takes).1
  | case2 n c done _ hu left reader hl =>
    refine ⟨rfl, h.steady.skip (by omega), ?_⟩
    have htakes := (hput n c h.takes).2
    rwa [show n - c.reader.buffer.length = 0 from hl, Nat.zero_add] at htakes
  | case3 n c done _ hu left reader hl r hr ih =>
    have hle : c.reader.buffer.length ≤ n := by omega
    have hempty : reader.buffer.length = 0 := congrArg List.length (Reader.buffer_skip hle)
    have hlength : c.reader.bytes.length = c.reader.buffer.length + reader.bytes.length :=
      Reader.length_bytes_skip hle
    have hfill : (done.state.resume r).reader.bytes = reader.bytes := Reader.bytes_of_fill hr
    have hsteady : reader.Steady limit (left + want) :=
      (h.steady.mono (by omega)).skip_all hle
    refine ih ⟨hsteady.more (by omega) hr, (hput n c h.takes).2⟩ ?_
    rw [hfill]
    omega
  | case4 n c done _ hu left reader hl r hr =>
    have hle : c.reader.buffer.length ≤ n := by omega
    have hempty : reader.buffer.length = 0 := congrArg List.length (Reader.buffer_skip hle)
    have hlength : c.reader.bytes.length = c.reader.buffer.length + reader.bytes.length :=
      Reader.length_bytes_skip hle
    exact absurd hr (Reader.fill_ne_ended (by omega))
  | case5 n c done _ hu left reader hl s r hr =>
    have hle : c.reader.buffer.length ≤ n := by omega
    have hempty : reader.buffer.length = 0 := congrArg List.length (Reader.buffer_skip hle)
    have hsteady : reader.Steady limit (left + want) :=
      (h.steady.mono (by omega)).skip_all hle
    exact absurd hr (hsteady.fill_ne_stopped (by omega))

/-- A counted piece is crossed. -/
theorem exact_crosses (limit : Nat) (front : Bytes) :
    Crosses limit (exact limit front.length) front () := by
  intro c want room rest h hbytes
  obtain ⟨hdone, hready⟩ :=
    exact_ready h (by rw [hbytes, List.length_append]; exact Nat.le_add_right _ _)
  refine ⟨hdone, hready, ?_⟩
  rw [(exact_bytes hdone).1, hbytes, List.drop_left]

/-- A piece that the stream ends in is copied as far as it goes, and refused. -/
theorem exact_ended (h : c.Ready limit (c.reader.bytes.length + 1) c.reader.bytes.length)
    (hshort : c.reader.bytes.length < n) :
    (c.exact limit n).result = .error (.failed (.io .unexpectedEnd)) ∧
      (c.exact limit n).state.reader.bytes = [] := by
  have hput (n : Nat) (c : Copying) (h : c.sink.Takes c.reader.bytes.length)
      (hshort : c.reader.bytes.length < n) :
      (c.put (c.reader.buffer.take n)).result = .ok () ∧
        (c.put (c.reader.buffer.take n)).state.sink.Takes c.reader.stream.bytes.length := by
    refine put_takes (h.mono ?_)
    rw [List.length_take, Reader.bytes, List.length_append]
    omega
  fun_induction exact limit n c with
  | case1 n c done s hs =>
    cases hs.symm.trans (hput n c h.takes hshort).1
  | case2 n c done _ hu left reader hl =>
    have := c.reader.length_buffer_le
    omega
  | case3 n c done _ hu left reader hl r hr ih =>
    have hle : c.reader.buffer.length ≤ n := by omega
    have hempty : reader.buffer = [] := Reader.buffer_skip hle
    have hbytes : reader.bytes = c.reader.stream.bytes := by
      rw [Reader.bytes, hempty, List.nil_append]
      rfl
    have hlength : c.reader.bytes.length = c.reader.buffer.length + reader.bytes.length :=
      Reader.length_bytes_skip hle
    have hfill : (done.state.resume r).reader.bytes = reader.bytes := Reader.bytes_of_fill hr
    have hsteady : reader.Steady limit (reader.bytes.length + 1) :=
      (h.steady.mono (by omega)).skip_all hle
    rw [hfill] at ih
    refine ih ⟨hsteady.more ?_ hr, ?_⟩ (by omega)
    · rw [hempty]
      exact Nat.succ_pos _
    · rw [hbytes]
      exact (hput n c h.takes hshort).2
  | case4 n c done _ hu left reader hl r hr =>
    have hle : c.reader.buffer.length ≤ n := by omega
    refine ⟨rfl, ?_⟩
    rw [← Reader.buffer_skip hle]
    exact Reader.bytes_of_fill_ended hr
  | case5 n c done _ hu left reader hl s r hr =>
    have hle : c.reader.buffer.length ≤ n := by omega
    have hsteady : reader.Steady limit 1 := (h.steady.mono ?_).skip_all hle
    · refine absurd hr (hsteady.fill_ne_stopped ?_)
      rw [show reader.buffer = [] from Reader.buffer_skip hle]
      exact Nat.one_pos
    · have := c.reader.length_buffer_le
      omega

/-- A line that is not too long is crossed. -/
theorem line_crosses {l : Bytes} (limit : Nat) (hl : IsLine l)
    (hshort : l.length ≤ mostInLine + 1) : Crosses limit (line limit) l l := by
  intro c want room rest h hbytes
  -- as long as no line feed was read, the line has more bytes than were read
  have hmore (r : Reader) (hbytes : r.bytes = l ++ rest) (hnone : cutFirst lf r.buffer = none) :
      r.buffer.length < l.length := by
    refine Nat.lt_of_not_le fun hle => ?_
    obtain ⟨front, -, rfl⟩ := hl
    have hline : front ++ [lf] <+: r.buffer :=
      List.prefix_of_prefix_length_le ⟨rest, hbytes.symm⟩ (List.prefix_append _ _) hle
    obtain ⟨before, behind, hcut, hno⟩ :=
      List.eq_append_cons_of_mem (hline.subset (List.mem_append_right front List.mem_cons_self))
    cases hnone.symm.trans (cutFirst_eq_some.2 ⟨hcut, hno⟩)
  suffices hdone : (c.line limit).result = .ok l ∧ (c.line limit).state.Ready limit want room by
    have hcut := (line_bytes hdone.1).1
    rw [hbytes] at hcut
    exact ⟨hdone.1, hdone.2, List.append_cancel_left hcut⟩
  fun_induction line limit c with
  | case1 c before behind hcut line done =>
    obtain ⟨hbuffer, hno⟩ := cutFirst_eq_some.1 hcut
    have hsplit : line ++ (behind ++ c.reader.stream.bytes) = l ++ rest := by
      rw [← hbytes, Reader.bytes, hbuffer]
      simp [line]
    obtain ⟨rfl, hrest⟩ := IsLine.unique ⟨before, hno, rfl⟩ hl hsplit
    have hle : line.length ≤ c.reader.buffer.length := by
      rw [hbuffer]
      simp [line]
    obtain ⟨hdone, htakes⟩ := put_takes (c := c.resume (c.reader.skip line.length)) h.takes
    exact ⟨by rw [show done.result = .ok () from hdone]; rfl, h.steady.skip hle, htakes⟩
  | case2 c hcut hlong =>
    have := hmore c.reader hbytes hcut
    omega
  | case3 c hcut hlong r hr ih =>
    have hlt := hmore c.reader hbytes hcut
    exact ih ⟨h.steady.more (by omega) hr, h.takes⟩ ((Reader.bytes_of_fill hr).trans hbytes)
  | case4 c hcut hlong r hr =>
    have := hmore c.reader hbytes hcut
    refine absurd hr (Reader.fill_ne_ended ?_)
    rw [hbytes, List.length_append]
    omega
  | case5 c hcut hlong s r hr =>
    have := hmore c.reader hbytes hcut
    exact absurd hr (h.steady.fill_ne_stopped (by omega))

/-- A line is refused when too much of it was read ahead without its end. -/
theorem line_tooLong (limit : Nat) (hno : lf ∉ c.reader.buffer)
    (hlong : mostInLine < c.reader.buffer.length) :
    c.line limit = ⟨.error (.failed .invalidRequest), c⟩ := by
  rw [line]
  split
  · rename_i front rest hcut
    refine absurd ?_ hno
    rw [(cutFirst_eq_some.1 hcut).1]
    exact List.mem_append_right front List.mem_cons_self
  · rw [if_pos hlong]

/-- Bytes with no line feed are refused, as too long a line or because the stream ends in it. -/
theorem line_ended (h : c.reader.Steady limit (c.reader.bytes.length + 1))
    (hnone : lf ∉ c.reader.bytes) :
    (c.line limit).result = .error (.failed
        (if mostInLine < c.reader.bytes.length then .invalidRequest else .io .unexpectedEnd)) ∧
      (c.line limit).state.reader.bytes = c.reader.bytes := by
  fun_induction line limit c with
  | case1 c before behind hcut line done =>
    refine absurd ?_ hnone
    rw [Reader.bytes, (cutFirst_eq_some.1 hcut).1]
    simp
  | case2 c hcut hlong =>
    have := c.reader.length_buffer_le
    rw [if_pos (by omega)]
    exact ⟨rfl, rfl⟩
  | case3 c hcut hlong r hr ih =>
    have hb : (c.resume r).reader.bytes = c.reader.bytes := Reader.bytes_of_fill hr
    have := c.reader.length_buffer_le
    have hsteady := h.more (by omega) hr
    rw [← hb] at hnone hsteady ⊢
    exact ih hsteady hnone
  | case4 c hcut hlong r hr =>
    have hb : r.bytes = c.reader.bytes := Reader.bytes_of_fill hr
    have hended := Reader.bytes_of_fill_ended hr
    rw [← hb, hended, if_neg hlong]
    exact ⟨rfl, hended⟩
  | case5 c hcut hlong s r hr =>
    have := c.reader.length_buffer_le
    exact absurd hr (h.fill_ne_stopped (by omega))

/-- Trailers are a line, and more of them unless it is empty. -/
theorem trailers_eq (limit : Nat) :
    trailers limit = fun c => (c.line limit).andThen fun l c =>
      if l = [cr, lf] ∨ l = [lf] then ⟨.ok (), c⟩ else c.trailers limit := by
  funext c
  rw [trailers, Copied.andThen]
  split <;> rename_i h <;> rw [h]

/-- A chunked body is the line with the first size, and then the trailers, or the data, a line and
the chunks that follow. -/
theorem chunked_eq (limit : Nat) :
    chunked limit = fun c => (c.line limit).andThen fun l c =>
      match chunkSize? l with
      | none => ⟨.error (.failed .invalidRequest), c⟩
      | some n =>
        if n = 0 then c.trailers limit
        else (c.exact limit n).andThen fun _ c =>
          (c.line limit).andThen fun _ c => c.chunked limit := by
  funext c
  rw [chunked, Copied.andThen]
  split
  · rename_i h
    rw [h]
  rename_i l h
  rw [h]
  simp only
  split
  · rename_i hsize
    rw [hsize]
  · rename_i hsize
    rw [hsize]
    rfl
  · rename_i n hn hsize
    rw [hsize]
    simp only
    rw [if_neg (fun h0 => hn h0), Copied.andThen]
    split
    · rename_i hdata
      rw [hdata]
    · rename_i u hdata
      rw [hdata, Copied.andThen]
      split <;> rename_i hending <;> rw [hending]

/-- Trailer lines are crossed up to and with the empty one. -/
theorem trailers_crosses {ls : List Bytes} {eol : Bytes} (limit : Nat)
    (hls : ∀ l ∈ ls, (IsLine l ∧ ¬ LineEnd l) ∧ l.length ≤ mostInLine + 1) (heol : LineEnd eol) :
    Crosses limit (trailers limit) (ls.flatten ++ eol) () := by
  induction ls with
  | nil =>
    have hshort : eol.length ≤ mostInLine + 1 := by cases heol <;> decide
    rw [trailers_eq, List.flatten_nil, List.nil_append, ← List.append_nil eol]
    refine (line_crosses limit heol.isLine hshort).andThen ?_
    simp only [if_pos (lineEnd_iff.1 heol)]
    exact .done limit ()
  | cons l ls ih =>
    obtain ⟨⟨⟨hl, hmore⟩, hshort⟩, hls⟩ := List.forall_mem_cons.1 hls
    rw [trailers_eq, List.flatten_cons, List.append_assoc]
    refine (line_crosses limit hl hshort).andThen ?_
    simp only [if_neg fun heol => hmore (lineEnd_iff.2 heol)]
    exact ih hls

/-- A chunked body of which no line is too long is crossed. -/
theorem chunked_crosses {body : ChunkedBody} (limit : Nat) (h : body.Copied)
    (hlines : ∀ l ∈ body.lines, l.length ≤ mostInLine + 1) :
    Crosses limit (chunked limit) body.bytes () := by
  obtain ⟨chunks, last, trailers, eol⟩ := body
  induction chunks with
  | nil =>
    obtain ⟨hlast, htrailers⟩ := List.forall_mem_cons.1 hlines
    obtain ⟨hline, hsize⟩ := takenForSize_iff.1 h.last
    rw [chunked_eq]
    refine (line_crosses limit hline hlast).andThen ?_
    simp only [hsize, if_true]
    exact trailers_crosses limit (fun l hl => ⟨h.trailer l hl, htrailers l hl⟩) h.eol
  | cons chunk chunks ih =>
    obtain ⟨line, data, ending⟩ := chunk
    obtain ⟨hdata, hsize, hending⟩ := h.chunk _ List.mem_cons_self
    obtain ⟨hline, hsize⟩ := takenForSize_iff.1 hsize
    obtain ⟨hshort, hshort', hlines⟩ : line.length ≤ mostInLine + 1 ∧
        ending.length ≤ mostInLine + 1 ∧
        ∀ l ∈ (ChunkedBody.mk chunks last trailers eol).lines, l.length ≤ mostInLine + 1 := by
      simpa [ChunkedBody.lines] using hlines
    rw [chunked_eq, ChunkedBody.bytes_cons]
    refine (line_crosses limit hline hshort).andThen ?_
    have hsome : data.length ≠ 0 := fun h0 => hdata (List.eq_nil_of_length_eq_zero h0)
    simp only [hsize, if_neg hsome]
    refine (exact_crosses limit data).andThen ?_
    exact (line_crosses limit hending hshort').andThen (ih h.tail hlines)

/-- All there is is copied up to the end of the stream. -/
theorem toEnd_ready (h : c.Ready limit (c.reader.bytes.length + 1) c.reader.bytes.length) :
    (c.toEnd limit).result = .ok () ∧ (c.toEnd limit).state.reader.bytes = [] := by
  have hput (c : Copying) (h : c.sink.Takes c.reader.bytes.length) :
      (c.put c.reader.buffer).result = .ok () ∧
        (c.put c.reader.buffer).state.sink.Takes c.reader.stream.bytes.length := by
    rw [Reader.bytes, List.length_append] at h
    exact put_takes h
  have hskip (c : Copying) (h : c.reader.Steady limit (c.reader.bytes.length + 1)) :
      (c.reader.skip c.reader.buffer.length).Steady limit (c.reader.stream.bytes.length + 1) :=
    Reader.Steady.skip_all (by rwa [Reader.bytes, List.length_append, Nat.add_assoc] at h)
      (Nat.le_refl _)
  fun_induction toEnd limit c with
  | case1 c done s hs => cases hs.symm.trans (hput c h.takes).1
  | case2 c done u hu r hr ih =>
    have hempty := Reader.buffer_skip (Nat.le_refl c.reader.buffer.length)
    have hfill : r.bytes = c.reader.stream.bytes := by
      rw [show r.bytes = _ from Reader.bytes_of_fill hr, Reader.bytes, hempty, List.nil_append]
      rfl
    refine ih ⟨?_, ?_⟩
    · rw [show (done.state.resume r).reader.bytes = c.reader.stream.bytes from hfill]
      refine (hskip c h.steady).more ?_ hr
      rw [hempty]
      exact Nat.succ_pos _
    · rw [show (done.state.resume r).reader.bytes = c.reader.stream.bytes from hfill]
      exact (hput c h.takes).2
  | case3 c done u hu r hr =>
    refine ⟨rfl, ?_⟩
    rw [← Reader.buffer_skip (Nat.le_refl c.reader.buffer.length)]
    exact Reader.bytes_of_fill_ended hr
  | case4 c done u hu s r hr =>
    refine absurd hr ((hskip c h.steady).fill_ne_stopped ?_)
    rw [Reader.buffer_skip (Nat.le_refl _)]
    exact Nat.succ_pos _

end Copying
end Intercept.Http
