import Intercept.Sniff

/-!
# Reading on

Reads one behind the other, each at its time and with its room, and what they come to. A probe is
such a run of reads, and so is whatever the caller does with the stream that the probe gives back.

* `Delivery.data`: the bytes that a read delivers.
* `Replay.readOn reads`: what a run of reads delivers and the stream behind it.
* `Replay.Gives r data r'`: some run of reads takes `data` off `r` and leaves `r'`.

Results:
* `readOn_bytes`: what a run delivers and what is left over are what there was to be read.
* `readOn_all`: enough reads with room deliver all there is.
* `gather_gives`, `probe_gives`: gathering and probing are runs of reads, and hold what these took.
* `sniff_nondestructive`: sniffing holds what it took off the stream, and gives it all back.
-/

namespace Intercept

/-- The bytes that a read delivers. -/
def Delivery.data : Delivery → Bytes
  | .bytes data => data
  | .ended => []
  | .fault _ => []

/-! ## When nothing comes -/

theorem Source.bytesOf_of_none {most : Option Nat} {start room now : Nat} {es : List Event}
    (h : readEvents most start room now es = none) : bytesOf es = [] := by
  induction es generalizing now with
  | nil => cases h
  | cons e es ih =>
    obtain ⟨due, what⟩ := e
    cases what with
    | data bs =>
      cases bs with
      | nil => exact ih h
      | cons b bs => cases h
    | fault f => cases h
    | close => cases h
    | silence => rfl

theorem Source.length_bytesOf_le (es : List Event) : (bytesOf es).length ≤ weightOf es := by
  induction es with
  | nil => exact Nat.le_refl 0
  | cons e es ih =>
    obtain ⟨due, what⟩ := e
    cases what with
    | data bs =>
      simp only [bytesOf, weightOf, eventBytes, List.length_append]
      omega
    | fault f =>
      simp only [bytesOf, weightOf]
      omega
    | close => exact Nat.zero_le _
    | silence => exact Nat.zero_le _

namespace Replay

/-- When nothing ever comes there is nothing left to be read. -/
theorem bytes_of_none {r : Replay} {now room : Nat} (h : r.read now room = none) :
    r.bytes = [] := by
  unfold read at h
  split at h
  · cases h
  · rename_i ht
    rw [Option.map_eq_none_iff, Source.read, Option.map_eq_none_iff] at h
    rw [bytes, take_eq_none ht, Source.bytes, Source.bytesOf_of_none h, List.append_nil]

theorem length_bytes_le (r : Replay) : r.bytes.length ≤ r.weight := by
  have := Source.length_bytesOf_le r.source.events
  rw [bytes, weight, List.length_append, Source.bytes, Source.weight]
  omega

/-! ## Runs of reads -/

/-- Reads one behind the other, each at a time and with room for so many bytes: what they deliver,
and the stream behind them. A read to which nothing ever comes is given up. -/
def readOn : List (Nat × Nat) → Replay → Bytes × Replay
  | [], r => ([], r)
  | (now, room) :: more, r =>
    match r.read now room with
    | none => readOn more r
    | some d => (d.delivery.data ++ (readOn more d.rest).1, (readOn more d.rest).2)

/-- One read delivers the front of what there is to be read. -/
theorem data_append_bytes {r : Replay} {now room : Nat} {d : Reading Replay}
    (h : r.read now room = some d) : d.delivery.data ++ d.rest.bytes = r.bytes := by
  have := bytes_of_read h
  cases hd : d.delivery <;> rw [hd] at this <;> exact this

/-- What a run of reads delivers and what is left over are what there was to be read. -/
theorem readOn_bytes (reads : List (Nat × Nat)) (r : Replay) :
    (r.readOn reads).1 ++ (r.readOn reads).2.bytes = r.bytes := by
  fun_induction readOn reads r with
  | case1 => rfl
  | case2 now room more r hr ih => exact ih
  | case3 now room more r d hr ih => rw [List.append_assoc, ih, data_append_bytes hr]

/-- Nothing can be read of a stream with nothing left. -/
theorem readOn_of_empty {r : Replay} (h : r.bytes = []) (reads : List (Nat × Nat)) :
    (r.readOn reads).1 = [] := by
  have := readOn_bytes reads r
  rw [h, List.append_eq_nil_iff] at this
  exact this.1

/-- Enough reads with room deliver all there is. -/
theorem readOn_all {reads : List (Nat × Nat)} {r : Replay} (hroom : ∀ x ∈ reads, 0 < x.2)
    (hlong : r.weight ≤ reads.length) : (r.readOn reads).1 = r.bytes := by
  fun_induction readOn reads r with
  | case1 r =>
    have := r.length_bytes_le
    exact (List.eq_nil_of_length_eq_zero (by rw [List.length_nil] at hlong; omega)).symm
  | case2 now room more r hr ih =>
    have hempty := bytes_of_none hr
    rw [readOn_of_empty hempty, hempty]
  | case3 now room more r d hr ih =>
    have hmore := (List.forall_mem_cons.1 hroom).2
    have hpos := (List.forall_mem_cons.1 hroom).1
    rw [List.length_cons] at hlong
    have hless := weight_of_read hr
    by_cases hd : d.delivery = .ended
    · have hempty := bytes_of_ended hr hd
      have hrest := data_append_bytes hr
      rw [hempty, List.append_eq_nil_iff] at hrest
      rw [hempty, hrest.1, readOn_of_empty hrest.2, List.append_nil]
    · -- a read with room that does not find the end uses something up
      have hadvances : d.delivery.advances = true := by
        cases hdel : d.delivery with
        | bytes data =>
          have hne := (length_of_read hr hdel).2 hpos
          simpa [Delivery.advances] using hne
        | ended => exact absurd hdel hd
        | fault f => rfl
      rw [hadvances, if_pos rfl] at hless
      rw [ih hmore (by omega), data_append_bytes hr]

theorem readOn_append (first second : List (Nat × Nat)) (r : Replay) :
    r.readOn (first ++ second) =
      ((r.readOn first).1 ++ ((r.readOn first).2.readOn second).1,
        ((r.readOn first).2.readOn second).2) := by
  fun_induction readOn first r with
  | case1 => rfl
  | case2 now room more r hr ih =>
    rw [List.cons_append, readOn]
    simp only [hr, ih]
  | case3 now room more r d hr ih =>
    rw [List.cons_append, readOn]
    simp only [hr, ih, List.append_assoc]

/-- Some run of reads takes `data` off `r` and leaves `r'`. -/
def Gives (r : Replay) (data : Bytes) (r' : Replay) : Prop :=
  ∃ reads, r.readOn reads = (data, r')

namespace Gives

variable {r r' r'' : Replay} {data more : Bytes}

theorem refl (r : Replay) : r.Gives [] r := ⟨[], rfl⟩

theorem bytes (h : r.Gives data r') : data ++ r'.bytes = r.bytes := by
  obtain ⟨reads, hreads⟩ := h
  have := readOn_bytes reads r
  rwa [hreads] at this

theorem trans (h : r.Gives data r') (h' : r'.Gives more r'') : r.Gives (data ++ more) r'' := by
  obtain ⟨first, hfirst⟩ := h
  obtain ⟨second, hsecond⟩ := h'
  refine ⟨first ++ second, ?_⟩
  rw [readOn_append, hfirst, hsecond]

theorem read {now room : Nat} {d : Reading Replay} (h : r.read now room = some d) :
    r.Gives d.delivery.data d.rest := by
  refine ⟨[(now, room)], ?_⟩
  simp only [readOn, h, List.append_nil]

theorem readBy {deadline now room : Nat} {d : Reading Replay}
    (h : r.readBy deadline now room = some d) : r.Gives d.delivery.data d.rest :=
  read (read_of_readBy h)

end Gives

/-- What is gathered is what reads take off the stream. -/
theorem gather_gives (limit want : Nat) (got : Bytes) (now : Nat) (r : Replay) :
    ∃ data, (r.gather limit want got now).bytes = got ++ data ∧
      r.Gives data (r.gather limit want got now).rest := by
  fun_induction gather limit want got now r with
  | case1 got now r => exact ⟨[], (List.append_nil got).symm, .refl r⟩
  | case2 got now r => exact ⟨[], (List.append_nil got).symm, .refl r⟩
  | case3 got now r _ time rest h => exact ⟨[], (List.append_nil got).symm, .readBy h⟩
  | case4 got now r _ time b bs rest h ih =>
    obtain ⟨data, hbytes, hgives⟩ := ih
    exact ⟨b :: bs ++ data, by rw [hbytes, List.append_assoc], (Gives.readBy h).trans hgives⟩
  | case5 got now r _ time rest h => exact ⟨[], (List.append_nil got).symm, .readBy h⟩
  | case6 got now r _ time f rest h => exact ⟨[], (List.append_nil got).symm, .readBy h⟩

end Replay

/-! ## Sniffing -/

/-- What a probe holds is what it was given and what its reads take off the stream. -/
theorem probe_gives (deadline : Nat) (seen : Bytes) (now : Nat) (r : Replay) :
    ∃ data, (probe deadline seen now r).seen = seen ++ data ∧
      r.Gives data (probe deadline seen now r).rest := by
  fun_induction probe deadline seen now r with
  | case1 seen now r => exact ⟨[], (List.append_nil seen).symm, .refl r⟩
  | case2 seen now r => exact ⟨[], (List.append_nil seen).symm, .refl r⟩
  | case3 seen now r => exact ⟨[], (List.append_nil seen).symm, .refl r⟩
  | case4 seen now r => exact ⟨[], (List.append_nil seen).symm, .refl r⟩
  | case5 seen now r _ _ time b bs rest h ih =>
    obtain ⟨data, hseen, hgives⟩ := ih
    exact ⟨b :: bs ++ data, by rw [hseen, List.append_assoc], (Replay.Gives.readBy h).trans hgives⟩
  | case6 seen now r _ _ time rest h => exact ⟨[], (List.append_nil seen).symm, .readBy h⟩
  | case7 seen now r _ _ time rest h => exact ⟨[], (List.append_nil seen).symm, .readBy h⟩
  | case8 seen now r _ _ time f rest h => exact ⟨[], (List.append_nil seen).symm, .readBy h⟩

/-- What sniffing holds is what its reads take off the stream. -/
theorem sniff_gives (deadline now : Nat) (r : Replay) :
    r.Gives (sniff deadline now r).seen (sniff deadline now r).rest := by
  obtain ⟨first, hfirst, hhead⟩ := r.gather_gives deadline Tls.headerLength [] now
  unfold sniff
  generalize r.gather deadline Tls.headerLength [] now = head at hfirst hhead
  obtain rfl : head.bytes = first := hfirst
  simp only
  split
  · exact hhead
  · obtain ⟨second, hsecond, hprobe⟩ := probe_gives deadline head.bytes head.time head.rest
    simp only [hsecond]
    exact hhead.trans hprobe

/-- **Sniffing loses nothing.** Whatever it comes to, the bytes it holds are those that some run of
reads takes off the stream, so that they and what is left behind them are all there was. Reading
the stream that it gives back delivers these bytes in order, each once: any reads deliver a front of
them and leave the rest, and enough reads with room deliver them all. -/
theorem sniff_nondestructive (deadline now : Nat) (r : Replay) :
    let s := sniff deadline now r
    (∃ reads, r.readOn reads = (s.seen, s.rest)) ∧ s.seen ++ s.rest.bytes = r.bytes ∧
      (∀ reads, (s.stream.readOn reads).1 ++ (s.stream.readOn reads).2.bytes = r.bytes) ∧
      ∃ enough, ∀ reads : List (Nat × Nat), (∀ x ∈ reads, 0 < x.2) → enough ≤ reads.length →
        (s.stream.readOn reads).1 = r.bytes := by
  intro s
  have hbytes : s.stream.bytes = r.bytes := sniff_bytes deadline now r
  refine ⟨sniff_gives deadline now r, ?_, fun reads => ?_, s.stream.weight,
    fun reads hroom hlong => ?_⟩
  · rw [← hbytes, Sniffed.stream, Replay.bytes_putBack]
  · rw [Replay.readOn_bytes, hbytes]
  · rw [Replay.readOn_all hroom hlong, hbytes]

/-- A client whose connection is reset between two pieces of data. -/
def resetClient : Replay :=
  .ofSource { events := [⟨0, .data [1, 2]⟩, ⟨3, .fault .reset⟩, ⟨5, .data [3, 4]⟩, ⟨7, .close⟩] }

/-- The fault is passed over, and all four bytes can be read again one by one. -/
theorem sniff_nondestructive_reset :
    (sniff 10 0 resetClient).protocol = .blind ∧
      (∃ reads, resetClient.readOn reads =
        ((sniff 10 0 resetClient).seen, (sniff 10 0 resetClient).rest)) ∧
      ∃ enough, ((sniff 10 0 resetClient).stream.readOn (List.replicate enough (20, 1))).1 =
        [1, 2, 3, 4] := by
  obtain ⟨hgives, -, -, enough, hall⟩ := sniff_nondestructive 10 0 resetClient
  refine ⟨by decide +kernel, hgives, enough, hall _ ?_ ?_⟩
  · intro x hx
    rw [List.eq_of_mem_replicate hx]
    exact Nat.one_pos
  · exact Nat.le_of_eq List.length_replicate.symm

end Intercept
