import Intercept.Proofs.Stream.Arrival
import Intercept.Proofs.Stream.Reads
import Intercept.Proofs.Tls.Grammar
import Intercept.Tls.InPlace

/-!
# Records are cut exactly

Records one behind the other are read as what they are, however they arrive, and what stands behind
them is left. Everything else that reading a record can come to is listed once, with what it took
off the stream: it is all in the buffer, unless the stream breaks off in the header.

* `Record`: a handshake record as a value.
* `Comes buffer r`: all that reading a record can come to.
* `readRecords`: so many records, one call behind the other.
* `BrokenHeader data`: something of a header, but not all of it.

Results:
* `InPlace.readRecord_eq`: filling a long enough buffer in place comes to the same.
* `readRecord_comes`: there are no other outcomes.
* `readRecords_encode`: records that arrive by the time limit are read one by one.
* `records_exact`: records are read exactly, and nothing else counts as one.
* `record_bytes_kept`: what was read is in the buffer exactly when the header did not break off.
-/

namespace Intercept.Tls

/-! ## Records as values -/

/-- A handshake record as a value. -/
structure Record where
  version0 : UInt8
  version1 : UInt8
  body : Bytes
  fits : body.length ≤ mostInRecord

/-- The bytes of a record. -/
def Record.encode (record : Record) : Bytes :=
  handshakeType :: record.version0 :: record.version1 :: vector16 record.body

/-- The header of a record. -/
def Record.header (record : Record) : Bytes :=
  handshakeType :: record.version0 :: record.version1 :: pair record.body.length

theorem Record.encode_eq (record : Record) : record.encode = record.header ++ record.body := rfl

theorem Record.length_header (record : Record) : record.header.length = headerLength := rfl

theorem Record.bodyLength_header (record : Record) :
    bodyLength record.header = record.body.length :=
  number_pair (by have := record.fits; unfold mostInRecord at this; omega)

/-- A header and a body of the length that it announces are a record. -/
theorem exists_record {header body : Bytes} (hlength : header.length = headerLength)
    (htype : header.head? = some handshakeType) (hmost : bodyLength header ≤ mostInRecord)
    (hbody : body.length = bodyLength header) :
    ∃ record : Record, record.encode = header ++ body := by
  match header with
  | [type, v0, v1, hi, lo] =>
    obtain rfl : type = handshakeType := Option.some.inj htype
    have hpair : pair body.length = [hi, lo] := by
      rw [hbody]
      exact pair_number hi lo
    refine ⟨⟨v0, v1, body, hbody ▸ hmost⟩, ?_⟩
    show _ :: v0 :: v1 :: (pair body.length ++ body) = _
    rw [hpair]
    rfl

namespace InPlace

/-! ## Reading in place -/

theorem padded_nil (n : Nat) : padded n [] = List.replicate n 0 := by
  rw [padded, List.nil_append, List.length_nil, Nat.sub_zero]

theorem length_padded {n : Nat} {b : Bytes} (h : b.length ≤ n) : (padded n b).length = n := by
  rw [padded, List.length_append, List.length_replicate, Nat.add_sub_cancel' h]

theorem resized_add (buffer : Bytes) (n : Nat) :
    resized (buffer.length + n) buffer = buffer ++ padded n [] := by
  rw [resized, List.take_of_length_le (Nat.le_add_right _ _), padded, Nat.add_sub_cancel_left,
    padded_nil]

theorem overwrite_padded (front got data : Bytes) (want : Nat) :
    overwrite (front ++ padded want got) (front.length + got.length) data =
      front ++ padded want (got ++ data) := by
  have hfront : front ++ padded want got =
      (front ++ got) ++ List.replicate (want - got.length) 0 := by
    rw [padded, List.append_assoc]
  rw [overwrite, hfront, ← List.length_append, List.take_left, ← List.drop_drop, List.drop_left,
    List.drop_replicate, padded, List.length_append, Nat.sub_sub, List.append_assoc,
    List.append_assoc, List.append_assoc]

/-- Filling a buffer behind what is there goes on with what its next read brings. -/
theorem fill_behind {limit want now : Nat} {front got : Bytes} {r : Replay}
    (h : ¬want ≤ got.length) :
    fill limit (front ++ padded want got) (front.length + got.length) now r =
      match r.readBy limit now (want - got.length) with
      | none =>
        ⟨some .expired, front ++ padded want got, front.length + got.length, max now limit, r⟩
      | some ⟨time, .bytes [], rest⟩ =>
        ⟨some .ended, front ++ padded want got, front.length + got.length, time, rest⟩
      | some ⟨time, .bytes (b :: bs), rest⟩ =>
        fill limit (front ++ padded want (got ++ b :: bs)) (front.length + (got ++ b :: bs).length)
          time rest
      | some ⟨time, .ended, rest⟩ =>
        ⟨some .ended, front ++ padded want got, front.length + got.length, time, rest⟩
      | some ⟨time, .fault f, rest⟩ =>
        ⟨some (.fault f), front ++ padded want got, front.length + got.length, time, rest⟩ := by
  have hlength : (front ++ padded want got).length = front.length + want := by
    rw [List.length_append, length_padded (by omega)]
  rw [fill, hlength, if_neg (by omega), Nat.add_sub_add_left]
  split <;> rename_i heq <;> rw [heq]
  rw [overwrite_padded, Nat.add_assoc, ← List.length_append]

/-- Filling a buffer behind what is there gathers what is missing. -/
theorem fill_eq {limit want now : Nat} {front got : Bytes} {r : Replay} (h : got.length ≤ want) :
    fill limit (front ++ padded want got) (front.length + got.length) now r =
      ⟨(r.gather limit want got now).short,
        front ++ padded want (r.gather limit want got now).bytes,
        front.length + (r.gather limit want got now).bytes.length,
        (r.gather limit want got now).time, (r.gather limit want got now).rest⟩ := by
  fun_induction Replay.gather limit want got now r with
  | case1 got now r hle =>
    rw [fill, List.length_append, length_padded h, if_pos (by omega)]
  | case2 got now r hmore hr => rw [fill_behind hmore, hr]
  | case3 got now r hmore time rest hr => rw [fill_behind hmore, hr]
  | case4 got now r hmore time b bs rest hr ih =>
    have hroom := (Replay.length_of_read (Replay.read_of_readBy hr) rfl).1
    rw [fill_behind hmore, hr]
    exact ih (by rw [List.length_append]; omega)
  | case5 got now r hmore time rest hr => rw [fill_behind hmore, hr]
  | case6 got now r hmore time f rest hr => rw [fill_behind hmore, hr]

theorem take_behind (front : Bytes) (want : Nat) (got : Bytes) :
    (front ++ padded want got).take (front.length + got.length) = front ++ got := by
  rw [List.take_length_add_append, padded, List.take_left]

theorem padded_full {n : Nat} {b : Bytes} (h : b.length = n) : padded n b = b := by
  rw [padded, h, Nat.sub_self, List.replicate_zero, List.append_nil]

/-- A buffer made longer is filled with what is gathered. -/
theorem fill_resized (limit want now : Nat) (front : Bytes) (r : Replay) :
    fill limit (resized (front.length + want) front) front.length now r =
      ⟨(r.gather limit want [] now).short, front ++ padded want (r.gather limit want [] now).bytes,
        front.length + (r.gather limit want [] now).bytes.length,
        (r.gather limit want [] now).time, (r.gather limit want [] now).rest⟩ := by
  have hnone : ([] : Bytes).length ≤ want := Nat.zero_le want
  rw [resized_add]
  exact fill_eq hnone

/-- Reading in place and reading by appending come to the same. -/
theorem readRecord_eq (limit : Nat) (buffer : Bytes) (now : Nat) (r : Replay) :
    readRecord limit buffer now r = Tls.readRecord limit buffer now r := by
  have hlength : (r.gather limit headerLength [] now).short = none → _ := Replay.length_gather
  unfold readRecord Tls.readRecord
  simp only [fill_resized, List.take_left, List.drop_left]
  generalize r.gather limit headerLength [] now = head at hlength
  obtain ⟨header, short, time, rest⟩ := head
  cases short with
  | some s => cases s <;> rfl
  | none =>
    have hlength : header.length = headerLength := hlength rfl
    simp only [padded_full hlength]
    split
    · rfl
    split
    · rfl
    have hfirst : buffer.length + headerLength = (buffer ++ header).length := by
      rw [List.length_append, hlength]
    have hfull : (rest.gather limit (bodyLength header) [] time).short = none → _ :=
      Replay.length_gather
    simp only [hfirst, fill_resized, take_behind]
    generalize rest.gather limit (bodyLength header) [] time = tail at hfull
    obtain ⟨body, short, time, rest⟩ := tail
    cases short with
    | some s => cases s <;> rfl
    | none =>
      simp only [padded_full (hfull rfl)]
      rfl

end InPlace

/-! ## The outcomes -/

/-- What reading a record behind a buffer can come to, and what it then took off the stream. -/
inductive Comes (buffer : Bytes) (r : Replay) : RecordRead → Prop
  /-- The stream broke off in the header. What came of it is dropped. -/
  | headerBroke {data : Bytes} {rest : Replay} {time : Nat} {fault : Fault}
      (hdata : r.Gives data rest) (hshort : data.length < headerLength) :
      Comes buffer r ⟨.error (.failed (.io fault)), buffer, time, rest⟩
  | wrongType {header : Bytes} {rest : Replay} {time : Nat} (hdata : r.Gives header rest)
      (hlength : header.length = headerLength) (htype : header.head? ≠ some handshakeType) :
      Comes buffer r ⟨.error (.failed .notHandshake), buffer ++ header, time, rest⟩
  | tooLong {header : Bytes} {rest : Replay} {time : Nat} (hdata : r.Gives header rest)
      (hlength : header.length = headerLength) (htype : header.head? = some handshakeType)
      (hmost : mostInRecord < bodyLength header) :
      Comes buffer r
        ⟨.error (.failed (.recordTooLarge (bodyLength header))), buffer ++ header, time, rest⟩
  /-- The stream broke off in the body. -/
  | bodyBroke {header body : Bytes} {rest : Replay} {time : Nat} {e : Error}
      (hdata : r.Gives (header ++ body) rest) (hlength : header.length = headerLength)
      (htype : header.head? = some handshakeType) (hmost : bodyLength header ≤ mostInRecord)
      (hshort : body.length < bodyLength header) (he : e = .truncated ∨ ∃ fault, e = .io fault) :
      Comes buffer r ⟨.error (.failed e), buffer ++ (header ++ body), time, rest⟩
  | read {rest : Replay} {time : Nat} (record : Record) (hdata : r.Gives record.encode rest) :
      Comes buffer r ⟨.ok (), buffer ++ record.encode, time, rest⟩
  /-- The time limit passed. -/
  | expired {late : Bytes} {rest : Replay} {time : Nat} :
      Comes buffer r ⟨.error .expired, late, time, rest⟩

theorem readRecord_comes (limit : Nat) (buffer : Bytes) (now : Nat) (r : Replay) :
    Comes buffer r (readRecord limit buffer now r) := by
  obtain ⟨header, hheader, hgives⟩ := r.gather_gives limit headerLength [] now
  rw [List.nil_append] at hheader
  subst hheader
  unfold readRecord
  simp only
  split
  · rename_i hshort
    exact .headerBroke hgives (Replay.length_gather_lt hshort)
  · rename_i hshort
    exact .headerBroke hgives (Replay.length_gather_lt hshort)
  · exact .expired
  · rename_i hfull
    have hlength := Replay.length_gather hfull
    generalize r.gather limit headerLength [] now = head at hgives hlength
    split
    · rename_i htype
      exact .wrongType hgives hlength htype
    rename_i htype
    have htype := Decidable.not_not.1 htype
    split
    · rename_i hmost
      exact .tooLong hgives hlength htype hmost
    rename_i hmost
    have hmost := Nat.le_of_not_lt hmost
    obtain ⟨body, hbody, hmore⟩ := head.rest.gather_gives limit (bodyLength head.bytes) [] head.time
    rw [List.nil_append] at hbody
    subst hbody
    have hboth := hgives.trans hmore
    split
    · rename_i hfull
      obtain ⟨record, hrecord⟩ :=
        exists_record hlength htype hmost (Replay.length_gather hfull)
      rw [hfull, if_neg nofun, List.append_assoc, ← hrecord]
      exact .read record (hrecord ▸ hboth)
    · rename_i hshort
      rw [hshort, if_neg nofun, List.append_assoc]
      exact .bodyBroke hboth hlength htype hmost (Replay.length_gather_lt hshort) (.inl rfl)
    · rename_i f hshort
      rw [hshort, if_neg nofun, List.append_assoc]
      exact .bodyBroke hboth hlength htype hmost (Replay.length_gather_lt hshort) (.inr ⟨f, rfl⟩)
    · exact .expired

/-! ## Records one behind the other -/

/-- A record at the front of a stream is read, and what stands behind it is left. -/
theorem readRecord_encode {limit : Nat} {r : Replay} {record : Record} {tail : Bytes}
    (h : r.ArrivesBy limit) (hbytes : r.bytes = record.encode ++ tail) (buffer : Bytes)
    (now : Nat) :
    (readRecord limit buffer now r).result = .ok () ∧
    (readRecord limit buffer now r).buffer = buffer ++ record.encode ∧
    (readRecord limit buffer now r).rest.bytes = tail ∧
    (readRecord limit buffer now r).rest.ArrivesBy limit := by
  rw [record.encode_eq, List.append_assoc] at hbytes
  obtain ⟨hfull, hheader, hrest⟩ := h.gather_front hbytes now
  have harrives : (r.gather limit headerLength [] now).rest.ArrivesBy limit := h.gather_rest
  rw [record.length_header] at hfull hheader hrest
  unfold readRecord
  generalize r.gather limit headerLength [] now = head at hfull hheader hrest harrives
  obtain ⟨hfull', hbody, hrest'⟩ := harrives.gather_front hrest head.time
  have htype : record.header.head? = some handshakeType := rfl
  simp only [hfull, hheader, htype, record.bodyLength_header, ne_eq, not_true_eq_false, if_false,
    if_neg (Nat.not_lt.2 record.fits), hfull', hbody, hrest', reduceCtorEq]
  exact ⟨trivial, by rw [record.encode_eq, List.append_assoc], trivial, harrives.gather_rest⟩

/-- What reading so many records came to. -/
structure RecordReads where
  results : List (Except (Stop Error) Unit)
  /-- The buffer afterwards. -/
  buffer : Bytes
  time : Nat
  rest : Replay

/-- Appends so many records to the buffer, one call behind the other. -/
def readRecords (limit : Nat) : Nat → Bytes → Nat → Replay → RecordReads
  | 0, buffer, now, r => ⟨[], buffer, now, r⟩
  | n + 1, buffer, now, r =>
    let read := readRecord limit buffer now r
    let more := readRecords limit n read.buffer read.time read.rest
    { more with results := read.result :: more.results }

/-- Records at the front of a stream are read, and what stands behind them is left. -/
theorem readRecords_encode {limit : Nat} {r : Replay} {records : List Record} {tail : Bytes}
    (h : r.ArrivesBy limit) (hbytes : r.bytes = records.flatMap Record.encode ++ tail)
    (buffer : Bytes) (now : Nat) :
    (readRecords limit records.length buffer now r).results =
      List.replicate records.length (.ok ()) ∧
    (readRecords limit records.length buffer now r).buffer =
      buffer ++ records.flatMap Record.encode ∧
    (readRecords limit records.length buffer now r).rest.bytes = tail ∧
    (readRecords limit records.length buffer now r).rest.ArrivesBy limit := by
  induction records generalizing buffer now r with
  | nil => exact ⟨rfl, (List.append_nil buffer).symm, hbytes, h⟩
  | cons record records ih =>
    rw [List.flatMap_cons, List.append_assoc] at hbytes
    obtain ⟨hresult, hbuffer, hrest, harrives⟩ := readRecord_encode h hbytes buffer now
    obtain ⟨hresults, hbuffers, htail, hlast⟩ := ih harrives hrest
      (readRecord limit buffer now r).buffer (readRecord limit buffer now r).time
    refine ⟨?_, ?_, htail, hlast⟩
    · show _ :: _ = _
      rw [hresult, hresults]
      rfl
    · rw [List.flatMap_cons, ← List.append_assoc, ← hbuffer]
      exact hbuffers

/-- **Records are cut exactly.** A stream without faults that starts with records, however it is cut
into pieces and whenever these come, gives them one by one, given the time that it takes: all calls
succeed, the buffer then holds what it held and exactly these records, and exactly what stands
behind them is delivered by further reads. On any stream, a call that succeeds appended one record
of the right type and of a length that fits, and took just its bytes off the stream. A buffer filled
in place makes no difference. -/
theorem records_exact :
    (∀ (buffer : Bytes) (now : Nat) (records : List Record) (tail : Bytes) (r : Replay),
      r.Faultless → r.bytes = records.flatMap Record.encode ++ tail →
      ∃ soon, ∀ limit, soon ≤ limit →
        let reads := readRecords limit records.length buffer now r
        reads.results = List.replicate records.length (.ok ()) ∧
        reads.buffer = buffer ++ records.flatMap Record.encode ∧
        reads.rest.Faultless ∧ reads.rest.bytes = tail ∧
        ∃ enough, ∀ more : List (Nat × Nat), (∀ x ∈ more, 0 < x.2) → enough ≤ more.length →
          (reads.rest.readOn more).1 = tail) ∧
    (∀ (limit : Nat) (buffer : Bytes) (now : Nat) (r : Replay),
      let read := readRecord limit buffer now r
      read.result = .ok () → ∃ record : Record, read.buffer = buffer ++ record.encode ∧
        r.Gives record.encode read.rest ∧ record.encode ++ read.rest.bytes = r.bytes) ∧
    ∀ limit buffer now r,
      InPlace.readRecord limit buffer now r = readRecord limit buffer now r := by
  refine ⟨fun buffer now records tail r hfaultless hbytes => ?_, fun limit buffer now r => ?_,
    InPlace.readRecord_eq⟩
  · obtain ⟨soon, hsoon⟩ := hfaultless.arrives
    refine ⟨soon, fun limit hlimit => ?_⟩
    obtain ⟨hresults, hbuffer, htail, harrives⟩ :=
      readRecords_encode (hsoon limit hlimit) hbytes buffer now
    refine ⟨hresults, hbuffer, harrives.faultless, htail,
      (readRecords limit records.length buffer now r).rest.weight, fun more hroom hlong => ?_⟩
    rw [Replay.readOn_all hroom hlong, htail]
  · intro read hok
    have hcomes : Comes buffer r read := readRecord_comes limit buffer now r
    generalize read = read at hcomes hok
    cases hcomes with
    | headerBroke => cases hok
    | wrongType => cases hok
    | tooLong => cases hok
    | bodyBroke => cases hok
    | read record hdata => exact ⟨record, rfl, hdata, hdata.bytes⟩
    | expired => cases hok

/-- Two records and one more byte, which come byte by byte. -/
def drippingRecords : Replay :=
  .ofSource
    { events := [⟨1, .data [0x16]⟩, ⟨2, .data [3]⟩, ⟨3, .data [1]⟩, ⟨4, .data [0]⟩, ⟨5, .data [1]⟩,
        ⟨6, .data [0xAA]⟩, ⟨7, .data [0x16]⟩, ⟨8, .data [3]⟩, ⟨9, .data [3]⟩, ⟨10, .data [0]⟩,
        ⟨11, .data [0]⟩, ⟨12, .data [0x17]⟩] }

/-- They are read behind what the buffer holds, and the last byte is left. -/
theorem records_exact_dripping :
    (∃ soon, ∀ limit, soon ≤ limit →
      (readRecords limit 2 [0xFF] 0 drippingRecords).results = [.ok (), .ok ()] ∧
      (readRecords limit 2 [0xFF] 0 drippingRecords).buffer =
        [0xFF, 0x16, 3, 1, 0, 1, 0xAA, 0x16, 3, 3, 0, 0] ∧
      (readRecords limit 2 [0xFF] 0 drippingRecords).rest.bytes = [0x17]) ∧
    ∃ soon, ∃ record : Record,
      (readRecord soon [] 0 drippingRecords).buffer = [] ++ record.encode := by
  have hfaultless : drippingRecords.Faultless := trivial
  have harrives : drippingRecords.ArrivesBy 12 := by
    simp [Replay.ArrivesBy, drippingRecords, Replay.ofSource, Source.ArrivesBy]
  obtain ⟨soon, hsoon⟩ := records_exact.1 [0xFF] 0
    [⟨3, 1, [0xAA], by decide⟩, ⟨3, 3, [], by decide⟩] [0x17] drippingRecords hfaultless rfl
  refine ⟨⟨soon, fun limit hlimit => ?_⟩, 12, ?_⟩
  · obtain ⟨hresults, hbuffer, -, htail, -⟩ := hsoon limit hlimit
    exact ⟨hresults, hbuffer, htail⟩
  · have hbytes : drippingRecords.bytes =
        (⟨3, 1, [0xAA], by decide⟩ : Record).encode ++ [0x16, 3, 3, 0, 0, 0x17] := rfl
    obtain ⟨hok, -⟩ := readRecord_encode harrives hbytes [] 0
    obtain ⟨record, hbuffer, -⟩ := records_exact.2.1 12 [] 0 drippingRecords hok
    exact ⟨record, hbuffer⟩

/-! ## What is kept -/

/-- Something of a header, but not all of it. -/
def BrokenHeader (data : Bytes) : Prop := data ≠ [] ∧ data.length < headerLength

theorem not_brokenHeader {header : Bytes} (h : header.length = headerLength) (more : Bytes) :
    ¬ BrokenHeader (header ++ more) := by
  rintro ⟨-, hshort⟩
  rw [List.length_append] at hshort
  omega

/-- What was taken off the stream was appended, unless it is a broken header, which was dropped. -/
theorem Comes.kept {buffer : Bytes} {r : Replay} {read : RecordRead} (h : Comes buffer r read)
    (hdone : read.result ≠ .error .expired) :
    ∃ data, r.Gives data read.rest ∧ ((read.buffer = buffer ++ data ∧ ¬ BrokenHeader data) ∨
      (BrokenHeader data ∧ read.buffer = buffer ∧
        ∃ fault, read.result = .error (.failed (.io fault)))) := by
  cases h with
  | @headerBroke data rest time fault hdata hshort =>
    refine ⟨data, hdata, ?_⟩
    by_cases hnone : data = []
    · exact .inl ⟨by rw [hnone, List.append_nil], fun h => h.1 hnone⟩
    · exact .inr ⟨⟨hnone, hshort⟩, rfl, fault, rfl⟩
  | @wrongType header rest time hdata hlength htype =>
    exact ⟨header, hdata, .inl ⟨rfl, List.append_nil header ▸ not_brokenHeader hlength []⟩⟩
  | @tooLong header rest time hdata hlength htype hmost =>
    exact ⟨header, hdata, .inl ⟨rfl, List.append_nil header ▸ not_brokenHeader hlength []⟩⟩
  | @bodyBroke header body rest time e hdata hlength htype hmost hshort he =>
    exact ⟨header ++ body, hdata, .inl ⟨rfl, not_brokenHeader hlength body⟩⟩
  | @read rest time record hdata =>
    exact ⟨record.encode, hdata, .inl ⟨rfl, not_brokenHeader record.length_header record.body⟩⟩
  | expired => exact absurd rfl hdone

/-- **What was read is kept, but for a broken header.** Whatever reading a record comes to, unless
its caller's time limit passes, some run of reads took `data` off the stream. That is what was
appended to the buffer, and buffer and stream still hold everything, exactly when it is not a header
that broke off behind its first byte: then the buffer is as it was before, and the error is that the
stream ended or failed. It makes no difference that the buffer is filled in place and cut back to
what was received. -/
theorem record_bytes_kept (limit : Nat) (buffer : Bytes) (now : Nat) (r : Replay) :
    let read := readRecord limit buffer now r
    InPlace.readRecord limit buffer now r = read ∧
    (read.result ≠ .error .expired →
      ∃ data, r.Gives data read.rest ∧ data ++ read.rest.bytes = r.bytes ∧
        (read.buffer = buffer ++ data ↔ ¬ BrokenHeader data) ∧
        (read.buffer ++ read.rest.bytes = buffer ++ r.bytes ↔ ¬ BrokenHeader data) ∧
        (BrokenHeader data →
          read.buffer = buffer ∧ ∃ fault, read.result = .error (.failed (.io fault)))) := by
  intro read
  refine ⟨InPlace.readRecord_eq limit buffer now r, fun hdone => ?_⟩
  obtain ⟨data, hdata, hcase⟩ := (readRecord_comes limit buffer now r).kept hdone
  have hkept : read.buffer = buffer ++ data ↔ ¬ BrokenHeader data := by
    rcases hcase with ⟨hkept, hwhole⟩ | ⟨hbroken, hdropped, -⟩
    · exact iff_of_true hkept hwhole
    · have hlost : read.buffer ≠ buffer ++ data :=
        fun h => hbroken.1 (List.self_eq_append_right.1 (hdropped.symm.trans h))
      exact iff_of_false hlost fun h => h hbroken
  have hall : read.buffer ++ read.rest.bytes = buffer ++ r.bytes ↔
      read.buffer = buffer ++ data := by
    rw [← hdata.bytes, ← List.append_assoc]
    exact List.append_left_inj _
  refine ⟨data, hdata, hdata.bytes, hkept, hall.trans hkept, fun hbroken => ?_⟩
  rcases hcase with ⟨-, hwhole⟩ | ⟨-, hdropped⟩
  · exact absurd hbroken hwhole
  · exact hdropped

/-- A client whose connection is reset in the body of a record. -/
def resetInBody : Replay :=
  .ofSource { events := [⟨0, .data [0x16, 3, 1, 0, 2, 7]⟩, ⟨3, .fault .reset⟩, ⟨5, .data [8]⟩] }

theorem readRecord_resetInBody : readRecord 10 [0xFF] 0 resetInBody =
    ⟨.error (.failed (.io .reset)), [0xFF, 0x16, 3, 1, 0, 2, 7], 3,
      .ofSource { events := [⟨5, .data [8]⟩] }⟩ := by
  let midway : Replay :=
    .ofSource { events := [⟨0, .data [7]⟩, ⟨3, .fault .reset⟩, ⟨5, .data [8]⟩] }
  have hhead : resetInBody.gather 10 headerLength [] 0 = ⟨[0x16, 3, 1, 0, 2], none, 0, midway⟩ := by
    have hfirst : resetInBody.readBy 10 0 5 = some ⟨0, .bytes [0x16, 3, 1, 0, 2], midway⟩ := rfl
    rw [Replay.gather_eq (by decide)]
    simp only [headerLength, List.length_nil, Nat.sub_zero, hfirst]
    rw [Replay.gather, if_pos (by decide)]
    rfl
  have hbody : midway.gather 10 2 [] 0 =
      ⟨[7], some (.fault .reset), 3, .ofSource { events := [⟨5, .data [8]⟩] }⟩ := by
    have hfirst : midway.readBy 10 0 2 =
      some ⟨0, .bytes [7], .ofSource { events := [⟨3, .fault .reset⟩, ⟨5, .data [8]⟩] }⟩ := rfl
    rw [Replay.gather_eq (by decide)]
    simp only [List.length_nil, Nat.sub_zero, hfirst]
    rw [Replay.gather_eq (by decide)]
    rfl
  rw [readRecord, hhead]
  simp only [show bodyLength [0x16, 3, 1, 0, 2] = 2 from rfl, hbody]
  rfl

/-- The header and the byte of the body that came are kept. -/
theorem record_bytes_kept_reset :
    (readRecord 10 [0xFF] 0 resetInBody).result ≠ .error .expired ∧
    ∃ data, resetInBody.Gives data (readRecord 10 [0xFF] 0 resetInBody).rest ∧
      (readRecord 10 [0xFF] 0 resetInBody).buffer = [0xFF] ++ data := by
  have hdone : (readRecord 10 [0xFF] 0 resetInBody).result ≠ .error .expired := by
    rw [readRecord_resetInBody]
    nofun
  obtain ⟨data, hgives, hbytes, hkept, -⟩ := (record_bytes_kept 10 [0xFF] 0 resetInBody).2 hdone
  refine ⟨hdone, data, hgives, hkept.2 fun hbroken => ?_⟩
  rw [readRecord_resetInBody] at hbytes
  have hlength := congrArg List.length hbytes
  rw [List.length_append] at hlength
  exact absurd hbroken.2 (by change data.length + 1 = 7 at hlength; unfold headerLength; omega)

/-- A client that closes the connection behind three bytes of a header. -/
def abruptClient : Replay := .ofSource { events := [⟨0, .data [0x16, 3, 1]⟩] }

theorem readRecord_abruptClient : readRecord 10 [] 0 abruptClient =
    ⟨.error (.failed (.io .endedEarly)), [], 0, .ofSource {}⟩ := by
  have hhead : abruptClient.gather 10 headerLength [] 0 =
      ⟨[0x16, 3, 1], some .ended, 0, .ofSource {}⟩ := by
    have hfirst : abruptClient.readBy 10 0 5 =
      some ⟨0, .bytes [0x16, 3, 1], .ofSource {}⟩ := rfl
    rw [Replay.gather_eq (by decide)]
    simp only [headerLength, List.length_nil, Nat.sub_zero, hfirst]
    rw [Replay.gather_eq (by decide)]
    rfl
  rw [readRecord, hhead]

/-- The three bytes are neither in the buffer nor in the stream. -/
theorem record_bytes_lost :
    ¬ ∀ (limit : Nat) (buffer : Bytes) (now : Nat) (r : Replay),
      (readRecord limit buffer now r).result ≠ .error .expired →
        (readRecord limit buffer now r).buffer ++ (readRecord limit buffer now r).rest.bytes =
          buffer ++ r.bytes := by
  intro h
  have hkept := h 10 [] 0 abruptClient
  rw [readRecord_abruptClient] at hkept
  exact absurd (hkept nofun) (by decide)

end Intercept.Tls
