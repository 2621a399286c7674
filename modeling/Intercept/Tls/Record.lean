import Intercept.Stream.Gather
import Intercept.Tls.ClientHello

/-!
# Records off a stream

A record is a header of five bytes, the last two of which give the length of its body.

* `readRecord` appends the next record of a stream to a buffer. A header that does not arrive in
  full is dropped from the buffer; a body that does not stays as far as it came.

Results:
* `readRecord_ok`: a record that was read is what was taken off the stream, no more and no less.
-/

namespace Intercept.Tls

/-- What reading a record came to. -/
structure RecordRead where
  result : Except (Stop Error) Unit
  /-- The buffer afterwards. -/
  buffer : Bytes
  time : Nat
  rest : Replay

/-- The length of the body that a header announces. -/
def bodyLength (header : Bytes) : Nat :=
  match header with
  | [_, _, _, hi, lo] => number hi lo
  | _ => 0

/-- Bytes with zeros behind them up to a length. -/
def padded (n : Nat) (b : Bytes) : Bytes := b ++ List.replicate (n - b.length) 0

/-- Appends the next record to the buffer (`read_record`). When the time limit passes first, the
buffer has zeros in the place of what did not arrive. -/
def readRecord (limit : Nat) (buffer : Bytes) (now : Nat) (r : Replay) : RecordRead :=
  let head := r.gather limit headerLength [] now
  match head.short with
  | some .ended => ⟨.error (.failed (.io .endedEarly)), buffer, head.time, head.rest⟩
  | some (.fault f) => ⟨.error (.failed (.io f)), buffer, head.time, head.rest⟩
  | some .expired =>
    ⟨.error .expired, buffer ++ padded headerLength head.bytes, head.time, head.rest⟩
  | none =>
    let length := bodyLength head.bytes
    if head.bytes.head? ≠ some handshakeType then
      ⟨.error (.failed .notHandshake), buffer ++ head.bytes, head.time, head.rest⟩
    else if mostInRecord < length then
      ⟨.error (.failed (.recordTooLarge length)), buffer ++ head.bytes, head.time, head.rest⟩
    else
      let body := head.rest.gather limit length [] head.time
      let result := match body.short with
        | none => .ok ()
        | some .ended => .error (.failed .truncated)
        | some (.fault f) => .error (.failed (.io f))
        | some .expired => .error .expired
      let arrived := if body.short = some .expired then padded length body.bytes else body.bytes
      ⟨result, buffer ++ head.bytes ++ arrived, body.time, body.rest⟩

/-- A record that was read is what was taken off the stream, no more and no less. -/
theorem readRecord_ok {limit : Nat} {buffer : Bytes} {now : Nat} {r : Replay} {u : Unit}
    (h : (readRecord limit buffer now r).result = .ok u) :
    ∃ record, (readRecord limit buffer now r).buffer = buffer ++ record ∧
      record ++ (readRecord limit buffer now r).rest.bytes = r.bytes := by
  have hh := Replay.gather_bytes limit headerLength [] now r
  unfold readRecord at h ⊢
  simp only at h ⊢
  split at h <;> try (simp at h; done)
  rename_i hs
  split at h <;> try (simp at h; done)
  rename_i ht
  split at h <;> try (simp at h; done)
  rename_i hl
  have hb := Replay.gather_bytes limit (bodyLength (r.gather limit headerLength [] now).bytes) []
    (r.gather limit headerLength [] now).time (r.gather limit headerLength [] now).rest
  simp only [if_neg ht, if_neg hl]
  split at h <;> try (simp at h; done)
  rename_i hn
  simp only [hn, List.append_assoc, List.append_cancel_left_eq, exists_eq_left', reduceCtorEq,
    if_false]
  rw [hb]
  exact hh

end Intercept.Tls
