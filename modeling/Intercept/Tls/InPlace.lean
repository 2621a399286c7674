import Intercept.Tls.Record

/-!
# Records read in place

The reader of `Record.lean` once more, with a buffer that is made long enough before anything is
read: the reads then fill it from a position on, and at each end it is cut back to that position.

* `resized`, `overwrite`: a buffer of another length, and with other bytes at a position.
* `fill`: reads until the buffer is full.
* `readRecord`: the header, and the body behind it.
-/

namespace Intercept.Tls.InPlace

/-- A buffer cut to a length, or filled up to it with zeros. -/
def resized (n : Nat) (buffer : Bytes) : Bytes := padded n (buffer.take n)

/-- A buffer with other bytes from a position on. -/
def overwrite (buffer : Bytes) (pos : Nat) (data : Bytes) : Bytes :=
  buffer.take pos ++ data ++ buffer.drop (pos + data.length)

/-- A buffer that was filled up to a position. -/
structure Filled where
  /-- Why it is not full; none when it is. -/
  short : Option Shortfall
  buffer : Bytes
  pos : Nat
  time : Nat
  rest : Replay

/-- Reads into a buffer from a position on until it is full. -/
def fill (limit : Nat) (buffer : Bytes) (pos now : Nat) (r : Replay) : Filled :=
  if buffer.length ≤ pos then ⟨none, buffer, pos, now, r⟩
  else match _h : r.readBy limit now (buffer.length - pos) with
    | none => ⟨some .expired, buffer, pos, max now limit, r⟩
    | some ⟨time, .bytes [], rest⟩ => ⟨some .ended, buffer, pos, time, rest⟩
    | some ⟨time, .bytes (b :: bs), rest⟩ =>
      fill limit (overwrite buffer pos (b :: bs)) (pos + (b :: bs).length) time rest
    | some ⟨time, .ended, rest⟩ => ⟨some .ended, buffer, pos, time, rest⟩
    | some ⟨time, .fault f, rest⟩ => ⟨some (.fault f), buffer, pos, time, rest⟩
termination_by r.weight
decreasing_by
  have := Replay.weight_of_read (Replay.read_of_readBy _h)
  simp only [Delivery.advances, List.isEmpty_cons, Bool.not_false, if_true] at this
  omega

/-- Appends the next record to the buffer (`read_record`). -/
def readRecord (limit : Nat) (buffer : Bytes) (now : Nat) (r : Replay) : RecordRead :=
  let start := buffer.length
  let head := fill limit (resized (start + headerLength) buffer) start now r
  match head.short with
  | some .ended =>
    ⟨.error (.failed (.io .endedEarly)), head.buffer.take start, head.time, head.rest⟩
  | some (.fault f) => ⟨.error (.failed (.io f)), head.buffer.take start, head.time, head.rest⟩
  | some .expired => ⟨.error .expired, head.buffer, head.time, head.rest⟩
  | none =>
    let header := head.buffer.drop start
    let length := bodyLength header
    if header.head? ≠ some handshakeType then
      ⟨.error (.failed .notHandshake), head.buffer, head.time, head.rest⟩
    else if mostInRecord < length then
      ⟨.error (.failed (.recordTooLarge length)), head.buffer, head.time, head.rest⟩
    else
      let first := start + headerLength
      let body := fill limit (resized (first + length) head.buffer) first head.time head.rest
      match body.short with
      | none => ⟨.ok (), body.buffer, body.time, body.rest⟩
      | some .ended =>
        ⟨.error (.failed .truncated), body.buffer.take body.pos, body.time, body.rest⟩
      | some (.fault f) =>
        ⟨.error (.failed (.io f)), body.buffer.take body.pos, body.time, body.rest⟩
      | some .expired => ⟨.error .expired, body.buffer, body.time, body.rest⟩

end Intercept.Tls.InPlace
