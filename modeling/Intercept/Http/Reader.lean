import Intercept.Http.Head
import Intercept.Stream.Replay

/-!
# Reading heads

A reader cuts heads off a stream. It reads ahead: what it read and did not yet use is its buffer.

* `Reader.fill` reads ahead once.
* `Reader.readRequest` and `Reader.readResponse` cut one head.

A reader carries its clock. Every wait ends at the latest when the caller's `limit` passes, and when
a read stays idle for longer than the reader's patience.

Results:
* `fill_bytes`: reading ahead neither loses nor invents bytes.
* `fill_weight`: each time the reader gets more there is less left to read.
* `le_now_fill`: reading ahead never takes the reader back in time.
* `bytes_of_fill_ended`: when the stream ends, what was read ahead is all there is.
* `readHead_bytes`: a head that was cut off is what was taken off the reader.
-/

namespace Intercept.Http

/-- How much a reader asks for at once (`READ_BUFFER_SIZE`). -/
def readAhead : Nat := 16384

/-- A stream with what was read ahead (`HttpReader`). -/
structure Reader where
  buffer : Bytes := []
  stream : Replay
  /-- How long a read may stay idle. -/
  patience : Option Nat := none
  /-- The time that the reader has come to. -/
  now : Nat := 0

namespace Reader

/-- All that is still to be used. -/
def bytes (r : Reader) : Bytes := r.buffer ++ r.stream.bytes

/-- Passes over bytes that were read ahead. -/
def skip (n : Nat) (r : Reader) : Reader := { r with buffer := r.buffer.drop n }

/-- When a wait ends at the latest. -/
def deadline (limit : Nat) (r : Reader) : Nat :=
  match r.patience with
  | some p => min (max r.now limit) (r.now + p)
  | none => max r.now limit

/-- How a wait ends that brings nothing by its deadline: patience counts first. -/
def verdict (limit : Nat) (r : Reader) : Stop Error :=
  match r.patience with
  | some p => if r.now + p ≤ max r.now limit then .failed .timeout else .expired
  | none => .expired

/-- What reading ahead comes to. -/
inductive Filled
  | more (r : Reader)
  | ended (r : Reader)
  | stopped (s : Stop Error) (r : Reader)

/-- Reads ahead once (`HttpReader::fill`). -/
def fill (limit : Nat) (r : Reader) : Filled :=
  match r.stream.readBy (r.deadline limit) r.now readAhead with
  | none => .stopped (r.verdict limit) { r with now := r.deadline limit }
  | some d =>
    let r' := { r with stream := d.rest, now := d.time }
    match d.delivery with
    | .bytes [] => .ended r'
    | .bytes (b :: bs) => .more { r' with buffer := r.buffer ++ b :: bs }
    | .ended => .ended r'
    | .fault f => .stopped (.failed (.io f)) r'

/-- The reader that reading ahead leaves. -/
def Filled.reader : Filled → Reader
  | more r => r
  | ended r => r
  | stopped _ r => r

/-- Reading ahead neither loses nor invents bytes. -/
theorem fill_bytes (limit : Nat) (r : Reader) : (r.fill limit).reader.bytes = r.bytes := by
  unfold fill
  split
  · rfl
  · rename_i d hd
    have := Replay.bytes_of_read (Replay.read_of_readBy hd)
    split <;> rename_i hdel <;> simp_all [Filled.reader, Reader.bytes]

theorem bytes_of_fill {limit : Nat} {r : Reader} {filled : Filled} (h : r.fill limit = filled) :
    filled.reader.bytes = r.bytes := h ▸ fill_bytes limit r

/-- Each time the reader gets more there is less left to read. -/
theorem fill_weight {limit : Nat} {r r' : Reader} (h : r.fill limit = .more r') :
    r'.stream.weight < r.stream.weight := by
  unfold fill at h
  split at h
  · simp at h
  · rename_i d hd
    have := Replay.weight_of_read (Replay.read_of_readBy hd)
    split at h <;> simp_all [Delivery.advances]
    subst h
    simp
    omega

theorem le_deadline (limit : Nat) (r : Reader) : r.now ≤ r.deadline limit := by
  unfold deadline
  split <;> omega

/-- Reading ahead never takes the reader back in time. -/
theorem le_now_fill (limit : Nat) (r : Reader) : r.now ≤ (r.fill limit).reader.now := by
  unfold fill
  split
  · exact r.le_deadline limit
  · rename_i d hd
    have := Replay.le_time_of_readBy hd
    split <;> exact this

theorem le_now_of_fill {limit : Nat} {r : Reader} {filled : Filled} (h : r.fill limit = filled) :
    r.now ≤ filled.reader.now := h ▸ le_now_fill limit r

/-- When the stream ends, what was read ahead is all there is. -/
theorem bytes_of_fill_ended {limit : Nat} {r r' : Reader} (h : r.fill limit = .ended r') :
    r'.bytes = r.buffer := by
  have hb : r'.bytes = r.bytes := bytes_of_fill h
  have hs : r.stream.bytes = [] := by
    unfold fill at h
    split at h
    · simp at h
    · rename_i d hd
      have hread := Replay.read_of_readBy hd
      split at h <;> rename_i hdel
      · exact absurd rfl ((Replay.length_of_read hread hdel).2 (by decide))
      · simp at h
      · exact Replay.bytes_of_ended hread hdel
      · simp at h
  rw [hb, Reader.bytes, hs, List.append_nil]

/-- An operation that ended: what came of it and the reader afterwards. -/
structure Read (α : Type) where
  result : Except (Stop Error) α
  reader : Reader

/-- Cuts a head off, reading ahead until there is one (`HttpReader::read_head`). An end of the
stream before that is the given error. -/
def readHead (incomplete : Error) (limit : Nat) (r : Reader) : Read Bytes :=
  match headEnd? r.buffer with
  | some n => ⟨.ok (r.buffer.take n), { r with buffer := r.buffer.drop n }⟩
  | none =>
    if mostInHead < r.buffer.length then ⟨.error (.failed .headTooLarge), r⟩
    else match _h : r.fill limit with
      | .more r => readHead incomplete limit r
      | .ended r => ⟨.error (.failed incomplete), r⟩
      | .stopped s r => ⟨.error s, r⟩
termination_by r.stream.weight
decreasing_by exact fill_weight _h

/-- A head that was cut off is what was taken off the reader, and not empty. -/
theorem readHead_bytes {incomplete : Error} {limit : Nat} {r : Reader} {raw : Bytes}
    (h : (r.readHead incomplete limit).result = .ok raw) :
    raw ++ (r.readHead incomplete limit).reader.bytes = r.bytes ∧ raw ≠ [] := by
  fun_induction readHead incomplete limit r with
  | case1 r n hn =>
    have hb := headEnd?_bounds hn
    simp only [Except.ok.injEq] at h
    subst h
    refine ⟨by simp [Reader.bytes, ← List.append_assoc], fun h0 => ?_⟩
    have := congrArg List.length h0
    rw [List.length_take, List.length_nil] at this
    omega
  | case2 => simp at h
  | case3 r _ _ r' hr ih =>
    obtain ⟨h1, h2⟩ := ih h
    exact ⟨h1.trans (bytes_of_fill hr), h2⟩
  | case4 => simp at h
  | case5 => simp at h

theorem le_now_readHead (incomplete : Error) (limit : Nat) (r : Reader) :
    r.now ≤ (r.readHead incomplete limit).reader.now := by
  fun_induction readHead incomplete limit r with
  | case1 => exact Nat.le_refl _
  | case2 => exact Nat.le_refl _
  | case3 r _ _ r' hr ih =>
    exact Nat.le_trans (le_now_of_fill hr) ih
  | case4 r _ _ r' hr => exact le_now_of_fill hr
  | case5 r _ _ s r' hr => exact le_now_of_fill hr

/-- Cuts off a request head and reads it (`HttpReader::read_request`). -/
def readRequest (limit : Nat) (r : Reader) : Read Request :=
  let head := r.readHead .invalidRequest limit
  match head.result with
  | .error s => ⟨.error s, head.reader⟩
  | .ok raw => ⟨(Request.ofRaw? raw).elim (.error (.failed .invalidRequest)) .ok, head.reader⟩

/-- A head that was cut off is all that a request is read from. -/
theorem readRequest_of_readHead {limit : Nat} {r : Reader} {raw : Bytes}
    (h : (r.readHead .invalidRequest limit).result = .ok raw) :
    (r.readRequest limit).result =
      (Request.ofRaw? raw).elim (.error (.failed .invalidRequest)) .ok := by
  unfold readRequest
  simp only
  rw [h]

/-- A request that was read is what was taken off the reader. -/
theorem readRequest_bytes {limit : Nat} {r : Reader} {request : Request}
    (h : (r.readRequest limit).result = .ok request) :
    request.raw ++ (r.readRequest limit).reader.bytes = r.bytes := by
  unfold readRequest at h ⊢
  simp only at h ⊢
  split at h
  · simp at h
  · rename_i raw hraw
    have hr : Request.ofRaw? raw = some request := by
      cases hq : Request.ofRaw? raw <;> simp_all
    rw [Request.raw_of_ofRaw? hr]
    exact (readHead_bytes hraw).1

/-- Cuts off a response head and reads it, given whether it answers a HEAD request
(`HttpReader::read_response`). -/
def readResponse (headRequest : Bool) (limit : Nat) (r : Reader) : Read Response :=
  let head := r.readHead .invalidResponse limit
  match head.result with
  | .error s => ⟨.error s, head.reader⟩
  | .ok raw =>
    ⟨(Response.ofRaw? headRequest raw).elim (.error (.failed .invalidResponse)) .ok, head.reader⟩

/-- What is left behind a response head is shorter. -/
theorem length_of_readResponse {headRequest : Bool} {limit : Nat} {r : Reader} {a : Response}
    (h : (r.readResponse headRequest limit).result = .ok a) :
    (r.readResponse headRequest limit).reader.bytes.length < r.bytes.length := by
  unfold readResponse at h ⊢
  simp only at h ⊢
  split at h
  · simp at h
  · rename_i raw hraw
    obtain ⟨h1, h2⟩ := readHead_bytes hraw
    have := List.length_pos_iff.2 h2
    have := congrArg List.length h1
    rw [List.length_append] at this
    show (r.readHead .invalidResponse limit).reader.bytes.length < _
    omega

end Reader

end Intercept.Http
