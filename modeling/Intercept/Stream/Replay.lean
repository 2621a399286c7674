import Intercept.Stream.Source

/-!
# Replayed bytes

Bytes that were read off a stream to look at them are put back in front of it. A stream with bytes
put back is read like any other, and more bytes can be put back in front of those.

* `Replay.putBack` puts bytes in front.
* `Replay.read` takes from the outermost bytes put back, and from the stream when none are left.
* `Replay.bytes` is all that is still to be read.

Results:
* `bytes_of_read`: what a read delivers and what is left over are what was to be read.
* `weight_of_read`: each read that delivers bytes or a fault leaves less to come.
* `bytes_of_ended`: at its end a stream has nothing left.
* `length_of_read`: a read delivers no more than there is room for, and something if there is room.
-/

namespace Intercept

/-- A source with bytes put back in front of it, the outermost first (`ReplayStream`). -/
structure Replay where
  held : List Bytes := []
  source : Source
deriving DecidableEq, Repr

namespace Replay

/-- A source in front of which nothing was put back. -/
def ofSource (s : Source) : Replay := ⟨[], s⟩

/-- Puts bytes in front (`ReplayStream::new`). -/
def putBack (bytes : Bytes) (r : Replay) : Replay := { r with held := bytes :: r.held }

/-- Takes at most `room` bytes of the first piece that holds any: the bytes and the pieces left. -/
def take (room : Nat) : List Bytes → Option (Bytes × List Bytes)
  | [] => none
  | [] :: r => (take room r).map fun (bytes, rest) => (bytes, [] :: rest)
  | (b :: bs) :: r => some ((b :: bs).take room, (b :: bs).drop room :: r)

/-- Waits from `now` on for bytes and takes at most `room` of them (`ReplayStream::poll_read`);
`none` when nothing ever comes. -/
def read (r : Replay) (now room : Nat) : Option (Reading Replay) :=
  match take room r.held with
  | some (bytes, held) => some ⟨now, .bytes bytes, { r with held := held }⟩
  | none => (r.source.read now room).map fun s => ⟨s.time, s.delivery, { r with source := s.rest }⟩

/-- A read that must finish by the deadline; what is there at once is taken even after it. `none`
when the deadline passes first. -/
def readBy (r : Replay) (deadline now room : Nat) : Option (Reading Replay) :=
  (r.read now room).filter (·.time ≤ max now deadline)

/-- All that is still to be read. -/
def bytes (r : Replay) : Bytes := r.held.flatten ++ r.source.bytes

/-- A bound on the reads that are left. -/
def weight (r : Replay) : Nat := r.held.flatten.length + r.source.weight

theorem take_flatten {room : Nat} {held rest : List Bytes} {bytes : Bytes}
    (h : take room held = some (bytes, rest)) : bytes ++ rest.flatten = held.flatten := by
  induction held generalizing rest with
  | nil => simp [take] at h
  | cons x r ih =>
    cases x with
    | nil =>
      simp only [take, Option.map_eq_some_iff, Prod.mk.injEq] at h
      obtain ⟨⟨bytes', rest'⟩, h, rfl, rfl⟩ := h
      simpa using ih h
    | cons b bs =>
      simp only [take, Option.some.injEq, Prod.mk.injEq] at h
      obtain ⟨rfl, rfl⟩ := h
      simp only [List.flatten_cons]
      rw [← List.append_assoc, List.take_append_drop]

theorem take_eq_none {room : Nat} {held : List Bytes} (h : take room held = none) :
    held.flatten = [] := by
  induction held with
  | nil => rfl
  | cons x r ih =>
    cases x with
    | nil => simpa using ih (by simpa [take] using h)
    | cons b bs => simp [take] at h

theorem flatten_of_take {room : Nat} {held rest : List Bytes} {bytes : Bytes}
    (h : take room held = some (bytes, rest)) : held.flatten ≠ [] := by
  induction held generalizing bytes rest with
  | nil => cases h
  | cons x r ih =>
    cases x with
    | nil =>
      obtain ⟨taken, htake, -⟩ := Option.map_eq_some_iff.1 h
      rw [List.flatten_cons, List.nil_append]
      exact ih htake
    | cons b bs => exact List.cons_ne_nil _ _

/-- What a read delivers and what is left over are what was to be read. -/
theorem bytes_of_read {r : Replay} {now room : Nat} {d : Reading Replay}
    (h : r.read now room = some d) :
    (match d.delivery with
      | .bytes data => data ++ d.rest.bytes
      | _ => d.rest.bytes) = r.bytes := by
  unfold read at h
  split at h
  · rename_i bytes held ht
    simp only [Option.some.injEq] at h
    subst h
    simp only [Replay.bytes]
    rw [← List.append_assoc, take_flatten ht]
  · rename_i ht
    obtain ⟨s, hs, rfl⟩ := Option.map_eq_some_iff.1 h
    have := Source.bytes_of_read hs
    simp only [Replay.bytes, take_eq_none ht, List.nil_append]
    exact this

/-- Each read that delivers bytes or a fault leaves less to come. -/
theorem weight_of_read {r : Replay} {now room : Nat} {d : Reading Replay}
    (h : r.read now room = some d) :
    d.rest.weight + (if d.delivery.advances then 1 else 0) ≤ r.weight := by
  unfold read at h
  split at h
  · rename_i bytes held ht
    simp only [Option.some.injEq] at h
    subst h
    have := congrArg List.length (take_flatten ht)
    simp only [List.length_append] at this
    simp only [weight, Delivery.advances]
    cases bytes <;> simp at this ⊢ <;> omega
  · rename_i ht
    obtain ⟨s, hs, rfl⟩ := Option.map_eq_some_iff.1 h
    have := Source.weight_of_read hs
    simp only [weight, take_eq_none ht]
    omega

/-- A read never finishes before it starts. -/
theorem le_time_of_read {r : Replay} {now room : Nat} {d : Reading Replay}
    (h : r.read now room = some d) : now ≤ d.time := by
  unfold read at h
  split at h
  · simp only [Option.some.injEq] at h
    subst h
    exact Nat.le_refl _
  · obtain ⟨s, hs, rfl⟩ := Option.map_eq_some_iff.1 h
    exact Source.le_time_of_read (r := s) hs

theorem read_of_readBy {r : Replay} {deadline now room : Nat} {d : Reading Replay}
    (h : r.readBy deadline now room = some d) : r.read now room = some d := by
  unfold readBy at h
  cases hr : r.read now room <;> simp_all [Option.filter]

theorem le_time_of_readBy {r : Replay} {deadline now room : Nat} {d : Reading Replay}
    (h : r.readBy deadline now room = some d) : now ≤ d.time := le_time_of_read (read_of_readBy h)

/-- At its end a stream has nothing left. -/
theorem bytes_of_ended {r : Replay} {now room : Nat} {d : Reading Replay}
    (h : r.read now room = some d) (hd : d.delivery = .ended) : r.bytes = [] := by
  unfold read at h
  split at h
  · simp only [Option.some.injEq] at h
    subst h
    simp at hd
  · rename_i ht
    obtain ⟨s, hs, rfl⟩ := Option.map_eq_some_iff.1 h
    rw [Replay.bytes, take_eq_none ht, Source.bytes_of_ended hs hd, List.append_nil]

theorem take_length {room : Nat} {held rest : List Bytes} {bytes : Bytes}
    (h : take room held = some (bytes, rest)) : bytes.length ≤ room ∧ (0 < room → bytes ≠ []) := by
  induction held generalizing rest with
  | nil => simp [take] at h
  | cons x r ih =>
    cases x with
    | nil =>
      simp only [take, Option.map_eq_some_iff, Prod.mk.injEq] at h
      obtain ⟨⟨bytes', rest'⟩, h, rfl, rfl⟩ := h
      exact ih h
    | cons b bs =>
      simp only [take, Option.some.injEq, Prod.mk.injEq] at h
      obtain ⟨rfl, rfl⟩ := h
      refine ⟨by rw [List.length_take]; omega, fun hr h0 => ?_⟩
      have := congrArg List.length h0
      rw [List.length_take, List.length_cons, List.length_nil] at this
      omega

/-- A read delivers no more than there is room for, and something if there is room. -/
theorem length_of_read {r : Replay} {now room : Nat} {d : Reading Replay} {data : Bytes}
    (h : r.read now room = some d) (hd : d.delivery = .bytes data) :
    data.length ≤ room ∧ (0 < room → data ≠ []) := by
  unfold read at h
  split at h
  · rename_i bytes held ht
    simp only [Option.some.injEq] at h
    subst h
    simp only [Delivery.bytes.injEq] at hd
    subst hd
    exact take_length ht
  · obtain ⟨s, hs, rfl⟩ := Option.map_eq_some_iff.1 h
    exact Source.length_of_read hs hd

@[simp] theorem bytes_putBack (bytes : Bytes) (r : Replay) :
    (r.putBack bytes).bytes = bytes ++ r.bytes := by simp [putBack, Replay.bytes]

@[simp] theorem bytes_ofSource (s : Source) : (ofSource s).bytes = s.bytes := rfl

end Replay
end Intercept
