import Intercept.Stream.Fault
import Intercept.Text.Cut

/-!
# The read side of a connection

A source is what the peer is going to send: pieces of data, faults, the end of the stream or
silence, each at its time. Times are milliseconds on one clock.

* `Source.read` waits for the next event and takes part of it. One read never crosses a piece
  boundary and never takes more than the source lets it take at once, which may be anything but
  nothing.
* `Source.bytes` is all the data that is still to come.

Results:
* `bytes_of_read`: what a read delivers and what is left over are what was to come.
* `weight_of_read`: each read that delivers bytes or a fault leaves less to come.
* `bytes_of_ended`: at its end a stream has nothing left.
* `length_of_read`: a read delivers no more than there is room for, and something if there is room.
-/

namespace Intercept

/-- What the peer does next. -/
inductive Happening
  | data (bytes : Bytes)
  | fault (f : Fault)
  /-- The stream ends here. -/
  | close
  /-- Nothing ever comes again. -/
  | silence
deriving DecidableEq, Repr

/-- Something the peer does, and when: so many milliseconds after the stream was made. -/
structure Event where
  due : Nat := 0
  what : Happening
deriving DecidableEq, Repr

/-- Where there is no bound on a read it takes something. -/
theorem Source.boundless : (none : Option Nat) ≠ some 0 := nofun

/-- What the peer is still going to do. -/
structure Source where
  /-- When the stream was made. -/
  start : Nat := 0
  events : List Event := []
  /-- The most that one read takes, if there is such a bound. -/
  most : Option Nat := none
  /-- A read takes something. -/
  some_each : most ≠ some 0 := by exact Source.boundless
deriving DecidableEq, Repr

/-- What one read comes to. -/
inductive Delivery
  | bytes (data : Bytes)
  | ended
  | fault (f : Fault)
deriving DecidableEq, Repr

/-- Whether a delivery uses up something of what was to come. -/
def Delivery.advances : Delivery → Bool
  | .bytes data => !data.isEmpty
  | .ended => false
  | .fault _ => true

/-- A finished read: when it finished, what it delivered, and the stream afterwards. -/
structure Reading (σ : Type) where
  time : Nat
  delivery : Delivery
  rest : σ

/-- Why an operation that waits did not finish. -/
inductive Stop (ε : Type)
  | failed (e : ε)
  /-- The caller's time limit passed. -/
  | expired
deriving DecidableEq, Repr

namespace Source

/-- How much a read takes that has room for `room` bytes. -/
def share (most : Option Nat) (room : Nat) : Nat := (most.map (min room)).getD room

theorem share_le (most : Option Nat) (room : Nat) : share most room ≤ room := by
  cases most with
  | none => exact Nat.le_refl room
  | some n => exact Nat.min_le_left room n

theorem share_pos {most : Option Nat} {room : Nat} (hmost : most ≠ some 0) (hroom : 0 < room) :
    0 < share most room := by
  cases most with
  | none => exact hroom
  | some n =>
    have hn : n ≠ 0 := fun h => hmost (congrArg some h)
    exact Nat.lt_min.2 ⟨hroom, Nat.pos_of_ne_zero hn⟩

/-- Waits from `now` on for the next event and takes at most `room` bytes of it; `none` when nothing
ever comes. Empty data is passed over; an end stays in place, and the end of the events is one. -/
def readEvents (most : Option Nat) (start room now : Nat) :
    List Event → Option (Reading (List Event))
  | [] => some ⟨now, .ended, []⟩
  | e :: r =>
    let time := max now (start + e.due)
    match e.what with
    | .data [] => readEvents most start room time r
    | .data (b :: bs) =>
      let n := share most room
      let left := (b :: bs).drop n
      let rest := if left.isEmpty then r else { e with what := .data left } :: r
      some ⟨time, .bytes ((b :: bs).take n), rest⟩
    | .fault f => some ⟨time, .fault f, r⟩
    | .close => some ⟨time, .ended, e :: r⟩
    | .silence => none

/-- Waits from `now` on for the next event and takes at most `room` bytes of it. -/
def read (s : Source) (now room : Nat) : Option (Reading Source) :=
  (readEvents s.most s.start room now s.events).map fun r =>
    ⟨r.time, r.delivery, { s with events := r.rest }⟩

/-- The data of an event. -/
def eventBytes (e : Event) : Bytes :=
  match e.what with
  | .data bytes => bytes
  | _ => []

/-- The data that comes before the stream ends or falls silent. -/
def bytesOf : List Event → Bytes
  | [] => []
  | e :: r =>
    match e.what with
    | .data bytes => bytes ++ bytesOf r
    | .fault _ => bytesOf r
    | .close => []
    | .silence => []

/-- All the data that is still to come. -/
def bytes (s : Source) : Bytes := bytesOf s.events

/-- A bound on the reads that events are good for. -/
def weightOf : List Event → Nat
  | [] => 0
  | e :: r => (eventBytes e).length + 1 + weightOf r

/-- A bound on the reads that are left. -/
def weight (s : Source) : Nat := weightOf s.events

theorem readEvents_bytes {most : Option Nat} {start room now : Nat} {es : List Event}
    {r : Reading (List Event)} (h : readEvents most start room now es = some r) :
    (match r.delivery with
      | .bytes data => data ++ bytesOf r.rest
      | _ => bytesOf r.rest) = bytesOf es := by
  induction es generalizing now with
  | nil => simp only [readEvents, Option.some.injEq] at h; subst h; rfl
  | cons e es ih =>
    obtain ⟨due, what⟩ := e
    cases what with
    | data bs =>
      cases bs with
      | nil => simp only [readEvents] at h; simpa [bytesOf] using ih h
      | cons b bs =>
        simp only [readEvents, Option.some.injEq] at h
        subst h
        by_cases hl : ((b :: bs).drop (share most room)).isEmpty
        · have := List.take_append_drop (share most room) (b :: bs)
          rw [List.isEmpty_iff.1 hl, List.append_nil] at this
          simp [hl, bytesOf, this]
        · simp only [hl, bytesOf, Bool.false_eq_true, if_false]
          rw [← List.append_assoc, List.take_append_drop]
    | fault f => simp only [readEvents, Option.some.injEq] at h; subst h; rfl
    | close => simp only [readEvents, Option.some.injEq] at h; subst h; rfl
    | silence => simp [readEvents] at h

/-- What a read delivers and what is left over are what was to come. -/
theorem bytes_of_read {s : Source} {now room : Nat} {r : Reading Source}
    (h : s.read now room = some r) :
    (match r.delivery with
      | .bytes data => data ++ r.rest.bytes
      | _ => r.rest.bytes) = s.bytes := by
  obtain ⟨r', hr, rfl⟩ := Option.map_eq_some_iff.1 h
  exact readEvents_bytes hr

/-- Each read that delivers bytes or a fault leaves less to come. -/
theorem weight_of_readEvents {most : Option Nat} {start room now : Nat} {es : List Event}
    {r : Reading (List Event)} (h : readEvents most start room now es = some r) :
    weightOf r.rest + (if r.delivery.advances then 1 else 0) ≤ weightOf es := by
  induction es generalizing now with
  | nil =>
    simp only [readEvents, Option.some.injEq] at h
    subst h
    simp [Delivery.advances]
  | cons e es ih =>
    obtain ⟨due, what⟩ := e
    cases what with
    | data bs =>
      cases bs with
      | nil =>
        simp only [readEvents] at h
        have := ih h
        simp only [weightOf]
        omega
      | cons b bs =>
        simp only [readEvents, Option.some.injEq] at h
        subst h
        have hlen := List.length_drop (i := share most room) (l := b :: bs)
        have htake := List.length_take (i := share most room) (l := b :: bs)
        have hpos : (Delivery.bytes ((b :: bs).take (share most room))).advances = true →
            0 < ((b :: bs).take (share most room)).length := by
          intro hp
          simp only [Delivery.advances, Bool.not_eq_true', List.isEmpty_eq_false_iff] at hp
          exact List.length_pos_iff.2 hp
        have hone : (if (Delivery.bytes ((b :: bs).take (share most room))).advances
            then 1 else 0) ≤ ((b :: bs).take (share most room)).length := by
          by_cases hp : (Delivery.bytes ((b :: bs).take (share most room))).advances
          · rw [if_pos hp]; exact hpos hp
          · rw [if_neg hp]; omega
        by_cases hl : ((b :: bs).drop (share most room)).isEmpty
        · simp only [hl, if_true, weightOf, eventBytes]
          omega
        · simp only [hl, Bool.false_eq_true, if_false, weightOf]
          rw [show eventBytes ⟨due, .data ((b :: bs).drop (share most room))⟩ =
            (b :: bs).drop (share most room) from rfl,
            show eventBytes ⟨due, .data (b :: bs)⟩ = b :: bs from rfl]
          omega
    | fault f =>
      simp only [readEvents, Option.some.injEq] at h
      subst h
      simp only [Delivery.advances, eventBytes, weightOf, List.length_nil, if_true]
      omega
    | close =>
      simp only [readEvents, Option.some.injEq] at h
      subst h
      simp [Delivery.advances]
    | silence => simp [readEvents] at h

/-- Each read that delivers bytes or a fault leaves less to come. -/
theorem weight_of_read {s : Source} {now room : Nat} {r : Reading Source}
    (h : s.read now room = some r) :
    r.rest.weight + (if r.delivery.advances then 1 else 0) ≤ s.weight := by
  obtain ⟨r', hr, rfl⟩ := Option.map_eq_some_iff.1 h
  exact weight_of_readEvents hr

/-- A read never finishes before it starts. -/
theorem le_time_of_readEvents {most : Option Nat} {start room now : Nat} {es : List Event}
    {r : Reading (List Event)} (h : readEvents most start room now es = some r) : now ≤ r.time := by
  induction es generalizing now with
  | nil => simp only [readEvents, Option.some.injEq] at h; subst h; exact Nat.le_refl _
  | cons e es ih =>
    obtain ⟨due, what⟩ := e
    cases what with
    | data bs =>
      cases bs with
      | nil =>
        simp only [readEvents] at h
        have := ih h
        omega
      | cons b bs =>
        simp only [readEvents, Option.some.injEq] at h
        subst h
        exact Nat.le_max_left _ _
    | fault f =>
      simp only [readEvents, Option.some.injEq] at h
      subst h
      exact Nat.le_max_left _ _
    | close =>
      simp only [readEvents, Option.some.injEq] at h
      subst h
      exact Nat.le_max_left _ _
    | silence => simp [readEvents] at h

/-- A read never finishes before it starts. -/
theorem le_time_of_read {s : Source} {now room : Nat} {r : Reading Source}
    (h : s.read now room = some r) : now ≤ r.time := by
  obtain ⟨r', hr, rfl⟩ := Option.map_eq_some_iff.1 h
  exact le_time_of_readEvents hr

theorem readEvents_ended {most : Option Nat} {start room now : Nat} {es : List Event}
    {r : Reading (List Event)}
    (h : readEvents most start room now es = some r) (hd : r.delivery = .ended) :
    bytesOf es = [] := by
  induction es generalizing now with
  | nil => rfl
  | cons e es ih =>
    obtain ⟨due, what⟩ := e
    cases what with
    | data bs =>
      cases bs with
      | nil => simp only [readEvents] at h; simpa [bytesOf] using ih h
      | cons b bs =>
        simp only [readEvents, Option.some.injEq] at h
        subst h
        simp at hd
    | fault f =>
      simp only [readEvents, Option.some.injEq] at h
      subst h
      simp at hd
    | close => rfl
    | silence => rfl

/-- At its end a stream has nothing left. -/
theorem bytes_of_ended {s : Source} {now room : Nat} {r : Reading Source}
    (h : s.read now room = some r) (hd : r.delivery = .ended) : s.bytes = [] := by
  obtain ⟨r', hr, rfl⟩ := Option.map_eq_some_iff.1 h
  exact readEvents_ended hr hd

theorem readEvents_length {most : Option Nat} {start room now : Nat} {es : List Event}
    {r : Reading (List Event)} {data : Bytes} (h : readEvents most start room now es = some r)
    (hd : r.delivery = .bytes data) :
    data.length ≤ room ∧ (most ≠ some 0 → 0 < room → data ≠ []) := by
  induction es generalizing now with
  | nil =>
    simp only [readEvents, Option.some.injEq] at h
    subst h
    simp at hd
  | cons e es ih =>
    obtain ⟨due, what⟩ := e
    cases what with
    | data bs =>
      cases bs with
      | nil => simp only [readEvents] at h; exact ih h
      | cons b bs =>
        simp only [readEvents, Option.some.injEq] at h
        subst h
        simp only [Delivery.bytes.injEq] at hd
        subst hd
        have hle := share_le most room
        refine ⟨by rw [List.length_take]; omega, fun hmost hroom hnone => ?_⟩
        have hpos := share_pos hmost hroom
        have hlength := congrArg List.length hnone
        rw [List.length_take, List.length_cons, List.length_nil] at hlength
        omega
    | fault f =>
      simp only [readEvents, Option.some.injEq] at h
      subst h
      simp at hd
    | close =>
      simp only [readEvents, Option.some.injEq] at h
      subst h
      simp at hd
    | silence => simp [readEvents] at h

/-- A read delivers no more than there is room for, and something if there is room. -/
theorem length_of_read {s : Source} {now room : Nat} {r : Reading Source} {data : Bytes}
    (h : s.read now room = some r) (hd : r.delivery = .bytes data) :
    data.length ≤ room ∧ (0 < room → data ≠ []) := by
  obtain ⟨r', hr, rfl⟩ := Option.map_eq_some_iff.1 h
  obtain ⟨hle, hsome⟩ := readEvents_length hr hd
  exact ⟨hle, hsome s.some_each⟩

end Source
end Intercept
