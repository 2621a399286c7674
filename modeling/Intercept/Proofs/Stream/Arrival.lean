import Intercept.Stream.Gather

/-!
# Streams that arrive in time

However a stream's data is cut into pieces and whenever each piece comes: if all of it is there by
a deadline, every read that must finish by the deadline delivers some of it as long as any is left.

* `Source.ArrivesBy`, `Replay.ArrivesBy`: all the data comes by the deadline, and no fault before
  its end.
* `Replay.Faultless`: no fault comes before the end of the data, whenever that is.

Results:
* `Replay.Faultless.arrives`: what has no fault is there by some deadline and all later ones.
* `Replay.ArrivesBy.readBy`: a read with room delivers some of what is left.
* `Replay.ArrivesBy.rest`: what a read leaves arrives in time too.
* `Replay.ArrivesBy.gather`: so many bytes are gathered if and only if there are so many.
-/

namespace Intercept

/-- All the data of a stream made at `start` comes by the deadline, no fault stands before its end,
and then the stream ends or falls silent. -/
def Source.ArrivesBy (start deadline : Nat) : List Event → Prop
  | [] => True
  | e :: r =>
    match e.what with
    | .data _ => start + e.due ≤ deadline ∧ ArrivesBy start deadline r
    | .fault _ => False
    | .close => True
    | .silence => True

/-- All that is to be read of a stream is there by the deadline. -/
def Replay.ArrivesBy (deadline : Nat) (r : Replay) : Prop :=
  Source.ArrivesBy r.source.start deadline r.source.events

/-- No fault stands before the end of the data. -/
def Source.Faultless : List Event → Prop
  | [] => True
  | e :: r =>
    match e.what with
    | .data _ => Faultless r
    | .fault _ => False
    | .close => True
    | .silence => True

/-- No fault comes before the end of what is to be read. -/
def Replay.Faultless (r : Replay) : Prop := Source.Faultless r.source.events

theorem Source.Faultless.arrives {es : List Event} (h : Faultless es) (start : Nat) :
    ∃ soon, ∀ deadline, soon ≤ deadline → ArrivesBy start deadline es := by
  induction es with
  | nil => exact ⟨0, fun _ _ => trivial⟩
  | cons e es ih =>
    obtain ⟨due, what⟩ := e
    cases what with
    | data bs =>
      obtain ⟨soon, hsoon⟩ := ih h
      exact ⟨max (start + due) soon, fun deadline hle => ⟨by simp only; omega, hsoon _ (by omega)⟩⟩
    | fault f => exact absurd h id
    | close => exact ⟨0, fun _ _ => trivial⟩
    | silence => exact ⟨0, fun _ _ => trivial⟩

theorem Source.ArrivesBy.faultless {start deadline : Nat} {es : List Event}
    (h : ArrivesBy start deadline es) : Faultless es := by
  induction es with
  | nil => exact trivial
  | cons e es ih =>
    obtain ⟨due, what⟩ := e
    cases what with
    | data bs => exact ih h.2
    | fault f => exact h
    | close => exact trivial
    | silence => exact trivial

/-- What has no fault is there by some deadline, and by every later one. -/
theorem Replay.Faultless.arrives {r : Replay} (h : r.Faultless) :
    ∃ soon, ∀ deadline, soon ≤ deadline → r.ArrivesBy deadline :=
  Source.Faultless.arrives h r.source.start

theorem Replay.ArrivesBy.faultless {r : Replay} {deadline : Nat} (h : r.ArrivesBy deadline) :
    r.Faultless :=
  Source.ArrivesBy.faultless h

namespace Source.ArrivesBy

variable {most : Option Nat} {start deadline now room : Nat} {es : List Event}

theorem readEvents (h : ArrivesBy start deadline es) (hmost : most ≠ some 0) (hroom : 0 < room)
    (hbytes : bytesOf es ≠ []) :
    ∃ time b bs rest,
      Source.readEvents most start room now es = some ⟨time, .bytes (b :: bs), rest⟩ ∧
        time ≤ max now deadline := by
  induction es generalizing now with
  | nil => exact absurd rfl hbytes
  | cons e es ih =>
    obtain ⟨due, what⟩ := e
    cases what with
    | data bs =>
      cases bs with
      | nil =>
        obtain ⟨hdue, hes⟩ := h
        obtain ⟨time, b, bs, rest, hr, ht⟩ := @ih (max now (start + due)) hes hbytes
        refine ⟨time, b, bs, rest, hr, ?_⟩
        simp only at hdue
        omega
      | cons b bs =>
        obtain ⟨hdue, -⟩ := h
        obtain ⟨n, hn⟩ : ∃ n, share most room = n + 1 :=
          Nat.exists_eq_succ_of_ne_zero (Nat.ne_of_gt (share_pos hmost hroom))
        refine ⟨max now (start + due), b, bs.take n, ?_⟩
        simp only [Source.readEvents, hn]
        refine ⟨_, rfl, ?_⟩
        simp only at hdue
        omega
    | fault f => exact absurd h id
    | close => exact absurd rfl hbytes
    | silence => exact absurd rfl hbytes

theorem rest (h : ArrivesBy start deadline es) {d : Reading (List Event)}
    (hr : Source.readEvents most start room now es = some d) : ArrivesBy start deadline d.rest := by
  induction es generalizing now with
  | nil =>
    cases hr
    exact h
  | cons e es ih =>
    obtain ⟨due, what⟩ := e
    cases what with
    | data bs =>
      obtain ⟨hdue, hes⟩ := h
      cases bs with
      | nil => exact ih hes hr
      | cons b bs =>
        cases hr
        simp only
        split
        · exact hes
        · exact ⟨hdue, hes⟩
    | fault f => exact absurd h id
    | close =>
      cases hr
      exact h
    | silence => cases hr

end Source.ArrivesBy

namespace Replay.ArrivesBy

variable {deadline now room : Nat} {r : Replay}

theorem rest (h : r.ArrivesBy deadline) {d : Reading Replay} (hr : r.read now room = some d) :
    d.rest.ArrivesBy deadline := by
  unfold Replay.read at hr
  split at hr
  · cases hr
    exact h
  · obtain ⟨s, hs, rfl⟩ := Option.map_eq_some_iff.1 hr
    obtain ⟨s', hs', rfl⟩ := Option.map_eq_some_iff.1 hs
    exact Source.ArrivesBy.rest h hs'

/-- As long as anything is left, a read with room delivers some of it by the deadline. -/
theorem readBy (h : r.ArrivesBy deadline) (hroom : 0 < room) (hbytes : r.bytes ≠ []) :
    ∃ time b bs rest, r.readBy deadline now room = some ⟨time, .bytes (b :: bs), rest⟩ := by
  suffices hread : ∃ time b bs rest,
      r.read now room = some ⟨time, .bytes (b :: bs), rest⟩ ∧ time ≤ max now deadline by
    obtain ⟨time, b, bs, rest, hr, ht⟩ := hread
    exact ⟨time, b, bs, rest, by rw [Replay.readBy, hr, Option.filter, if_pos (by simpa using ht)]⟩
  unfold Replay.read
  split
  · rename_i bytes held ht
    obtain ⟨b, bs, rfl⟩ := List.exists_cons_of_ne_nil ((take_length ht).2 hroom)
    exact ⟨now, b, bs, _, rfl, Nat.le_max_left _ _⟩
  · rename_i ht
    rw [Replay.bytes, take_eq_none ht, List.nil_append] at hbytes
    obtain ⟨time, b, bs, rest, hr, ht⟩ : ∃ time b bs rest,
        Source.readEvents r.source.most r.source.start room now r.source.events =
          some ⟨time, .bytes (b :: bs), rest⟩ ∧ time ≤ max now deadline :=
      Source.ArrivesBy.readEvents h r.source.some_each hroom hbytes
    refine ⟨time, b, bs, { r with source := { r.source with events := rest } }, ?_, ht⟩
    rw [Source.read, hr]
    rfl

end Replay.ArrivesBy

namespace Replay

/-- Gathering that is short gathered fewer bytes than were wanted. -/
theorem length_gather_lt {limit want now : Nat} {got : Bytes} {r : Replay} {s : Shortfall}
    (h : (r.gather limit want got now).short = some s) :
    (r.gather limit want got now).bytes.length < want := by
  fun_induction gather limit want got now r with
  | case1 => cases h
  | case2 got now r hmore => exact Nat.lt_of_not_le hmore
  | case3 got now r hmore => exact Nat.lt_of_not_le hmore
  | case4 got now r hmore time b bs rest hr ih => exact ih h
  | case5 got now r hmore => exact Nat.lt_of_not_le hmore
  | case6 got now r hmore => exact Nat.lt_of_not_le hmore

/-- Gathering that is not short gathered as many bytes as were wanted. -/
theorem le_length_gather {limit want now : Nat} {got : Bytes} {r : Replay}
    (h : (r.gather limit want got now).short = none) :
    want ≤ (r.gather limit want got now).bytes.length := by
  fun_induction gather limit want got now r with
  | case1 got now r hle => exact hle
  | case2 => cases h
  | case3 => cases h
  | case4 got now r _ time b bs rest hr ih => exact ih h
  | case5 => cases h
  | case6 => cases h

/-- What is gathered in full is as long as was wanted. -/
theorem length_gather {limit want now : Nat} {r : Replay}
    (h : (r.gather limit want [] now).short = none) :
    (r.gather limit want [] now).bytes.length = want := by
  have hmost := r.gather_length limit want [] now
  rw [List.length_nil, Nat.max_zero] at hmost
  exact Nat.le_antisymm hmost (le_length_gather h)

theorem ArrivesBy.gather_rest {deadline want now : Nat} {got : Bytes} {r : Replay}
    (h : r.ArrivesBy deadline) : (r.gather deadline want got now).rest.ArrivesBy deadline := by
  fun_induction gather deadline want got now r with
  | case1 => exact h
  | case2 => exact h
  | case3 got now r _ time rest hr => exact h.rest (read_of_readBy hr)
  | case4 got now r _ time b bs rest hr ih => exact ih (h.rest (read_of_readBy hr))
  | case5 got now r _ time rest hr => exact h.rest (read_of_readBy hr)
  | case6 got now r _ time f rest hr => exact h.rest (read_of_readBy hr)

/-- As long as fewer bytes were gathered than there are, more of them come. -/
theorem ArrivesBy.readBy_missing {deadline want now : Nat} {got : Bytes} {r : Replay}
    (h : r.ArrivesBy deadline) (hmore : ¬ want ≤ got.length) (hlong : want ≤ (got ++ r.bytes).length) :
    ∃ time b bs rest,
      r.readBy deadline now (want - got.length) = some ⟨time, .bytes (b :: bs), rest⟩ := by
  refine h.readBy (by omega) ?_
  intro hnone
  rw [hnone, List.append_nil] at hlong
  exact hmore hlong

/-- So many bytes are gathered in time if and only if there are so many. -/
theorem ArrivesBy.gather {deadline want now : Nat} {got : Bytes} {r : Replay}
    (h : r.ArrivesBy deadline) :
    (r.gather deadline want got now).short = none ↔ want ≤ (got ++ r.bytes).length := by
  constructor
  · intro hshort
    rw [← gather_bytes deadline want got now r, List.length_append]
    exact Nat.le_trans (le_length_gather hshort) (Nat.le_add_right _ _)
  · intro hlong
    fun_induction Replay.gather deadline want got now r with
    | case1 => rfl
    | case2 got now r hmore hr =>
      obtain ⟨_, _, _, _, hbytes⟩ := h.readBy_missing hmore hlong
      cases hr.symm.trans hbytes
    | case3 got now r hmore time rest hr =>
      obtain ⟨_, _, _, _, hbytes⟩ := h.readBy_missing hmore hlong
      cases hr.symm.trans hbytes
    | case4 got now r _ time b bs rest hr ih =>
      have hread := read_of_readBy hr
      have hbytes : b :: bs ++ rest.bytes = r.bytes := bytes_of_read hread
      refine ih (h.rest hread) ?_
      rwa [List.append_assoc, hbytes]
    | case5 got now r hmore time rest hr =>
      obtain ⟨_, _, _, _, hbytes⟩ := h.readBy_missing hmore hlong
      cases hr.symm.trans hbytes
    | case6 got now r hmore time f rest hr =>
      obtain ⟨_, _, _, _, hbytes⟩ := h.readBy_missing hmore hlong
      cases hr.symm.trans hbytes

/-- What is gathered in time is the front of what there is. -/
theorem ArrivesBy.gather_front {deadline : Nat} {r : Replay} {front tail : Bytes}
    (h : r.ArrivesBy deadline) (hbytes : r.bytes = front ++ tail) (now : Nat) :
    (r.gather deadline front.length [] now).short = none ∧
      (r.gather deadline front.length [] now).bytes = front ∧
      (r.gather deadline front.length [] now).rest.bytes = tail := by
  have hfull : (r.gather deadline front.length [] now).short = none := by
    rw [h.gather, hbytes, List.nil_append, List.length_append]
    exact Nat.le_add_right _ _
  have hall := r.gather_bytes deadline front.length [] now
  rw [hbytes, List.nil_append] at hall
  exact ⟨hfull, List.append_inj hall (length_gather hfull)⟩

end Replay
end Intercept
