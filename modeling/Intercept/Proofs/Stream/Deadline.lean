import Intercept.Stream.Gather

/-!
# Reading up to a deadline

A read that must finish by a deadline finishes by then, unless it finishes at once, and sees nothing
of what the peer does later.

* `Replay.hush`: the stream of a peer that falls silent at a deadline.

Results:
* `readBy_eq_some_iff`: a read up to a deadline is a read that finishes by then, or at once.
* `gather_time_le`: no run of reads lasts longer than its deadline.
* `readBy_hush`, `gather_hush`: up to a deadline nobody can tell a peer that goes on from one that
  falls silent then.
* `gather_expired`: what is left when gathering runs out of time.
-/

namespace Intercept

/-- A reading with something else left to read. -/
def Reading.mapRest {σ τ : Type} (f : σ → τ) (d : Reading σ) : Reading τ :=
  ⟨d.time, d.delivery, f d.rest⟩

namespace Source

/-- Silence from the first event on that is due after the deadline. -/
def hushEvents (start deadline : Nat) : List Event → List Event
  | [] => []
  | e :: r => if deadline < start + e.due then [⟨0, .silence⟩] else e :: hushEvents start deadline r

/-- The peer as it is when it falls silent at the deadline. -/
def hush (deadline : Nat) (s : Source) : Source :=
  { s with events := hushEvents s.start deadline s.events }

variable {most : Option Nat} {start deadline bound room now later : Nat} {es : List Event}
  {e : Event}

/-- A read does not finish before the event that it waits for is due. -/
theorem due_le_of_readEvents {d : Reading (List Event)}
    (h : readEvents most start room now (e :: es) = some d) : start + e.due ≤ d.time := by
  obtain ⟨due, what⟩ := e
  have hdue : start + due ≤ max now (start + due) := Nat.le_max_right _ _
  cases what with
  | data bs =>
    cases bs with
    | nil =>
      have hread : readEvents most start room (max now (start + due)) es = some d := h
      exact Nat.le_trans hdue (le_time_of_readEvents hread)
    | cons b bs =>
      cases h
      exact hdue
  | fault f =>
    cases h
    exact hdue
  | close =>
    cases h
    exact hdue
  | silence => cases h

/-- What is read by the deadline is the same whatever the peer does later, and so is what is left up
to the deadline. -/
theorem readEvents_hush (hb : bound ≤ deadline) :
    (readEvents most start room now (hushEvents start deadline es)).filter (·.time ≤ bound) =
      ((readEvents most start room now es).filter (·.time ≤ bound)).map
        (·.mapRest (hushEvents start deadline)) := by
  induction es generalizing now with
  | nil =>
    simp only [hushEvents, readEvents]
    by_cases hn : now ≤ bound <;> simp [Option.filter, hn, Reading.mapRest, hushEvents]
  | cons e es ih =>
    by_cases hlate : deadline < start + e.due
    · have hmiss : (readEvents most start room now (e :: es)).filter (·.time ≤ bound) = none := by
        rw [Option.filter_eq_none_iff]
        intro d hd
        have := due_le_of_readEvents hd
        rw [decide_eq_true_iff]
        omega
      rw [hmiss, hushEvents, if_pos hlate]
      rfl
    · rw [hushEvents, if_neg hlate]
      obtain ⟨due, what⟩ := e
      cases what with
      | data bs =>
        cases bs with
        | nil => exact ih
        | cons b bs =>
          simp only [readEvents]
          by_cases ht : max now (start + due) ≤ bound
          · by_cases hleft : ((b :: bs).drop (share most room)).isEmpty <;>
              simp [Option.filter, ht, hleft, Reading.mapRest, hushEvents, hlate]
          · simp [Option.filter, ht]
      | fault f =>
        by_cases ht : max now (start + due) ≤ bound <;>
          simp [readEvents, Option.filter, ht, Reading.mapRest]
      | close =>
        by_cases ht : max now (start + due) ≤ bound <;>
          simp [readEvents, Option.filter, ht, Reading.mapRest, hushEvents, hlate]
      | silence => rfl

theorem read_hush (hb : bound ≤ deadline) (s : Source) :
    ((s.hush deadline).read now room).filter (·.time ≤ bound) =
      ((s.read now room).filter (·.time ≤ bound)).map (·.mapRest (hush deadline)) := by
  unfold read
  rw [Option.filter_map, Option.filter_map]
  exact (congrArg _ (readEvents_hush hb)).trans (by rw [Option.map_map, Option.map_map]; rfl)

/-- Whether a read is in time depends neither on when it began nor on its room. -/
theorem readEvents_missed {room' now' : Nat} (hn : now ≤ bound) (hn' : now' ≤ bound)
    (h : (readEvents most start room now es).filter (·.time ≤ bound) = none) :
    (readEvents most start room' now' es).filter (·.time ≤ bound) = none := by
  induction es generalizing now now' with
  | nil => simp [readEvents, Option.filter, hn] at h
  | cons e es ih =>
    obtain ⟨due, what⟩ := e
    by_cases hdue : start + due ≤ bound
    · have ht : max now (start + due) ≤ bound := Nat.max_le.2 ⟨hn, hdue⟩
      cases what with
      | data bs =>
        cases bs with
        | nil => exact ih ht (Nat.max_le.2 ⟨hn', hdue⟩) h
        | cons b bs => simp [readEvents, Option.filter, ht] at h
      | fault f => simp [readEvents, Option.filter, ht] at h
      | close => simp [readEvents, Option.filter, ht] at h
      | silence => rfl
    · rw [Option.filter_eq_none_iff]
      intro d hd
      have := due_le_of_readEvents hd
      rw [decide_eq_true_iff]
      simp only at this
      omega

end Source

namespace Replay

/-- The stream of a peer that falls silent at the deadline. -/
def hush (deadline : Nat) (r : Replay) : Replay := { r with source := r.source.hush deadline }

variable {r : Replay} {d : Reading Replay} {deadline later limit now room want : Nat} {got : Bytes}

theorem readBy_eq_some_iff :
    r.readBy deadline now room = some d ↔ r.read now room = some d ∧ d.time ≤ max now deadline := by
  unfold readBy
  rw [Option.filter_eq_some_iff, decide_eq_true_iff]

/-- A read that finishes by a deadline finishes by every later one. -/
theorem readBy_mono (h : r.readBy deadline now room = some d)
    (hle : max now deadline ≤ max now later) : r.readBy later now room = some d := by
  rw [readBy_eq_some_iff] at h ⊢
  exact ⟨h.1, Nat.le_trans h.2 hle⟩

/-- What is read by the deadline does not hang on what the peer does later. -/
theorem readBy_hush (hb : max now limit ≤ deadline) (r : Replay) (room : Nat) :
    (r.hush deadline).readBy limit now room =
      (r.readBy limit now room).map (·.mapRest (hush deadline)) := by
  unfold readBy read
  rw [show (r.hush deadline).held = r.held from rfl]
  cases ht : take room r.held with
  | some taken => simp [Option.filter, Reading.mapRest, hush]
  | none =>
    simp only [Option.filter_map]
    exact (congrArg _ (Source.read_hush hb r.source)).trans
      (by rw [Option.map_map, Option.map_map]; rfl)

theorem take_missed {room room' : Nat} {held : List Bytes} (h : take room held = none) :
    take room' held = none := by
  induction held with
  | nil => rfl
  | cons x held ih =>
    cases x with
    | nil =>
      rw [take, Option.map_eq_none_iff] at h ⊢
      exact ih h
    | cons b bs => cases h

/-- A read that missed its deadline would miss it with any other room, too, then and later. -/
theorem readBy_missed (h : r.readBy limit now room = none) (room' : Nat) :
    r.readBy limit (max now limit) room' = none := by
  unfold readBy read at h ⊢
  cases ht : take room r.held with
  | some taken =>
    have hnow : now ≤ max now limit := Nat.le_max_left _ _
    simp [ht, Option.filter, hnow] at h
  | none =>
    rw [ht] at h
    rw [take_missed ht]
    unfold Source.read at h ⊢
    simp only [Option.filter_map, Option.map_eq_none_iff] at h ⊢
    rw [Nat.max_eq_left (Nat.le_max_right now limit)]
    exact Source.readEvents_missed (Nat.le_max_left _ _) (Nat.le_refl _) h

/-! ## Gathering -/

theorem gather_time_le (limit want : Nat) (got : Bytes) (now : Nat) (r : Replay) :
    (r.gather limit want got now).time ≤ max now limit := by
  fun_induction gather limit want got now r with
  | case1 got now r hle => exact Nat.le_max_left _ _
  | case2 got now r hmore hr => exact Nat.le_refl _
  | case3 got now r hmore time rest hr => exact (readBy_eq_some_iff.1 hr).2
  | case4 got now r hmore time b bs rest hr ih =>
    have htime : time ≤ max now limit := (readBy_eq_some_iff.1 hr).2
    omega
  | case5 got now r hmore time rest hr => exact (readBy_eq_some_iff.1 hr).2
  | case6 got now r hmore time f rest hr => exact (readBy_eq_some_iff.1 hr).2

theorem le_time_gather (limit want : Nat) (got : Bytes) (now : Nat) (r : Replay) :
    now ≤ (r.gather limit want got now).time := by
  fun_induction gather limit want got now r with
  | case1 => exact Nat.le_refl _
  | case2 => exact Nat.le_max_left _ _
  | case3 got now r hmore time rest hr => exact le_time_of_readBy hr
  | case4 got now r hmore time b bs rest hr ih => exact Nat.le_trans (le_time_of_readBy hr) ih
  | case5 got now r hmore time rest hr => exact le_time_of_readBy hr
  | case6 got now r hmore time f rest hr => exact le_time_of_readBy hr

/-- What is gathered by the deadline does not hang on what the peer does later. -/
theorem gather_hush (hb : max now limit ≤ deadline) (want : Nat) (got : Bytes) (r : Replay) :
    (r.hush deadline).gather limit want got now =
      { r.gather limit want got now with
        rest := (r.gather limit want got now).rest.hush deadline } := by
  fun_induction gather limit want got now r with
  | case1 got now r hle => rw [gather, if_pos hle]
  | case2 got now r hmore hr => rw [gather_eq hmore, readBy_hush hb, hr]; rfl
  | case3 got now r hmore time rest hr => rw [gather_eq hmore, readBy_hush hb, hr]; rfl
  | case4 got now r hmore time b bs rest hr ih =>
    have htime : time ≤ max now limit := (readBy_eq_some_iff.1 hr).2
    rw [gather_eq hmore, readBy_hush hb, hr]
    exact ih (by omega)
  | case5 got now r hmore time rest hr => rw [gather_eq hmore, readBy_hush hb, hr]; rfl
  | case6 got now r hmore time f rest hr => rw [gather_eq hmore, readBy_hush hb, hr]; rfl

/-- Gathering that runs out of time does so at the deadline, short of what was wanted, and leaves a
stream that brings nothing more in time. -/
theorem gather_expired (h : (r.gather limit want got now).short = some .expired) :
    (r.gather limit want got now).time = max now limit ∧
      (r.gather limit want got now).bytes.length < want ∧
      ∀ room, (r.gather limit want got now).rest.readBy limit (max now limit) room = none := by
  fun_induction gather limit want got now r with
  | case1 => cases h
  | case2 got now r hmore hr => exact ⟨rfl, Nat.lt_of_not_le hmore, readBy_missed hr⟩
  | case3 => cases h
  | case4 got now r hmore time b bs rest hr ih =>
    have htime : time ≤ max now limit := (readBy_eq_some_iff.1 hr).2
    have hlater : now ≤ time := le_time_of_readBy hr
    rw [show max now limit = max time limit by omega]
    exact ih h
  | case5 => cases h
  | case6 => cases h

end Replay
end Intercept
