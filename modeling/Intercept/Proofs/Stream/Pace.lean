import Intercept.Stream.Replay
import Intercept.Stream.Sink

/-!
# Sides that keep up

What the two sides of a connection have to do for a transfer to go through: the one that is read
gives the bytes that are waited for, each before the wait for it is over, and the one that is
written takes them. What else the peer does, and what it does behind these bytes, is left open.

* `Pace`: until when a wait may last, by the moment it began.
* `Source.Steady`, `Replay.Steady`: so many bytes come at a pace, or all there are and then the end.
* `Sink.Takes`: so many bytes are taken, in whatever pieces they are offered.

Results:
* `Replay.Steady.of_prompt`: data that is due keeps any pace, into whatever pieces it is cut.
* `Replay.Steady.readBy`: a read that waits no longer than the pace allows delivers some of the
  bytes, and the others still come, or it finds the end.
* `Source.Steady.mono`: the pace is kept when fewer bytes are waited for, or from a later moment on.
* `Sink.Takes.writeAll`: an offer that the sink has room for is taken in full.
-/

namespace Intercept

/-! ## What is read -/

/-- Until when a wait may last, by the moment it began. -/
structure Pace where
  latest : Nat → Nat
  le_latest : ∀ t, t ≤ latest t
  /-- A wait that begins later need not be over earlier. -/
  mono : ∀ {s t}, s ≤ t → latest s ≤ latest t

/-- No wait lasts longer than so many milliseconds. -/
def Pace.idle (most : Nat) : Pace where
  latest t := t + most
  le_latest _ := Nat.le_add_right _ _
  mono h := Nat.add_le_add_right h _

/-- The events bring `want` bytes at the pace, or all they have and then the end. The first wait
began at `since`, each other one when the bytes before it were there; empty data ends no wait. What
comes behind these bytes is left open. -/
def Source.Steady (pace : Pace) (start : Nat) : (since want : Nat) → List Event → Prop
  | _, _, [] => True
  | since, want, e :: r =>
    want = 0 ∨ start + e.due ≤ pace.latest since ∧
      match e.what with
      | .data bytes =>
        Steady pace start (if bytes = [] then since else max since (start + e.due))
          (want - bytes.length) r
      | .fault _ => False
      | .close => True
      | .silence => False

instance Source.decidableSteady (pace : Pace) (start : Nat) : (since want : Nat) →
    (es : List Event) → Decidable (Source.Steady pace start since want es)
  | _, _, [] => inferInstanceAs (Decidable True)
  | since, want, ⟨due, .data bytes⟩ :: r =>
    have := decidableSteady pace start (if bytes = [] then since else max since (start + due))
      (want - bytes.length) r
    inferInstanceAs (Decidable (want = 0 ∨ start + due ≤ pace.latest since ∧ _))
  | since, want, ⟨due, .fault _⟩ :: _ =>
    inferInstanceAs (Decidable (want = 0 ∨ start + due ≤ pace.latest since ∧ False))
  | since, want, ⟨due, .close⟩ :: _ =>
    inferInstanceAs (Decidable (want = 0 ∨ start + due ≤ pace.latest since ∧ True))
  | since, want, ⟨due, .silence⟩ :: _ =>
    inferInstanceAs (Decidable (want = 0 ∨ start + due ≤ pace.latest since ∧ False))

/-- The stream brings `want` bytes at the pace, or all it has and then its end. Bytes that were put
back are there at once. -/
def Replay.Steady (pace : Pace) (since want : Nat) (r : Replay) : Prop :=
  Source.Steady pace r.source.start since (want - r.held.flatten.length) r.source.events

instance (pace : Pace) (since want : Nat) (r : Replay) : Decidable (r.Steady pace since want) :=
  inferInstanceAs (Decidable (Source.Steady pace r.source.start since _ r.source.events))

namespace Source.Steady

variable {pace : Pace} {start since now want room : Nat} {es : List Event}

/-- Nothing is asked of a stream of which no bytes are waited for. -/
theorem zero : Source.Steady pace start since 0 es := by
  cases es with
  | nil => trivial
  | cons e r => exact .inl rfl

/-- The pace is kept when fewer bytes are waited for, or from a later moment on. -/
theorem mono {later fewer : Nat} (h : Source.Steady pace start since want es)
    (hsince : since ≤ later) (hwant : fewer ≤ want) :
    Source.Steady pace start later fewer es := by
  induction es generalizing since later want fewer with
  | nil => trivial
  | cons e r ih =>
    obtain ⟨due, what⟩ := e
    rcases h with rfl | ⟨hdue, h⟩
    · exact .inl (Nat.le_zero.1 hwant)
    refine .inr ⟨Nat.le_trans hdue (pace.mono hsince), ?_⟩
    cases what with
    | data bytes =>
      refine ih h ?_ (by omega)
      split <;> omega
    | fault f => exact h
    | close => exact h
    | silence => exact h

/-- Data that is due keeps any pace, in whatever pieces it comes. -/
theorem of_prompt
    (hes : ∀ e ∈ es, start + e.due ≤ since ∧ ((∃ bytes, e.what = .data bytes) ∨ e.what = .close)) :
    Source.Steady pace start since want es := by
  induction es generalizing want with
  | nil => trivial
  | cons e es ih =>
    obtain ⟨⟨hdue, hwhat⟩, hes⟩ := List.forall_mem_cons.1 hes
    refine .inr ⟨Nat.le_trans hdue (pace.le_latest since), ?_⟩
    rcases hwhat with ⟨bytes, hdata⟩ | hclose
    · rw [hdata]
      simp only [Nat.max_eq_left hdue, ite_self]
      exact ih hes
    · rw [hclose]
      trivial

/-- A read brings some of the bytes and leaves the others to come, or finds the end. -/
theorem readEvents {most : Option Nat} (h : Source.Steady pace start since want es)
    (hmost : most ≠ some 0) (hwant : 0 < want) (hroom : 0 < room) (hsince : since ≤ now)
    (hnow : now ≤ pace.latest since) :
    ∃ d, Source.readEvents most start room now es = some d ∧ d.time ≤ pace.latest since ∧
      (d.delivery = .ended ∨ ∃ b bs, d.delivery = .bytes (b :: bs) ∧
        Source.Steady pace start d.time (want - (b :: bs).length) d.rest) := by
  induction es generalizing now with
  | nil => exact ⟨_, rfl, hnow, .inl rfl⟩
  | cons e r ih =>
    obtain ⟨due, what⟩ := e
    obtain ⟨hdue, h⟩ := h.resolve_left (by omega)
    have htime : max now (start + due) ≤ pace.latest since := Nat.max_le.2 ⟨hnow, hdue⟩
    cases what with
    | data bytes =>
      cases bytes with
      | nil => exact ih (by simpa using h) (by omega) htime
      | cons b bs =>
        -- a read takes at least one byte, and what it leaves of the piece is there at once
        obtain ⟨n, hn⟩ : ∃ n, share most room = n + 1 :=
          Nat.exists_eq_succ_of_ne_zero (Nat.ne_of_gt (share_pos hmost hroom))
        have hlater : max since (start + due) ≤ max now (start + due) := by omega
        have hlength : (b :: bs.take n).length + (bs.drop n).length = (b :: bs).length := by
          simp only [List.length_cons, List.length_take, List.length_drop]
          omega
        simp only [reduceCtorEq, if_false] at h
        refine ⟨_, rfl, htime, .inr ⟨b, bs.take n, by simp [hn], ?_⟩⟩
        simp only [hn, List.drop_succ_cons]
        split
        · rename_i hleft
          rw [List.isEmpty_iff.1 hleft, List.length_nil] at hlength
          exact h.mono hlater (by omega)
        · refine .inr ⟨?_, ?_⟩
          · exact Nat.le_trans (Nat.le_max_right _ _) (pace.le_latest _)
          · refine h.mono ?_ (by omega)
            split <;> omega
    | fault f => exact absurd h id
    | close => exact ⟨_, rfl, htime, .inl rfl⟩
    | silence => exact absurd h id

end Source.Steady

namespace Replay.Steady

variable {pace : Pace} {now want room : Nat} {r : Replay}

theorem of_prompt (h : ∀ e ∈ r.source.events, r.source.start + e.due ≤ now ∧
    ((∃ bytes, e.what = .data bytes) ∨ e.what = .close)) : r.Steady pace now want :=
  Source.Steady.of_prompt h

/-- A read that may last as long as the pace allows brings some of the bytes and leaves the others
to come, or finds the end. -/
theorem readBy {deadline : Nat} (h : r.Steady pace now want) (hwant : 0 < want) (hroom : 0 < room)
    (hdeadline : pace.latest now ≤ max now deadline) :
    ∃ d, r.readBy deadline now room = some d ∧
      (d.delivery = .ended ∨ ∃ b bs, d.delivery = .bytes (b :: bs) ∧
        d.rest.Steady pace d.time (want - (b :: bs).length)) := by
  suffices hread : ∃ d, r.read now room = some d ∧ d.time ≤ pace.latest now ∧
      (d.delivery = .ended ∨ ∃ b bs, d.delivery = .bytes (b :: bs) ∧
        d.rest.Steady pace d.time (want - (b :: bs).length)) by
    obtain ⟨d, hr, ht, hd⟩ := hread
    have hin : d.time ≤ max now deadline := Nat.le_trans ht hdeadline
    exact ⟨d, by rw [Replay.readBy, hr, Option.filter, if_pos (by simpa using hin)], hd⟩
  unfold Replay.read
  split
  · rename_i bytes held ht
    obtain ⟨b, bs, rfl⟩ := List.exists_cons_of_ne_nil ((take_length ht).2 hroom)
    have hlength := congrArg List.length (take_flatten ht)
    rw [List.length_append] at hlength
    refine ⟨_, rfl, pace.le_latest now, .inr ⟨b, bs, rfl, ?_⟩⟩
    exact Source.Steady.mono h (Nat.le_refl _) (by simp only; omega)
  · rename_i ht
    have h : Source.Steady pace r.source.start now want r.source.events := by
      have hheld : r.held.flatten.length = 0 := by rw [take_eq_none ht, List.length_nil]
      rwa [Replay.Steady, hheld, Nat.sub_zero] at h
    obtain ⟨d, hd, htime, hcases⟩ :=
      h.readEvents r.source.some_each hwant hroom (Nat.le_refl now) (pace.le_latest _)
    refine ⟨_, by rw [Source.read, hd]; rfl, htime, ?_⟩
    rcases hcases with hended | ⟨b, bs, hbytes, hrest⟩
    · exact .inl hended
    · refine .inr ⟨b, bs, hbytes, ?_⟩
      rw [Replay.Steady]
      exact Source.Steady.mono hrest (Nat.le_refl _) (Nat.sub_le _ _)

end Replay.Steady

/-- A stream that brings the pieces at once and then ends. -/
def Replay.ofPieces (pieces : List Bytes) : Replay :=
  .ofSource { events := pieces.map fun p => ⟨0, .data p⟩ }

theorem Replay.bytes_ofPieces (pieces : List Bytes) :
    (Replay.ofPieces pieces).bytes = pieces.flatten := by
  induction pieces with
  | nil => rfl
  | cons p pieces ih => exact congrArg (p ++ ·) ih

/-- A read that has room for the next piece takes it in full and at once. -/
theorem Replay.readBy_piece (deadline now : Nat) {room : Nat} {piece : Bytes} (pieces : List Bytes)
    (hne : piece ≠ []) (hroom : piece.length ≤ room) :
    (Replay.ofPieces (piece :: pieces)).readBy deadline now room =
      some ⟨now, .bytes piece, .ofPieces pieces⟩ := by
  obtain ⟨b, bs, rfl⟩ := List.exists_cons_of_ne_nil hne
  have hread : (Replay.ofPieces ((b :: bs) :: pieces)).read now room =
      some ⟨now, .bytes (b :: bs), .ofPieces pieces⟩ := by
    have hall := List.take_of_length_le hroom
    have hnone := List.drop_eq_nil_of_le hroom
    simp [Replay.read, Replay.ofPieces, Replay.ofSource, Replay.take, Source.read,
      Source.readEvents, Source.share, hall, hnone]
  simp only [Replay.readBy, hread, Option.filter, Nat.le_max_left, decide_true, if_true]

theorem Replay.Steady.ofPieces {pace : Pace} {now want : Nat} (pieces : List Bytes) :
    (Replay.ofPieces pieces).Steady pace now want := by
  refine of_prompt fun e he => ?_
  obtain ⟨p, -, rfl⟩ := List.mem_map.1 he
  exact ⟨Nat.zero_le now, .inl ⟨p, rfl⟩⟩

/-! ## What is written -/

/-- The sink takes `n` more bytes, in whatever pieces they are offered. -/
structure Sink.Takes (n : Nat) (s : Sink) : Prop where
  some_each : s.most ≠ some 0
  room : ∀ limit, s.limit = some limit → s.taken + n ≤ limit

namespace Sink.Takes

variable {n : Nat} {s : Sink}

theorem mono {fewer : Nat} (h : s.Takes n) (hle : fewer ≤ n) : s.Takes fewer :=
  ⟨h.some_each, fun limit hl => by have := h.room limit hl; omega⟩

/-- A sink without a limit takes any number of bytes. -/
theorem of_unlimited (hmost : s.most ≠ some 0) (hlimit : s.limit = none) : s.Takes n :=
  ⟨hmost, fun limit hl => by rw [hlimit] at hl; cases hl⟩

theorem default (n : Nat) : ({} : Sink).Takes n := of_unlimited (by decide) rfl

/-- Of an offer that the sink has room for some byte is taken. -/
theorem accepts {k : Nat} (h : s.Takes n) (hpos : 0 < k) (hle : k ≤ n) :
    ∃ j, s.accepts k = some (j + 1) := by
  have honce : 0 < (s.most.map (min k)).getD k := by
    cases hm : s.most with
    | none => exact hpos
    | some m =>
      have : m ≠ 0 := fun h0 => h.some_each (by rw [hm, h0])
      simp only [Option.map_some, Option.getD_some]
      omega
  unfold Sink.accepts
  cases hl : s.limit with
  | none => exact ⟨_, congrArg some (Nat.succ_pred_eq_of_pos honce).symm⟩
  | some limit =>
    have := h.room limit hl
    simp only
    rw [if_neg (by omega)]
    exact ⟨_, congrArg some (Nat.succ_pred_eq_of_pos (by omega)).symm⟩

theorem writeFrom {done offer : Bytes} (h : s.Takes n) (hle : offer.length ≤ n) :
    (s.writeFrom done offer).fault = none ∧
      (s.writeFrom done offer).sink.Takes (n - offer.length) := by
  fun_induction Sink.writeFrom s done offer generalizing n with
  | case1 => exact ⟨rfl, h⟩
  | case2 s done b r hnone =>
    obtain ⟨j, hj⟩ := h.accepts (k := (b :: r).length) (Nat.succ_pos _) hle
    cases hnone.symm.trans hj
  | case3 s done b r hzero =>
    obtain ⟨j, hj⟩ := h.accepts (k := (b :: r).length) (Nat.succ_pos _) hle
    cases hzero.symm.trans hj
  | case4 s done b r k hk ih =>
    have hk := accepts_le hk
    rw [List.length_cons] at hk hle
    have hroom : ({ s with taken := s.taken + (k + 1) } : Sink).Takes (n - (k + 1)) :=
      ⟨h.some_each, fun limit hl => by have := h.room limit hl; simp only; omega⟩
    have := ih hroom (by rw [List.length_drop]; omega)
    rw [List.length_drop] at this
    exact ⟨this.1, this.2.mono (by rw [List.length_cons]; omega)⟩

/-- An offer that the sink has room for is taken in full. -/
theorem writeAll {offer : Bytes} (h : s.Takes n) (hle : offer.length ≤ n) :
    (s.writeAll offer).fault = none ∧ (s.writeAll offer).sink.Takes (n - offer.length) :=
  h.writeFrom hle

end Sink.Takes
end Intercept
