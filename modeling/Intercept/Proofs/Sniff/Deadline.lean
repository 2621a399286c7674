import Intercept.Proofs.Sniff
import Intercept.Proofs.Stream.Deadline

/-!
# Sniffing up to a deadline

A client may be silent, drip its bytes one at a time or stall anywhere: sniffing is over at the
deadline, with the answer that what came by then gives.

Results:
* `probe_time_le`, `sniff_time_le`: sniffing lasts no longer than until the deadline.
* `probe_hush`, `sniff_hush`: it sees nothing of what the client does later.
* `sniff_timedOut`: a client that runs out of time is taken for neither of the two protocols.
-/

namespace Intercept

open Http

/-- What sniffing came to, of a client that falls silent at the deadline. -/
def Sniffed.hush (deadline : Nat) (s : Sniffed) : Sniffed :=
  { s with rest := s.rest.hush deadline }

variable {deadline limit now : Nat} {seen : Bytes} {r : Replay}

theorem Http.Version.length {minor : Nat} {word : Bytes} (h : Version minor word) :
    word.length = 8 := by
  cases h <;> rfl

/-- A head is longer than what a record header takes: its version alone is. -/
theorem headerLength_lt_of_done {slots : Nat} {b rest : Bytes} {lines : RequestLines}
    (h : scanRequest slots b = .done lines rest) : Tls.headerLength < b.length := by
  obtain ⟨n, head, ⟨-, hline, -, -⟩, rfl, -⟩ := scanRequest_eq_done.1 h
  obtain ⟨-, -, -, -, -, hversion⟩ := hline
  have hword := hversion.length
  simp only [List.length_append, List.length_cons, hword, Tls.headerLength]
  omega

/-! ## Probing -/

/-- A probe that asks for more goes on with what its next read brings. -/
theorem probe_eq (hmore : scanRequest (fieldSlots seen) seen = .more)
    (hfits : ¬mostInHead ≤ seen.length) :
    probe limit seen now r =
      match r.readBy limit now probeSize with
      | none => ⟨.blind, seen, max now limit, r, true⟩
      | some ⟨time, .bytes (b :: bs), rest⟩ => probe limit (seen ++ b :: bs) time rest
      | some ⟨time, .bytes [], rest⟩ => ⟨.blind, seen, time, rest, false⟩
      | some ⟨time, .ended, rest⟩ => ⟨.blind, seen, time, rest, false⟩
      | some ⟨time, .fault _, rest⟩ => ⟨.blind, seen, time, rest, false⟩ := by
  rw [probe, hmore]
  simp only [if_neg hfits]
  split <;> rename_i heq <;> rw [heq]

theorem probe_time_le (limit : Nat) (seen : Bytes) (now : Nat) (r : Replay) :
    (probe limit seen now r).time ≤ max now limit := by
  fun_induction probe limit seen now r with
  | case1 | case2 | case3 => exact Nat.le_max_left _ _
  | case4 => exact Nat.le_refl _
  | case5 seen now r _ _ time b bs rest hr ih =>
    have htime : time ≤ max now limit := (Replay.readBy_eq_some_iff.1 hr).2
    omega
  | case6 seen now r _ _ time rest hr => exact (Replay.readBy_eq_some_iff.1 hr).2
  | case7 seen now r _ _ time rest hr => exact (Replay.readBy_eq_some_iff.1 hr).2
  | case8 seen now r _ _ time f rest hr => exact (Replay.readBy_eq_some_iff.1 hr).2

/-- What a probe finds by the deadline does not hang on what the client does later. -/
theorem probe_hush (hb : max now limit ≤ deadline) (seen : Bytes) (r : Replay) :
    probe limit seen now (r.hush deadline) = (probe limit seen now r).hush deadline := by
  fun_induction probe limit seen now r with
  | case1 seen now r lines rest hs => rw [probe, hs]; rfl
  | case2 seen now r e hs => rw [probe, hs]; rfl
  | case3 seen now r hs hmost => rw [probe, hs]; simp only [if_pos hmost]; rfl
  | case4 seen now r hs hmost hr => rw [probe_eq hs hmost, Replay.readBy_hush hb, hr]; rfl
  | case5 seen now r hs hmost time b bs rest hr ih =>
    have htime : time ≤ max now limit := (Replay.readBy_eq_some_iff.1 hr).2
    rw [probe_eq hs hmost, Replay.readBy_hush hb, hr]
    exact ih (by omega)
  | case6 seen now r hs hmost time rest hr =>
    rw [probe_eq hs hmost, Replay.readBy_hush hb, hr]; rfl
  | case7 seen now r hs hmost time rest hr =>
    rw [probe_eq hs hmost, Replay.readBy_hush hb, hr]; rfl
  | case8 seen now r hs hmost time f rest hr =>
    rw [probe_eq hs hmost, Replay.readBy_hush hb, hr]; rfl

/-- A probe that runs out of time does so at the deadline, and finds nothing. -/
theorem probe_timedOut (h : (probe limit seen now r).timedOut = true) :
    (probe limit seen now r).protocol = .blind ∧
      (probe limit seen now r).time = max now limit := by
  fun_induction probe limit seen now r with
  | case4 => exact ⟨rfl, rfl⟩
  | case5 seen now r _ _ time b bs rest hr ih =>
    have htime : time ≤ max now limit := (Replay.readBy_eq_some_iff.1 hr).2
    have hlater : now ≤ time := Replay.le_time_of_readBy hr
    rw [show max now limit = max time limit by omega]
    exact ih h
  | _ => cases h

/-- A probe that starts too late, with too little for a head, finds nothing. -/
theorem probe_missed (hseen : seen.length < Tls.headerLength)
    (hr : r.readBy limit now probeSize = none) (hlate : limit ≤ now) :
    (probe limit seen now r).protocol = .blind ∧ (probe limit seen now r).time = now := by
  cases hs : scanRequest (fieldSlots seen) seen with
  | done lines rest =>
    have := headerLength_lt_of_done hs
    omega
  | flawed e =>
    rw [probe, hs]
    exact ⟨rfl, rfl⟩
  | more =>
    by_cases hmost : mostInHead ≤ seen.length
    · rw [probe, hs]
      simp only [if_pos hmost, and_self]
    · rw [probe_eq hs hmost, hr]
      exact ⟨rfl, Nat.max_eq_left hlate⟩

/-! ## Sniffing -/

theorem sniff_time_le (limit now : Nat) (r : Replay) :
    (sniff limit now r).time ≤ max now limit := by
  have hhead := r.gather_time_le limit Tls.headerLength [] now
  unfold sniff
  simp only
  split
  · exact hhead
  · exact Nat.le_trans (probe_time_le ..) (by omega)

/-- What sniffing finds by the deadline does not hang on what the client does later. -/
theorem sniff_hush (hb : max now limit ≤ deadline) (r : Replay) :
    sniff limit now (r.hush deadline) = (sniff limit now r).hush deadline := by
  have htime := r.gather_time_le limit Tls.headerLength [] now
  unfold sniff
  rw [Replay.gather_hush hb]
  generalize r.gather limit Tls.headerLength [] now = head at htime ⊢
  simp only
  split
  · rfl
  · rw [probe_hush (by omega)]
    rfl

/-- **A client that runs out of time** is taken for neither protocol, at the deadline. -/
theorem sniff_timedOut (h : (sniff limit now r).timedOut = true) :
    (sniff limit now r).protocol = .blind ∧ (sniff limit now r).time = max now limit := by
  have htime := r.gather_time_le limit Tls.headerLength [] now
  have hexpired := @Replay.gather_expired r limit now Tls.headerLength []
  have hlater := r.le_time_gather limit Tls.headerLength [] now
  unfold sniff at h ⊢
  generalize r.gather limit Tls.headerLength [] now = head at h htime hexpired hlater ⊢
  simp only at h ⊢
  by_cases htls : head.short = none ∧ Tls.isHandshake head.bytes
  · rw [if_pos htls] at h
    cases h
  · rw [if_neg htls] at h ⊢
    by_cases hshort : head.short = some .expired
    · -- The time was over within the first bytes already. What is probed is too short for a head.
      obtain ⟨hat, hseen, hrest⟩ := hexpired hshort
      rw [hat]
      exact probe_missed hseen (hrest probeSize) (Nat.le_max_right _ _)
    · have hprobed : (probe limit head.bytes head.time head.rest).timedOut = true := by
        simpa [hshort] using h
      obtain ⟨hblind, hat⟩ := probe_timedOut hprobed
      exact ⟨hblind, hat.trans (by omega)⟩

end Intercept
