import Intercept.Proofs.Admission.SharedRegistry

/-!
# How long buckets are remembered

Sweeps need many hosts and a refill since the last one, other purges do not count as sweeps, and
buckets are asked in between by whoever holds them. Still no bucket that the registry tracks is
older than two refills whenever a host is looked up among many: one refill may pass until the sweep,
and what the last sweep kept was used within one before it.

* `Registry.Recent`: no bucket was used longer than a refill before the last sweep.
* `SharedRegistry.Touches`: an event makes a bucket or asks it.

Results:
* `Recent.track`, `.sweep`, `.update`, `.purge`, `recent_after`: buckets stay recent.
* `Recent.age_le`: what a sweep leaves when it leaves many.
* `touched_of_made`: every bucket was made or last asked when it says.
* `tracked_recently`: the bound on what is remembered.
-/

namespace Intercept

namespace Registry

/-- No bucket was last used longer than a refill before the last sweep. -/
structure Recent (r : Registry) (now : Nat) : Prop where
  swept : r.lastSweep ≤ millis now
  used : ∀ t ∈ r.hosts, r.lastSweep ≤ t.lastUsed + millis r.refill

variable {r : Registry} {now later : Nat} {host : Text} {t : TrackedHost}

theorem millis_mono (h : now ≤ later) : millis now ≤ millis later := Nat.div_le_div_right h

theorem isFresh_iff : r.isFresh now t = true ↔ millis now ≤ t.lastUsed + millis r.refill := by
  unfold isFresh
  rw [decide_eq_true_eq, ← Nat.le_div_iff_mul_le (by decide), Nat.sub_le_iff_le_add']
  rfl

/-! ## Buckets stay recent -/

theorem Recent.mono (hr : r.Recent now) (h : now ≤ later) : r.Recent later :=
  ⟨Nat.le_trans hr.swept (millis_mono h), hr.used⟩

theorem Recent.track (hr : r.Recent now) : (r.track now host).Recent now := by
  unfold Registry.track
  split
  · exact hr
  · exact ⟨hr.swept, List.forall_mem_cons.2 ⟨Nat.le_trans hr.swept (Nat.le_add_right _ _), hr.used⟩⟩

theorem Recent.purge (hr : r.Recent now) : (r.purge now).Recent now :=
  ⟨hr.swept, fun t ht => hr.used t (List.mem_of_mem_filter ht)⟩

theorem Recent.sweep (hr : r.Recent now) : (r.sweep now).Recent now := by
  unfold Registry.sweep
  split_ifs
  · exact ⟨Nat.le_refl _, fun t ht => isFresh_iff.1 (List.mem_filter.1 ht).2⟩
  · exact hr

theorem Recent.update (hr : r.Recent now) (ht : t.lastUsed = millis now) :
    (r.update t).Recent now := by
  refine ⟨hr.swept, fun u hu => ?_⟩
  obtain ⟨v, hv, rfl⟩ := List.mem_map.1 hu
  split_ifs
  · rw [ht]
    exact Nat.le_trans hr.swept (Nat.le_add_right _ _)
  · exact hr.used v hv

/-- What a sweep leaves when it leaves many buckets: either it ran, or the last one is no refill
ago. -/
theorem Recent.age_le (hr : r.Recent now) (hmany : sweepThreshold ≤ (r.sweep now).hosts.length)
    (ht : t ∈ (r.sweep now).hosts) :
    r.isFresh now t = true ∨ millis now < t.lastUsed + 2 * millis r.refill := by
  unfold Registry.sweep at hmany ht
  split_ifs at hmany ht with hdue
  · exact .inl (List.mem_filter.1 ht).2
  · have hsoon : millis now - r.lastSweep < millis r.refill := by
      rw [sweepDue, decide_eq_true hmany, Bool.true_and, decide_eq_true_eq] at hdue
      exact Nat.lt_of_not_le hdue
    have hused := hr.used t ht
    have hswept := hr.swept
    exact .inr (by omega)

end Registry

namespace SharedRegistry

open Registry (millis numbered length_numbered)

/-- An event makes the bucket at a place, or asks it. -/
inductive Touches (s : SharedRegistry) (e : Event) (place : Nat) : Prop
  | made (new : s.made.length ≤ place) (there : place < (s.perform e.time e.call).made.length)
  | asked {weight : Nat} (there : place < s.made.length) (call : e.call = .allow place weight)

variable {s : SharedRegistry} {now place : Nat} {host : Text} {call : Call} {events : List Event}

/-! ## Buckets stay recent -/

theorem recent_perform (hs : s.Sound) (hr : s.registry.Recent now) (call : Call) :
    (s.perform now call).registry.Recent now := by
  cases call with
  | limiter host =>
    by_cases hhost : host ∈ s.exempt
    · rwa [perform, limiter_of_exempt hhost]
    · rw [perform, registry_limiter hs hhost]
      exact hr.track.sweep
  | allow place weight =>
    by_cases hplace : place ∈ s.tracked
    · rw [perform, registry_allow_tracked hs hplace
        (List.getElem?_eq_getElem (hs.inBounds place hplace))]
      exact hr.update rfl
    · rwa [perform, registry_allow_untracked hplace]
  | purge =>
    rw [perform, registry_purge]
    exact hr.purge

/-- Buckets stay recent as long as time does not run backwards. -/
theorem recent_after (hs : s.Sound) (hr : s.registry.Recent 0)
    (hordered : events.Pairwise (·.time ≤ ·.time)) (hnow : ∀ e ∈ events, e.time ≤ now) :
    (s.after events).registry.Recent now := by
  induction events using List.reverseRecOn generalizing now with
  | nil => exact hr.mono (Nat.zero_le now)
  | append_singleton events e ih =>
    obtain ⟨hfront, -, hlast⟩ := List.pairwise_append.1 hordered
    have hbefore := ih hfront fun f hf => hlast f hf e (List.mem_singleton_self e)
    rw [after_append]
    exact (recent_perform (hs.after events) hbefore e.call).mono (hnow e (by simp))

/-! ## When a bucket was used -/

/-- A bucket is as it was, or the call touches it. -/
theorem made_perform {t : TrackedHost} (ht : (s.perform now call).made[place]? = some t) :
    s.made[place]? = some t ∨ s.Touches ⟨now, call⟩ place ∧ t.lastUsed = millis now := by
  obtain ⟨hthere, -⟩ := List.getElem?_eq_some_iff.1 ht
  cases call with
  | limiter host =>
    by_cases hhost : host ∈ s.exempt
    · rw [perform, limiter_of_exempt hhost] at ht
      exact .inl ht
    · cases hfind : s.find? host with
      | some tracked =>
        rw [perform, (limiter_of_tracked hhost hfind now).2] at ht
        exact .inl ht
      | none =>
        rw [perform, (limiter_of_new hhost hfind now).2] at ht
        by_cases hold : place < s.made.length
        · rw [List.getElem?_append_left hold] at ht
          exact .inl ht
        · rw [List.getElem?_append_right (Nat.le_of_not_lt hold)] at ht
          rw [List.mem_singleton.1 (List.mem_of_getElem? ht)]
          exact .inr ⟨.made (Nat.le_of_not_lt hold) hthere, rfl⟩
  | allow asked weight =>
    cases hasked : s.made[asked]? with
    | none =>
      rw [perform, allow, hasked] at ht
      exact .inl ht
    | some u =>
      rw [perform, allow_of_made hasked, List.getElem?_set] at ht
      split_ifs at ht with hplace hlt
      · subst hplace
        rw [← Option.some.inj ht]
        exact .inr ⟨.asked hlt rfl, rfl⟩
      · exact .inl ht
  | purge => exact .inl ht

/-- Every bucket says when it was made or last asked. -/
theorem touched_of_made (hmade : s.made = []) {t : TrackedHost}
    (ht : (s.after events).made[place]? = some t) :
    ∃ before e behind, events = before ++ e :: behind ∧ (s.after before).Touches e place ∧
      t.lastUsed = millis e.time := by
  induction events using List.reverseRecOn with
  | nil => simp [after, hmade] at ht
  | append_singleton events e ih =>
    rw [after_append] at ht
    rcases made_perform ht with hbefore | ⟨htouches, hused⟩
    · obtain ⟨before, f, behind, rfl, hf⟩ := ih hbefore
      exact ⟨before, f, behind ++ [e], by simp, hf⟩
    · exact ⟨events, e, [], rfl, htouches, hused⟩

/-! ## The bound -/

/-- What the rounded times say about two refills as the settings have them. -/
theorem age_mul_le {rate burst age : Nat} (hrate : rate ≠ 0)
    (h : age ≤ millis (Quota.refill rate burst) ∨ age < 2 * millis (Quota.refill rate burst)) :
    age * rate ≤ 2 * (1000 * burst) := by
  have hrefill : millis (Quota.refill rate burst) * nanosPerMilli * (2 * rate) ≤
      2 * burst * nanosPerSecond + rate :=
    (Nat.le_div_iff_mul_le (by omega)).1 (Nat.div_mul_le_self _ _)
  generalize millis (Quota.refill rate burst) = refill at h hrefill
  have hscaled : 2 * nanosPerMilli * (refill * rate) ≤ 2 * nanosPerSecond * burst + rate :=
    calc 2 * nanosPerMilli * (refill * rate)
      _ = refill * nanosPerMilli * (2 * rate) := by ring
      _ ≤ 2 * burst * nanosPerSecond + rate := hrefill
      _ = 2 * nanosPerSecond * burst + rate := by ring
  unfold nanosPerMilli nanosPerSecond at hscaled
  rcases h with h | h
  · -- One refill is rounded up by less than the other one leaves room for.
    have hage : age * rate ≤ refill * rate := Nat.mul_le_mul_right rate h
    rcases Nat.eq_zero_or_pos age with hzero | hpos
    · simp [hzero]
    · have hunit : rate ≤ age * rate := Nat.le_mul_of_pos_left rate hpos
      omega
  · have hage : (age + 1) * rate ≤ 2 * refill * rate := Nat.mul_le_mul_right rate h
    rw [Nat.add_mul, Nat.one_mul, Nat.mul_assoc] at hage
    omega

/-- **What is remembered is recent.** Whenever a host is looked up and many are tracked afterwards,
each tracked bucket was made or asked no more than two refills before. -/
theorem tracked_recently {rate : Nat} {burst : Option Nat} {exempt : List Text}
    (hmade : ofRate rate burst exempt = some s) (hhost : host ∉ exempt)
    (hordered : events.Pairwise (·.time ≤ ·.time)) (hnow : ∀ e ∈ events, e.time ≤ now)
    (hmany : sweepThreshold ≤ ((s.after events).limiter now host).2.tracked.length) :
    ∀ place ∈ ((s.after events).limiter now host).2.tracked, ∃ before e behind,
      events ++ [⟨now, .limiter host⟩] = before ++ e :: behind ∧
        (s.after before).Touches e place ∧
        (millis now - millis e.time) * rate ≤ 2 * (1000 * s.quota.burst) := by
  obtain ⟨hempty, hrecent, hrate, hrefill⟩ : s.made = [] ∧ s.registry.Recent 0 ∧ rate ≠ 0 ∧
      s.refill = Quota.refill rate s.quota.burst := by
    obtain ⟨hrate, rfl⟩ := ofRate_eq_some.1 hmade
    exact ⟨rfl, ⟨Nat.le_refl _, nofun⟩, hrate, rfl⟩
  have hsound := (Sound.of_ofRate hmade).after events
  have hcounted := counted_of_ofRate hmade hhost events
  have hbefore : ((s.after events).registry.track now host).Recent now :=
    (recent_after (Sound.of_ofRate hmade) hrecent hordered hnow).track
  have hlimiter := registry_limiter hsound hcounted now
  have hafter := hsound.limiter now host
  intro place hplace
  obtain ⟨t, ht⟩ : ∃ t, ((s.after events).limiter now host).2.made[place]? = some t :=
    ⟨_, List.getElem?_eq_getElem (hafter.inBounds place hplace)⟩
  have htracked : t ∈ (((s.after events).registry.track now host).sweep now).hosts := by
    rw [← hlimiter]
    exact List.mem_filterMap.2 ⟨place, hplace, ht⟩
  rw [← length_hosts hafter, hlimiter] at hmany
  have hage := hbefore.age_le hmany htracked
  have hlast : (s.after (events ++ [⟨now, .limiter host⟩])).made[place]? = some t := by
    rw [after_append]
    exact ht
  obtain ⟨before, e, behind, hevents, htouches, hused⟩ := touched_of_made hempty hlast
  refine ⟨before, e, behind, hevents, htouches, age_mul_le hrate ?_⟩
  have hsame : ((s.after events).registry.track now host).refill =
      Quota.refill rate s.quota.burst := by
    rw [Registry.sameSettings_track.refill, (sameSettings_after s events).refill]
    exact hrefill
  rw [Registry.isFresh_iff, hused, hsame] at hage
  omega

/-- One host more than a sweep needs, half a refill after the others. -/
theorem tracked_recently_many :
    let events := arrivals 0 (numbered sweepThreshold)
    let now := 50 * nanosPerMilli
    let last := ((hundred.after events).limiter now ['a']).2
    ofRate 100 (some 10) [] = some hundred ∧ sweepThreshold ≤ last.tracked.length ∧
      ∀ place ∈ last.tracked, ∃ before e behind,
        events ++ [⟨now, .limiter ['a']⟩] = before ++ e :: behind ∧
          (hundred.after before).Touches e place ∧
          (millis now - millis e.time) * 100 ≤ 2 * (1000 * hundred.quota.burst) := by
  have hmade : ofRate 100 (some 10) [] = some hundred := rfl
  have hnew : ['a'] ∉ numbered sweepThreshold := by simp [numbered]
  have hlength := hundred_arriving.length_limiter hnew List.not_mem_nil
    (by decide : millis (50 * nanosPerMilli) - hundred.lastSweep < millis hundred.refill)
  rw [length_numbered] at hlength
  have hmany := Nat.le_of_lt (Nat.lt_of_lt_of_eq (Nat.lt_succ_self _) hlength.symm)
  have hordered : (arrivals 0 (numbered sweepThreshold)).Pairwise (·.time ≤ ·.time) :=
    List.pairwise_map.2 (List.pairwise_of_forall fun _ _ => Nat.le_refl _)
  have hnow : ∀ e ∈ arrivals 0 (numbered sweepThreshold), e.time ≤ 50 * nanosPerMilli :=
    List.forall_mem_map.2 fun _ _ => Nat.zero_le _
  exact ⟨hmade, hmany, tracked_recently hmade List.not_mem_nil hordered hnow hmany⟩

end SharedRegistry

end Intercept
