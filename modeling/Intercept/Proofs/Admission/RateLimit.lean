import Intercept.Proofs.Admission.Return

/-!
# The rate limit over time

How much a host may have in a stretch of time, whatever is asked of the registry, for whatever
hosts, and whenever idle buckets are dropped. Only one thing lets it have more than a burst and what
the rate brings in: a bucket that is dropped while it is in debt leaves the debt behind.

* `Window`: a run of events, and those of them that fall in a stretch of time.

Results:
* `Window.run`, `Window.allowed_le`: what a host gets in a window, counted in time.
* `rate_limit_window`: what a host gets in a window.
* `rate_limit_exceeded`: a host that comes back as a sweep is due gets a burst twice at once.
-/

namespace Intercept

open Registry

/-- A stretch of time in a run: what is done before it and inside of it. -/
structure Window where
  before : List Registry.Event
  inside : List Registry.Event
  start : Nat
  length : Nat
  ordered : (before ++ inside).Pairwise (·.time ≤ ·.time)
  early : ∀ e ∈ before, e.time ≤ start
  within : ∀ e ∈ inside, start ≤ e.time ∧ e.time ≤ start + length

namespace Window

variable (w : Window) (r : Registry) (host : Text)

/-- The registry when the window opens. -/
def opening : Registry := r.after w.before

/-- The weight that the host gets inside the window. -/
def allowed : Nat := (w.opening r).total (grants host) w.inside

/-- How often the host's bucket is dropped inside the window. -/
def dropped : Nat := (w.opening r).total (drops host) w.inside

/-- How often this happens as the host itself comes back. -/
def returned : Nat := (w.opening r).total (returns host) w.inside

/-- The debt that goes with the buckets dropped inside the window. -/
def forgotten : Nat := (w.opening r).total (forgets host) w.inside

variable {w r host}

theorem sameSettings_opening : SameSettings r (w.opening r) := sameSettings_after w.before

/-- A window is a run of a registry that starts with no hosts. -/
theorem run {rate : Nat} {exempt : List Text} (hr : r.New rate exempt) (hhost : host ∉ exempt) :
    Run host (w.start + w.length) w.start (w.opening r) w.inside := by
  obtain ⟨hbefore, hinside, -⟩ := List.pairwise_append.1 w.ordered
  rw [← hr.exempt] at hhost
  have hopening := (hr.kept host).run hhost hbefore (fun e he => ⟨Nat.zero_le _, w.early e he⟩)
    (Nat.zero_le w.start)
  exact hopening.kept_after.run ((sameSettings_after w.before).counted hhost) hinside w.within
    (Nat.le_add_right _ _)

/-- What a host gets in a window, counted in time. -/
theorem allowed_le (h : Run host (w.start + w.length) w.start (w.opening r) w.inside) :
    r.quota.interval * w.allowed r host ≤
      w.length + w.forgotten r host + r.quota.interval * r.quota.burst := by
  have hspent := h.spent_le
  have hstart := ((w.opening r).bucket host).le_spent w.start
  rw [sameSettings_opening.quota] at hspent
  unfold allowed forgotten
  change _ ≤ _ + r.quota.tolerance
  omega

end Window

/-- What a host gets in a window: a burst and what the rate brings in, and beyond this only what
dropped buckets owed. A bucket that is dropped as its host comes back owes a burst at most, and
another one less than a millisecond, or nothing when a refill takes whole milliseconds. A bucket is
dropped once, and at most once more for each refill that fits in. So a host whose dropped buckets
owe nothing gets no more than the burst and the rate's share. -/
theorem rate_limit_window {rate : Nat} {burst : Option Nat} {exempt : List Text} {r : Registry}
    (hmade : Registry.ofRate rate burst exempt = some r) (hrate : rate ≤ nanosPerSecond)
    {host : Text} (hhost : host ∉ exempt) (w : Window) :
    w.allowed r host ≤
        r.quota.burst + (w.length + w.forgotten r host) / r.quota.interval ∧
      w.forgotten r host ≤
        w.returned r host * r.quota.tolerance + w.dropped r host * nanosPerMilli ∧
      (nanosPerMilli ∣ r.refill → w.forgotten r host ≤ w.returned r host * r.quota.tolerance) ∧
      w.dropped r host ≤
        1 + (millis (w.start + w.length) - millis w.start) / (millis r.refill + 1) ∧
      (w.forgotten r host = 0 →
        w.allowed r host ≤ r.quota.burst + w.length / r.quota.interval) := by
  have hnew := ofRate_new hmade
  have hinterval : 0 < r.quota.interval := by
    have hrate' : rate ≠ 0 := fun hzero => by simp [ofRate, hzero] at hmade
    rw [hnew.interval]
    exact Nat.div_pos hrate (Nat.pos_of_ne_zero hrate')
  have hrun := w.run hnew hhost
  have hallowed : w.allowed r host ≤
      r.quota.burst + (w.length + w.forgotten r host) / r.quota.interval := by
    rw [Nat.add_comm, ← Nat.add_mul_div_left _ _ hinterval, Nat.le_div_iff_mul_le hinterval,
      Nat.mul_comm]
    exact w.allowed_le hrun
  have hforgotten := hrun.forgets_le
  rw [Window.sameSettings_opening.quota, Window.sameSettings_opening.refill] at hforgotten
  obtain ⟨hmost, hwhole⟩ := hforgotten hnew.refill
  have hdrops := hrun.drops_le
  rw [Window.sameSettings_opening.refill] at hdrops
  refine ⟨hallowed, hmost, hwhole, hdrops, fun hnone => ?_⟩
  rwa [hnone, Nat.add_zero] at hallowed

/-- One unit a second: in the second after it was made, a bucket lets its unit through and the one
that comes back. -/
theorem rate_limit_window_second :
    let r : Registry := { quota := ⟨nanosPerSecond, 1⟩, refill := nanosPerSecond, exempt := [] }
    let w : Window :=
      { before := []
        inside := [⟨0, .ask [] 1⟩, ⟨0, .ask [] 1⟩, ⟨nanosPerSecond, .ask [] 1⟩]
        start := 0
        length := nanosPerSecond
        ordered := by decide
        early := by simp
        within := by decide }
    Registry.ofRate 1 (some 1) [] = some r ∧ w.allowed r [] = 2 ∧
      w.allowed r [] ≤ 1 + nanosPerSecond / nanosPerSecond := by
  intro r w
  have hmade : Registry.ofRate 1 (some 1) [] = some r := rfl
  have hlimit := rate_limit_window hmade (by decide) (List.not_mem_nil (a := [])) w
  exact ⟨hmade, by decide +kernel, hlimit.2.2.2.2 (by decide +kernel)⟩

/-- A host that comes back a refill and a half later, as a sweep is due, has its burst of ten twice
at once: the sweep drops the bucket that it was just answered from. -/
theorem rate_limit_exceeded :
    ¬ ∀ (rate : Nat) (burst : Option Nat) (exempt : List Text) (r : Registry) (host : Text)
      (w : Window), Registry.ofRate rate burst exempt = some r → rate ≤ nanosPerSecond →
        host ∉ exempt → w.allowed r host ≤ r.quota.burst + w.length / r.quota.interval := by
  intro hlimit
  let back := 150 * nanosPerMilli
  let w : Window :=
    { before := crowded
      inside := [⟨back, .ask ['a'] 10⟩, ⟨back, .ask ['a'] 10⟩]
      start := back
      length := 0
      ordered := crowded_ordered (by simp)
      early := fun e he => by simp [crowded_times e he]
      within := by simp }
  have hbound := hlimit 100 (some 10) [] hundred ['a'] w rfl (by decide) (by simp)
  have hmade : Registry.ofRate 100 (some 10) [] = some hundred := rfl
  have hnew := ofRate_new hmade
  have hsettings : SameSettings hundred (hundred.after crowded) := sameSettings_after crowded
  obtain ⟨hbucket, hstale⟩ := hundred_crowded
  have hopening : (w.opening hundred).Distinct := hnew.distinct.after crowded
  have hgrants : w.allowed hundred ['a'] = 20 := by
    refine (grants_on_return hopening (hsettings.counted List.not_mem_nil) hstale 10 10).trans ?_
    rw [Window.opening, hbucket, hsettings.quota]
    decide
  rw [hgrants] at hbound
  exact absurd hbound (by decide)

end Intercept
