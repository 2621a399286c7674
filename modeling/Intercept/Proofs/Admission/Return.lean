import Intercept.Proofs.Admission.Runs

/-!
# Hosts that come back

A host's bucket is looked up first, and the sweep that may follow drops the stale ones. When a host
comes back after a while and a sweep is due, its own bucket answers it and is dropped, and the next
time the host has a new one.

* `Registry.staleReturn`: a sweep is due, and finds stale the bucket of the host that comes back.
* `Registry.crowd`: hosts that come in at one time, which is what makes a sweep due. In a `Crowding`
  they are new ones, and no sweep is due yet.

Results:
* `perform_on_return`: a stale host that comes back is answered by its old bucket and left with a
  new one.
* `grants_on_return`: so it gets what it asks for from both.
* `Crowding.after`, `Crowding.staleReturn`: a crowd is tracked host by host, and who was there
  before it comes back stale.
-/

namespace Intercept.Registry

/-- A sweep is due, and the host that comes back has a bucket that it finds stale. -/
def staleReturn (r : Registry) (now : Nat) (host : Text) : Bool :=
  r.sweepDue now && (r.find? host).any fun t => !r.isFresh now t

/-- Hosts that come in one behind the other at one time, and ask for nothing. -/
def crowd (now : Nat) (hosts : List Text) : List Event := hosts.map fun host => ⟨now, .ask host 0⟩

/-- The hosts of a crowd are new ones, and no sweep is due when they come. -/
structure Crowding (r : Registry) (now : Nat) (hosts : List Text) : Prop where
  counted : ∀ host ∈ hosts, host ∉ r.exempt
  untracked : ∀ host ∈ hosts, r.find? host = none
  distinct : hosts.Nodup
  early : millis now - r.lastSweep < millis r.refill

/-- Hosts of different names. -/
def numbered (n : Nat) : List Text := (List.range n).map fun i => 'h' :: Numeral.decimal i

variable {r : Registry} {now later weight : Nat} {host : Text} {hosts : List Text}

/-! ## One host -/

/-- A host that is not exempt is answered by its bucket. -/
theorem perform_ask (hhost : host ∉ r.exempt) (now weight : Nat) :
    (r.perform now (.ask host weight)).1 = ((r.bucket host).ask r.quota now weight).1 := by
  simp [perform, ask_eq hhost]

/-- A host that is swept on its return is tracked no longer. -/
theorem find?_on_return (hr : r.Distinct) (hhost : host ∉ r.exempt)
    (hstale : r.staleReturn now host = true) (weight : Nat) :
    (r.perform now (.ask host weight)).2.find? host = none := by
  rw [staleReturn, Bool.and_eq_true, Option.any_eq_true] at hstale
  obtain ⟨hdue, t, hfind, hold⟩ := hstale
  have htracked : r.track now host = r := by rw [track, hfind]
  rw [perform, ask_eq hhost]
  simp only [find?_update, if_true, htracked, find?_sweep hr, hfind, hdue, Option.filter_some]
  rw [if_neg (by simpa using hold), Option.map_none]

/-- A stale host that comes back is answered by its old bucket and left with a new one. -/
theorem perform_on_return (hr : r.Distinct) (hhost : host ∉ r.exempt)
    (hstale : r.staleReturn now host = true) (weight : Nat) :
    (r.perform now (.ask host weight)).1 = ((r.bucket host).ask r.quota now weight).1 ∧
      (r.perform now (.ask host weight)).2.bucket host = {} := by
  refine ⟨perform_ask hhost now weight, ?_⟩
  rw [bucket, find?_on_return hr hhost hstale]
  rfl

/-- So it gets what it asks for from both. -/
theorem grants_on_return (hr : r.Distinct) (hhost : host ∉ r.exempt)
    (hstale : r.staleReturn now host = true) (weight weight' : Nat) :
    r.total (grants host) [⟨now, .ask host weight⟩, ⟨now, .ask host weight'⟩] =
      Bucket.granted ((r.bucket host).ask r.quota now weight).1 weight +
        Bucket.granted (Bucket.ask r.quota now weight' {}).1 weight' := by
  have hsettings : SameSettings r (r.perform now (.ask host weight)).2 :=
    sameSettings_perform now (.ask host weight)
  obtain ⟨hold, hnew⟩ := perform_on_return hr hhost hstale weight
  have hsecond : ((r.perform now (.ask host weight)).2.perform now (.ask host weight')).1 =
      (Bucket.ask r.quota now weight' {}).1 := by
    simp [perform_ask, hsettings.counted hhost, hnew, hsettings.quota]
  simp [total, grants, Act.weight, hold, hsecond]

/-! ## Many hosts -/

/-- A host that comes in before a sweep is due, and asks for nothing, is tracked. -/
theorem perform_new (hhost : host ∉ r.exempt) (hnew : r.find? host = none)
    (hearly : millis now - r.lastSweep < millis r.refill) :
    (r.perform now (.ask host 0)).2 =
      { r with hosts := ⟨host, {}, millis now⟩ :: r.hosts } := by
  have htrack : r.track now host = { r with hosts := ⟨host, {}, millis now⟩ :: r.hosts } := by
    rw [track, hnew]
  have hsweep : (r.track now host).sweep now = r.track now host := by
    rw [sweep, sweepDue, htrack, decide_eq_false (Nat.not_le.2 hearly), Bool.and_false]
    rfl
  have hother : ∀ t ∈ r.hosts, t.host ≠ host := by simpa [find?] using hnew
  have hempty : r.bucket host = {} := by
    rw [bucket, hnew]
    rfl
  rw [perform, ask_eq hhost, hsweep, htrack, hempty, Bucket.ask_zero]
  simp only [update, List.map_cons, if_true]
  rw [List.map_congr_left fun t ht => if_neg (hother t ht), List.map_id']

/-- A crowd is tracked host by host. -/
theorem Crowding.after (h : r.Crowding now hosts) : r.after (crowd now hosts) =
    { r with hosts := (hosts.map fun host => ⟨host, {}, millis now⟩).reverse ++ r.hosts } := by
  induction hosts generalizing r with
  | nil => rfl
  | cons host hosts ih =>
    obtain ⟨hhost, hdistinct⟩ := List.nodup_cons.1 h.distinct
    obtain ⟨hfirst, hcounted⟩ := List.forall_mem_cons.1 h.counted
    obtain ⟨hnone, hnew⟩ := List.forall_mem_cons.1 h.untracked
    let next : Registry := { r with hosts := ⟨host, {}, millis now⟩ :: r.hosts }
    have hother (other : Text) (hmem : other ∈ hosts) : next.find? other = none := by
      have hne : host ≠ other := fun heq => hhost (heq ▸ hmem)
      exact (List.find?_cons_of_neg (by simpa using hne)).trans (hnew other hmem)
    have hall : next.after (crowd now hosts) =
        { next with
          hosts := (hosts.map fun host => ⟨host, {}, millis now⟩).reverse ++ next.hosts } :=
      ih ⟨hcounted, hother, hdistinct, h.early⟩
    change (r.perform now (.ask host 0)).2.after (crowd now hosts) = _
    rw [perform_new hfirst hnone h.early, hall]
    simp [next]

/-- A host that was tracked before a crowd came is still tracked, and comes back stale. -/
theorem Crowding.staleReturn {t : TrackedHost} (h : r.Crowding now hosts)
    (hfind : r.find? host = some t)
    (hmany : sweepThreshold ≤ hosts.length + r.hosts.length)
    (hdue : millis r.refill ≤ millis later - r.lastSweep) (hold : r.isFresh later t = false) :
    (r.after (crowd now hosts)).find? host = some t ∧
      (r.after (crowd now hosts)).staleReturn later host = true := by
  have hother : ∀ u ∈ (hosts.map fun host => (⟨host, {}, millis now⟩ : TrackedHost)).reverse,
      ¬ decide (u.host = host) := by
    intro u hu heq
    obtain ⟨other, hmem, rfl⟩ := List.mem_map.1 (List.mem_reverse.1 hu)
    rw [← of_decide_eq_true heq, h.untracked other hmem] at hfind
    cases hfind
  have hafter := h.after
  have hstill : (r.after (crowd now hosts)).find? host = some t := by
    rw [hafter, find?, List.find?_append, List.find?_eq_none.2 hother, Option.none_or]
    exact hfind
  have hlength : sweepThreshold ≤ (r.after (crowd now hosts)).hosts.length := by
    simpa [hafter] using hmany
  have hlast : (r.after (crowd now hosts)).lastSweep = r.lastSweep := congrArg (·.lastSweep) hafter
  refine ⟨hstill, ?_⟩
  rw [Registry.staleReturn, sweepDue, hstill, Option.any_some, hlast,
    (sameSettings_after (crowd now hosts)).refill, (sameSettings_after (crowd now hosts)).isFresh,
    hold, decide_eq_true hlength, decide_eq_true hdue]
  rfl

theorem nodup_numbered (n : Nat) : (numbered n).Nodup := by
  refine List.nodup_range.map fun i j h => ?_
  have hdigits : Numeral.decimal i = Numeral.decimal j := List.tail_eq_of_cons_eq h
  calc
    i = Nat.ofDigitChars 10 (Numeral.decimal i) 0 := Nat.ofDigitChars_ten_toDigits.symm
    _ = Nat.ofDigitChars 10 (Numeral.decimal j) 0 := by rw [hdigits]
    _ = j := Nat.ofDigitChars_ten_toDigits

theorem length_numbered (n : Nat) : (numbered n).length = n := by simp [numbered]

/-! ## A hundred requests a second, and ten at once -/

/-- A new registry for a hundred requests a second and ten at once. -/
def hundred : Registry :=
  { quota := Quota.perSecond 100 10, refill := Quota.refill 100 10, exempt := [] }

/-- A host asks for one unit, and just as many others come in as a sweep needs. -/
def crowded : List Event := ⟨0, .ask ['a'] 1⟩ :: crowd 0 (numbered 4095)

/-- A refill and a half later the host comes back stale, with nothing owed. -/
theorem hundred_crowded :
    (hundred.after crowded).bucket ['a'] = ⟨some 10000000⟩ ∧
      (hundred.after crowded).staleReturn (150 * nanosPerMilli) ['a'] = true := by
  let first : TrackedHost := ⟨['a'], ⟨some 10000000⟩, 0⟩
  let one : Registry := { hundred with hosts := [first] }
  have hone : (hundred.perform 0 (.ask ['a'] 1)).2 = one := rfl
  have hcrowd : one.Crowding 0 (numbered 4095) :=
    ⟨fun _ _ => List.not_mem_nil, by simp [numbered, one, first, find?], nodup_numbered _,
      by decide⟩
  have hmany : sweepThreshold ≤ (numbered 4095).length + one.hosts.length := by
    rw [length_numbered]
    decide
  have hfirst : one.find? ['a'] = some first := rfl
  obtain ⟨hfind, hstale⟩ := hcrowd.staleReturn hfirst hmany
    (show millis one.refill ≤ millis (150 * nanosPerMilli) - one.lastSweep by decide) (by decide)
  rw [crowded, after, hone]
  exact ⟨by rw [bucket, hfind]; rfl, hstale⟩

theorem crowded_times : ∀ e ∈ crowded, e.time = 0 := by simp [crowded, crowd]

/-- Whatever comes later may follow. -/
theorem crowded_ordered {events : List Event} (h : events.Pairwise (·.time ≤ ·.time)) :
    (crowded ++ events).Pairwise (·.time ≤ ·.time) := by
  have hfirst (e : Event) (he : e ∈ crowded) (f : Event) : e.time ≤ f.time := by
    rw [crowded_times e he]
    exact Nat.zero_le _
  have hcrowded := List.pairwise_of_forall_mem_list fun e he f _ => hfirst e he f
  exact List.pairwise_append.2 ⟨hcrowded, h, fun e he f _ => hfirst e he f⟩

end Intercept.Registry
