import Intercept.Proofs.Admission.Registry
import Mathlib.Tactic.Ring

/-!
# Runs of a registry

What a registry does for one host over a run of events: what the host is granted, which of its
buckets are dropped, and what these still owe. A bucket that is dropped while it is in debt leaves
the debt behind, and the next bucket starts without it.

* `Registry.Event`: an act and its time. `after` is the registry when some events are over.
* `Registry.total`: what a measure of each event adds up to. The measures are `grants`, the weight
  that a host gets, `drops`, one when the host's bucket is dropped, `returns`, one when this happens
  as the host itself comes back, and `forgets`, the debt that goes with a dropped bucket.

Results:
* `bucket_perform`: an event asks the host's bucket, or drops it when it is stale.
* `spent_perform`, `Run.spent_le`: events spend what they grant, less what they forget.
* `forgets_le`, `Run.forgets_le`: a bucket that is dropped as its host comes back owes a burst at
  most, and another one less than a millisecond, or nothing.
* `Run.drops_le`: how often a host's bucket is dropped.
* `ofRate_new`: where runs start.
-/

namespace Intercept

namespace Registry

/-- An act and its time. -/
structure Event where
  time : Nat
  act : Act

/-- The registry after some events. -/
def after (r : Registry) : List Event → Registry
  | [] => r
  | e :: events => (r.perform e.time e.act).2.after events

/-- What a measure of each event adds up to. -/
def total (measure : Registry → Event → Nat) (r : Registry) : List Event → Nat
  | [] => 0
  | e :: events => measure r e + (r.perform e.time e.act).2.total measure events

/-- The weight that an event lets a host have. -/
def grants (host : Text) (r : Registry) (e : Event) : Nat :=
  Bucket.granted (r.perform e.time e.act).1 (e.act.weight host)

/-- Whether an event drops a host's bucket, as a number. -/
def drops (host : Text) (r : Registry) (e : Event) : Nat :=
  if (r.find? host).isSome ∧ ((r.perform e.time e.act).2.find? host).isNone then 1 else 0

/-- Whether a host's bucket is dropped by an event that asks it for something, as a number. -/
def returns (host : Text) (r : Registry) (e : Event) : Nat :=
  if e.act.weight host = 0 then 0 else r.drops host e

/-- The debt that is forgotten when an event drops a host's bucket: that of the bucket once it has
answered the event itself. -/
def forgets (host : Text) (r : Registry) (e : Event) : Nat :=
  r.drops host e * (r.asked e.time host e.act).2.debt e.time

variable {r : Registry} {now finish : Nat} {host : Text}

/-! ## One event -/

/-- An event asks the host's bucket, or drops it: then it was stale. -/
theorem bucket_perform (e : Event) (hr : r.Distinct) (hhost : host ∉ r.exempt) :
    (drops host r e = 0 ∧
        (r.perform e.time e.act).2.bucket host = (r.asked e.time host e.act).2) ∨
      drops host r e = 1 ∧ (r.perform e.time e.act).2.bucket host = {} ∧
        ∃ t, r.find? host = some t ∧ r.isFresh e.time t = false := by
  unfold drops
  cases perform_turn hr hhost e.act with
  | left weight after =>
    refine .inl ⟨if_neg fun hgone => ?_, ?_⟩
    · rw [after, Option.isNone_iff_eq_none] at hgone
      rw [hgone.2] at hgone
      exact nomatch hgone.1
    · rw [bucket, after, asked, weight]
      rfl
  | asked after =>
    refine .inl ⟨if_neg fun hgone => by simp [after] at hgone, ?_⟩
    rw [bucket, after]
    rfl
  | dropped before stale after =>
    refine .inr ⟨if_pos ⟨by simp [before], by simp [after]⟩, ?_, _, before, stale⟩
    rw [bucket, after]
    rfl

/-- An event spends of a host's bucket what it lets the host have, less what it forgets. -/
theorem spent_perform (e : Event) (hr : r.Distinct) (hhost : host ∉ r.exempt) :
    (r.bucket host).spent e.time + r.quota.interval * grants host r e =
      ((r.perform e.time e.act).2.bucket host).spent e.time + forgets host r e := by
  have hasked : (r.asked e.time host e.act).2.spent e.time =
      (r.bucket host).spent e.time + r.quota.interval * grants host r e := by
    rw [grants, granted_perform hhost]
    exact Bucket.spent_ask
  rw [← hasked]
  obtain ⟨hdrops, hbucket⟩ | ⟨hdrops, hbucket, -⟩ := bucket_perform e hr hhost
  · rw [hbucket, forgets, hdrops, Nat.zero_mul, Nat.add_zero]
  · rw [hbucket, forgets, hdrops, Nat.one_mul, Bucket.spent_new, Bucket.spent_eq]

/-- A bucket that is dropped as its host comes back owes a burst at most. Another one owes less than
a millisecond, and nothing when a refill takes whole milliseconds. -/
theorem forgets_le (e : Event) (hr : r.Kept host e.time) (hhost : host ∉ r.exempt)
    (hrefill : r.quota.tolerance ≤ r.refill) :
    forgets host r e ≤
        returns host r e * r.quota.tolerance + drops host r e * nanosPerMilli ∧
      (nanosPerMilli ∣ r.refill →
        forgets host r e ≤ returns host r e * r.quota.tolerance) := by
  unfold forgets returns
  obtain ⟨hzero, -⟩ | ⟨hone, -, t, hentry, hstale⟩ := bucket_perform e hr.distinct hhost
  · simp [hzero]
  · rw [hone, Nat.one_mul, Nat.one_mul]
    split_ifs with hweight
    · have hsame : (r.asked e.time host e.act).2 = t.bucket := by
        rw [asked, hweight, Bucket.ask_zero, bucket, hentry]
        rfl
      obtain ⟨hdebt, hnone⟩ := debt_of_stale hrefill (hr.current t hentry) hstale
      rw [hsame, Nat.zero_mul]
      exact ⟨by omega, fun hwhole => Nat.le_of_eq (hnone hwhole)⟩
    · have hdebt : (r.asked e.time host e.act).2.debt e.time ≤ r.quota.tolerance :=
        hr.within.ask.debt_le
      rw [Nat.one_mul]
      exact ⟨Nat.le_add_right_of_le hdebt, fun _ => hdebt⟩

/-- When a host was last seen, in milliseconds: when its entry was last used, or now if it has
none. -/
def lastSeen (r : Registry) (now : Nat) (host : Text) : Nat :=
  ((r.find? host).map (·.lastUsed)).getD (millis now)

theorem lastSeen_mono (r : Registry) (host : Text) (h : now ≤ finish) :
    r.lastSeen now host ≤ r.lastSeen finish host := by
  unfold lastSeen
  cases r.find? host with
  | none => exact Nat.div_le_div_right h
  | some t => exact Nat.le_refl _

theorem Kept.lastSeen_le (hr : r.Kept host now) : r.lastSeen now host ≤ millis now := by
  unfold lastSeen
  cases hentry : r.find? host with
  | none => exact Nat.le_refl _
  | some t =>
    obtain ⟨used, hused, hlast, -⟩ := hr.current t hentry
    rw [Option.map_some, Option.getD_some, hlast]
    exact Nat.div_le_div_right hused

theorem find?_of_drops {e : Event} (h : drops host r e = 1) :
    (r.perform e.time e.act).2.find? host = none := by
  unfold drops at h
  split_ifs at h with hgone
  exact Option.isNone_iff_eq_none.1 hgone.2

theorem lastSeen_of_drops {e : Event} (h : drops host r e = 1) :
    (r.perform e.time e.act).2.lastSeen e.time host = millis e.time := by
  rw [lastSeen, find?_of_drops h]
  rfl

/-- An event that drops a host's bucket comes later than a refill takes since the host was seen. -/
theorem lastSeen_perform {e : Event} (hr : r.Kept host e.time) (hhost : host ∉ r.exempt) :
    drops host r e * (millis r.refill + 1) + r.lastSeen e.time host ≤
      (r.perform e.time e.act).2.lastSeen e.time host := by
  obtain ⟨hzero, -⟩ | ⟨hone, -, t, hentry, hstale⟩ := bucket_perform e hr.distinct hhost
  · rw [hzero, Nat.zero_mul, Nat.zero_add]
    cases perform_turn hr.distinct hhost e.act with
    | left _ after => rw [lastSeen, lastSeen, after]
    | asked after =>
      refine Nat.le_trans hr.lastSeen_le (Nat.le_of_eq ?_)
      rw [lastSeen, after]
      rfl
    | dropped before _ after =>
      rw [drops, if_pos ⟨by simp [before], by simp [after]⟩] at hzero
      exact nomatch hzero
  · rw [lastSeen_of_drops hone, hone, lastSeen, hentry]
    rw [isFresh, decide_eq_false_iff_not] at hstale
    unfold millis nanosPerMilli at *
    simp only [Option.map_some, Option.getD_some]
    omega

/-! ## Runs of events -/

/-- A run of events in the order of their times, between `now` and `finish`, in which the host's
entry stays within its burst. -/
inductive Run (host : Text) (finish : Nat) : Nat → Registry → List Event → Prop
  | ended {now : Nat} {r : Registry} (time : now ≤ finish) (kept : r.Kept host finish) :
      Run host finish now r []
  | event {now : Nat} {r : Registry} {e : Event} {events : List Event} (time : now ≤ e.time)
      (kept : r.Kept host e.time) (counted : host ∉ r.exempt)
      (rest : Run host finish e.time (r.perform e.time e.act).2 events) :
      Run host finish now r (e :: events)

variable {events : List Event}

/-- Events at times that do not decrease are a run. -/
theorem Kept.run (hr : r.Kept host now) (hhost : host ∉ r.exempt)
    (hordered : events.Pairwise (·.time ≤ ·.time))
    (htimes : ∀ e ∈ events, now ≤ e.time ∧ e.time ≤ finish) (hfinish : now ≤ finish) :
    Run host finish now r events := by
  induction events generalizing r now with
  | nil => exact .ended hfinish (hr.mono hfinish)
  | cons e events ih =>
    rw [List.pairwise_cons] at hordered
    obtain ⟨hnow, hlast⟩ := htimes e List.mem_cons_self
    have hcounted : host ∉ (r.perform e.time e.act).2.exempt :=
      (sameSettings_perform e.time e.act).counted hhost
    refine .event hnow (hr.mono hnow) hhost
      (ih ((hr.mono hnow).perform hhost e.act) hcounted hordered.2 (fun f hf => ?_) hlast)
    exact ⟨hordered.1 f hf, (htimes f (List.mem_cons_of_mem e hf)).2⟩

theorem sameSettings_after (events : List Event) : SameSettings r (r.after events) := by
  induction events generalizing r with
  | nil => exact ⟨rfl, rfl, rfl⟩
  | cons e events ih => exact (sameSettings_perform e.time e.act).trans ih

theorem Distinct.after (hr : r.Distinct) (events : List Event) : (r.after events).Distinct := by
  induction events generalizing r with
  | nil => exact hr
  | cons e events ih => exact ih (hr.perform e.act)

theorem Run.kept_after (h : Run host finish now r events) : (r.after events).Kept host finish := by
  induction h with
  | ended _ kept => exact kept
  | event _ _ _ _ ih => exact ih

/-- The events of a run spend what they let a host have, less what they forget, and never get
further ahead of the clock than a burst takes. -/
theorem Run.spent_le (h : Run host finish now r events) :
    (r.bucket host).spent now + r.quota.interval * r.total (grants host) events ≤
      finish + r.quota.tolerance + r.total (forgets host) events := by
  induction h with
  | @ended now r time kept =>
    have hlast : (r.bucket host).spent finish ≤ finish + r.quota.tolerance := kept.within
    have hmono := (r.bucket host).spent_mono time
    simp only [total, Nat.mul_zero]
    omega
  | @event now r e events time kept counted rest ih =>
    have hevent := spent_perform e kept.distinct counted
    have hmono := (r.bucket host).spent_mono time
    rw [(sameSettings_perform e.time e.act).quota] at ih
    simp only [total, Nat.mul_add]
    omega

/-- What a run forgets: a burst at most for each bucket that is dropped as the host comes back, and
less than a millisecond for each other one. -/
theorem Run.forgets_le (h : Run host finish now r events)
    (hrefill : r.quota.tolerance ≤ r.refill) :
    r.total (forgets host) events ≤ r.total (returns host) events * r.quota.tolerance +
        r.total (drops host) events * nanosPerMilli ∧
      (nanosPerMilli ∣ r.refill →
        r.total (forgets host) events ≤ r.total (returns host) events * r.quota.tolerance) := by
  induction h with
  | ended => exact ⟨Nat.zero_le _, fun _ => Nat.zero_le _⟩
  | @event now r e events time kept counted rest ih =>
    have hsettings := sameSettings_perform (r := r) e.time e.act
    rw [hsettings.quota, hsettings.refill] at ih
    obtain ⟨hevent, hevent'⟩ := Registry.forgets_le e kept counted hrefill
    obtain ⟨hrest, hrest'⟩ := ih hrefill
    simp only [total, Nat.add_mul]
    refine ⟨by omega, fun hwhole => ?_⟩
    have hboth := Nat.add_le_add (hevent' hwhole) (hrest' hwhole)
    omega

/-- A host's bucket is dropped when the host was not seen for longer than a refill takes, so the
drops of a run are spread over it. -/
theorem Run.drops_spread (h : Run host finish now r events) :
    r.total (drops host) events * (millis r.refill + 1) + r.lastSeen now host ≤ millis finish := by
  induction h with
  | @ended now r time kept =>
    have hlater := lastSeen_mono r host time
    have hseen := kept.lastSeen_le
    simp only [total, Nat.zero_mul]
    omega
  | @event now r e events time kept counted rest ih =>
    have hlater := lastSeen_mono r host time
    have hevent := lastSeen_perform kept counted
    rw [(sameSettings_perform e.time e.act).refill] at ih
    simp only [total, Nat.add_mul]
    omega

/-- In a run there is one drop, and at most one more for each time in which a bucket refills. -/
theorem Run.drops_le (h : Run host finish now r events) :
    r.total (drops host) events ≤ 1 + (millis finish - millis now) / (millis r.refill + 1) := by
  induction h with
  | ended => exact Nat.zero_le _
  | @event now r e events time kept counted rest ih =>
    have hnow : millis now ≤ millis e.time := Nat.div_le_div_right time
    have hrefill := (sameSettings_perform (r := r) e.time e.act).refill
    have hshorter : (millis finish - millis e.time) / (millis r.refill + 1) ≤
        (millis finish - millis now) / (millis r.refill + 1) :=
      Nat.div_le_div_right (Nat.sub_le_sub_left hnow _)
    rw [total]
    obtain ⟨hzero, -⟩ | ⟨hone, -⟩ := bucket_perform e kept.distinct counted
    · rw [hrefill] at ih
      omega
    · have hspread := rest.drops_spread
      rw [hrefill, lastSeen_of_drops hone] at hspread
      have hunit : 0 < millis r.refill + 1 := Nat.succ_pos _
      have hrest := (Nat.le_div_iff_mul_le hunit).2 (Nat.le_sub_of_add_le hspread)
      omega

/-! ## New registries -/

theorem tolerance_le_refill {rate : Nat} (h : rate ≠ 0) (burst : Nat) :
    (Quota.perSecond rate burst).tolerance ≤ Quota.refill rate burst := by
  have hunit : nanosPerSecond / rate * rate ≤ nanosPerSecond := Nat.div_mul_le_self _ _
  unfold Quota.tolerance Quota.perSecond Quota.refill
  rw [Nat.le_div_iff_mul_le (by omega)]
  calc nanosPerSecond / rate * burst * (2 * rate)
      = 2 * burst * (nanosPerSecond / rate * rate) := by ring
    _ ≤ 2 * burst * nanosPerSecond := Nat.mul_le_mul_left _ hunit
    _ ≤ 2 * burst * nanosPerSecond + rate := Nat.le_add_right _ _

/-- A registry starts with no hosts, and a bucket refills in no less than its tolerance. -/
structure New (rate : Nat) (exempt : List Text) (r : Registry) : Prop where
  hosts : r.hosts = []
  exempt : r.exempt = exempt
  interval : r.quota.interval = nanosPerSecond / rate
  burst : r.quota.burst ≠ 0
  refill : r.quota.tolerance ≤ r.refill

theorem New.distinct {rate : Nat} {exempt : List Text} (hr : r.New rate exempt) : r.Distinct := by
  rw [Distinct, hr.hosts]
  exact List.nodup_nil

theorem New.kept {rate : Nat} {exempt : List Text} (hr : r.New rate exempt) (host : Text) :
    r.Kept host 0 := by
  refine ⟨hr.distinct, fun t ht => ?_⟩
  rw [find?, hr.hosts] at ht
  exact nomatch ht

theorem ofRate_new {rate : Nat} {burst : Option Nat} {exempt : List Text}
    (h : ofRate rate burst exempt = some r) : New rate exempt r := by
  unfold ofRate at h
  split_ifs at h with hrate
  rw [Option.some.injEq] at h
  subst h
  refine ⟨rfl, rfl, rfl, ?_, tolerance_le_refill hrate _⟩
  change (burst.filter (· ≠ 0)).getD rate ≠ 0
  cases burst with
  | none => exact hrate
  | some b =>
    rw [Option.filter_some]
    split_ifs with hb
    · simpa using hb
    · exact hrate

/-- A new bucket never denies its first request. -/
theorem New.ask_one {rate : Nat} {exempt : List Text} (hr : r.New rate exempt) (now : Nat)
    (host : Text) : (r.ask now host 1).1 ≠ some false := by
  by_cases hexempt : host ∈ r.exempt
  · simp [ask, limiter, hexempt]
  · rw [ask_eq hexempt, bucket, find?, hr.hosts, List.find?_nil, Option.map_none,
      Option.getD_none, Bucket.ask_new_one hr.burst]
    simp

/-- New buckets let every client in at first. -/
theorem New.checkClient {rate : Nat} {exempt : List Text} (hr : r.New rate exempt)
    (bypass : Option BypassList) (now : Nat) (peer : Socket) :
    (Gate.checkClient ⟨some r, bypass⟩ now peer).1 = .allow :=
  if_neg (hr.ask_one now (clientHost peer))

end Registry

end Intercept
