import Intercept.Proofs.Admission.SharedRegistry

/-!
# Whether a host keeps the bucket that was handed out for it

A host's bucket is looked up first, and the sweep that may follow drops stale buckets. A host that
comes back just then is handed out a bucket that the registry no longer has. What is taken from it
is not counted: the next time the host gets a new one.

* `SharedRegistry.takings`: what is taken from a bucket at one time. `Bucket.charged` is the bucket
  afterwards.

Results:
* `after_takings`: what is taken from a bucket stays taken, and changes no place.
* `find?_limiter_eq`: the bucket handed out is tracked unless the host comes back stale.
* `limiter_stays`: exactly then the host has the same bucket the next time, with all that was taken.
* `answers_of_arriving`: how any registry comes to hand out a bucket that does not count.
-/

namespace Intercept

/-- A bucket that was asked for some weights at one time. -/
def Bucket.charged (q : Quota) (now : Nat) (weights : List Nat) (b : Bucket) : Bucket :=
  weights.foldl (fun b weight => (b.ask q now weight).2) b

namespace SharedRegistry

open Registry (millis SameSettings numbered length_numbered)

/-- The bucket at a place. -/
def bucketAt (s : SharedRegistry) (place : Nat) : Option Bucket := (s.made[place]?).map (·.bucket)

/-- Asking the bucket at a place for some weights at one time. -/
def takings (now place : Nat) (weights : List Nat) : List Event :=
  weights.map fun weight => ⟨now, .allow place weight⟩

variable {s : SharedRegistry} {now place : Nat} {host : Text}

/-! ## What is taken from a bucket -/

theorem bucketAt_allow (s : SharedRegistry) (now place weight : Nat) :
    (s.allow now place weight).2.bucketAt place =
      (s.bucketAt place).map fun b => (b.ask s.quota now weight).2 := by
  cases ht : s.made[place]? with
  | none => rw [allow, ht, bucketAt, ht]; rfl
  | some t =>
    obtain ⟨hlt, -⟩ := List.getElem?_eq_some_iff.1 ht
    rw [allow_of_made ht, bucketAt, bucketAt, ht, List.getElem?_set_self hlt]
    rfl

/-- What is taken from a bucket stays taken, and no host changes its place. -/
theorem after_takings (s : SharedRegistry) (now place : Nat) (weights : List Nat) :
    (∀ host, (s.after (takings now place weights)).find? host = s.find? host) ∧
      (s.after (takings now place weights)).made.length = s.made.length ∧
      (s.after (takings now place weights)).bucketAt place =
        (s.bucketAt place).map (Bucket.charged s.quota now weights) := by
  induction weights generalizing s with
  | nil => exact ⟨fun _ => rfl, rfl, Option.map_id'.symm⟩
  | cons weight weights ih =>
    obtain ⟨hfind, hlength, hbucket⟩ := ih (s.allow now place weight).2
    have hquota : (s.allow now place weight).2.quota = s.quota :=
      (sameSettings_allow s now place weight).quota
    refine ⟨fun host => ?_, ?_, ?_⟩
    · rw [← find?_allow s now place weight host]
      exact hfind host
    · rw [← length_allow s now place weight]
      exact hlength
    · rw [bucketAt_allow, Option.map_map, hquota] at hbucket
      exact hbucket

/-! ## The next time -/

/-- A sweep drops the bucket that is handed out just when the host comes back stale. -/
theorem kept_eq (hs : s.Sound) (now : Nat) (host : Text) :
    (!(s.track now host).registry.sweepDue now ||
      (s.track now host).isFresh now ((s.find? host).getD s.made.length)) =
        !s.registry.staleReturn now host := by
  have hfresh : (s.track now host).isFresh now ((s.find? host).getD s.made.length) =
      s.registry.isFresh now ((s.registry.find? host).getD ⟨host, {}, millis now⟩) := by
    rw [isFresh, made_track hs, Option.any_some, sameSettings_track.isFresh now]
  rw [hfresh, Registry.staleReturn]
  cases hfind : s.registry.find? host with
  | none =>
    rw [Option.getD_none, Registry.isFresh_new, Option.any_none, Bool.or_true, Bool.and_false]
    rfl
  | some t =>
    have htracked : (s.track now host).registry = s.registry := by
      rw [registry_track hs, Registry.track, hfind]
    rw [htracked, Option.getD_some, Option.any_some, Bool.not_and, Bool.not_not]

/-- The bucket handed out is tracked unless the host comes back stale. -/
theorem find?_limiter_eq (hs : s.Sound) (hhost : host ∉ s.exempt) (now : Nat) :
    (s.limiter now host).2.find? host =
      if s.registry.staleReturn now host then none else (s.limiter now host).1 := by
  rw [find?_limiter hs hhost, Option.filter_some, kept_eq hs, limiter_of_counted hhost]
  cases s.registry.staleReturn now host <;> rfl

/-- The bucket that is handed out is the one from which the registry would answer the host. -/
theorem bucketAt_limiter (hs : s.Sound) (hhost : host ∉ s.exempt) (now : Nat) :
    ∃ place, (s.limiter now host).1 = some place ∧
      (s.limiter now host).2.bucketAt place = some (s.registry.bucket host) := by
  have hentry := made_track hs now host
  rw [← made_limiter hhost] at hentry
  refine ⟨(s.find? host).getD s.made.length, by rw [limiter_of_counted hhost], ?_⟩
  rw [bucketAt, hentry, Option.map_some, Registry.getD_bucket]

theorem lt_of_bucketAt {b : Bucket} (h : s.bucketAt place = some b) : place < s.made.length := by
  obtain ⟨t, ht, -⟩ := Option.map_eq_some_iff.1 h
  exact (List.getElem?_eq_some_iff.1 ht).1

/-- A host that is tracked gets the same bucket the next time, with what was taken from it. -/
theorem limiter_takings_tracked {b : Bucket} (hhost : host ∉ s.exempt)
    (hfind : s.find? host = some place) (hb : s.bucketAt place = some b) (now : Nat)
    (weights : List Nat) :
    ((s.after (takings now place weights)).limiter now host).1 = some place ∧
      ((s.after (takings now place weights)).limiter now host).2.bucketAt place =
        some (b.charged s.quota now weights) := by
  obtain ⟨hsame, -, hbucket⟩ := s.after_takings now place weights
  obtain ⟨hnext, hmade⟩ := limiter_of_tracked (counted_after hhost _) ((hsame host).trans hfind) now
  rw [hb] at hbucket
  refine ⟨hnext, ?_⟩
  rw [bucketAt, hmade]
  exact hbucket

/-- A host that is not tracked gets a new bucket the next time, whatever was taken from another. -/
theorem limiter_takings_new {b : Bucket} (hhost : host ∉ s.exempt) (hfind : s.find? host = none)
    (hb : s.bucketAt place = some b) (now : Nat) (weights : List Nat) :
    ∃ next, ((s.after (takings now place weights)).limiter now host).1 = some next ∧
      next ≠ place ∧
      ((s.after (takings now place weights)).limiter now host).2.bucketAt next = some {} := by
  obtain ⟨hsame, hlength, -⟩ := s.after_takings now place weights
  obtain ⟨hnext, hmade⟩ := limiter_of_new (counted_after hhost _) ((hsame host).trans hfind) now
  refine ⟨_, hnext, ?_, ?_⟩
  · rw [hlength]
    exact Nat.ne_of_gt (lt_of_bucketAt hb)
  · rw [bucketAt, hmade, List.getElem?_concat_length]
    rfl

/-! ## When a host keeps its bucket -/

/-- Hosts come in at once, and one of them comes back: when it is swept on its return. -/
theorem staleReturn_arriving {hosts : List Text} {later : Nat} (h : s.Arriving now hosts)
    (hhost : hosts[place]? = some host) :
    (s.after (arrivals now hosts)).registry.staleReturn later host = true ↔
      (sweepThreshold ≤ hosts.length ∧ millis s.refill ≤ millis later - s.lastSweep) ∧
        s.refill < (millis later - millis now) * nanosPerMilli := by
  obtain ⟨hfind, hentry⟩ := h.find? hhost
  have hlength : (s.after (arrivals now hosts)).registry.hosts.length = hosts.length := by
    rw [length_hosts h.sound, h.after]
    simp [filled]
  rw [Registry.staleReturn, registry_find?, hfind, Option.bind_some, hentry, Option.any_some,
    Registry.sweepDue, hlength, h.after, Bool.and_eq_true, Bool.and_eq_true, decide_eq_true_eq,
    decide_eq_true_eq, Bool.not_eq_true', Registry.isFresh, decide_eq_false_iff_not, Nat.not_le]
  rfl

/-- **A bucket that is handed out stays the host's bucket** unless the host comes back stale: the
host has it the next time, with all that was taken from it since. When the host does come back
stale, it has another bucket the next time, and a new one, whatever was taken. -/
theorem limiter_stays {rate : Nat} {burst : Option Nat} {exempt : List Text}
    (hmade : ofRate rate burst exempt = some s) (events : List Event) (now : Nat)
    (hhost : host ∉ exempt) :
    let before := s.after events
    ∃ place, (before.limiter now host).1 = some place ∧
      (before.limiter now host).2.bucketAt place = some (before.registry.bucket host) ∧
      ((before.limiter now host).2.find? host = some place ↔
        before.registry.staleReturn now host = false) ∧
      ∀ weights, let taken := (before.limiter now host).2.after (takings now place weights)
        ∃ next, (taken.limiter now host).1 = some next ∧
          (next = place ↔ before.registry.staleReturn now host = false) ∧
          (taken.limiter now host).2.bucketAt next =
            if before.registry.staleReturn now host then some {}
            else some ((before.registry.bucket host).charged s.quota now weights) := by
  intro before
  have hsettings : SameSettings s.registry before.registry := sameSettings_after s events
  have hsound : before.Sound := (Sound.of_ofRate hmade).after events
  have hcounted : host ∉ before.exempt := counted_of_ofRate hmade hhost events
  have hkept := find?_limiter_eq hsound hcounted now
  obtain ⟨place, hplace, hb⟩ := bucketAt_limiter hsound hcounted now
  rw [hplace] at hkept
  refine ⟨place, hplace, hb, ?_, fun weights => ?_⟩
  · rw [hkept]
    cases before.registry.staleReturn now host <;> simp
  · have hcounted' : host ∉ (before.limiter now host).2.exempt :=
      (sameSettings_limiter (s := before)).counted hcounted
    have hquota : (before.limiter now host).2.quota = s.quota :=
      (hsettings.trans (sameSettings_limiter (s := before))).quota
    cases hstale : before.registry.staleReturn now host with
    | false =>
      rw [hstale] at hkept
      obtain ⟨hnext, hbucket⟩ := limiter_takings_tracked hcounted' hkept hb now weights
      rw [hquota] at hbucket
      exact ⟨place, hnext, iff_of_true rfl rfl, hbucket⟩
    | true =>
      rw [hstale] at hkept
      obtain ⟨next, hnext, hne, hbucket⟩ := limiter_takings_new hcounted' hkept hb now weights
      exact ⟨next, hnext, iff_of_false hne nofun, hbucket⟩

/-- The first of 4096 hosts comes back just one refill later: it is not yet stale for the sweep, and
what it takes is counted. -/
theorem limiter_stays_swept :
    let now := 100 * nanosPerMilli
    let back := (hundred.after (arrivals 0 (numbered sweepThreshold))).limiter now ['h', '0']
    let next := (back.2.after (takings now 0 [4, 7])).limiter now ['h', '0']
    ofRate 100 (some 10) [] = some hundred ∧ back.1 = some 0 ∧ back.2.find? ['h', '0'] = some 0 ∧
      next.1 = some 0 ∧ next.2.bucketAt 0 = some (Bucket.charged hundred.quota now [4, 7] {}) := by
  have hmade : ofRate 100 (some 10) [] = some hundred := rfl
  have hhost : ['h', '0'] ∉ [] := List.not_mem_nil
  have hearly : ¬hundred.refill < (millis (100 * nanosPerMilli) - millis 0) * nanosPerMilli := by
    decide
  have hfresh := Bool.eq_false_iff.2 fun hstale =>
    hearly ((staleReturn_arriving hundred_arriving first_numbered).1 hstale).2
  obtain ⟨hfind, hentry⟩ := hundred_arriving.find? first_numbered
  have hback := limiter_of_tracked (counted_after hhost _) hfind (100 * nanosPerMilli)
  obtain ⟨place, hplace, -, htracked, htaken⟩ :=
    limiter_stays hmade (arrivals 0 (numbered sweepThreshold)) (100 * nanosPerMilli) hhost
  obtain rfl : place = 0 := Option.some.inj (hplace.symm.trans hback.1)
  obtain ⟨again, hagain, hsame, hcharged⟩ := htaken [4, 7]
  obtain rfl : again = 0 := hsame.2 hfresh
  rw [hfresh, bucket_of_place hfind hentry] at hcharged
  exact ⟨hmade, hback.1, htracked.2 hfresh, hagain, hcharged⟩

/-! ## What a host has when it does not -/

/-- A host that is swept on its return is answered twice at once, from its old bucket and from a new
one, as if nothing had been taken. -/
theorem swept_on_return (hs : s.Sound) (hhost : host ∉ s.exempt)
    (hfind : s.find? host = some place) (hstale : s.registry.staleReturn now host = true)
    (weight : Nat) :
    let back := s.limiter now host
    back.1 = some place ∧ back.2.find? host = none ∧
      (back.2.allow now place weight).1 = some ((s.registry.bucket host).ask s.quota now weight).1 ∧
      (((back.2.allow now place weight).2).ask now host weight).1 =
        some (Bucket.ask s.quota now weight {}).1 := by
  intro back
  have hback : back.2.Sound := hs.limiter now host
  have hsettings : SameSettings s.registry back.2.registry := sameSettings_limiter
  have htaken := hsettings.trans (sameSettings_allow back.2 now place weight)
  obtain ⟨hplace, hmade⟩ := limiter_of_tracked hhost hfind now
  have hgone : back.2.find? host = none :=
    (find?_limiter_eq hs hhost now).trans (if_pos hstale)
  have hquota : back.2.quota = s.quota := hsettings.quota
  obtain ⟨t, ht⟩ : ∃ t, s.made[place]? = some t :=
    ⟨_, List.getElem?_eq_getElem (hs.inBounds place (find?_eq_some hfind).1)⟩
  have hagain := ask_answer (hback.allow now place weight) (htaken.counted hhost) now weight
  rw [Registry.bucket, registry_find?, find?_allow, hgone] at hagain
  refine ⟨hplace, hgone, ?_, ?_⟩
  · rw [bucket_of_place hfind ht, ← hquota]
    rw [← hmade] at ht
    exact congrArg Prod.fst (allow_of_made ht now weight)
  · exact hagain.trans (congrArg (fun q => some (Bucket.ask q now weight {}).1) htaken.quota)

/-- **A host that is swept on its return gets everything twice**: what it takes from the bucket that
was handed out is not counted the next time. -/
theorem answers_of_arriving {hosts : List Text} {later : Nat} (h : s.Arriving now hosts)
    (hmany : sweepThreshold ≤ hosts.length) (hhost : hosts[place]? = some host)
    (hdue : millis s.refill ≤ millis later - s.lastSweep)
    (hlate : s.refill < (millis later - millis now) * nanosPerMilli) (weight : Nat) :
    let back := (s.after (arrivals now hosts)).limiter later host
    let taken := back.2.allow later place weight
    back.1 = some place ∧ back.2.find? host = none ∧
      taken.1 = some (Bucket.ask s.quota later weight {}).1 ∧
      (taken.2.ask later host weight).1 = some (Bucket.ask s.quota later weight {}).1 := by
  have hcounted := counted_after (h.counted host (List.mem_of_getElem? hhost)) (arrivals now hosts)
  have hstale := (staleReturn_arriving h hhost).2 ⟨⟨hmany, hdue⟩, hlate⟩
  obtain ⟨hfind, hentry⟩ := h.find? hhost
  obtain ⟨hplace, hgone, hold, hnew⟩ := swept_on_return h.sound hcounted hfind hstale weight
  rw [bucket_of_place hfind hentry, quota_after] at hold
  rw [quota_after] at hnew
  exact ⟨hplace, hgone, hold, hnew⟩

/-- The first of 4096 hosts comes back a refill and a half later, and has its burst twice at once. A
bucket that stays does not let it through again. -/
theorem limiter_lost :
    let now := 150 * nanosPerMilli
    let back := (hundred.after (arrivals 0 (numbered sweepThreshold))).limiter now ['h', '0']
    let taken := back.2.allow now 0 10
    ofRate 100 (some 10) [] = some hundred ∧ back.1 = some 0 ∧ back.2.find? ['h', '0'] = none ∧
      taken.1 = some true ∧ (taken.2.ask now ['h', '0'] 10).1 = some true ∧
      (Bucket.ask hundred.quota now 10 (Bucket.charged hundred.quota now [10] {})).1 = false := by
  have hlate : hundred.refill < (millis (150 * nanosPerMilli) - millis 0) * nanosPerMilli := by
    decide
  have hanswers := answers_of_arriving hundred_arriving (Nat.le_of_eq (length_numbered _).symm)
    first_numbered (by decide) hlate 10
  exact ⟨rfl, hanswers.1, hanswers.2.1, hanswers.2.2.1.trans (by decide),
    hanswers.2.2.2.trans (by decide), by decide⟩

end SharedRegistry

end Intercept
