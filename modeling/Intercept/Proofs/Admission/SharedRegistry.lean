import Intercept.Admission.SharedRegistry
import Intercept.Proofs.Admission.Return
import Mathlib.Data.List.Induction

/-!
# Handed-out buckets

Whoever holds a bucket can ask it at any time, so the registry is no longer alone with its buckets.
It still does what it would do alone: seen through `registry`, every operation is the registry's
own.

* `SharedRegistry.Sound`: the tracked places are places of buckets, and of one bucket for each host.
* `SharedRegistry.Call`: what is done to the registry or to a bucket that it handed out. `after` is
  the registry when some calls are over.

Results:
* `registry_track`, `registry_sweep`, `registry_purge`, `registry_allow`: each operation is that of
  the registry; a bucket that is not tracked is asked without it.
* `registry_ask`: asking for a host is the registry's `ask`.
* `Sound.after`: places and hosts stay in order, whatever is called.
-/

namespace Intercept.SharedRegistry

open Registry (millis SameSettings numbered nodup_numbered length_numbered)

variable {s : SharedRegistry} {now place weight : Nat} {host other : Text}

/-- The tracked places are places of buckets, and of one bucket for each host. -/
structure Sound (s : SharedRegistry) : Prop where
  inBounds : ∀ place ∈ s.tracked, place < s.made.length
  distinct : (s.tracked.map s.hostAt).Nodup

/-! ## Places -/

theorem hostAt_eq_some : s.hostAt place = some host ↔ ∃ t, s.made[place]? = some t ∧ t.host = host :=
  Option.map_eq_some_iff

theorem find?_eq_some (h : s.find? host = some place) :
    place ∈ s.tracked ∧ s.hostAt place = some host :=
  ⟨List.mem_of_find?_eq_some h, by simpa using List.find?_some h⟩

theorem find?_eq_none : s.find? host = none ↔ ∀ place ∈ s.tracked, s.hostAt place ≠ some host := by
  simp [find?]

theorem track_of_tracked (h : s.find? host = some place) : s.track now host = s := by
  rw [track, h]

theorem track_of_new (h : s.find? host = none) : s.track now host =
    { s with
      made := s.made ++ [⟨host, {}, millis now⟩]
      tracked := s.made.length :: s.tracked } := by
  rw [track, h]

theorem hostAt_track_of_lt (hplace : place < s.made.length) :
    (s.track now host).hostAt place = s.hostAt place := by
  unfold track
  split
  · rfl
  · simp only [hostAt, List.getElem?_append_left hplace]

theorem hostAt_track_new (h : s.find? host = none) (now : Nat) :
    (s.track now host).hostAt s.made.length = some host := by
  rw [track_of_new h, hostAt, List.getElem?_concat_length]
  rfl

theorem hostAt_set {t : TrackedHost} (ht : s.hostAt place = some t.host) (other : Nat) :
    hostAt { s with made := s.made.set place t } other = s.hostAt other := by
  obtain ⟨u, hu, hhost⟩ := hostAt_eq_some.1 ht
  obtain ⟨hlt, -⟩ := List.getElem?_eq_some_iff.1 hu
  unfold hostAt
  rw [List.getElem?_set]
  split_ifs with heq
  · rw [← heq, hu, Option.map_some, Option.map_some, hhost]
  · rfl

theorem allow_of_made {t : TrackedHost} (ht : s.made[place]? = some t) (now weight : Nat) :
    s.allow now place weight = (some (t.bucket.ask s.quota now weight).1,
      { s with
        made := s.made.set place ⟨t.host, (t.bucket.ask s.quota now weight).2, millis now⟩ }) := by
  rw [allow, ht]

theorem hostAt_allow (s : SharedRegistry) (now place weight other : Nat) :
    (s.allow now place weight).2.hostAt other = s.hostAt other := by
  cases ht : s.made[place]? with
  | none => rw [allow, ht]
  | some t =>
    rw [allow_of_made ht]
    exact hostAt_set (by rw [hostAt, ht]; rfl) other

theorem tracked_allow (s : SharedRegistry) (now place weight : Nat) :
    (s.allow now place weight).2.tracked = s.tracked := by
  unfold allow
  split <;> rfl

theorem length_allow (s : SharedRegistry) (now place weight : Nat) :
    (s.allow now place weight).2.made.length = s.made.length := by
  unfold allow
  split
  · rfl
  · exact List.length_set

theorem made_sweep (s : SharedRegistry) (now : Nat) : (s.sweep now).made = s.made := by
  unfold sweep
  split_ifs <;> rfl

theorem sameSettings_track : SameSettings s.registry (s.track now host).registry := by
  unfold track
  split <;> exact ⟨rfl, rfl, rfl⟩

theorem sameSettings_sweep : SameSettings s.registry (s.sweep now).registry := by
  unfold sweep
  split <;> exact ⟨rfl, rfl, rfl⟩

theorem sameSettings_limiter : SameSettings s.registry (s.limiter now host).2.registry := by
  unfold limiter
  split_ifs
  · exact ⟨rfl, rfl, rfl⟩
  · exact sameSettings_track.trans sameSettings_sweep

theorem sameSettings_allow (s : SharedRegistry) (now place weight : Nat) :
    SameSettings s.registry (s.allow now place weight).2.registry := by
  unfold allow
  split <;> exact ⟨rfl, rfl, rfl⟩

/-! ## Places and hosts stay in order -/

theorem Sound.track (hs : s.Sound) (now : Nat) (host : Text) : (s.track now host).Sound := by
  have hsame : s.tracked.map (s.track now host).hostAt = s.tracked.map s.hostAt :=
    List.map_congr_left fun place hplace => hostAt_track_of_lt (hs.inBounds place hplace)
  cases hfind : s.find? host with
  | some place => rwa [track_of_tracked hfind]
  | none =>
    have hnew := hostAt_track_new hfind now
    rw [track_of_new hfind] at hsame hnew ⊢
    constructor
    · intro place hplace
      rw [List.length_append, List.length_singleton]
      obtain rfl | hplace := List.mem_cons.1 hplace
      · exact Nat.lt_succ_self _
      · exact Nat.lt_succ_of_lt (hs.inBounds place hplace)
    · rw [List.map_cons, hsame, hnew, List.nodup_cons]
      refine ⟨fun hmem => ?_, hs.distinct⟩
      obtain ⟨place, hplace, hhost⟩ := List.mem_map.1 hmem
      exact find?_eq_none.1 hfind place hplace hhost

theorem Sound.purge (hs : s.Sound) (now : Nat) : (s.purge now).Sound :=
  ⟨fun place hplace => hs.inBounds place (List.mem_of_mem_filter hplace),
    hs.distinct.sublist (List.filter_sublist.map _)⟩

theorem Sound.sweep (hs : s.Sound) (now : Nat) : (s.sweep now).Sound := by
  unfold SharedRegistry.sweep
  split_ifs
  · exact ⟨(hs.purge now).inBounds, (hs.purge now).distinct⟩
  · exact hs

theorem Sound.limiter (hs : s.Sound) (now : Nat) (host : Text) : (s.limiter now host).2.Sound := by
  unfold SharedRegistry.limiter
  split_ifs
  · exact hs
  · exact (hs.track now host).sweep now

theorem Sound.allow (hs : s.Sound) (now place weight : Nat) :
    (s.allow now place weight).2.Sound := by
  constructor
  · rw [tracked_allow, length_allow]
    exact hs.inBounds
  · have hsame : (s.allow now place weight).2.hostAt = s.hostAt :=
      funext (s.hostAt_allow now place weight)
    rw [tracked_allow, hsame]
    exact hs.distinct

/-- Every tracked host has one entry. -/
theorem length_hosts (hs : s.Sound) : s.registry.hosts.length = s.tracked.length := by
  have hall : ∀ place ∈ s.tracked, (s.made[place]?).isSome := fun place hplace => by
    rw [List.getElem?_eq_getElem (hs.inBounds place hplace)]
    rfl
  exact List.filterMap_length_eq_length.2 hall

/-- A host is found at the place where its bucket is tracked. -/
theorem find?_of_hostAt (hs : s.Sound) (hplace : place ∈ s.tracked)
    (hhost : s.hostAt place = some host) : s.find? host = some place := by
  cases hfind : s.find? host with
  | none => exact absurd hhost (find?_eq_none.1 hfind place hplace)
  | some other =>
    obtain ⟨hother, hsame⟩ := find?_eq_some hfind
    rw [List.inj_on_of_nodup_map hs.distinct hother hplace (hsame.trans hhost.symm)]

/-! ## The host's place after each operation -/

/-- A host that is tracked keeps its place, and a new one gets the next. -/
theorem find?_track (s : SharedRegistry) (now : Nat) (host : Text) :
    (s.track now host).find? host = some ((s.find? host).getD s.made.length) := by
  cases hfind : s.find? host with
  | some place => rw [track_of_tracked hfind, hfind, Option.getD_some]
  | none =>
    have hnew := hostAt_track_new hfind now
    rw [track_of_new hfind] at hnew ⊢
    exact List.find?_cons_of_pos (decide_eq_true hnew)

theorem find?_purge (hs : s.Sound) (now : Nat) (host : Text) :
    (s.purge now).find? host = (s.find? host).filter (s.isFresh now) :=
  Registry.find?_filter _ hs.distinct

theorem find?_sweep (hs : s.Sound) (now : Nat) (host : Text) : (s.sweep now).find? host =
    (s.find? host).filter fun place => !s.registry.sweepDue now || s.isFresh now place := by
  unfold sweep
  cases s.registry.sweepDue now with
  | false => cases hfind : s.find? host <;> simp [hfind, Option.filter_some]
  | true =>
    rw [if_pos rfl]
    simp only [Bool.not_true, Bool.false_or]
    exact find?_purge hs now host

theorem find?_allow (s : SharedRegistry) (now place weight : Nat) (host : Text) :
    (s.allow now place weight).2.find? host = s.find? host := by
  have hsame : (s.allow now place weight).2.hostAt = s.hostAt :=
    funext (s.hostAt_allow now place weight)
  rw [find?, tracked_allow, hsame, find?]

/-! ## What the registry itself does -/

theorem registry_find? (s : SharedRegistry) (host : Text) :
    s.registry.find? host = (s.find? host).bind (s.made[·]?) := by
  have hkey (place : Nat) :
      Option.any (fun t : TrackedHost => decide (t.host = host)) s.made[place]? =
        decide (s.hostAt place = some host) := by
    rw [hostAt]
    cases s.made[place]? <;> simp
  rw [Registry.find?, registry, List.find?_filterMap]
  simp only [hkey]
  rfl

/-- The registry's bucket of a host is the one at its place. -/
theorem bucket_of_place {t : TrackedHost} (hfind : s.find? host = some place)
    (ht : s.made[place]? = some t) : s.registry.bucket host = t.bucket := by
  rw [Registry.bucket, registry_find?, hfind, Option.bind_some, ht]
  rfl

theorem registry_track (hs : s.Sound) (now : Nat) (host : Text) :
    (s.track now host).registry = s.registry.track now host := by
  cases hfind : s.find? host with
  | some place =>
    obtain ⟨hmem, -⟩ := find?_eq_some hfind
    have hmade := List.getElem?_eq_getElem (hs.inBounds place hmem)
    rw [track_of_tracked hfind, Registry.track, registry_find?, hfind, Option.bind_some, hmade]
  | none =>
    have hold : s.tracked.filterMap ((s.made ++ [⟨host, {}, millis now⟩])[·]?) =
        s.tracked.filterMap (s.made[·]?) :=
      List.filterMap_congr fun place hplace => List.getElem?_append_left (hs.inBounds place hplace)
    rw [track_of_new hfind, Registry.track, registry_find?, hfind, Option.bind_none]
    simp only [registry, List.filterMap_cons, List.getElem?_concat_length, hold]

theorem registry_purge (s : SharedRegistry) (now : Nat) :
    (s.purge now).registry = s.registry.purge now := by
  have hhosts : (s.tracked.filter (s.isFresh now)).filterMap (s.made[·]?) =
      (s.tracked.filterMap (s.made[·]?)).filter (s.registry.isFresh now) := by
    rw [List.filterMap_filter, List.filter_filterMap]
    refine List.filterMap_congr fun place _ => ?_
    unfold isFresh
    cases s.made[place]? with
    | none => rfl
    | some t => rw [Option.any_some, Option.filter_some]
  exact congrArg (fun hosts => { s.registry with hosts := hosts }) hhosts

theorem registry_sweep (s : SharedRegistry) (now : Nat) :
    (s.sweep now).registry = s.registry.sweep now := by
  have hpurge := s.registry_purge now
  unfold sweep Registry.sweep
  split_ifs
  · rw [← hpurge]
    rfl
  · rfl

/-- A tracked bucket is asked for the registry too. -/
theorem registry_allow_tracked (hs : s.Sound) {t : TrackedHost} (hplace : place ∈ s.tracked)
    (ht : s.made[place]? = some t) (now weight : Nat) : (s.allow now place weight).2.registry =
      s.registry.update ⟨t.host, (t.bucket.ask s.quota now weight).2, millis now⟩ := by
  have hhosts (t' : TrackedHost) (hhost : t'.host = t.host) :
      s.tracked.filterMap ((s.made.set place t')[·]?) =
        (s.tracked.filterMap (s.made[·]?)).map fun u => if u.host = t'.host then t' else u := by
    rw [List.map_filterMap]
    refine List.filterMap_congr fun other hother => ?_
    have hlt := hs.inBounds other hother
    -- No other place has the host of the bucket, so the host tells it from the others.
    have hsame : s.made[other].host = t'.host → other = place := fun h =>
      List.inj_on_of_nodup_map hs.distinct hother hplace <| by
        rw [hostAt, hostAt, ht, List.getElem?_eq_getElem hlt, Option.map_some, Option.map_some, h,
          hhost]
    rw [List.getElem?_set, List.getElem?_eq_getElem hlt, Option.map_some]
    by_cases heq : place = other
    · subst heq
      obtain ⟨_, hget⟩ := List.getElem?_eq_some_iff.1 ht
      rw [if_pos rfl, if_pos hlt, hget, if_pos hhost.symm]
    · rw [if_neg heq, if_neg fun h => heq (hsame h).symm]
  rw [allow_of_made ht]
  simp only [registry, Registry.update, hhosts]

/-- A bucket that is no longer tracked is asked without the registry. -/
theorem registry_allow_untracked (hplace : place ∉ s.tracked) (now weight : Nat) :
    (s.allow now place weight).2.registry = s.registry := by
  cases ht : s.made[place]? with
  | none => rw [allow, ht]
  | some t =>
    have hhosts (t' : TrackedHost) : s.tracked.filterMap ((s.made.set place t')[·]?) =
        s.tracked.filterMap (s.made[·]?) :=
      List.filterMap_congr fun other hother =>
        List.getElem?_set_ne (ne_of_mem_of_not_mem hother hplace).symm
    rw [allow_of_made ht]
    simp only [registry, hhosts]

theorem limiter_of_counted (hhost : host ∉ s.exempt) (now : Nat) : s.limiter now host =
    (some ((s.find? host).getD s.made.length), (s.track now host).sweep now) := by
  rw [← find?_track s now host]
  exact if_neg (by rwa [List.contains_iff_mem])

theorem limiter_of_exempt (hhost : host ∈ s.exempt) (now : Nat) : s.limiter now host = (none, s) :=
  if_pos (List.contains_iff_mem.2 hhost)

theorem made_limiter (hhost : host ∉ s.exempt) (now : Nat) :
    (s.limiter now host).2.made = (s.track now host).made := by
  rw [limiter_of_counted hhost]
  exact made_sweep _ now

theorem limiter_of_tracked (hhost : host ∉ s.exempt) (hfind : s.find? host = some place)
    (now : Nat) : (s.limiter now host).1 = some place ∧ (s.limiter now host).2.made = s.made := by
  rw [made_limiter hhost, limiter_of_counted hhost, hfind, track_of_tracked hfind]
  exact ⟨rfl, rfl⟩

theorem limiter_of_new (hhost : host ∉ s.exempt) (hfind : s.find? host = none) (now : Nat) :
    (s.limiter now host).1 = some s.made.length ∧
      (s.limiter now host).2.made = s.made ++ [⟨host, {}, millis now⟩] := by
  rw [made_limiter hhost, limiter_of_counted hhost, hfind, track_of_new hfind]
  exact ⟨rfl, rfl⟩

/-- The place of a host, when it is tracked, has the registry's entry, and else a new one. -/
theorem made_track (hs : s.Sound) (now : Nat) (host : Text) :
    (s.track now host).made[(s.find? host).getD s.made.length]? =
      some ((s.registry.find? host).getD ⟨host, {}, millis now⟩) := by
  rw [registry_find?]
  cases hfind : s.find? host with
  | some place =>
    obtain ⟨hmem, -⟩ := find?_eq_some hfind
    rw [track_of_tracked hfind, Option.getD_some, Option.bind_some,
      List.getElem?_eq_getElem (hs.inBounds place hmem), Option.getD_some]
  | none =>
    rw [track_of_new hfind, Option.getD_none, Option.bind_none, Option.getD_none,
      List.getElem?_concat_length]

theorem registry_limiter (hs : s.Sound) (hhost : host ∉ s.exempt) (now : Nat) :
    (s.limiter now host).2.registry = (s.registry.track now host).sweep now := by
  rw [limiter_of_counted hhost, registry_sweep, registry_track hs]

/-- The bucket handed out is tracked, unless a sweep was due and found it stale. -/
theorem find?_limiter (hs : s.Sound) (hhost : host ∉ s.exempt) (now : Nat) :
    (s.limiter now host).2.find? host = (some ((s.find? host).getD s.made.length)).filter
      fun place =>
        !(s.track now host).registry.sweepDue now || (s.track now host).isFresh now place := by
  rw [limiter_of_counted hhost, find?_sweep (hs.track now host), find?_track]

/-- A bucket is asked for the registry as long as its host is tracked with no other one. -/
theorem registry_allow (hs : s.Sound) {t : TrackedHost} (ht : s.made[place]? = some t)
    (hfind : s.find? t.host = some place ∨ s.find? t.host = none) (now weight : Nat) :
    (s.allow now place weight).2.registry =
      s.registry.update ⟨t.host, (t.bucket.ask s.quota now weight).2, millis now⟩ := by
  rcases hfind with hfind | hfind
  · exact registry_allow_tracked hs (find?_eq_some hfind).1 ht now weight
  · have hplace : place ∉ s.tracked := fun hmem =>
      find?_eq_none.1 hfind place hmem (hostAt_eq_some.2 ⟨t, ht, rfl⟩)
    have hgone : s.registry.find? t.host = none := by rw [registry_find?, hfind, Option.bind_none]
    rw [registry_allow_untracked hplace, Registry.update_of_untracked]
    exact hgone

/-- **Asking for a host is what the registry does alone**, whether a sweep keeps the bucket or
not. -/
theorem registry_ask (hs : s.Sound) (now : Nat) (host : Text) (weight : Nat) :
    s.registry.ask now host weight =
      ((s.ask now host weight).1, (s.ask now host weight).2.registry) := by
  by_cases hhost : host ∈ s.exempt
  · have hexempt : host ∈ s.registry.exempt := hhost
    have halone : s.registry.ask now host weight = (none, s.registry) := by
      simp [Registry.ask, Registry.limiter, hexempt]
    rw [ask, limiter_of_exempt hhost, halone]
  · let s' := (s.limiter now host).2
    let place := (s.find? host).getD s.made.length
    have hask : s.ask now host weight = s'.allow now place weight := by
      simp only [ask, s', place, limiter_of_counted hhost]
    have hmade : s'.made[place]? = some ((s.registry.find? host).getD ⟨host, {}, millis now⟩) :=
      made_limiter hhost now ▸ made_track hs now host
    have hentry : ((s.registry.find? host).getD ⟨host, {}, millis now⟩).host = host := by
      cases hfind : s.registry.find? host with
      | none => rfl
      | some t => exact Registry.find?_host hfind
    have hfind : s'.find? host = some place ∨ s'.find? host = none := by
      rw [find?_limiter hs hhost now, Option.filter_some]
      split_ifs
      · exact .inl rfl
      · exact .inr rfl
    have hquota : s'.quota = s.quota := (sameSettings_limiter (s := s)).quota
    have hallow := registry_allow (hs.limiter now host) hmade (by rwa [hentry]) now weight
    rw [hentry, hquota, Registry.getD_bucket] at hallow
    have hlimiter : s'.registry = (s.registry.track now host).sweep now :=
      registry_limiter hs hhost now
    rw [hask, hallow, hlimiter, Registry.ask_eq hhost, allow_of_made hmade, hquota,
      Registry.getD_bucket]
    rfl

/-- A host is answered from its bucket, or from a new one. -/
theorem ask_answer (hs : s.Sound) (hhost : host ∉ s.exempt) (now weight : Nat) :
    (s.ask now host weight).1 = some ((s.registry.bucket host).ask s.quota now weight).1 := by
  have hask := congrArg Prod.fst (registry_ask hs now host weight)
  rw [Registry.ask_eq hhost] at hask
  exact hask.symm

/-! ## Runs -/

/-- What is done to a registry, or to a bucket that it handed out. -/
inductive Call
  | limiter (host : Text)
  | allow (place weight : Nat)
  | purge
deriving DecidableEq, Repr

/-- A call and its time. -/
structure Event where
  time : Nat
  call : Call
deriving DecidableEq, Repr

/-- The registry and the buckets after a call. -/
def perform (s : SharedRegistry) (now : Nat) : Call → SharedRegistry
  | .limiter host => (s.limiter now host).2
  | .allow place weight => (s.allow now place weight).2
  | .purge => s.purge now

/-- The registry and the buckets after some events. -/
def after (s : SharedRegistry) (events : List Event) : SharedRegistry :=
  events.foldl (fun s e => s.perform e.time e.call) s

theorem after_append (s : SharedRegistry) (front back : List Event) :
    s.after (front ++ back) = (s.after front).after back :=
  List.foldl_append

theorem sameSettings_perform (call : Call) :
    SameSettings s.registry (s.perform now call).registry := by
  cases call with
  | limiter host => exact sameSettings_limiter
  | allow place weight => exact sameSettings_allow s now place weight
  | purge => exact ⟨rfl, rfl, rfl⟩

theorem sameSettings_after (s : SharedRegistry) (events : List Event) :
    SameSettings s.registry (s.after events).registry := by
  induction events generalizing s with
  | nil => exact ⟨rfl, rfl, rfl⟩
  | cons e events ih => exact (sameSettings_perform e.call).trans (ih _)

theorem quota_after (s : SharedRegistry) (events : List Event) :
    (s.after events).quota = s.quota :=
  (sameSettings_after s events).quota

theorem counted_after (hhost : host ∉ s.exempt) (events : List Event) :
    host ∉ (s.after events).exempt :=
  (sameSettings_after s events).counted hhost

theorem Sound.perform (hs : s.Sound) (now : Nat) (call : Call) : (s.perform now call).Sound := by
  cases call with
  | limiter host => exact hs.limiter now host
  | allow place weight => exact hs.allow now place weight
  | purge => exact hs.purge now

theorem Sound.after (hs : s.Sound) (events : List Event) : (s.after events).Sound := by
  induction events generalizing s with
  | nil => exact hs
  | cons e events ih => exact ih (hs.perform e.time e.call)

/-! ## From the start -/

theorem ofRate_eq_some {rate : Nat} {burst : Option Nat} {exempt : List Text} :
    ofRate rate burst exempt = some s ↔ rate ≠ 0 ∧
      s = { quota := Quota.perSecond rate ((burst.filter (· ≠ 0)).getD rate)
            refill := Quota.refill rate ((burst.filter (· ≠ 0)).getD rate)
            exempt := exempt } := by
  unfold ofRate Registry.ofRate
  split_ifs with hrate
  · simp [hrate]
  · simp [hrate, eq_comm]

theorem Sound.of_ofRate {rate : Nat} {burst : Option Nat} {exempt : List Text}
    (h : ofRate rate burst exempt = some s) : s.Sound := by
  obtain ⟨-, rfl⟩ := ofRate_eq_some.1 h
  exact ⟨nofun, List.nodup_nil⟩

/-- The exempt hosts stay those that the registry was made with. -/
theorem counted_of_ofRate {rate : Nat} {burst : Option Nat} {exempt : List Text}
    (h : ofRate rate burst exempt = some s) (hhost : host ∉ exempt) (events : List Event) :
    host ∉ (s.after events).exempt := by
  have hexempt : s.exempt = exempt := by
    obtain ⟨-, rfl⟩ := ofRate_eq_some.1 h
    rfl
  exact counted_after (hexempt ▸ hhost) events

/-! ## Many hosts -/

/-- Soon after a sweep there is no other one. -/
theorem sweep_of_early (h : millis now - s.lastSweep < millis s.refill) : s.sweep now = s := by
  have hdue : s.registry.sweepDue now = false := by
    rw [Registry.sweepDue, Bool.and_eq_false_iff]
    exact .inr (decide_eq_false (Nat.not_le.2 h))
  rw [sweep, hdue]
  rfl

/-- Hosts that come in one behind the other at one time. -/
def arrivals (now : Nat) (hosts : List Text) : List Event :=
  hosts.map fun host => ⟨now, .limiter host⟩

/-- A registry with a bucket for each of some hosts, all made at one time. -/
def filled (s : SharedRegistry) (now : Nat) (hosts : List Text) : SharedRegistry :=
  { s with
    made := hosts.map fun host => ⟨host, {}, millis now⟩
    tracked := (List.range hosts.length).reverse }

/-- Different hosts that come in at the start, before a sweep can be due. -/
structure Arriving (s : SharedRegistry) (now : Nat) (hosts : List Text) : Prop where
  made : s.made = []
  tracked : s.tracked = []
  counted : ∀ host ∈ hosts, host ∉ s.exempt
  distinct : hosts.Nodup
  early : millis now - s.lastSweep < millis s.refill

variable {hosts : List Text}

theorem find?_filled (hhost : host ∉ hosts) : (s.filled now hosts).find? host = none := by
  refine find?_eq_none.2 fun place _ hsame => hhost ?_
  obtain ⟨t, ht, rfl⟩ := hostAt_eq_some.1 hsame
  obtain ⟨u, hu, rfl⟩ := List.mem_map.1 (List.mem_of_getElem? ht)
  exact hu

/-- They are tracked one by one. -/
theorem Arriving.after (h : s.Arriving now hosts) :
    s.after (arrivals now hosts) = s.filled now hosts := by
  induction hosts using List.reverseRecOn with
  | nil =>
    obtain ⟨quota, refill, exempt, made, tracked, lastSweep⟩ := s
    obtain ⟨hmade, htracked, -, -, -⟩ := h
    subst hmade htracked
    rfl
  | append_singleton hosts host ih =>
    obtain ⟨hmade, htracked, hcounted, hdistinct, hearly⟩ := h
    have hfront : s.Arriving now hosts :=
      ⟨hmade, htracked, fun host hmem => hcounted host (List.mem_append_left _ hmem),
        hdistinct.of_append_left, hearly⟩
    have hnew : host ∉ hosts := fun hmem =>
      List.disjoint_of_nodup_append hdistinct hmem (List.mem_singleton_self host)
    have hlast : host ∉ (s.filled now hosts).exempt := hcounted host (by simp)
    have hcalled : s.after (arrivals now (hosts ++ [host])) =
        ((s.filled now hosts).limiter now host).2 := by
      rw [arrivals, List.map_append, after_append, ← arrivals, ih hfront]
      rfl
    rw [hcalled, limiter_of_counted hlast, track_of_new (find?_filled hnew),
      sweep_of_early (by exact hearly)]
    simp [filled, List.range_succ]

theorem Arriving.sound (h : s.Arriving now hosts) : (s.after (arrivals now hosts)).Sound :=
  Sound.after ⟨by simp [h.tracked], by simp [h.tracked]⟩ _

/-- Each of the hosts has the place of its turn. -/
theorem Arriving.find? (h : s.Arriving now hosts) (hhost : hosts[place]? = some host) :
    (s.after (arrivals now hosts)).find? host = some place ∧
      (s.after (arrivals now hosts)).made[place]? = some ⟨host, {}, millis now⟩ := by
  have hsound := h.sound
  obtain ⟨hlt, -⟩ := List.getElem?_eq_some_iff.1 hhost
  rw [h.after] at hsound ⊢
  have hplace : (s.filled now hosts).made[place]? = some ⟨host, {}, millis now⟩ := by
    simp only [filled, List.getElem?_map, hhost, Option.map_some]
  have htracked : place ∈ (s.filled now hosts).tracked := by simpa [filled] using hlt
  exact ⟨find?_of_hostAt hsound htracked (hostAt_eq_some.2 ⟨_, hplace, rfl⟩), hplace⟩

/-- One more host that comes in before a sweep can be due is tracked with them. -/
theorem Arriving.length_limiter {later : Nat} (h : s.Arriving now hosts) (hhost : host ∉ hosts)
    (hcounted : host ∉ s.exempt) (hearly : millis later - s.lastSweep < millis s.refill) :
    ((s.after (arrivals now hosts)).limiter later host).2.tracked.length = hosts.length + 1 := by
  have hlast : host ∉ (s.filled now hosts).exempt := hcounted
  rw [h.after, limiter_of_counted hlast, track_of_new (find?_filled hhost),
    sweep_of_early (by exact hearly)]
  simp [filled]

theorem first_numbered : (numbered sweepThreshold)[0]? = some ['h', '0'] := by
  rw [numbered, List.getElem?_map, List.getElem?_range (by decide)]
  decide

/-- A new registry for a hundred requests a second and ten at once. -/
def hundred : SharedRegistry :=
  { quota := Quota.perSecond 100 10, refill := Quota.refill 100 10, exempt := [] }

/-- As many hosts as a sweep needs. -/
theorem hundred_arriving : hundred.Arriving 0 (numbered sweepThreshold) :=
  ⟨rfl, rfl, fun _ _ => List.not_mem_nil, nodup_numbered _, by decide⟩

end Intercept.SharedRegistry
