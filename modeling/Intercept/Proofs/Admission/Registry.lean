import Intercept.Admission.Gate
import Intercept.Proofs.Admission.Bucket
import Mathlib.Data.List.Nodup

/-!
# One host in the registry

A registry is asked, swept and purged for many hosts, in any order and at any time. What an act
does to the entry of one host is one of four things: it leaves the entry, asks its bucket, finds
none, or drops one that was not used for longer than a refill takes.

* `Registry.Act`: a client is checked, a host's limiter is asked, or the idle buckets are dropped.
  `perform` does it.
* `Registry.bucket`: the bucket from which a host's next request is answered.
* `Registry.Turn`: what an act does to a host's entry.
* `Registry.Kept`: each host is tracked once, and the entry of the host that matters stays within
  its burst since it was last used.

Results:
* `perform_turn`, `granted_perform`: every act takes one of the turns, and its answer is the
  bucket's.
* `perform_keeps`: what the operations of a registry keep, every act keeps.
* `Kept.perform`: an entry stays within its burst.
* `debt_of_stale`: an entry that is dropped owes less than a millisecond, or nothing.
-/

namespace Intercept

/-- The entry of a host stays within its burst since it was last used. -/
def TrackedHost.Current (q : Quota) (now : Nat) (t : TrackedHost) : Prop :=
  ∃ used, used ≤ now ∧ t.lastUsed = Registry.millis used ∧ t.bucket.Within q used

namespace Registry

/-- What is done to a registry. -/
inductive Act
  | check (peer : Socket)
  | ask (host : Text) (weight : Nat)
  | purge

/-- Does an act: whether what it asks for is let through, and the registry afterwards. -/
def perform (r : Registry) (now : Nat) : Act → Bool × Registry
  | .check peer =>
    let (answer, gate) := ({ registry := some r } : Gate).checkClient now peer
    (answer = .allow, gate.registry.getD r)
  | .ask host weight =>
    let (answer, r) := r.ask now host weight
    (answer ≠ some false, r)
  | .purge => (true, r.purge now)

/-- The weight that an act asks of a host's bucket. -/
def Act.weight (host : Text) : Act → Nat
  | .check peer => if clientHost peer = host then 1 else 0
  | .ask asked weight => if asked = host then weight else 0
  | .purge => 0

/-- The bucket from which a host's next request is answered. -/
def bucket (r : Registry) (host : Text) : Bucket := ((r.find? host).map (·.bucket)).getD {}

/-- A host's bucket once an act has asked it, and the answer; an act that asks for another host
asks it for nothing. -/
def asked (r : Registry) (now : Nat) (host : Text) (act : Act) : Bool × Bucket :=
  (r.bucket host).ask r.quota now (act.weight host)

/-- Each host is tracked once. -/
def Distinct (r : Registry) : Prop := (r.hosts.map (·.host)).Nodup

variable {r r' : Registry} {now later weight : Nat} {host other : Text} {act : Act}

/-! ## The host's entry after each operation -/

theorem find?_host {t : TrackedHost} (h : r.find? host = some t) : t.host = host := by
  simpa using List.find?_some h

/-- A filter keeps the element with a key or drops it; no second one with the key comes up. -/
theorem find?_filter {α β : Type} [DecidableEq β] {key : α → β} {k : β} {l : List α} (p : α → Bool)
    (h : (l.map key).Nodup) :
    (l.filter p).find? (key · = k) = (l.find? (key · = k)).filter p := by
  induction l with
  | nil => rfl
  | cons t l ih =>
    rw [List.map_cons, List.nodup_cons] at h
    have hrest := ih h.2
    by_cases ht : key t = k
    · have hnone : l.find? (key · = k) = none :=
        List.find?_eq_none.2 fun u hu hkey =>
          h.1 (List.mem_map.2 ⟨u, hu, (of_decide_eq_true hkey).trans ht.symm⟩)
      rw [hnone, Option.filter_none] at hrest
      cases hp : p t <;> simp [hp, ht, hrest, Option.filter_some]
    · cases hp : p t <;> simp [hp, ht, hrest]

theorem find?_purge (hr : r.Distinct) (now : Nat) (host : Text) :
    (r.purge now).find? host = (r.find? host).filter (r.isFresh now) :=
  find?_filter _ hr

theorem find?_sweep (hr : r.Distinct) : (r.sweep now).find? host =
    (r.find? host).filter fun t => !r.sweepDue now || r.isFresh now t := by
  unfold sweep
  cases r.sweepDue now with
  | false => cases hfind : r.find? host <;> simp [hfind, Option.filter_some]
  | true =>
    rw [if_pos rfl]
    simp only [Bool.not_true, Bool.false_or]
    exact find?_purge hr now host

theorem find?_track (r : Registry) (now : Nat) (host other : Text) :
    (r.track now other).find? host =
      if other = host then some ((r.find? host).getD ⟨host, {}, millis now⟩) else r.find? host := by
  unfold track
  cases hother : r.find? other with
  | some t =>
    split_ifs with heq
    · rw [← heq, hother, Option.getD_some]
    · rfl
  | none =>
    split_ifs with heq
    · rw [← heq, hother, Option.getD_none]
      exact List.find?_cons_of_pos (by simp)
    · exact List.find?_cons_of_neg (by simpa using heq)

theorem host_replace (t u : TrackedHost) : (if u.host = t.host then t else u).host = u.host := by
  split_ifs with hu
  · exact hu.symm
  · rfl

theorem find?_update (r : Registry) (t : TrackedHost) (host : Text) : (r.update t).find? host =
    if t.host = host then (r.find? host).map fun _ => t else r.find? host := by
  unfold update find?
  rw [List.find?_map]
  simp only [Function.comp_def, host_replace]
  cases hfind : r.hosts.find? (·.host = host) with
  | none => simp
  | some u =>
    have hu : u.host = host := by simpa using List.find?_some hfind
    rw [Option.map_some, hu]
    split_ifs with h1 h2 h3
    · rfl
    · exact absurd h1.symm h2
    · exact absurd h3.symm h1
    · rfl

/-- Writing back the bucket of a host that is not tracked changes nothing. -/
theorem update_of_untracked {t : TrackedHost} (h : r.find? t.host = none) : r.update t = r := by
  have hother (u : TrackedHost) (hu : u ∈ r.hosts) : (if u.host = t.host then t else u) = u :=
    if_neg fun hhost => List.find?_eq_none.1 h u hu (decide_eq_true hhost)
  have hsame : (r.hosts.map fun u => if u.host = t.host then t else u) = r.hosts :=
    (List.map_congr_left hother).trans (List.map_id' r.hosts)
  rw [update, hsame]

/-! ## Each host is tracked once -/

theorem Distinct.purge (hr : r.Distinct) : (r.purge now).Distinct :=
  hr.sublist (List.filter_sublist.map _)

theorem Distinct.sweep (hr : r.Distinct) : (r.sweep now).Distinct := by
  unfold Registry.sweep
  split_ifs
  · exact hr.purge
  · exact hr

theorem Distinct.track (hr : r.Distinct) : (r.track now host).Distinct := by
  unfold Registry.track
  split
  · exact hr
  · next hnone =>
    refine List.nodup_cons.2 ⟨fun hmem => ?_, hr⟩
    obtain ⟨t, ht, hhost⟩ := List.mem_map.1 hmem
    exact List.find?_eq_none.1 hnone t ht (decide_eq_true hhost)

theorem Distinct.update {t : TrackedHost} (hr : r.Distinct) : (r.update t).Distinct := by
  unfold Distinct Registry.update
  rw [List.map_map]
  simp only [Function.comp_def, host_replace]
  exact hr

/-! ## Acts -/

/-- The fields that no operation changes. -/
structure SameSettings (r r' : Registry) : Prop where
  quota : r'.quota = r.quota
  refill : r'.refill = r.refill
  exempt : r'.exempt = r.exempt

theorem sameSettings_track : SameSettings r (r.track now host) := by
  unfold track
  split <;> exact ⟨rfl, rfl, rfl⟩

theorem sameSettings_sweep : SameSettings r (r.sweep now) := by
  unfold sweep
  split <;> exact ⟨rfl, rfl, rfl⟩

theorem SameSettings.trans {r'' : Registry} (h : SameSettings r r') (h' : SameSettings r' r'') :
    SameSettings r r'' :=
  ⟨h'.quota.trans h.quota, h'.refill.trans h.refill, h'.exempt.trans h.exempt⟩

theorem SameSettings.counted (h : SameSettings r r') (hhost : host ∉ r.exempt) :
    host ∉ r'.exempt := by
  rw [h.exempt]
  exact hhost

theorem SameSettings.isFresh (h : SameSettings r r') (now : Nat) :
    r'.isFresh now = r.isFresh now := by
  funext t
  rw [Registry.isFresh, Registry.isFresh, h.refill]

theorem getD_bucket (r : Registry) (now : Nat) (host : Text) :
    ((r.find? host).getD ⟨host, {}, millis now⟩).bucket = r.bucket host := by
  unfold bucket
  cases r.find? host <;> rfl

/-- What it means to ask for a host that is not exempt. -/
theorem ask_eq (h : host ∉ r.exempt) : r.ask now host weight =
    (some ((r.bucket host).ask r.quota now weight).1,
      ((r.track now host).sweep now).update
        ⟨host, ((r.bucket host).ask r.quota now weight).2, millis now⟩) := by
  have hquota : ((r.track now host).sweep now).quota = r.quota :=
    (sameSettings_track.trans sameSettings_sweep).quota
  have hentry := find?_track r now host host
  rw [if_pos rfl] at hentry
  have hhost := find?_host hentry
  simp only [ask, limiter, if_neg h, hentry, hquota, hhost, getD_bucket]

/-- A client is checked by asking its host's bucket for one unit. -/
theorem perform_check (r : Registry) (now : Nat) (peer : Socket) :
    r.perform now (.check peer) = r.perform now (.ask (clientHost peer) 1) := by
  simp only [perform, Gate.checkClient, Option.getD_some]
  split_ifs with h <;> simp [h]

theorem isFresh_new (r : Registry) (now : Nat) (host : Text) :
    r.isFresh now ⟨host, {}, millis now⟩ = true := by
  simp [isFresh]

/-- An entry that does not survive an automatic sweep was there before, and stale. -/
theorem find?_sweep_track (hr : r.Distinct) (now : Nat) (host other : Text) :
    ((r.track now other).sweep now).find? host = (r.track now other).find? host ∨
      ((r.track now other).sweep now).find? host = none ∧
        ∃ t, r.find? host = some t ∧ r.isFresh now t = false := by
  rw [find?_sweep hr.track, sameSettings_track.isFresh now]
  cases hentry : (r.track now other).find? host with
  | none => exact .inl rfl
  | some t =>
    rw [Option.filter_some]
    split_ifs with hkeep
    · exact .inl rfl
    · rw [Bool.or_eq_true, not_or, Bool.not_eq_true', Bool.not_eq_false, Bool.not_eq_true] at hkeep
      obtain ⟨-, hstale⟩ := hkeep
      refine .inr ⟨rfl, t, ?_, hstale⟩
      rw [find?_track] at hentry
      cases hbefore : r.find? host with
      | some u =>
        rw [hbefore, Option.getD_some, ite_self] at hentry
        exact hentry
      | none =>
        rw [hbefore, Option.getD_none] at hentry
        split_ifs at hentry
        rw [← Option.some.inj hentry, isFresh_new] at hstale
        exact nomatch hstale

/-- What an act does to the entry of a host. -/
inductive Turn (r : Registry) (now : Nat) (host : Text) (act : Act) (r' : Registry) : Prop
  /-- It asks for nothing, and leaves the entry. -/
  | left (weight : act.weight host = 0) (after : r'.find? host = r.find? host)
  /-- It asks the bucket. -/
  | asked (after : r'.find? host = some ⟨host, (r.asked now host act).2, millis now⟩)
  /-- It drops the entry, which was stale. -/
  | dropped {t : TrackedHost} (before : r.find? host = some t) (stale : r.isFresh now t = false)
      (after : r'.find? host = none)

theorem turn_ask (hr : r.Distinct) (hhost : host ∉ r.exempt) (other : Text)
    (hact : act.weight host = if other = host then weight else 0) :
    Turn r now host act (r.ask now other weight).2 := by
  by_cases hother : other = host
  · subst hother
    rw [if_pos rfl] at hact
    have hswept := find?_sweep_track hr now other other
    rw [find?_track, if_pos rfl] at hswept
    rw [ask_eq hhost]
    obtain hkept | ⟨hnone, t, hbefore, hstale⟩ := hswept
    · refine .asked ?_
      rw [find?_update, if_pos rfl, hkept, Option.map_some, asked, hact]
    · refine .dropped hbefore hstale ?_
      rw [find?_update, if_pos rfl, hnone, Option.map_none]
  · rw [if_neg hother] at hact
    by_cases hexempt : other ∈ r.exempt
    · exact .left hact (by simp [ask, limiter, hexempt])
    · have hswept := find?_sweep_track hr now host other
      rw [find?_track, if_neg hother] at hswept
      rw [ask_eq hexempt]
      obtain hkept | ⟨hnone, t, hbefore, hstale⟩ := hswept
      · refine .left hact ?_
        rw [find?_update, if_neg hother, hkept]
      · refine .dropped hbefore hstale ?_
        rw [find?_update, if_neg hother, hnone]

/-- Every act takes one of the turns. -/
theorem perform_turn (hr : r.Distinct) (hhost : host ∉ r.exempt) (act : Act) :
    Turn r now host act (r.perform now act).2 := by
  cases act with
  | check peer =>
    have hone : (Act.check peer).weight host = if clientHost peer = host then 1 else 0 := rfl
    rw [perform_check]
    exact turn_ask hr hhost (clientHost peer) hone
  | ask other weight => exact turn_ask hr hhost other rfl
  | purge =>
    have hpurge := find?_purge hr now host
    cases hbefore : r.find? host with
    | none => exact .left rfl (by rw [perform, hpurge, hbefore, Option.filter_none])
    | some t =>
      rw [hbefore, Option.filter_some] at hpurge
      split_ifs at hpurge with hfresh
      · exact .left rfl (by rw [perform, hpurge, hbefore])
      · exact .dropped hbefore (by simpa using hfresh) hpurge

/-- What an act lets a host have is what the host's bucket answers. -/
theorem granted_perform (hhost : host ∉ r.exempt) (now : Nat) (act : Act) :
    Bucket.granted (r.perform now act).1 (act.weight host) =
      Bucket.granted (r.asked now host act).1 (act.weight host) := by
  have hask (other : Text) (weight : Nat) :
      Bucket.granted (r.perform now (.ask other weight)).1 ((Act.ask other weight).weight host) =
        Bucket.granted (r.asked now host (.ask other weight)).1
          ((Act.ask other weight).weight host) := by
    by_cases hother : other = host
    · subst hother
      simp [perform, ask_eq hhost, asked, Act.weight]
    · simp [Act.weight, hother, Bucket.granted]
  cases act with
  | check peer =>
    rw [perform_check]
    exact hask (clientHost peer) 1
  | ask other weight => exact hask other weight
  | purge => simp [Act.weight, Bucket.granted]

/-- What is kept by tracking, sweeping, writing back and purging is kept by every act. -/
theorem perform_keeps {P : Registry → Prop} (htrack : ∀ r host, P r → P (r.track now host))
    (hsweep : ∀ r, P r → P (r.sweep now)) (hupdate : ∀ r t, P r → P (r.update t))
    (hpurge : ∀ r, P r → P (r.purge now)) (hr : P r) (act : Act) : P (r.perform now act).2 := by
  have hask (other : Text) (weight : Nat) : P (r.ask now other weight).2 := by
    by_cases hexempt : other ∈ r.exempt
    · simpa only [ask, limiter, if_pos hexempt] using hr
    · rw [ask_eq hexempt]
      exact hupdate _ _ (hsweep _ (htrack _ _ hr))
  cases act with
  | check peer =>
    rw [perform_check]
    exact hask (clientHost peer) 1
  | ask other weight => exact hask other weight
  | purge => exact hpurge r hr

theorem sameSettings_perform (now : Nat) (act : Act) : SameSettings r (r.perform now act).2 :=
  perform_keeps (fun _ _ h => h.trans sameSettings_track) (fun _ h => h.trans sameSettings_sweep)
    (fun _ _ h => h.trans ⟨rfl, rfl, rfl⟩) (fun _ h => h.trans ⟨rfl, rfl, rfl⟩) ⟨rfl, rfl, rfl⟩ act

theorem Distinct.perform (hr : r.Distinct) (act : Act) : (r.perform now act).2.Distinct :=
  perform_keeps (fun _ _ h => h.track) (fun _ h => h.sweep) (fun _ _ h => h.update)
    (fun _ h => h.purge) hr act

/-! ## An entry stays within its burst -/

/-- Each host is tracked once, and the host's entry stays within its burst since its last use. -/
structure Kept (r : Registry) (host : Text) (now : Nat) : Prop where
  distinct : r.Distinct
  current : ∀ t, r.find? host = some t → t.Current r.quota now

theorem Kept.mono (hr : r.Kept host now) (h : now ≤ later) : r.Kept host later where
  distinct := hr.distinct
  current t ht :=
    have ⟨used, hused, hlast, hwithin⟩ := hr.current t ht
    ⟨used, Nat.le_trans hused h, hlast, hwithin⟩

theorem Kept.within (hr : r.Kept host now) : (r.bucket host).Within r.quota now := by
  unfold bucket
  cases hentry : r.find? host with
  | none => exact Bucket.within_new
  | some t =>
    obtain ⟨used, hused, -, hwithin⟩ := hr.current t hentry
    exact hwithin.mono hused

/-- An entry stays within its burst, whatever is done to the registry. -/
theorem Kept.perform (hr : r.Kept host now) (hhost : host ∉ r.exempt) (act : Act) :
    (r.perform now act).2.Kept host now where
  distinct := hr.distinct.perform act
  current t ht := by
    rw [(sameSettings_perform now act).quota]
    cases perform_turn hr.distinct hhost act with
    | left _ after => exact hr.current t (after.symm.trans ht)
    | asked after =>
      rw [after, Option.some.injEq] at ht
      exact ht ▸ ⟨now, Nat.le_refl now, rfl, hr.within.ask⟩
    | dropped _ _ after =>
      rw [after] at ht
      exact nomatch ht

/-- A stale entry owes less than a millisecond, which the clock's whole milliseconds hide; and
nothing at all when a refill takes whole milliseconds. -/
theorem debt_of_stale {t : TrackedHost} (hrefill : r.quota.tolerance ≤ r.refill)
    (ht : t.Current r.quota now) (hstale : r.isFresh now t = false) :
    t.bucket.debt now < nanosPerMilli ∧ (nanosPerMilli ∣ r.refill → t.bucket.debt now = 0) := by
  obtain ⟨used, hused, hlast, hwithin⟩ := ht
  have hspent : t.bucket.debt now ≤ used + r.quota.tolerance - now := by
    rw [Bucket.debt, Bucket.spent_later hused]
    unfold Bucket.Within at hwithin
    omega
  rw [isFresh, decide_eq_false_iff_not, hlast] at hstale
  unfold millis nanosPerMilli at *
  refine ⟨by omega, fun hwhole => ?_⟩
  obtain ⟨whole, hwhole⟩ := hwhole
  omega

end Registry

end Intercept
