import Intercept.Proofs.Admission.Return
import Mathlib.Data.List.Dedup
import Mathlib.Data.List.Perm.Subperm

/-!
# Every host has its own bucket

All hosts share one registry, which is filled as they show up. As long as nothing is swept, it is as
if each host had a bucket of its own that nobody else asks.

* `Bucket.Request`: a time and a weight. `Bucket.answers` is what a bucket answers to requests one
  behind the other.
* `Registry.requests`: what a run asks for a host. `Registry.answers`: what it is answered.
* `Registry.named`: the hosts for which a run makes a bucket.

Results:
* `perform_answer`, `perform_exempt`: an act is answered by the host's bucket; an exempt host is
  always let through.
* `answers_of_kept`: while a host's bucket is not dropped, the host is answered by it alone.
* `total_drops_of_few`: no bucket is dropped while few hosts are named and nothing is purged.
* `New.find?_exempt`, `New.answers_idle`: an exempt host never has a bucket; an event that was
  denied, or asked for nothing, has changed no later answer.
* `answers_alone`: so hosts are answered independently, and denied requests leave no trace.
-/

namespace Intercept

namespace Bucket

/-- A request: when it comes, and how much it asks for. -/
structure Request where
  time : Nat
  weight : Nat
deriving DecidableEq, Repr

/-- What a bucket answers to requests one behind the other. -/
def answers (q : Quota) (b : Bucket) : List Request → List Bool
  | [] => []
  | x :: requests =>
    (b.ask q x.time x.weight).1 :: (b.ask q x.time x.weight).2.answers q requests

end Bucket

namespace Registry

/-- The host that an act asks for. -/
def Act.host? : Act → Option Text
  | .check peer => some (clientHost peer)
  | .ask host _ => some host
  | .purge => none

/-- What an event asks for a host; `none` when it asks for another one or for nothing. -/
def Event.request? (host : Text) (e : Event) : Option Bucket.Request :=
  if e.act.host? = some host then some ⟨e.time, e.act.weight host⟩ else none

/-- What a run asks for a host. -/
def requests (host : Text) (events : List Event) : List Bucket.Request :=
  events.filterMap (Event.request? host)

/-- What a run answers to a host. -/
def answers (host : Text) (r : Registry) : List Event → List Bool
  | [] => []
  | e :: events =>
    let rest := (r.perform e.time e.act).2.answers host events
    if e.act.host? = some host then (r.perform e.time e.act).1 :: rest else rest

/-- The hosts for which a run makes a bucket, each once. -/
def named (exempt : List Text) (events : List Event) : List Text :=
  ((events.filterMap (·.act.host?)).filter (!exempt.contains ·)).dedup

variable {r : Registry} {now weight : Nat} {host other : Text} {act : Act} {e : Event}
  {events : List Event}

theorem after_append (r : Registry) (front back : List Event) :
    r.after (front ++ back) = (r.after front).after back := by
  induction front generalizing r with
  | nil => rfl
  | cons e front ih => exact ih _

theorem answers_append (r : Registry) (host : Text) (front back : List Event) :
    r.answers host (front ++ back) = r.answers host front ++ (r.after front).answers host back := by
  induction front generalizing r with
  | nil => rfl
  | cons e front ih =>
    simp only [List.cons_append, answers, after, ih]
    split_ifs <;> rfl

/-! ## One event -/

/-- An act that asks for a host asks its limiter. -/
theorem perform_eq_ask (h : act.host? = some host) (r : Registry) (now : Nat) :
    r.perform now act = r.perform now (.ask host (act.weight host)) := by
  cases act with
  | check peer =>
    cases h
    rw [perform_check, Act.weight, if_pos rfl]
  | ask asked weight =>
    cases h
    rw [Act.weight, if_pos rfl]
  | purge => cases h

theorem weight_of_other (h : act.host? ≠ some host) : act.weight host = 0 := by
  cases act with
  | check peer => exact if_neg fun heq => h (congrArg some heq)
  | ask asked weight => exact if_neg fun heq => h (congrArg some heq)
  | purge => rfl

/-- An act is answered by the bucket of the host that it asks for. -/
theorem perform_answer (hhost : host ∉ r.exempt) (h : act.host? = some host) :
    (r.perform now act).1 = (r.asked now host act).1 := by
  rw [perform_eq_ask h]
  simp [perform, ask_eq hhost, asked]

/-- An exempt host is let through, and nothing changes. -/
theorem perform_exempt (hhost : host ∈ r.exempt) (h : act.host? = some host) :
    r.perform now act = (true, r) := by
  rw [perform_eq_ask h]
  simp [perform, ask, limiter, hhost]

/-- An event that does not drop a host's bucket asks it what it has to ask for the host. -/
theorem bucket_of_kept (hr : r.Distinct) (hhost : host ∉ r.exempt) (hkept : drops host r e = 0) :
    (r.perform e.time e.act).2.bucket host = (r.asked e.time host e.act).2 := by
  obtain ⟨-, hbucket⟩ | ⟨hdropped, -⟩ := bucket_perform e hr hhost
  · exact hbucket
  · rw [hkept] at hdropped
    exact absurd hdropped Nat.zero_ne_one

/-- An event that is denied, or asks for nothing, leaves every bucket as it was. -/
theorem bucket_of_idle (hr : r.Distinct) (hhost : host ∉ r.exempt) (hkept : drops host r e = 0)
    (hidle : (r.perform e.time e.act).1 = false ∨
      ∃ other, e.act.host? = some other ∧ e.act.weight other = 0) :
    (r.perform e.time e.act).2.bucket host = r.bucket host := by
  rw [bucket_of_kept hr hhost hkept, asked]
  by_cases hask : e.act.host? = some host
  · rcases hidle with hdenied | ⟨other, hother, hzero⟩
    · rw [perform_answer hhost hask] at hdenied
      exact Bucket.ask_denied hdenied
    · obtain rfl : other = host := Option.some.inj (hother.symm.trans hask)
      rw [hzero, Bucket.ask_zero]
  · rw [weight_of_other hask, Bucket.ask_zero]

/-! ## Runs that drop nothing -/

/-- A host's bucket answers an event, and then it depends on the rest whether it answers all. -/
theorem answers_cons_iff (hhost : host ∉ r.exempt) :
    r.answers host (e :: events) =
        (r.bucket host).answers r.quota (requests host (e :: events)) ↔
      (r.perform e.time e.act).2.answers host events =
        (r.asked e.time host e.act).2.answers r.quota (requests host events) := by
  rw [answers, requests, List.filterMap_cons, Event.request?]
  by_cases hask : e.act.host? = some host
  · rw [if_pos hask, if_pos hask, perform_answer hhost hask]
    exact List.cons_inj_right _
  · rw [if_neg hask, if_neg hask, asked, weight_of_other hask, Bucket.ask_zero]
    rfl

/-- **While a host's bucket is not dropped, the host is answered by it alone**, as if it were asked
for nobody else. -/
theorem answers_of_kept (hr : r.Distinct) (hhost : host ∉ r.exempt)
    (hkept : r.total (drops host) events = 0) :
    r.answers host events = (r.bucket host).answers r.quota (requests host events) := by
  induction events generalizing r with
  | nil => rfl
  | cons e events ih =>
    rw [total, Nat.add_eq_zero_iff] at hkept
    have hsettings : SameSettings r (r.perform e.time e.act).2 := sameSettings_perform e.time e.act
    have hrest := ih (hr.perform e.act) (hsettings.counted hhost) hkept.2
    rw [hsettings.quota, bucket_of_kept hr hhost hkept.1] at hrest
    exact (answers_cons_iff hhost).2 hrest

/-- An exempt host is let through every time. -/
theorem answers_exempt (hhost : host ∈ r.exempt) :
    r.answers host events = (requests host events).map fun _ => true := by
  induction events generalizing r with
  | nil => rfl
  | cons e events ih =>
    have hexempt : host ∈ (r.perform e.time e.act).2.exempt := by
      rwa [(sameSettings_perform e.time e.act).exempt]
    rw [answers, requests, List.filterMap_cons, Event.request?]
    by_cases hask : e.act.host? = some host
    · rw [if_pos hask, if_pos hask, ih hexempt, perform_exempt hhost hask]
      rfl
    · rw [if_neg hask, if_neg hask]
      exact ih hexempt

/-! ## Few hosts -/

/-- All hosts that are tracked are in a list. -/
def TracksOnly (r : Registry) (hosts : List Text) : Prop := ∀ t ∈ r.hosts, t.host ∈ hosts

theorem TracksOnly.track {hosts : List Text} (hr : r.TracksOnly hosts) (hother : other ∈ hosts) :
    (r.track now other).TracksOnly hosts := by
  unfold Registry.track
  split
  · exact hr
  · exact List.forall_mem_cons.2 ⟨hother, hr⟩

theorem TracksOnly.sweep {hosts : List Text} (hr : r.TracksOnly hosts) :
    (r.sweep now).TracksOnly hosts := by
  unfold Registry.sweep
  split_ifs
  · exact fun t ht => hr t (List.mem_of_mem_filter ht)
  · exact hr

theorem TracksOnly.update {hosts : List Text} {t : TrackedHost} (hr : r.TracksOnly hosts) :
    (r.update t).TracksOnly hosts := by
  intro u hu
  obtain ⟨v, hv, rfl⟩ := List.mem_map.1 hu
  rw [host_replace]
  exact hr v hv

/-- Only a host that is asked for and not exempt comes to be tracked. -/
theorem TracksOnly.perform {hosts : List Text} (hr : r.TracksOnly hosts)
    (hact : ∀ other, act.host? = some other → other ∉ r.exempt → other ∈ hosts) :
    (r.perform now act).2.TracksOnly hosts := by
  cases hhost : act.host? with
  | none =>
    cases act with
    | purge => exact fun t ht => hr t (List.mem_of_mem_filter ht)
    | check peer => cases hhost
    | ask other weight => cases hhost
  | some other =>
    by_cases hexempt : other ∈ r.exempt
    · rwa [perform_exempt hexempt hhost]
    · rw [perform_eq_ask hhost]
      simp only [Registry.perform, ask_eq hexempt]
      exact (hr.track (hact other hhost hexempt)).sweep.update

theorem TracksOnly.length_le {hosts : List Text} (hr : r.TracksOnly hosts)
    (hdistinct : r.Distinct) : r.hosts.length ≤ hosts.length := by
  rw [← List.length_map (f := (·.host))]
  refine (List.Nodup.subperm hdistinct fun host hmem => ?_).length_le
  obtain ⟨t, ht, rfl⟩ := List.mem_map.1 hmem
  exact hr t ht

/-- While few hosts are tracked, there is no sweep. -/
theorem sweep_of_few (h : r.hosts.length < sweepThreshold) : r.sweep now = r := by
  unfold sweep sweepDue
  rw [decide_eq_false (Nat.not_le.2 h)]
  rfl

/-- An act that purges nothing and tracks few hosts drops no bucket. -/
theorem drops_of_few {hosts : List Text} (hr : r.TracksOnly hosts) (hdistinct : r.Distinct)
    (hact : ∀ other, e.act.host? = some other → other ∉ r.exempt → other ∈ hosts)
    (hpurge : e.act ≠ .purge) (hfew : hosts.length < sweepThreshold) : drops host r e = 0 := by
  refine if_neg fun ⟨hbefore, hafter⟩ => ?_
  cases hhost : e.act.host? with
  | none =>
    cases hcase : e.act with
    | purge => exact hpurge hcase
    | check peer => simp [hcase, Act.host?] at hhost
    | ask other weight => simp [hcase, Act.host?] at hhost
  | some other =>
    by_cases hexempt : other ∈ r.exempt
    · rw [perform_exempt hexempt hhost] at hafter
      simp_all
    · have htracked : (r.track e.time other).TracksOnly hosts := hr.track (hact other hhost hexempt)
      have hstill : (r.track e.time other).sweep e.time = r.track e.time other := sweep_of_few
        (Nat.lt_of_le_of_lt (htracked.length_le hdistinct.track) hfew)
      rw [perform_eq_ask hhost] at hafter
      simp only [perform, ask_eq hexempt, hstill, find?_update, find?_track] at hafter
      split_ifs at hafter <;> simp_all

theorem mem_named {exempt : List Text} :
    host ∈ named exempt events ↔ (∃ e ∈ events, e.act.host? = some host) ∧ host ∉ exempt := by
  simp [named]

theorem named_subset {exempt : List Text} {part : List Event} (h : part ⊆ events) :
    named exempt part ⊆ named exempt events := by
  intro host hmem
  obtain ⟨⟨e, he, hask⟩, hhost⟩ := mem_named.1 hmem
  exact mem_named.2 ⟨⟨e, h he, hask⟩, hhost⟩

theorem TracksOnly.after {hosts : List Text} (hr : r.TracksOnly hosts)
    (hnamed : named r.exempt events ⊆ hosts) : (r.after events).TracksOnly hosts := by
  induction events generalizing r with
  | nil => exact hr
  | cons e events ih =>
    refine ih (hr.perform fun other h hother => hnamed ?_) ?_
    · exact mem_named.2 ⟨⟨e, List.mem_cons_self, h⟩, hother⟩
    · rw [(sameSettings_perform (r := r) e.time e.act).exempt]
      exact List.Subset.trans (named_subset (List.subset_cons_self e events)) hnamed

/-- A run that names few hosts and purges nothing drops no bucket. -/
theorem total_drops_of_few {hosts : List Text} (hr : r.TracksOnly hosts) (hdistinct : r.Distinct)
    (hnamed : named r.exempt events ⊆ hosts) (hpurge : ∀ e ∈ events, e.act ≠ .purge)
    (hfew : hosts.length < sweepThreshold) : r.total (drops host) events = 0 := by
  induction events generalizing r with
  | nil => rfl
  | cons e events ih =>
    have hact (other : Text) (h : e.act.host? = some other) (hother : other ∉ r.exempt) :
        other ∈ hosts := hnamed (mem_named.2 ⟨⟨e, List.mem_cons_self, h⟩, hother⟩)
    have hrest : named (r.perform e.time e.act).2.exempt events ⊆ hosts := by
      rw [(sameSettings_perform (r := r) e.time e.act).exempt]
      exact List.Subset.trans (named_subset (List.subset_cons_self e events)) hnamed
    rw [total, drops_of_few hr hdistinct hact (hpurge e List.mem_cons_self) hfew,
      ih (hr.perform hact) (hdistinct.perform e.act) hrest
        fun f hf => hpurge f (List.mem_cons_of_mem e hf)]

/-! ## Hosts do not share or lose tokens -/

theorem New.bucket {rate : Nat} {exempt : List Text} (hr : r.New rate exempt) (host : Text) :
    r.bucket host = {} := by
  rw [Registry.bucket, find?, hr.hosts]
  rfl

/-- What a run from a new registry leaves behind: each host once, and none but those it names. -/
theorem New.after {rate : Nat} {exempt : List Text} (hr : r.New rate exempt) {front : List Event}
    (hfront : front ⊆ events) :
    (r.after front).TracksOnly (named exempt events) ∧ (r.after front).Distinct ∧
      SameSettings r (r.after front) := by
  refine ⟨TracksOnly.after (fun t ht => ?_) ?_, hr.distinct.after front, sameSettings_after front⟩
  · rw [hr.hosts] at ht
    exact nomatch ht
  · rw [hr.exempt]
    exact named_subset hfront

/-- An exempt host never has a bucket. -/
theorem New.find?_exempt {rate : Nat} {exempt : List Text} (hr : r.New rate exempt)
    (hhost : host ∈ exempt) (events : List Event) : (r.after events).find? host = none := by
  refine List.find?_eq_none.2 fun t ht heq => ?_
  have hmem := (hr.after (List.Subset.refl events)).1 t ht
  rw [of_decide_eq_true heq] at hmem
  exact (mem_named.1 hmem).2 hhost

/-- A part of a run that names few hosts and purges nothing drops no bucket. -/
theorem New.total_drops {rate : Nat} {exempt : List Text} (hr : r.New rate exempt)
    {front back : List Event} (hfront : front ⊆ events) (hback : back ⊆ events)
    (hpurge : ∀ e ∈ events, e.act ≠ .purge)
    (hfew : (named exempt events).length < sweepThreshold) (host : Text) :
    (r.after front).total (drops host) back = 0 := by
  obtain ⟨htracks, hdistinct, hsettings⟩ := hr.after hfront
  refine total_drops_of_few htracks hdistinct ?_ (fun e he => hpurge e (hback he)) hfew
  rw [hsettings.exempt, hr.exempt]
  exact named_subset hback

/-- An event that was denied, or asked for nothing, has changed no later answer. -/
theorem New.answers_idle {rate : Nat} {exempt : List Text} (hr : r.New rate exempt)
    {before after : List Event} (hevents : events = before ++ e :: after)
    (hpurge : ∀ e ∈ events, e.act ≠ .purge)
    (hfew : (named exempt events).length < sweepThreshold)
    (hidle : ((r.after before).perform e.time e.act).1 = false ∨
      ∃ other, e.act.host? = some other ∧ e.act.weight other = 0) (host : Text) :
    (r.after (before ++ [e])).answers host after = (r.after before).answers host after := by
  have hbefore : before ⊆ events := by simp [hevents]
  have hbehind : e :: after ⊆ events := by simp [hevents]
  have hafter : after ⊆ events := List.Subset.trans (List.subset_cons_self e after) hbehind
  have hthrough : before ++ [e] ⊆ events := by simp [hevents]
  obtain ⟨-, hdistinct, hsettings⟩ := hr.after hbefore
  obtain ⟨-, hdistinct', hsettings'⟩ := hr.after hthrough
  by_cases hhost : host ∈ exempt
  · rw [← hr.exempt] at hhost
    have hexempt := hhost
    rw [← hsettings.exempt] at hhost
    rw [← hsettings'.exempt] at hexempt
    rw [answers_exempt hhost, answers_exempt hexempt]
  · rw [← hr.exempt] at hhost
    have hkept := hr.total_drops hbefore hbehind hpurge hfew host
    rw [total, Nat.add_eq_zero_iff] at hkept
    have hbucket := bucket_of_idle hdistinct (hsettings.counted hhost) hkept.1 hidle
    rw [answers_of_kept hdistinct (hsettings.counted hhost)
        (hr.total_drops hbefore hafter hpurge hfew host),
      answers_of_kept hdistinct' (hsettings'.counted hhost)
        (hr.total_drops hthrough hafter hpurge hfew host),
      hsettings.quota, hsettings'.quota, after_append, ← hbucket]
    rfl

end Registry

open Registry

/-- **Hosts are answered independently.** In a run that names few hosts and purges nothing, a host
is answered as a single bucket would answer it that is asked for nobody else. A denied request and
one without weight can be left out, and every other answer stays. An exempt host is always let
through, and never has a bucket. -/
theorem answers_alone {rate : Nat} {burst : Option Nat} {exempt : List Text} {r : Registry}
    (hmade : Registry.ofRate rate burst exempt = some r) {events : List Registry.Event}
    (hpurge : ∀ e ∈ events, e.act ≠ .purge)
    (hfew : (named exempt events).length < sweepThreshold) :
    (∀ host ∉ exempt,
      r.answers host events = ({} : Bucket).answers r.quota (requests host events)) ∧
    (∀ before e after, events = before ++ e :: after →
      ((r.after before).perform e.time e.act).1 = false ∨
          (∃ host, e.act.host? = some host ∧ e.act.weight host = 0) →
        ∀ host, r.answers host (before ++ after) =
          r.answers host before ++ (r.after (before ++ [e])).answers host after) ∧
    ∀ host ∈ exempt, ∀ before, before <+: events → ∀ now,
      (r.after before).find? host = none ∧ ((r.after before).limiter now host).1 = none ∧
        ∀ peer, clientHost peer = host →
          (({ registry := some (r.after before) } : Gate).checkClient now peer).1 = .allow := by
  have hnew := ofRate_new hmade
  refine ⟨fun host hhost => ?_, fun before e after hevents hidle host => ?_,
    fun host hhost before _ now => ⟨hnew.find?_exempt hhost before, ?_⟩⟩
  · have hnone :=
      hnew.total_drops (List.nil_subset events) (List.Subset.refl events) hpurge hfew host
    rw [answers_of_kept hnew.distinct (hnew.exempt ▸ hhost) hnone, hnew.bucket]
  · rw [answers_append, hnew.answers_idle hevents hpurge hfew hidle]
  · have hexempt : host ∈ (r.after before).exempt := by
      rwa [(sameSettings_after before).exempt, hnew.exempt]
    refine ⟨by simp [limiter, hexempt], fun peer hpeer => ?_⟩
    simp [Gate.checkClient, hpeer, ask, limiter, hexempt]

/-- Two clients and a third one that is exempt, one request a second: the first client is denied
once, in between the others' requests. Without that request it is answered the same, and so are
they. -/
theorem answers_alone_denied :
    let first : Socket := ⟨.v4 ⟨10, 0, 0, 1⟩, 4000, 0⟩
    let exempt : Socket := ⟨.v4 ⟨127, 0, 0, 1⟩, 4000, 0⟩
    let r : Registry :=
      { quota := ⟨nanosPerSecond, 1⟩, refill := nanosPerSecond, exempt := [clientHost exempt] }
    let before : List Registry.Event := [⟨0, .check first⟩, ⟨1, .ask ['b'] 1⟩]
    let denied : Registry.Event := ⟨2, .check first⟩
    let after : List Registry.Event :=
      [⟨2, .check exempt⟩, ⟨2, .ask ['b'] 0⟩, ⟨2 * nanosPerSecond, .check first⟩]
    let events := before ++ denied :: after
    Registry.ofRate 1 none [clientHost exempt] = some r ∧
      r.answers (clientHost first) events = [true, false, true] ∧
      ({} : Bucket).answers r.quota (requests (clientHost first) events) = [true, false, true] ∧
      r.answers (clientHost first) (before ++ after) = [true, true] ∧
      (r.after before).find? (clientHost exempt) = none := by
  intro first exempt r before denied after events
  have hmade : Registry.ofRate 1 none [clientHost exempt] = some r := rfl
  have hpurge : ∀ e ∈ events, e.act ≠ .purge := by simp [events, before, denied, after]
  have hfew : (named [clientHost exempt] events).length < sweepThreshold := by decide +kernel
  obtain ⟨halone, hidle, hexempt⟩ := answers_alone hmade hpurge hfew
  have hfirst := halone (clientHost first) (by decide +kernel)
  have hanswers : r.answers (clientHost first) events = [true, false, true] := by decide +kernel
  have hleft := hidle before denied after rfl (.inl (by decide +kernel)) (clientHost first)
  have hnone := hexempt (clientHost exempt) (by simp) before (List.prefix_append _ _) 0
  refine ⟨hmade, hanswers, hfirst ▸ hanswers, hleft.trans (by decide +kernel), hnone.1⟩

end Intercept
