import Intercept.Proofs.Admission.Answers
import Mathlib.Algebra.Order.BigOperators.Group.List

/-!
# What sweeping changes

A sweep drops the buckets that were idle for longer than a refill takes, and the next request of
such a host finds a new bucket. Nobody can tell as long as the new bucket answers like the old one.
It does when the old one owes nothing. It does not when the old one was asked by the very request
that dropped it, or when whole milliseconds hide that it had not quite refilled.

* `Bucket.Alike`: two buckets that answer all later requests alike.
* `Registry.Dropped`: the buckets of a host that a run drops, each with the time of its drop.
* `Registry.Telltale`: what follows can tell a run from one that never drops the host's bucket.

Results:
* `alike_new_iff`: a bucket is like a new one exactly when it owes nothing.
* `Run.answers_of_dropped`: a run that drops only such buckets answers a host as its own bucket
  does.
* `Run.telltale`: a run that drops another one gives itself away.
* `answers_of_swept`: when sweeping cannot be told, drop by drop and over a whole run.
* `answers_sweep_differ`: a sweep that can be told.
-/

namespace Intercept

namespace Bucket

variable {q : Quota} {now later weight : Nat} {b b' b'' : Bucket} {requests : List Request}

/-- Requests in the order of their times, none before `now`. -/
structure From (now : Nat) (requests : List Request) : Prop where
  ordered : requests.Pairwise (·.time ≤ ·.time)
  later : ∀ x ∈ requests, now ≤ x.time

/-- Two buckets that answer all requests from `now` on alike. -/
def Alike (q : Quota) (now : Nat) (b b' : Bucket) : Prop :=
  ∀ requests, From now requests → b.answers q requests = b'.answers q requests

theorem From.tail {x : Request} (h : From now (x :: requests)) : From x.time requests :=
  have hordered := List.pairwise_cons.1 h.ordered
  ⟨hordered.2, hordered.1⟩

theorem From.head_le {x : Request} (h : From now (x :: requests)) : now ≤ x.time :=
  h.later x List.mem_cons_self

/-! ## Which buckets are like new ones -/

/-- Two buckets that are spent up to the same time answer all later requests alike. -/
theorem answers_congr (h : b.spent now = b'.spent now) (hfrom : From now requests) :
    b.answers q requests = b'.answers q requests := by
  induction requests generalizing b b' now with
  | nil => rfl
  | cons x requests ih =>
    obtain ⟨hanswer, hspent⟩ := ask_congr q x.weight (spent_congr h hfrom.head_le)
    rw [answers, answers, hanswer, ih hspent hfrom.tail]

/-- **A bucket is like a new one exactly when it owes nothing.** Otherwise it denies a burst, which
a new one lets through. -/
theorem alike_new_iff (hburst : q.burst ≠ 0) : b.Alike q now {} ↔ b.debt now = 0 := by
  constructor
  · intro h
    have hsame := h [⟨now, q.burst⟩] ⟨List.pairwise_singleton _ _, by simp⟩
    have hanswer : (b.ask q now q.burst).1 = (ask q now q.burst {}).1 :=
      List.head_eq_of_cons_eq hsame
    rw [(ask_burst hburst).2 debt_new] at hanswer
    exact (ask_burst hburst).1 hanswer
  · intro hdebt requests hfrom
    refine answers_congr ?_ hfrom
    rw [spent_eq, hdebt, spent_new, Nat.add_zero]

end Bucket

namespace Registry

/-- A run drops a bucket of the host at a time. The bucket is meant as it is once it has answered
the event that drops it. -/
inductive Dropped (host : Text) : Registry → List Event → Nat → Bucket → Prop
  | now {r : Registry} {e : Event} {events : List Event} (drop : drops host r e = 1) :
      Dropped host r (e :: events) e.time (r.asked e.time host e.act).2
  | later {r : Registry} {e : Event} {events : List Event} {time : Nat} {b : Bucket}
      (rest : Dropped host (r.perform e.time e.act).2 events time b) :
      Dropped host r (e :: events) time b

variable {r : Registry} {now finish : Nat} {host : Text} {e : Event} {events : List Event}
  {b : Bucket}

/-- What a run asks for a host comes in the order of its events. -/
theorem from_requests (hordered : events.Pairwise (·.time ≤ ·.time))
    (hlater : ∀ x ∈ events, now ≤ x.time) : Bucket.From now (requests host events) := by
  have htime {x : Event} {request : Bucket.Request} (h : x.request? host = some request) :
      request.time = x.time := by
    rw [Event.request?] at h
    split_ifs at h
    rw [← Option.some.inj h]
  constructor
  · refine List.pairwise_filterMap.2 (hordered.imp fun hle request h request' h' => ?_)
    rw [htime h, htime h']
    exact hle
  · intro request hmem
    obtain ⟨x, hx, h⟩ := List.mem_filterMap.1 hmem
    rw [htime h]
    exact hlater x hx

theorem Run.ordered (h : Run host finish now r events) :
    events.Pairwise (·.time ≤ ·.time) ∧ ∀ x ∈ events, now ≤ x.time := by
  induction h with
  | ended => exact ⟨List.Pairwise.nil, nofun⟩
  | event time _ _ _ ih =>
    exact ⟨List.pairwise_cons.2 ⟨ih.2, ih.1⟩,
      List.forall_mem_cons.2 ⟨time, fun x hx => Nat.le_trans time (ih.2 x hx)⟩⟩

/-- **A run that drops only buckets like new ones answers a host as its own bucket does**, whatever
is purged or swept in between. -/
theorem Run.answers_of_dropped (h : Run host finish now r events)
    (hdropped : ∀ time dropped, Dropped host r events time dropped →
      dropped.Alike r.quota time {}) :
    r.answers host events = (r.bucket host).answers r.quota (requests host events) := by
  induction h with
  | ended => rfl
  | @event now r e events time kept counted rest ih =>
    have hquota := (sameSettings_perform (r := r) e.time e.act).quota
    have hrest := ih fun time dropped hd => by
      rw [hquota]
      exact hdropped time dropped (.later hd)
    rw [hquota] at hrest
    rw [answers_cons_iff counted, hrest]
    obtain ⟨-, hbucket⟩ | ⟨hdrop, hbucket, -⟩ := bucket_perform e kept.distinct counted
    · rw [hbucket]
    · rw [hbucket]
      exact (hdropped _ _ (.now hdrop) _ (from_requests rest.ordered.1 rest.ordered.2)).symm

/-! ## What gives a sweep away -/

/-- A host that is not exempt is answered by its bucket. -/
theorem answers_one (hhost : host ∉ r.exempt) (now weight : Nat) :
    r.answers host [⟨now, .ask host weight⟩] =
      [((r.bucket host).ask r.quota now weight).1] := by
  simp [answers, Act.host?, perform_ask hhost]

/-- A stale host that comes back is answered by its old bucket and then by a new one. -/
theorem answers_on_return (hr : r.Distinct) (hhost : host ∉ r.exempt)
    (hstale : r.staleReturn now host = true) (weight weight' : Nat) :
    r.answers host [⟨now, .ask host weight⟩, ⟨now, .ask host weight'⟩] =
      [((r.bucket host).ask r.quota now weight).1, (Bucket.ask r.quota now weight' {}).1] := by
  have hsettings : SameSettings r (r.perform now (.ask host weight)).2 :=
    sameSettings_perform now (.ask host weight)
  obtain ⟨hold, hnew⟩ := perform_on_return hr hhost hstale weight
  have hsecond := answers_one (hsettings.counted hhost) now weight'
  rw [hnew, hsettings.quota] at hsecond
  simp only [answers, Act.host?, if_true, hold] at hsecond ⊢
  rw [hsecond]

/-- A crowd asks for nobody else. -/
theorem requests_crowd {hosts : List Text} (h : host ∉ hosts) (now : Nat) :
    requests host (crowd now hosts) = [] := by
  refine List.filterMap_eq_nil_iff.2 fun x hx => ?_
  obtain ⟨other, hother, rfl⟩ := List.mem_map.1 hx
  have hne : other ≠ host := fun hsame => h (hsame ▸ hother)
  exact if_neg fun hsame => hne (Option.some.inj hsame)

/-- Some events that may follow a part of a run tell the registry from the host's own bucket: the
host's answers are not those that the bucket gives. -/
def Telltale (host : Text) (now : Nat) (r : Registry) (events : List Event) : Prop :=
  ∃ front more, front <+: events ∧ (front ++ more).Pairwise (·.time ≤ ·.time) ∧
    (∀ x ∈ front ++ more, now ≤ x.time) ∧
    r.answers host (front ++ more) ≠
      (r.bucket host).answers r.quota (requests host (front ++ more))

/-- A host whose bucket is dropped in debt has a burst at once, which this bucket would have
denied. -/
theorem telltale_of_drops (hhost : host ∉ r.exempt) (hnow : now ≤ e.time)
    (hburst : r.quota.burst ≠ 0) (hdrop : drops host r e = 1)
    (hdebt : (r.asked e.time host e.act).2.debt e.time ≠ 0) :
    Telltale host now r (e :: events) := by
  have hsettings : SameSettings r (r.perform e.time e.act).2 := sameSettings_perform e.time e.act
  let back : List Event := [⟨e.time, .ask host r.quota.burst⟩]
  have hasks : requests host back = [⟨e.time, r.quota.burst⟩] := by
    simp [back, requests, Event.request?, Act.host?, Act.weight]
  have hempty : (r.perform e.time e.act).2.bucket host = {} := by
    rw [bucket, find?_of_drops hdrop]
    rfl
  have hback : (r.perform e.time e.act).2.answers host back ≠
      (r.asked e.time host e.act).2.answers r.quota (requests host back) := by
    rw [answers_one (hsettings.counted hhost), hempty, hsettings.quota, hasks,
      (Bucket.ask_burst hburst).2 Bucket.debt_new]
    intro hsame
    exact hdebt ((Bucket.ask_burst hburst).1 (List.head_eq_of_cons_eq hsame).symm)
  exact ⟨[e], back, by simp, by simp [back], by simp [back, hnow],
    mt (answers_cons_iff hhost).1 hback⟩

/-- What tells the rest of a run from the bucket that its first event leaves behind tells the whole
run from the bucket it starts with, also when this bucket was replaced by one that is alike. -/
theorem Telltale.cons (hhost : host ∉ r.exempt) (hnow : now ≤ e.time)
    (halike : (r.asked e.time host e.act).2.Alike r.quota e.time
      ((r.perform e.time e.act).2.bucket host))
    (h : Telltale host e.time (r.perform e.time e.act).2 events) :
    Telltale host now r (e :: events) := by
  obtain ⟨front, more, hfront, hordered, hlater, hne⟩ := h
  rw [(sameSettings_perform (r := r) e.time e.act).quota,
    ← halike _ (from_requests hordered hlater)] at hne
  exact ⟨e :: front, more, (List.prefix_cons_inj e).2 hfront,
    List.pairwise_cons.2 ⟨hlater, hordered⟩,
    List.forall_mem_cons.2 ⟨hnow, fun x hx => Nat.le_trans hnow (hlater x hx)⟩,
    mt (answers_cons_iff hhost).1 hne⟩

/-- **A sweep that drops a bucket in debt gives itself away.** -/
theorem Run.telltale (h : Run host finish now r events) (hburst : r.quota.burst ≠ 0) {time : Nat}
    (hdropped : Dropped host r events time b) (hdebt : b.debt time ≠ 0) :
    Telltale host now r events := by
  induction hdropped generalizing now with
  | now drop =>
    cases h with
    | event time kept counted _ =>
      exact telltale_of_drops counted time hburst drop hdebt
  | @later r e events _ b _ ih =>
    cases h with
    | event time kept counted rest =>
      have hquota := (sameSettings_perform (r := r) e.time e.act).quota
      have hrest := ih rest (hquota ▸ hburst) hdebt
      obtain ⟨-, hkept⟩ | ⟨drop, hnew, -⟩ := bucket_perform e kept.distinct counted
      · exact hrest.cons counted time (hkept ▸ fun _ _ => rfl)
      · -- A bucket that was dropped without debt is like the new one that takes its place.
        by_cases hfirst : (r.asked e.time host e.act).2.debt e.time = 0
        · exact hrest.cons counted time (hnew ▸ (Bucket.alike_new_iff hburst).2 hfirst)
        · exact telltale_of_drops counted time hburst drop hfirst

/-- A run that forgets nothing drops only buckets that owe nothing. -/
theorem debt_of_dropped {time : Nat} (hdropped : Dropped host r events time b)
    (hforgets : r.total (forgets host) events = 0) : b.debt time = 0 := by
  induction hdropped with
  | now drop =>
    rw [total, Nat.add_eq_zero_iff, forgets, drop, Nat.one_mul] at hforgets
    exact hforgets.1
  | later _ ih =>
    rw [total, Nat.add_eq_zero_iff] at hforgets
    exact ih hforgets.2

/-- Ordered events are a run of a new registry. -/
theorem New.run {rate : Nat} {exempt : List Text} (hr : r.New rate exempt) (hhost : host ∉ exempt)
    (hordered : events.Pairwise (·.time ≤ ·.time)) : ∃ finish, Run host finish 0 r events := by
  have hbounded : ∃ finish, ∀ e ∈ events, e.time ≤ finish :=
    ⟨(events.map (·.time)).sum, fun e he => List.le_sum_of_mem (List.mem_map_of_mem he)⟩
  obtain ⟨finish, hfinish⟩ := hbounded
  rw [← hr.exempt] at hhost
  exact ⟨finish, (hr.kept host).run hhost hordered (fun e he => ⟨Nat.zero_le _, hfinish e he⟩)
    (Nat.zero_le _)⟩

end Registry

open Registry

/-- **When sweeping cannot be told.** A dropped bucket answers all later requests like a new one
exactly when it owes nothing. If this holds of all buckets of a host that a run drops, purged or
swept, then the host is answered as a single bucket that is never dropped. If it does not hold of
one of them, then some part of the run can be followed by requests that tell the two apart. Where a
refill takes whole milliseconds, only a bucket that is dropped as its host comes back can owe
something. Exempt hosts are let through in any case. -/
theorem answers_of_swept {rate : Nat} {burst : Option Nat} {exempt : List Text} {r : Registry}
    (hmade : Registry.ofRate rate burst exempt = some r) {events : List Registry.Event}
    (hordered : events.Pairwise (·.time ≤ ·.time)) :
    (∀ host ∉ exempt,
      (∀ time b, Dropped host r events time b → (b.Alike r.quota time {} ↔ b.debt time = 0)) ∧
      ((∀ time b, Dropped host r events time b → b.debt time = 0) →
        r.answers host events = ({} : Bucket).answers r.quota (requests host events)) ∧
      ((∃ time b, Dropped host r events time b ∧ b.debt time ≠ 0) → Telltale host 0 r events) ∧
      (nanosPerMilli ∣ r.refill → r.total (returns host) events = 0 →
        ∀ time b, Dropped host r events time b → b.debt time = 0)) ∧
    ∀ host ∈ exempt, r.answers host events = (requests host events).map fun _ => true := by
  have hnew := ofRate_new hmade
  refine ⟨fun host hhost => ?_, fun host hhost => answers_exempt (hnew.exempt ▸ hhost)⟩
  obtain ⟨finish, hrun⟩ := hnew.run hhost hordered
  refine ⟨fun _ _ _ => Bucket.alike_new_iff hnew.burst, fun hfree => ?_,
    fun ⟨time, b, hdropped, hdebt⟩ => hrun.telltale hnew.burst hdropped hdebt,
    fun hwhole hreturns time b hdropped => debt_of_dropped hdropped ?_⟩
  · rw [← hnew.bucket host]
    exact hrun.answers_of_dropped fun time b hdropped =>
      (Bucket.alike_new_iff hnew.burst).2 (hfree time b hdropped)
  · have hforgets := (hrun.forgets_le hnew.refill).2 hwhole
    rwa [hreturns, Nat.zero_mul, Nat.le_zero] at hforgets

/-- A client that connected once and comes back half a second later is forgotten in between, and
nobody can tell: its next two requests are answered as by the bucket that it had. -/
theorem answers_of_swept_refilled :
    let host : Text := ['a']
    let r : Registry := { quota := ⟨100000000, 1⟩, refill := 100000000, exempt := [] }
    let late := 500000000
    let events : List Registry.Event :=
      [⟨0, .ask host 1⟩, ⟨late, .purge⟩, ⟨late, .ask host 1⟩, ⟨late, .ask host 1⟩]
    Registry.ofRate 10 (some 1) [] = some r ∧ Dropped host r events late ⟨some 100000000⟩ ∧
      Bucket.Alike r.quota late ⟨some 100000000⟩ {} ∧ r.answers host events = [true, true, false] ∧
      ({} : Bucket).answers r.quota (requests host events) = [true, true, false] := by
  intro host r late events
  have hmade : Registry.ofRate 10 (some 1) [] = some r := rfl
  have hbucket : ((r.perform 0 (.ask host 1)).2.asked late host .purge).2 = ⟨some 100000000⟩ := by
    decide +kernel
  have hdropped : Dropped host r events late ⟨some 100000000⟩ :=
    hbucket ▸ .later (.now (by decide +kernel))
  have hordered : events.Pairwise (·.time ≤ ·.time) := by simp [events]
  obtain ⟨halike, hsame, -, hwhole⟩ := (answers_of_swept hmade hordered).1 host (by simp)
  have hfree := hwhole ⟨100, rfl⟩ (by decide +kernel)
  have hanswers : r.answers host events = [true, true, false] := by decide +kernel
  exact ⟨hmade, hdropped, (halike late _ hdropped).2 (hfree late _ hdropped), hanswers,
    (hsame hfree).symm.trans hanswers⟩

/-- A host that comes back a refill and a half later, as a sweep is due, has its burst of ten twice
at once. Its own bucket would not have let it through again. -/
theorem answers_sweep_differ :
    ¬ ∀ (rate : Nat) (burst : Option Nat) (exempt : List Text) (r : Registry) (host : Text)
      (events : List Registry.Event), Registry.ofRate rate burst exempt = some r →
        events.Pairwise (·.time ≤ ·.time) → host ∉ exempt →
        r.answers host events = ({} : Bucket).answers r.quota (requests host events) := by
  intro hsame
  let late := 150 * nanosPerMilli
  let back : List Registry.Event := [⟨late, .ask ['a'] 10⟩, ⟨late, .ask ['a'] 10⟩]
  have hordered : (crowded ++ back).Pairwise (·.time ≤ ·.time) :=
    crowded_ordered (by simp [back])
  have hall := hsame 100 (some 10) [] hundred ['a'] (crowded ++ back) rfl hordered
    List.not_mem_nil
  have hmade : Registry.ofRate 100 (some 10) [] = some hundred := rfl
  have hnew := ofRate_new hmade
  have hsettings : SameSettings hundred (hundred.after crowded) := sameSettings_after crowded
  obtain ⟨hbucket, hstale⟩ := hundred_crowded
  have htwice : (hundred.after crowded).answers ['a'] back = [true, true] := by
    rw [answers_on_return (hnew.distinct.after crowded) (hsettings.counted List.not_mem_nil) hstale,
      hbucket, hsettings.quota]
    decide
  have hother : ['a'] ∉ numbered 4095 := by simp [numbered]
  have hasks : requests ['a'] (crowded ++ back) = [⟨0, 1⟩, ⟨late, 10⟩, ⟨late, 10⟩] := by
    rw [requests, List.filterMap_append, crowded, List.filterMap_cons, ← requests,
      requests_crowd hother]
    decide
  have honce : ({} : Bucket).answers hundred.quota [⟨0, 1⟩, ⟨late, 10⟩, ⟨late, 10⟩] =
      [true, true, false] := by decide
  rw [answers_append, htwice, hasks, honce] at hall
  have hlast := congrArg List.getLast? hall
  simp at hlast

end Intercept
