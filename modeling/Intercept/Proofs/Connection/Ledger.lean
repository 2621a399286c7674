import Intercept.Connection.Metrics
import Intercept.Proofs.Connection.Course
import Intercept.Proofs.Relay.Accounts
import Mathlib.Algebra.Ring.Nat

/-!
# The ledger of connections

The counters are added to at five places: where the gate answers, behind the sniffing, in the relay,
and at a connection's end. A connection can be dropped wherever it waits. It never waits between an
answer of the gate that ends it and its end, so the counters of both always agree.

* `Metrics.total p`: the sum of the counters of a class, `Metrics.booked p run` what a connection
  adds to it.
* `Step.waits`, `Handler.Leaves`: what is left of a connection, at its end or dropped anywhere.
* `Run.Settled`: a denial of the gate is the last step, and the end tells of it.
* `Run.Counted`: what is counted in the end is what some relay counted.
* `Metrics.Balances`: the identities between the counters.

Results:
* `total_record`, `active_record`: what recording a connection does to counters and gauge.
* `Handled.settled`, `Handler.Leaves.settled`: every connection is settled.
* `Handler.handle_counted`: what is counted for a connection was counted by a relay.
* `Metrics.Balances.record`: one more connection keeps the identities.
* `Metrics.Balances.connections_of_ended`: where none crashed, the connections that ended are
  counted.
* `ledger_balances`: they hold behind every sequence of connections.
-/

namespace Intercept

/-! ## Classes of counters -/

namespace Series

/-- How many connections came to an end. -/
def isConnection : Series → Bool
  | connections _ _ => true
  | _ => false

/-- How many connections were not let through to their target. -/
def isBypass : Series → Bool
  | connections _ status => status = "bypassed"
  | _ => false

/-- How many connections failed for some reason. -/
def isError : Series → Bool
  | errors _ => true
  | _ => false

end Series

namespace Metrics

/-- What amounts add to the counters of a class. -/
def sumOf (p : Series → Bool) (amounts : List (Series × Nat)) : Nat :=
  ((amounts.filter (p ·.1)).map (·.2)).sum

/-- The sum of the counters of a class. -/
def total (p : Series → Bool) (m : Metrics) : Nat := sumOf p m.counts

/-- What a connection adds to the counters of a class. -/
def booked (p : Series → Bool) (r : Run) : Nat := sumOf p (additions r)

/-- Records connections one behind the other. -/
def recordAll (runs : List Run) (m : Metrics) : Metrics := runs.foldl (fun m r => m.record r) m

/-- Every counter is there once. -/
def Distinct (m : Metrics) : Prop := (m.counts.map (·.1)).Nodup

variable {m : Metrics} {p : Series → Bool} {s : Series} {n : Nat}

@[simp] theorem sumOf_nil (p : Series → Bool) : sumOf p [] = 0 := rfl

@[simp] theorem sumOf_cons (p : Series → Bool) (s : Series) (n : Nat)
    (l : List (Series × Nat)) : sumOf p ((s, n) :: l) = (if p s then n else 0) + sumOf p l := by
  unfold sumOf
  by_cases hs : p s = true
  · rw [List.filter_cons_of_pos (by exact hs), if_pos hs, List.map_cons, List.sum_cons]
  · rw [List.filter_cons_of_neg (by exact hs), if_neg hs, Nat.zero_add]

@[simp] theorem sumOf_append (p : Series → Bool) (l l' : List (Series × Nat)) :
    sumOf p (l ++ l') = sumOf p l + sumOf p l' := by
  unfold sumOf
  rw [List.filter_append, List.map_append, List.sum_append]

/-- Amounts that are all of other classes add nothing. -/
theorem sumOf_eq_zero {l : List (Series × Nat)} (h : ∀ x ∈ l, p x.1 = false) : sumOf p l = 0 := by
  unfold sumOf
  rw [List.filter_eq_nil_iff.2 fun x hx => by rw [h x hx]; exact Bool.false_ne_true]
  rfl

theorem map_fst_add (s : Series) (n : Nat) (m : Metrics) :
    (m.add s n).counts.map (·.1) =
      if m.counts.any (·.1 = s) then m.counts.map (·.1) else s :: m.counts.map (·.1) := by
  unfold add
  split
  · rw [List.map_map]
    refine List.map_congr_left fun x _ => ?_
    simp only [Function.comp]
    split <;> rfl
  · rfl

theorem active_add (s : Series) (n : Nat) (m : Metrics) : (m.add s n).active = m.active := by
  unfold add
  split <;> rfl

theorem Distinct.add (h : m.Distinct) (s : Series) (n : Nat) : (m.add s n).Distinct := by
  unfold Distinct
  rw [map_fst_add]
  split
  · exact h
  · rename_i hs
    refine List.nodup_cons.2 ⟨fun hm => hs ?_, h⟩
    obtain ⟨x, hx, rfl⟩ := List.mem_map.1 hm
    exact List.any_eq_true.2 ⟨x, hx, by simp⟩

/-- Adding to one of several counters adds to the classes that it is in. -/
theorem sumOf_update {l : List (Series × Nat)} (hl : (l.map (·.1)).Nodup)
    (hs : s ∈ l.map (·.1)) :
    sumOf p (l.map fun (t, k) => if t = s then (t, k + n) else (t, k)) =
      sumOf p l + if p s then n else 0 := by
  induction l with
  | nil => cases hs
  | cons x l ih =>
    obtain ⟨t, k⟩ := x
    rw [List.map_cons, List.nodup_cons] at hl
    by_cases ht : t = s
    · subst ht
      -- the counter is there once, so the others stay as they are
      have hrest : l.map (fun (u, k) => if u = t then (u, k + n) else (u, k)) = l := by
        refine (List.map_congr_left fun x hx => ?_).trans (List.map_id l)
        have hne : x.1 ≠ t := fun he => hl.1 (List.mem_map.2 ⟨x, hx, he⟩)
        simp only [if_neg hne, id_eq]
      rw [List.map_cons, hrest]
      simp only [if_true, sumOf_cons]
      split <;> omega
    · have hmem : s ∈ l.map (·.1) := by
        rcases List.mem_cons.1 hs with he | hm
        · exact absurd he.symm ht
        · exact hm
      rw [List.map_cons]
      simp only [if_neg ht, sumOf_cons]
      rw [ih hl.2 hmem]
      omega

/-- Adding to a counter adds to the classes that it is in. -/
theorem total_add (h : m.Distinct) (s : Series) (n : Nat) :
    (m.add s n).total p = m.total p + if p s then n else 0 := by
  unfold add
  by_cases hs : m.counts.any (·.1 = s) = true
  · rw [if_pos hs]
    obtain ⟨x, hx, he⟩ := List.any_eq_true.1 hs
    refine sumOf_update h (List.mem_map.2 ⟨x, hx, ?_⟩)
    simpa using he
  · rw [if_neg hs]
    show sumOf p ((s, n) :: m.counts) = _
    rw [sumOf_cons, Nat.add_comm]
    rfl

theorem foldl_add (amounts : List (Series × Nat)) (h : m.Distinct) :
    (amounts.foldl (fun m (s, n) => m.add s n) m).Distinct ∧
      (amounts.foldl (fun m (s, n) => m.add s n) m).total p = m.total p + sumOf p amounts := by
  induction amounts generalizing m with
  | nil => exact ⟨h, rfl⟩
  | cons x amounts ih =>
    obtain ⟨s, n⟩ := x
    obtain ⟨hdistinct, htotal⟩ := ih (h.add s n)
    refine ⟨hdistinct, ?_⟩
    rw [List.foldl_cons, htotal, total_add h, sumOf_cons, Nat.add_assoc]

/-- What recording a connection adds: to each class what the connection books. -/
theorem total_record (h : m.Distinct) (r : Run) :
    (m.record r).Distinct ∧ (m.record r).total p = m.total p + booked p r :=
  foldl_add (m := m.enter) (p := p) (additions r) h

/-- Behind a connection the gauge is back where it was. -/
theorem active_record (m : Metrics) (r : Run) : (m.record r).active = m.active := by
  have hadds (amounts : List (Series × Nat)) (m : Metrics) :
      (amounts.foldl (fun m (s, n) => m.add s n) m).active = m.active := by
    induction amounts generalizing m with
    | nil => rfl
    | cons x amounts ih => exact (ih _).trans (active_add x.1 x.2 m)
  unfold record leave
  rw [hadds]
  exact Int.add_sub_cancel m.active 1

/-- One counter is a class of its own. -/
theorem get_eq_total (h : m.Distinct) (s : Series) : m.get s = m.total (· = s) := by
  obtain ⟨counts, active⟩ := m
  unfold Distinct at h
  unfold get total
  simp only at h ⊢
  induction counts with
  | nil => rfl
  | cons x l ih =>
    obtain ⟨t, k⟩ := x
    rw [List.map_cons, List.nodup_cons] at h
    rw [sumOf_cons]
    by_cases ht : t = s
    · subst ht
      have hrest : sumOf (· = t) l = 0 := by
        refine sumOf_eq_zero fun x hx => ?_
        have hne : x.1 ≠ t := fun he => h.1 (List.mem_map.2 ⟨x, hx, he⟩)
        simpa using hne
      simp [hrest]
    · simp [ht, ← ih h.2]

end Metrics

/-! ## What a connection books -/

/-- How often the gate gave an answer to a connection. -/
def Run.answers (answer : Admission) (r : Run) : Nat :=
  (r.steps.filterMap fun x => Metrics.stepSeries x.2).count (.admissions answer)

/-- What a relay of the connection counted in a direction; zero without a relay. -/
def Run.counted (d : Direction) (r : Run) : Nat :=
  (r.tally.map fun t =>
    match d with
    | .toServer => t.sent
    | .toClient => t.received).getD 0

namespace Metrics

variable {p : Series → Bool} {r : Run}

theorem sumOf_units (p : Series → Bool) (l : List Series) :
    sumOf p (l.map (·, 1)) = l.countP p := by
  induction l with
  | nil => rfl
  | cons s l ih => rw [List.map_cons, sumOf_cons, ih, List.countP_cons, Nat.add_comm]

theorem stepSeries_cases {x : Step} {s : Series} (h : stepSeries x = some s) :
    (∃ answer, s = .admissions answer) ∨ ∃ protocol, s = .protocols protocol := by
  cases x <;> simp only [stepSeries, Option.some.injEq, reduceCtorEq] at h
  · exact .inl ⟨_, h.symm⟩
  · exact .inr ⟨_, h.symm⟩
  · exact .inl ⟨_, h.symm⟩

/-- What a connection books comes from its steps, from its relay and from its end. -/
theorem booked_eq (p : Series → Bool) (r : Run) :
    booked p r = (r.steps.filterMap fun x => stepSeries x.2).countP p +
      ((if p (.bytes .toServer) then r.counted .toServer else 0) +
        if p (.bytes .toClient) then r.counted .toClient else 0) +
      (fateSeries r.fate).countP p := by
  have hsteps : (r.steps.filterMap fun x => (stepSeries x.2).map (·, 1)) =
      (r.steps.filterMap fun x => stepSeries x.2).map (·, 1) := by
    rw [List.map_filterMap]
  unfold booked
  change sumOf p (r.steps.filterMap (fun x => (stepSeries x.2).map (·, 1)) ++ _ ++ _) = _
  rw [sumOf_append, sumOf_append, hsteps, sumOf_units, sumOf_units]
  congr 2
  cases ht : r.tally with
  | none => simp [Run.counted, ht]
  | some t => simp [Run.counted, ht]

/-- What a connection adds to a class that counts ends only. -/
theorem booked_of_fate (ha : ∀ answer, p (.admissions answer) = false)
    (hq : ∀ protocol, p (.protocols protocol) = false) (hd : ∀ d, p (.bytes d) = false) (r : Run) :
    booked p r = (fateSeries r.fate).countP p := by
  have hsteps : (r.steps.filterMap fun x => stepSeries x.2).countP p = 0 := by
    rw [List.countP_eq_zero]
    intro s hs
    obtain ⟨x, -, hx⟩ := List.mem_filterMap.1 hs
    rcases stepSeries_cases hx with ⟨answer, rfl⟩ | ⟨protocol, rfl⟩
    · simp [ha]
    · simp [hq]
  rw [booked_eq, hsteps, hd, hd]
  simp

theorem booked_admissions (answer : Admission) (r : Run) :
    booked (· = .admissions answer) r = r.answers answer := by
  have hfate : (fateSeries r.fate).countP (· = .admissions answer) = 0 := by
    cases r.fate <;> simp [fateSeries]
  rw [booked_eq, hfate]
  simp [Run.answers, List.count]
  rfl

theorem booked_bytes (d : Direction) (r : Run) : booked (· = .bytes d) r = r.counted d := by
  have hfate : (fateSeries r.fate).countP (· = .bytes d) = 0 := by
    cases r.fate <;> simp [fateSeries]
  have hsteps : (r.steps.filterMap fun x => stepSeries x.2).countP (· = .bytes d) = 0 := by
    rw [List.countP_eq_zero]
    intro s hs
    obtain ⟨x, -, hx⟩ := List.mem_filterMap.1 hs
    rcases stepSeries_cases hx with ⟨_, rfl⟩ | ⟨_, rfl⟩ <;> simp
  rw [booked_eq, hfate, hsteps]
  cases d <;> simp

end Metrics

/-! ## Where a connection can be dropped -/

/-- Whether a connection waits behind a step. Behind an answer of the gate that ends it, or behind a
failure, it goes on to its end at once. -/
def Step.waits : Step → Bool
  | .checkedClient answer => answer = .allow
  | .resolved (.ok _) => true
  | .resolved (.error _) => false
  | .sniffed _ => true
  | .checkedDestination .. => false
  | .dialing .. => true
  | .dialed _ _ error => error.isNone

/-- Whether a step is an answer of the gate that ends the connection. -/
def Step.denies : Step → Bool
  | .checkedClient answer => answer ≠ .allow
  | .checkedDestination _ answer => answer ≠ .allow
  | _ => false

/-- Whether the gate kept the connection from its target. -/
def Fate.isBypassed : Fate → Bool
  | .ended (.bypassed _ _) => true
  | _ => false

/-- An answer of the gate that ends a connection is its last step, and its end tells of it. -/
structure Run.Settled (r : Run) : Prop where
  last : ∀ x ∈ r.steps.dropLast, x.2.denies = false
  rateLimited : r.answers .rateLimited = if r.fate = .ended .rateLimited then 1 else 0
  bypassed : r.answers .bypassed = if r.fate.isBypassed then 1 else 0

theorem Step.not_denies_of_waits {x : Step} (h : x.waits = true) : x.denies = false := by
  cases x <;> simp_all [waits, denies]

/-- Without a step that denies anything the gate gave no other answers than to go on. -/
theorem Run.answers_eq_zero {r : Run} {answer : Admission} (ha : answer ≠ .allow)
    (h : ∀ x ∈ r.steps, x.2.denies = false) : r.answers answer = 0 := by
  unfold answers
  rw [List.count_eq_zero]
  intro hm
  obtain ⟨⟨time, x⟩, hx, hs⟩ := List.mem_filterMap.1 hm
  have := h _ hx
  cases x <;> simp_all [Metrics.stepSeries, Step.denies]

/-- A connection that nothing was denied, and whose end tells of no denial. -/
theorem Run.settled_of_allowed {r : Run} (hsteps : ∀ x ∈ r.steps, x.2.denies = false)
    (hrate : r.fate ≠ .ended .rateLimited)
    (hbypass : ∀ path target, r.fate ≠ .ended (.bypassed path target)) : r.Settled where
  last x hx := hsteps x (List.dropLast_subset _ hx)
  rateLimited := by rw [answers_eq_zero (by decide) hsteps, if_neg hrate]
  bypassed := by
    have hnot : ¬ r.fate.isBypassed := by
      unfold Fate.isBypassed
      split
      · rename_i path target hf
        exact absurd hf (hbypass path target)
      · exact Bool.false_ne_true
    rw [answers_eq_zero (by decide) hsteps, if_neg hnot]

/-- Steps that deny nothing can go before. -/
theorem Run.Settled.after {r : Run} (h : r.Settled) {front : List (Nat × Step)}
    (hfront : ∀ x ∈ front, x.2.denies = false) : (r.after front).Settled := by
  have hanswers {answer : Admission} (ha : answer ≠ .allow) :
      (r.after front).answers answer = r.answers answer := by
    have hnone : ({ r with steps := front } : Run).answers answer = 0 :=
      answers_eq_zero ha hfront
    unfold answers at hnone ⊢
    rw [Run.steps_after, List.filterMap_append, List.count_append, hnone, Nat.zero_add]
  refine ⟨fun x hx => ?_, ?_, ?_⟩
  · rw [Run.steps_after] at hx
    by_cases hs : r.steps = []
    · rw [hs, List.append_nil] at hx
      exact hfront x (List.dropLast_subset front hx)
    · rw [List.dropLast_append_of_ne_nil hs] at hx
      rcases List.mem_append.1 hx with hx | hx
      · exact hfront x hx
      · exact h.last x hx
  · rw [hanswers (by decide : Admission.rateLimited ≠ .allow)]
    exact h.rateLimited
  · rw [hanswers (by decide : Admission.bypassed ≠ .allow)]
    exact h.bypassed

section
variable {h : Handler} {gate : Gate} {client : Bytes} {path : Protocol} {answer : Admission}
  {now : Nat} {c : Inbound} {run : Run}

theorem Course.settled (hc : Course h gate client path run) : run.Settled := by
  cases hc with
  | stopped quiet steps fate =>
    refine Run.settled_of_allowed ?_ (fate _) fun path target => fate _
    simp [steps]
  | bypassed time target answer quiet steps fate =>
    refine ⟨by simp [steps], ?_, ?_⟩ <;>
      simp [Run.answers, steps, fate, Metrics.stepSeries, Fate.isBypassed]
  | dialing time target answer quiet steps fate =>
    refine Run.settled_of_allowed ?_ ?_ ?_
    · simp [steps, Step.denies]
    · simp [fate]
    · simp [fate]
  | refused time later target e answer quiet result steps fate =>
    refine Run.settled_of_allowed ?_ ?_ ?_
    · simp [steps, Step.denies]
    · simp [fate]
    · simp [fate]
  | connected time later target far answer result carries relayed steps fate =>
    refine Run.settled_of_allowed ?_ ?_ ?_
    · simp [steps, Step.denies]
    · exact fun hf => (nomatch fate _ hf)
    · exact fun path target hf => (nomatch fate _ hf)

theorem Handled.settled (hh : Handled h gate answer now c run) : run.Settled := by
  cases hh with
  | rateLimited denied eq =>
    subst eq
    exact ⟨by simp, rfl, rfl⟩
  | unresolved e allowed result quiet steps fate =>
    refine Run.settled_of_allowed ?_ ?_ ?_
    · simp [steps, Step.denies]
    · simp [fate]
    · simp [fate]
  | @resolved run dst path seen allowed result course looked =>
    refine course.settled.after ?_
    rcases looked with ⟨rfl, -⟩ | ⟨t, rfl⟩ <;> simp [Step.denies]

end

/-! ## What relays count -/

/-- The totals are those of a relay that began at zero, in one of the ways in which it can end. -/
def Tally.Counted (idle : Nat) (t : Tally) : Prop :=
  ∃ limit start upTo downTo ended, start.up.total = 0 ∧ start.down.total = 0 ∧
    Relay.Ends limit idle start upTo downTo ended ∧ t.sent = ended.up.total ∧
      t.received = ended.down.total ∧ t.finish = upTo.finish downTo

/-- What was counted for a connection was counted by a relay. -/
def Run.Counted (idle : Nat) (r : Run) : Prop := ∀ t ∈ r.tally, t.Counted idle

theorem Run.Counted.of_none {idle : Nat} {r : Run} (h : r.tally = none) : r.Counted idle := by
  intro t ht
  rw [h] at ht
  exact nomatch ht

namespace Handler

variable (h : Handler) (gate : Gate) (limit now : Nat)

theorem transport_counted (outcome : Outcome) (client : Replay) (clientSink : Sink)
    (server : Replay) (serverSink : Sink) :
    (h.transport gate limit now outcome client clientSink server serverSink).Counted
      h.options.idle := by
  intro t ht
  obtain ⟨upTo, downTo, ends, hfinish⟩ := relay_ends limit h.options.idle
    { turns := h.turns
      up := { source := client, sink := serverSink, since := now }
      down := { source := server, sink := clientSink, since := now } }
  cases ht
  exact ⟨limit, _, upTo, downTo, _, rfl, rfl, ends, rfl, rfl, hfinish⟩

theorem connect_counted {path : Protocol} {target : Text} {go : Nat → FarEnd → Run}
    (hgo : ∀ time far, (go time far).Counted h.options.idle) :
    (h.connect gate limit now path target go).Counted h.options.idle := by
  unfold connect
  simp only
  split
  · nofun
  · split
    · nofun
    · split
      · nofun
      · exact hgo _ _

theorem tunnel_counted (path : Protocol) (target : Text) (client : Replay) (sink : Sink) :
    (h.tunnel gate limit now path target client sink).Counted h.options.idle :=
  h.connect_counted gate limit now fun time far =>
    h.transport_counted gate limit time _ client sink
      (.ofSource { far.source with start := time }) far.sink

theorem viaTls_counted (deadline : Nat) (dst : Socket) (client : Replay) (sink : Sink) :
    (h.viaTls gate limit deadline now dst client sink).Counted h.options.idle := by
  unfold viaTls
  simp only
  split
  · split <;> nofun
  · nofun
  · split
    · nofun
    · exact h.tunnel_counted gate limit _ .tls _ _ sink

theorem converse_counted (target : Text) (request : Http.Request) (reader : Http.Reader)
    (sink : Sink) (far : FarEnd) :
    (h.converse gate limit now target request reader sink far).Counted h.options.idle := by
  unfold converse
  simp only
  split
  · exact .of_none rfl
  · exact .of_none rfl
  · exact .of_none rfl
  · exact h.transport_counted gate limit _ (.completed .http target) _ _ _ _

theorem viaHttp_counted (deadline : Nat) (client : Replay) (sink : Sink) :
    (h.viaHttp gate limit deadline now client sink).Counted h.options.idle := by
  unfold viaHttp
  simp only
  split
  · split <;> nofun
  · nofun
  · split
    · nofun
    · exact h.connect_counted gate limit _ fun time far =>
        h.converse_counted gate limit time _ _ _ sink far

theorem route_counted (dst : Socket) (c : Inbound) :
    (h.route gate limit now dst c).Counted h.options.idle := by
  unfold route
  simp only
  split
  · exact h.tunnel_counted gate limit now .blind _ _ c.sink
  · split
    · nofun
    · split
      · nofun
      · split
        · exact h.viaTls_counted gate limit _ _ dst _ c.sink
        · exact h.viaHttp_counted gate limit _ _ _ c.sink
        · exact h.tunnel_counted gate limit _ .blind _ _ c.sink

/-- What is counted for a connection was counted by a relay. -/
theorem handle_counted (moment : Nat) (c : Inbound) :
    (h.handle gate moment limit now c).Counted h.options.idle := by
  unfold handle
  generalize gate.checkClient moment c.peer = asked
  obtain ⟨answer, gate⟩ := asked
  simp only
  split
  · nofun
  · split
    · nofun
    · exact h.route_counted gate limit now _ c

/-! ## Wherever it is dropped -/

/-- What can be left of a connection: it was handled, or it was dropped where it waited. The relay
of one that was dropped can have ended at any of its steps. -/
inductive Leaves : Run → Prop
  | handled (gate : Gate) (moment limit now : Nat) (c : Inbound) :
      Leaves (h.handle gate moment limit now c)
  | dropped {run : Run} (gate : Gate) (moment limit now : Nat) (c : Inbound)
      (steps : run.steps <+: (h.handle gate moment limit now c).steps)
      (waits : ∀ x ∈ run.steps.getLast?, x.2.waits) (counted : run.Counted h.options.idle)
      (fate : run.fate = .cancelled) : Leaves run

variable {h} {run : Run}

theorem Leaves.counted (hr : h.Leaves run) : run.Counted h.options.idle := by
  cases hr with
  | handled gate moment limit now c => exact h.handle_counted gate limit now moment c
  | dropped gate moment limit now c steps waits counted fate => exact counted

/-- A connection that waits was denied nothing, so one that is dropped tells of no denial. -/
theorem Leaves.settled (hr : h.Leaves run) : run.Settled := by
  cases hr with
  | handled gate moment limit now c => exact (h.handle_handled gate moment limit now c).settled
  | dropped gate moment limit now c steps waits counted fate =>
    have hwhole := (h.handle_handled gate moment limit now c).settled
    have hdenies : ∀ x ∈ run.steps, x.2.denies = false := by
      intro x hx
      obtain ⟨rest, hrest⟩ := steps
      rcases List.eq_nil_or_concat run.steps with hnil | ⟨front, last, hlast⟩
      · rw [hnil] at hx
        cases hx
      · rw [List.concat_eq_append] at hlast
        rw [hlast] at hx hrest waits
        rcases List.mem_append.1 hx with hx | hx
        · refine hwhole.last x ?_
          rw [← hrest, List.append_assoc, List.singleton_append,
            List.dropLast_append_of_ne_nil (List.cons_ne_nil _ _)]
          exact List.mem_append_left _ hx
        · rw [List.mem_singleton.1 hx]
          exact Step.not_denies_of_waits (waits last (by simp))
    refine Run.settled_of_allowed hdenies ?_ ?_
    · simp [fate]
    · simp [fate]

end Handler

/-! ## The identities -/

namespace Metrics

/-- The identities between the counters and what became of the connections so far. -/
structure Balances (runs : List Run) (m : Metrics) : Prop where
  distinct : m.Distinct
  /-- No connection is being handled. -/
  active : m.active = 0
  /-- Every connection is counted once, unless it was dropped or the clock failed it. -/
  connections : m.total Series.isConnection + runs.countP (·.fate = .crashed) =
    runs.countP (·.fate ≠ .cancelled)
  /-- Every failure has a reason. -/
  errors : m.get (.connections "unknown" "failure") = m.total Series.isError
  rateLimited : m.get (.admissions .rateLimited) = m.get (.connections "none" "rate_limited")
  /-- On all paths together. -/
  bypassed : m.get (.admissions .bypassed) = m.total Series.isBypass
  /-- What the relays counted. -/
  bytes : ∀ d, m.get (.bytes d) = (runs.map (·.counted d)).sum

variable {h : Handler} {m : Metrics} {runs : List Run} {r : Run}

theorem booked_isConnection (r : Run) :
    booked Series.isConnection r + (if r.fate = .crashed then 1 else 0) =
      if r.fate ≠ .cancelled then 1 else 0 := by
  rw [booked_of_fate (fun _ => rfl) (fun _ => rfl) (fun _ => rfl)]
  cases r.fate <;> rfl

theorem booked_isError (r : Run) :
    booked (· = .connections "unknown" "failure") r = booked Series.isError r := by
  rw [booked_of_fate (by simp) (by simp) (by simp),
    booked_of_fate (fun _ => rfl) (fun _ => rfl) (fun _ => rfl)]
  cases r.fate with
  | ended outcome =>
    have hlabel (path : Protocol) : path.label ≠ "unknown" := by cases path <;> decide
    have hpath : outcome.path ≠ "unknown" := by
      cases outcome with
      | completed path target => exact hlabel path
      | rateLimited => decide
      | bypassed path target => exact hlabel path
    simp [fateSeries, Series.isError, hpath]
  | failed e => simp [fateSeries, Series.isError]
  | cancelled => rfl
  | crashed => rfl

theorem booked_rateLimited (hr : r.Settled) : booked (· = .admissions .rateLimited) r =
    booked (· = .connections "none" "rate_limited") r := by
  rw [booked_admissions, hr.rateLimited, booked_of_fate (by simp) (by simp) (by simp)]
  cases r.fate with
  | ended outcome => cases outcome <;> simp [fateSeries, Outcome.path, Outcome.status]
  | failed e => simp [fateSeries]
  | cancelled => rfl
  | crashed => rfl

theorem booked_bypassed (hr : r.Settled) :
    booked (· = .admissions .bypassed) r = booked Series.isBypass r := by
  rw [booked_admissions, hr.bypassed,
    booked_of_fate (fun _ => rfl) (fun _ => rfl) (fun _ => rfl)]
  cases r.fate with
  | ended outcome =>
    cases outcome <;> simp [fateSeries, Fate.isBypassed, Series.isBypass, Outcome.status]
  | failed e => simp [fateSeries, Fate.isBypassed, Series.isBypass]
  | cancelled => rfl
  | crashed => rfl

/-- One more connection keeps the identities. -/
theorem Balances.record (hm : m.Balances runs) (hr : r.Settled) :
    (m.record r).Balances (runs ++ [r]) := by
  have hdistinct := (total_record (p := fun _ => true) hm.distinct r).1
  have htotal (p : Series → Bool) := (total_record (p := p) hm.distinct r).2
  have hget (s : Series) : (m.record r).get s = m.get s + booked (· = s) r := by
    rw [get_eq_total hdistinct, htotal, get_eq_total hm.distinct]
  refine ⟨hdistinct, ?_, ?_, ?_, ?_, ?_, fun d => ?_⟩
  · rw [active_record, hm.active]
  · have hold := hm.connections
    have hnew := booked_isConnection r
    rw [htotal, List.countP_append, List.countP_append, List.countP_singleton,
      List.countP_singleton]
    simp only [decide_eq_true_eq] at hold hnew ⊢
    omega
  · rw [hget, htotal, hm.errors, booked_isError]
  · rw [hget, hget, hm.rateLimited, booked_rateLimited hr]
  · rw [hget, htotal, hm.bypassed, booked_bypassed hr]
  · rw [hget, hm.bytes, booked_bytes, List.map_append, List.sum_append]
    simp

/-- Any number of connections keeps the identities. -/
theorem Balances.recordAll (hm : m.Balances runs) {more : List Run}
    (hmore : ∀ r ∈ more, r.Settled) : (recordAll more m).Balances (runs ++ more) := by
  induction more generalizing m runs with
  | nil => rwa [List.append_nil]
  | cons r more ih =>
    rw [List.append_cons]
    exact ih (hm.record (hmore r List.mem_cons_self)) fun x hx =>
      hmore x (List.mem_cons_of_mem _ hx)

/-- Where no connection crashed, those that came to an end are counted, and no others. -/
theorem Balances.connections_of_ended (hm : m.Balances runs)
    (hended : ∀ r ∈ runs, r.fate ≠ .crashed) :
    m.total Series.isConnection = runs.countP (·.fate ≠ .cancelled) := by
  have hnone : runs.countP (·.fate = .crashed) = 0 :=
    List.countP_eq_zero.2 fun r hr => by simpa using hended r hr
  have hall := hm.connections
  rwa [hnone] at hall

theorem balances_nil : Balances [] {} where
  distinct := List.nodup_nil
  active := rfl
  connections := rfl
  errors := rfl
  rateLimited := rfl
  bypassed := rfl
  bytes _ := rfl

end Metrics

/-- **The ledger balances.** Behind every sequence of connections, each of them handled or dropped
wherever it waited, the gauge is back at its value, and the identities between the counters hold.
The byte counters hold what the relays of these connections counted. -/
theorem ledger_balances (h : Handler) (runs : List Run) (hruns : ∀ r ∈ runs, h.Leaves r) :
    (Metrics.recordAll runs {}).Balances runs ∧ (∀ r ∈ runs, r.Counted h.options.idle) ∧
      ∀ (m : Metrics) (r : Run), (m.record r).active = m.active :=
  ⟨Metrics.balances_nil.recordAll fun r hr => (hruns r hr).settled,
    fun r hr => (hruns r hr).counted, Metrics.active_record⟩

namespace Ledger

/-- A handler that finds no destination for the clients at port 1; its dialer takes 10 ms to reach a
server that sends two bytes. -/
def handler : Handler where
  resolver := fun peer near => if peer.port = 1 then .error (.noMatch peer) else .ok near
  dialer := fun _ _ => ⟨10, .ok { source := { events := [⟨2, .data [5, 6]⟩, ⟨0, .silence⟩] } }⟩
  turns := fun _ => .toServer
  options := { sniffing := false, idle := 50 }

/-- A client that sends three bytes. -/
def client (port : UInt16) : Inbound where
  peer := ⟨.v4 ⟨10, 0, 0, 1⟩, port, 0⟩
  near := ⟨.v4 ⟨192, 0, 2, 1⟩, 80, 0⟩
  input := .ofSource { events := [⟨1, .data [1, 2, 3]⟩, ⟨99, .close⟩] }

/-- A registry with room for nobody. -/
def full : Registry where
  quota := ⟨1, 0⟩
  refill := 0
  exempt := []

/-- Connections that are relayed, over their limit, not let through, without a destination, dropped
while the dialer is at work and dropped while the resolver is. -/
def runs : List Run :=
  [handler.handle {} 0 1000 0 (client 2),
    handler.handle { registry := some full } 0 1000 0 (client 2),
    handler.handle { bypass := some ⟨["*".toList], false⟩ } 0 1000 0 (client 2),
    handler.handle {} 0 1000 0 (client 1), handler.handle {} 0 5 0 (client 2),
    { fate := .cancelled, time := 0, gate := {}, steps := [(0, .checkedClient .allow)] }]

end Ledger

/-- All kinds of connections one behind the other. -/
theorem ledger_balances_all_kinds :
    (∀ r ∈ Ledger.runs, Ledger.handler.Leaves r) ∧
      (Metrics.recordAll Ledger.runs {}).Balances Ledger.runs ∧
      Ledger.runs.countP (·.fate = .cancelled) = 2 ∧
      (Metrics.recordAll Ledger.runs {}).total Series.isConnection = 4 ∧
      (Metrics.recordAll Ledger.runs {}).get (.connections "unknown" "failure") = 1 ∧
      (Metrics.recordAll Ledger.runs {}).get (.admissions .rateLimited) = 1 ∧
      (Metrics.recordAll Ledger.runs {}).get (.admissions .bypassed) = 1 ∧
      (Metrics.recordAll Ledger.runs {}).get (.bytes .toServer) = 3 ∧
      (Metrics.recordAll Ledger.runs {}).get (.bytes .toClient) = 2 := by
  have hruns : ∀ r ∈ Ledger.runs, Ledger.handler.Leaves r := by
    intro r hr
    simp only [Ledger.runs, List.mem_cons, List.not_mem_nil, or_false] at hr
    rcases hr with rfl | rfl | rfl | rfl | rfl | rfl
    · exact .handled ..
    · exact .handled ..
    · exact .handled ..
    · exact .handled ..
    · exact .handled ..
    · refine .dropped {} 0 1000 0 (Ledger.client 2) ?_ ?_ nofun rfl
      · exact ⟨_, rfl⟩
      · intro x hx
        cases hx
        rfl
  refine ⟨hruns, (ledger_balances Ledger.handler Ledger.runs hruns).1, ?_⟩
  decide +kernel

end Intercept
