import Intercept.Proofs.Http.Copying
import Intercept.Proofs.Relay
import Intercept.Proofs.Stream.Deadline

/-!
# A relay as two directions side by side

The two directions of a relay do not see each other. A relay is what both would do alone, cut where
the first of them finishes.

* `Flow.alone`: a direction alone, to its end.
* `Flow.Stands`: where a direction alone may stand at a moment.
* `Relay.Interleaves`: the ways to take the steps of both directions in the order of their times.
  What is due at the same moment may be done in either order.

Results:
* `Flow.Stands.written`: what a direction has passed on that stands at a moment.
* `Relay.Interleaves.alone`: cutting the two directions is all that a relay does to them, in
  whatever order their steps are taken.
* `relay_parallel`: the same of `relay`, with its end, its time and its two closings.
-/

namespace Intercept

namespace Direction

/-- The other direction. -/
def other : Direction → Direction
  | toServer => toClient
  | toClient => toServer

@[simp] theorem other_other (d : Direction) : d.other.other = d := by
  cases d <;> rfl

theorem eq_or_other (d e : Direction) : e = d ∨ e = d.other := by
  cases d <;> cases e <;> simp [other]

end Direction

namespace Flow

/-! ## A direction alone -/

/-- What a direction does next that nobody sets a time limit, and when. -/
def nextAlone (idle : Nat) (f : Flow) : Nat × Move := f.next (f.since + idle) idle

/-- How a direction alone ends. -/
structure Alone where
  cause : Cause
  time : Nat
  flow : Flow

/-- A direction alone: it passes pieces on until it finishes. -/
def alone (idle : Nat) (f : Flow) : Alone :=
  match _h : f.nextAlone idle with
  | (time, .pass bytes rest) =>
    match _hp : f.pass time bytes rest with
    | (none, g) => alone idle g
    | (some e, g) => ⟨.fault e, time, g⟩
  | (time, .finish cause) => ⟨cause, time, f⟩
  -- Not taken: a read that stays idle finishes the direction first.
  | (time, .expire) => ⟨.idle, time, f⟩
termination_by f.source.weight
decreasing_by
  have hw := next_weight _h
  have hs := pass_source time bytes rest f
  rw [_hp] at hs
  rw [show g.source = rest from hs]
  exact hw

namespace Alone

/-- What was passed on up to a moment, what falls on it included. -/
def writtenBy (a : Alone) (time : Nat) : Bytes :=
  Taken.all (a.flow.passed.filter (·.time ≤ time)).reverse

/-- What was passed on before a moment. -/
def writtenBefore (a : Alone) (time : Nat) : Bytes :=
  Taken.all (a.flow.passed.filter (·.time < time)).reverse

end Alone

variable {idle limit time moment : Nat} {f g : Flow} {bytes : Bytes} {rest : Replay} {e : Fault}
  {cause : Cause} {move : Move}

theorem alone_of_finish (h : f.nextAlone idle = (time, .finish cause)) :
    f.alone idle = ⟨cause, time, f⟩ := by
  rw [alone]
  split <;> rename_i heq <;> cases h.symm.trans heq
  rfl

theorem alone_of_refused (h : f.nextAlone idle = (time, .pass bytes rest))
    (hp : f.pass time bytes rest = (some e, g)) : f.alone idle = ⟨.fault e, time, g⟩ := by
  rw [alone]
  split <;> rename_i heq <;> cases h.symm.trans heq
  split <;> rename_i heq <;> cases hp.symm.trans heq
  rfl

theorem alone_of_pass (h : f.nextAlone idle = (time, .pass bytes rest))
    (hp : f.pass time bytes rest = (none, g)) : f.alone idle = g.alone idle := by
  rw [alone]
  split <;> rename_i heq <;> cases h.symm.trans heq
  split <;> rename_i heq <;> cases hp.symm.trans heq
  rfl

/-- Nothing happens before the read that is waited for began. -/
theorem since_le_next (limit idle : Nat) (f : Flow) : f.since ≤ (f.next limit idle).1 := by
  unfold next
  split
  · rename_i hr
    exact Replay.le_time_of_readBy hr
  · rename_i hr
    exact Replay.le_time_of_readBy hr
  · rename_i hr
    exact Replay.le_time_of_readBy hr
  · rename_i hr
    exact Replay.le_time_of_readBy hr
  · split
    · exact Nat.le_add_right _ _
    · exact Nat.le_max_left _ _

theorem since_pass (time : Nat) (bytes : Bytes) (rest : Replay) (f : Flow) :
    (f.pass time bytes rest).2.since = time := by
  unfold pass
  simp only
  split <;> rfl

theorem le_nextAlone_of_pass {o : Option Fault} (h : f.pass time bytes rest = (o, g)) :
    time ≤ (g.nextAlone idle).1 := by
  have hsince := since_pass time bytes rest f
  rw [h] at hsince
  rw [← show g.since = time from hsince]
  exact since_le_next _ idle g

/-! ## Time limits -/

/-- A step that is not cut short is the one that the direction takes alone. -/
theorem nextAlone_of_next (h : f.next limit idle = (time, move))
    (hm : move ≠ .expire := by simp) : f.nextAlone idle = (time, move) := by
  have hread : f.source.readBy (f.since + idle) f.since readSize =
      f.source.readBy (min limit (f.since + idle)) f.since readSize := by
    cases hr : f.source.readBy (min limit (f.since + idle)) f.since readSize with
    | some d => exact Replay.readBy_mono hr (by omega)
    | none =>
      -- A read that did not finish by the limit was over because it stayed idle, so the limit lies
      -- behind that.
      have hidle : f.since + idle ≤ max f.since limit := by
        unfold next at h
        rw [hr] at h
        simp only at h
        split at h
        · assumption
        · exact absurd (Prod.ext_iff.1 h).2.symm hm
      rw [Option.eq_none_iff_forall_ne_some] at hr ⊢
      exact fun d hd => hr d (Replay.readBy_mono hd (by omega))
  unfold next at h
  unfold nextAlone next
  rw [Nat.min_self, hread]
  split at h
  · exact h
  · exact h
  · exact h
  · exact h
  · split at h
    · rw [if_pos (Nat.le_max_right _ _)]
      exact h
    · exact absurd (Prod.ext_iff.1 h).2.symm hm

/-- A direction that is cut short would have gone on no earlier. -/
theorem le_nextAlone_of_expire (h : f.next limit idle = (time, .expire)) :
    limit ≤ time ∧ time ≤ (f.nextAlone idle).1 := by
  have hcut : f.source.readBy (min limit (f.since + idle)) f.since readSize = none ∧
      max f.since limit < f.since + idle ∧ time = max f.since limit := by
    unfold next at h
    split at h
    · cases h
    · cases h
    · cases h
    · cases h
    · rename_i hr
      split at h
      · cases h
      · rename_i hidle
        exact ⟨hr, by omega, (Prod.ext_iff.1 h).1.symm⟩
  obtain ⟨hr, hidle, rfl⟩ := hcut
  refine ⟨Nat.le_max_right _ _, ?_⟩
  have hlate : ∀ d, f.source.readBy (f.since + idle) f.since readSize = some d →
      max f.since limit ≤ d.time := by
    intro d hd
    refine Nat.le_of_not_lt fun hlt => ?_
    rw [Replay.readBy_eq_some_iff] at hd
    rw [Option.eq_none_iff_forall_ne_some] at hr
    exact hr d (Replay.readBy_eq_some_iff.2 ⟨hd.1, by omega⟩)
  unfold nextAlone next
  rw [Nat.min_self]
  split
  · rename_i hd
    exact hlate _ hd
  · rename_i hd
    exact hlate _ hd
  · rename_i hd
    exact hlate _ hd
  · rename_i hd
    exact hlate _ hd
  · rw [if_pos (Nat.le_max_right _ _)]
    exact Nat.le_of_lt hidle

/-- With or without a limit, a step comes no earlier than it says. -/
theorem le_nextAlone (h : f.next limit idle = (time, move)) : time ≤ (f.nextAlone idle).1 := by
  by_cases hm : move = .expire
  · subst hm
    exact (le_nextAlone_of_expire h).2
  · have hnext : f.nextAlone idle = (time, move) := nextAlone_of_next h hm
    exact Nat.le_of_eq (congrArg Prod.fst hnext).symm

/-! ## Where a direction stands -/

/-- Nothing that the direction does alone comes before its next step. -/
theorem nextAlone_le_alone : (f.nextAlone idle).1 ≤ (f.alone idle).time := by
  fun_induction alone idle f with
  | case1 f time bytes rest next g pass ih =>
    rw [next]
    exact Nat.le_trans (le_nextAlone_of_pass pass) ih
  | case2 f time bytes rest next e g pass => exact Nat.le_of_eq (congrArg Prod.fst next)
  | case3 f time cause next => exact Nat.le_of_eq (congrArg Prod.fst next)
  | case4 f time next => exact Nat.le_of_eq (congrArg Prod.fst next)

/-- Alone, the direction `f` may stand at `g` at some moment: whatever was due before that was done,
and nothing that is due later. -/
inductive Stands (idle moment : Nat) : Flow → Flow → Prop
  | here {f : Flow} (due : moment ≤ (f.nextAlone idle).1) : Stands idle moment f f
  | pass {f g h : Flow} {time : Nat} {bytes : Bytes} {rest : Replay}
      (next : f.nextAlone idle = (time, .pass bytes rest)) (due : time ≤ moment)
      (pass : f.pass time bytes rest = (none, g)) (more : Stands idle moment g h) :
      Stands idle moment f h

/-- A direction that stands somewhere goes on to the same end. -/
theorem Stands.alone (h : Stands idle moment f g) :
    g.alone idle = f.alone idle ∧ moment ≤ (g.nextAlone idle).1 := by
  induction h with
  | here due => exact ⟨rfl, due⟩
  | pass next due pass _ ih => exact ⟨ih.1.trans (alone_of_pass next pass).symm, ih.2⟩

theorem Stands.le_alone (h : Stands idle moment f g) : moment ≤ (f.alone idle).time := by
  obtain ⟨heq, hdue⟩ := h.alone
  rw [← heq]
  exact Nat.le_trans hdue nextAlone_le_alone

/-! ## What a direction has passed on -/

/-- A step adds at most one piece, at its own time. -/
theorem passed_pass (time : Nat) (bytes : Bytes) (rest : Replay) (f : Flow) :
    (f.pass time bytes rest).2.passed = f.passed ∨
      ∃ taken, (f.pass time bytes rest).2.passed = ⟨time, taken⟩ :: f.passed := by
  by_cases htaken : (f.sink.writeAll bytes).taken.isEmpty
  · left
    unfold pass
    simp only [if_pos htaken]
    split <;> rfl
  · right
    refine ⟨(f.sink.writeAll bytes).taken, ?_⟩
    unfold pass
    simp only [if_neg htaken]
    split <;> rfl

/-- What was passed on is in the order of its times. -/
theorem ordered_pass (h : Taken.Ordered f.since f.passed) (hle : f.since ≤ time) (bytes : Bytes)
    (rest : Replay) : Taken.Ordered time (f.pass time bytes rest).2.passed := by
  rcases passed_pass time bytes rest f with hp | ⟨taken, hp⟩ <;> rw [hp]
  · exact h.mono hle
  · exact (h.mono hle).cons taken

theorem since_le_of_nextAlone (h : f.nextAlone idle = (time, move)) : f.since ≤ time := by
  have := since_le_next (f.since + idle) idle f
  rw [show f.next (f.since + idle) idle = (time, move) from h] at this
  exact this

/-- What comes to be passed on is passed on no earlier than the next step. -/
theorem passed_alone (idle : Nat) (h : Taken.Ordered f.since f.passed) :
    (∃ later, (f.alone idle).flow.passed = later ++ f.passed ∧
      ∀ t ∈ later, (f.nextAlone idle).1 ≤ t.time) ∧
    Taken.Ordered (f.alone idle).time (f.alone idle).flow.passed := by
  fun_induction alone idle f with
  | case1 f time bytes rest next g pass ih =>
    have hle := since_le_of_nextAlone next
    have hpassed := passed_pass time bytes rest f
    have hordered := ordered_pass h hle bytes rest
    have hsince := since_pass time bytes rest f
    rw [pass] at hpassed hordered hsince
    have hg : time ≤ (g.nextAlone idle).1 := le_nextAlone_of_pass pass
    obtain ⟨⟨later, heq, hlater⟩, hend⟩ := ih (by rw [hsince]; exact hordered)
    refine ⟨?_, hend⟩
    rw [next, heq]
    have hlate : ∀ t ∈ later, time ≤ t.time := fun t ht => Nat.le_trans hg (hlater t ht)
    rcases hpassed with hp | ⟨taken, hp⟩
    · exact ⟨later, by rw [show g.passed = _ from hp], hlate⟩
    · refine ⟨later ++ [⟨time, taken⟩], by rw [show g.passed = _ from hp]; simp, fun t ht => ?_⟩
      rcases List.mem_append.1 ht with ht | ht
      · exact hlate t ht
      · obtain rfl := List.mem_singleton.1 ht
        exact Nat.le_refl time
  | case2 f time bytes rest next e g pass =>
    have hle := since_le_of_nextAlone next
    have hpassed := passed_pass time bytes rest f
    have hordered := ordered_pass h hle bytes rest
    rw [pass] at hpassed hordered
    refine ⟨?_, hordered⟩
    rw [next]
    rcases hpassed with hp | ⟨taken, hp⟩
    · exact ⟨[], hp, by simp⟩
    · exact ⟨[⟨time, taken⟩], hp, by simp⟩
  | case3 f time cause next => exact ⟨⟨[], rfl, by simp⟩, h.mono (since_le_of_nextAlone next)⟩
  | case4 f time next => exact ⟨⟨[], rfl, by simp⟩, h.mono (since_le_of_nextAlone next)⟩

/-- At the end nothing is missing. -/
theorem written_alone (idle : Nat) (h : Taken.Ordered f.since f.passed) :
    (f.alone idle).flow.written = (f.alone idle).writtenBy (f.alone idle).time := by
  have hpast := (passed_alone idle h).2.past
  unfold Alone.writtenBy
  rw [List.filter_eq_self.2 fun t ht => decide_eq_true (hpast t ht)]
  rfl

/-- What comes before a moment is in front. -/
theorem Alone.writtenBefore_isPrefix {a : Alone} (h : Taken.Ordered time a.flow.passed) :
    a.writtenBefore moment <+: a.flow.written := by
  refine h.filter_isPrefix fun late early hle hlt => ?_
  rw [decide_eq_true_iff] at hlt ⊢
  exact Nat.lt_of_le_of_lt hle hlt

theorem Stands.ordered (h : Stands idle moment f g) (hf : Taken.Ordered f.since f.passed)
    (hpast : ∀ t ∈ f.passed, t.time ≤ moment) :
    Taken.Ordered g.since g.passed ∧ ∀ t ∈ g.passed, t.time ≤ moment := by
  induction h with
  | here due => exact ⟨hf, hpast⟩
  | @pass f g h time bytes rest next due pass more ih =>
    have hle := since_le_of_nextAlone next
    have hordered := ordered_pass hf hle bytes rest
    have hsince := since_pass time bytes rest f
    rw [pass] at hordered hsince
    refine ih (by rw [hsince]; exact hordered) fun t ht => ?_
    exact Nat.le_trans (hordered.past t ht) due

/-- **What a direction has passed on that stands at a moment**: all that it passes on before, and
nothing that it passes on later. -/
theorem Stands.written (h : Stands idle moment f g) (hf : Taken.Ordered f.since f.passed)
    (hpast : ∀ t ∈ f.passed, t.time ≤ moment) :
    (f.alone idle).writtenBefore moment <+: g.written ∧
      g.written <+: (f.alone idle).writtenBy moment := by
  obtain ⟨hordered, hearly⟩ := h.ordered hf hpast
  obtain ⟨heq, hdue⟩ := h.alone
  obtain ⟨⟨later, hpassed, hlate⟩, -⟩ := passed_alone idle hordered
  rw [heq] at hpassed
  unfold Alone.writtenBefore Alone.writtenBy Flow.written
  rw [hpassed, List.filter_append, List.filter_append]
  constructor
  · have hnone : later.filter (·.time < moment) = [] := by
      rw [List.filter_eq_nil_iff]
      intro t ht
      have := hlate t ht
      rw [decide_eq_true_iff]
      omega
    rw [hnone, List.nil_append]
    refine hordered.filter_isPrefix fun late early hle hlt => ?_
    rw [decide_eq_true_iff] at hlt ⊢
    exact Nat.lt_of_le_of_lt hle hlt
  · rw [List.filter_eq_self.2 fun t ht => decide_eq_true (hearly t ht), List.reverse_append,
      Taken.all_append]
    exact List.prefix_append _ _

/-- Where nothing falls on the moment itself, there is no difference. -/
theorem Alone.writtenBefore_eq {a : Alone} (h : ∀ t ∈ a.flow.passed, t.time ≠ moment) :
    a.writtenBefore moment = a.writtenBy moment := by
  unfold writtenBefore writtenBy
  congr 2
  refine List.filter_congr fun t ht => ?_
  have := h t ht
  rw [decide_eq_decide]
  omega

end Flow

/-! ## Both directions -/

namespace Relay

/-- One of the two directions. -/
def flow (r : Relay) : Direction → Flow
  | .toServer => r.up
  | .toClient => r.down

/-- The relay with one direction replaced. -/
def setFlow (r : Relay) (f : Flow) : Direction → Relay
  | .toServer => { r with up := f }
  | .toClient => { r with down := f }

@[simp] theorem flow_setFlow (r : Relay) (f : Flow) (d : Direction) :
    (r.setFlow f d).flow d = f := by
  cases d <;> rfl

@[simp] theorem flow_setFlow_other (r : Relay) (f : Flow) (d : Direction) :
    (r.setFlow f d).flow d.other = r.flow d.other := by
  cases d <;> rfl

/-- The ways to take the steps of both directions in the order of their times, up to the first that
finishes: what finished the relay, when, and how the directions stood. At any moment it is open
which direction goes first. -/
inductive Interleaves (idle : Nat) : Relay → Finish → Nat → Relay → Prop
  | read {r : Relay} {d : Direction} {time : Nat} {cause : Cause}
      (next : (r.flow d).nextAlone idle = (time, .finish cause))
      (first : time ≤ ((r.flow d.other).nextAlone idle).1) : Interleaves idle r ⟨d, cause⟩ time r
  | refused {r : Relay} {d : Direction} {g : Flow} {time : Nat} {bytes : Bytes} {rest : Replay}
      {e : Fault} (next : (r.flow d).nextAlone idle = (time, .pass bytes rest))
      (first : time ≤ ((r.flow d.other).nextAlone idle).1)
      (pass : (r.flow d).pass time bytes rest = (some e, g)) :
      Interleaves idle r ⟨d, .fault e⟩ time (r.setFlow g d)
  | pass {r after : Relay} {d : Direction} {g : Flow} {time last : Nat} {bytes : Bytes}
      {rest : Replay} {finish : Finish}
      (next : (r.flow d).nextAlone idle = (time, .pass bytes rest))
      (first : time ≤ ((r.flow d.other).nextAlone idle).1)
      (pass : (r.flow d).pass time bytes rest = (none, g))
      (more : Interleaves idle (r.setFlow g d) finish last after) :
      Interleaves idle r finish last after

variable {idle limit time : Nat} {r after : Relay} {finish : Finish}

/-- Nothing comes before the first step of either direction. -/
theorem Interleaves.le_time (h : r.Interleaves idle finish time after) {moment : Nat}
    (hm : ∀ d, moment ≤ ((r.flow d).nextAlone idle).1) : moment ≤ time := by
  induction h with
  | @read r d time cause next first =>
    have := hm d
    rwa [next] at this
  | @refused r d g time bytes rest e next first pass =>
    have := hm d
    rwa [next] at this
  | @pass r after d g time last bytes rest finish next first pass more ih =>
    have hle := hm d
    rw [next] at hle
    refine ih fun e => ?_
    rcases d.eq_or_other e with rfl | rfl
    · rw [flow_setFlow]
      exact Nat.le_trans hle (Flow.le_nextAlone_of_pass pass)
    · rw [flow_setFlow_other]
      exact Nat.le_trans hle first

/-- **A relay cuts its directions where the first finishes**, and does nothing else to them, in
whatever order their steps are taken: that one has come to its end, and the other stands where it
stands alone at that moment. -/
theorem Interleaves.alone (h : r.Interleaves idle finish time after) :
    (r.flow finish.direction).alone idle = ⟨finish.cause, time, after.flow finish.direction⟩ ∧
      (r.flow finish.direction.other).Stands idle time (after.flow finish.direction.other) := by
  induction h with
  | read next first => exact ⟨Flow.alone_of_finish next, .here first⟩
  | refused next first pass =>
    rw [flow_setFlow, flow_setFlow_other]
    exact ⟨Flow.alone_of_refused next pass, .here first⟩
  | @pass r after d g time last bytes rest finish next first pass more ih =>
    -- The step belongs to the direction that finishes, or to the other one. Either way the rest of
    -- the relay says the same of the direction behind its step.
    obtain ⟨hends, hstands⟩ := ih
    rcases d.eq_or_other finish.direction with hd | hd
    · rw [hd, flow_setFlow] at hends
      rw [hd, flow_setFlow_other] at hstands
      rw [hd]
      exact ⟨(Flow.alone_of_pass next pass).trans hends, hstands⟩
    · rw [hd, flow_setFlow_other] at hends
      rw [hd, Direction.other_other, flow_setFlow] at hstands
      rw [hd, Direction.other_other]
      refine ⟨hends, .pass next (more.le_time fun e => ?_) pass hstands⟩
      rcases d.eq_or_other e with rfl | rfl
      · rw [flow_setFlow]
        exact Flow.le_nextAlone_of_pass pass
      · rw [flow_setFlow_other]
        exact first

/-- The order in which `run` takes the steps is one of the possible ones. -/
theorem run_interleaves (hf : (r.run limit idle).finish = some finish) :
    r.Interleaves idle finish (r.run limit idle).time (r.run limit idle).relay := by
  fun_induction run limit idle r with
  | case1 => cases hf
  | case2 r timeUp timeDown moveDown hdown hfirst cause hn =>
    cases hf
    exact .read (d := .toServer) (Flow.nextAlone_of_next hn)
      (Nat.le_trans (Turns.le_of_upFirst hfirst) (Flow.le_nextAlone hdown))
  | case3 r timeUp timeDown moveDown hdown hfirst bytes rest _ up hp hn ih =>
    exact .pass (d := .toServer) (Flow.nextAlone_of_next hn)
      (Nat.le_trans (Turns.le_of_upFirst hfirst) (Flow.le_nextAlone hdown)) hp (ih hf)
  | case4 r timeUp timeDown moveDown hdown hfirst bytes rest _ e up hp hn =>
    cases hf
    exact .refused (d := .toServer) (Flow.nextAlone_of_next hn)
      (Nat.le_trans (Turns.le_of_upFirst hfirst) (Flow.le_nextAlone hdown)) hp
  | case5 => cases hf
  | case6 r timeUp moveUp timeDown hup hlast cause hn =>
    cases hf
    exact .read (d := .toClient) (Flow.nextAlone_of_next hn)
      (Nat.le_trans (Turns.le_of_not_upFirst hlast) (Flow.le_nextAlone hup))
  | case7 r timeUp moveUp timeDown hup hlast bytes rest _ down hp hn ih =>
    exact .pass (d := .toClient) (Flow.nextAlone_of_next hn)
      (Nat.le_trans (Turns.le_of_not_upFirst hlast) (Flow.le_nextAlone hup)) hp (ih hf)
  | case8 r timeUp moveUp timeDown hup hlast bytes rest _ e down hp hn =>
    cases hf
    exact .refused (d := .toClient) (Flow.nextAlone_of_next hn)
      (Nat.le_trans (Turns.le_of_not_upFirst hlast) (Flow.le_nextAlone hup)) hp

/-- A relay is cut short only when neither direction would finish before the limit. -/
theorem limit_le_of_run (hf : (r.run limit idle).finish = none) (d : Direction) :
    limit ≤ ((r.flow d).alone idle).time := by
  fun_induction run limit idle r with
  | case1 r timeUp timeDown moveDown hdown hfirst hn =>
    obtain ⟨hlimit, hup⟩ := Flow.le_nextAlone_of_expire hn
    cases d with
    | toServer => exact Nat.le_trans hlimit (Nat.le_trans hup Flow.nextAlone_le_alone)
    | toClient =>
      exact Nat.le_trans hlimit
        (Nat.le_trans (Turns.le_of_upFirst hfirst)
          (Nat.le_trans (Flow.le_nextAlone hdown) Flow.nextAlone_le_alone))
  | case2 => cases hf
  | case3 r timeUp timeDown moveDown hdown hfirst bytes rest _ up hp hn ih =>
    have hlimit := ih hf
    cases d with
    | toServer =>
      rw [show r.flow .toServer = r.up from rfl,
        Flow.alone_of_pass (Flow.nextAlone_of_next hn) hp]
      exact hlimit
    | toClient => exact hlimit
  | case4 => cases hf
  | case5 r timeUp moveUp timeDown hup hlast hn =>
    obtain ⟨hlimit, hdown⟩ := Flow.le_nextAlone_of_expire hn
    cases d with
    | toServer =>
      exact Nat.le_trans hlimit (Nat.le_trans (Turns.le_of_not_upFirst hlast)
        (Nat.le_trans (Flow.le_nextAlone hup) Flow.nextAlone_le_alone))
    | toClient => exact Nat.le_trans hlimit (Nat.le_trans hdown Flow.nextAlone_le_alone)
  | case6 => cases hf
  | case7 r timeUp moveUp timeDown hup hlast bytes rest _ down hp hn ih =>
    have hlimit := ih hf
    cases d with
    | toServer => exact hlimit
    | toClient =>
      rw [show r.flow .toClient = r.down from rfl,
        Flow.alone_of_pass (Flow.nextAlone_of_next hn) hp]
      exact hlimit
  | case8 => cases hf

end Relay

/-! ## Closing -/

namespace Sink

/-- How long closing the write side takes. -/
def closing (s : Sink) : Nat := if s.closes then 0 else closePatience

/-- Closing depends on nothing but whether the side ever closes. -/
theorem close_eq {s t : Sink} {limit now : Nat} (hc : t.closes = s.closes)
    (h : now + s.closing ≤ limit) : t.close limit now = some (now + s.closing, s.closes) := by
  unfold closing at *
  unfold close
  rw [hc]
  cases hs : s.closes with
  | true => rfl
  | false =>
    simp only [hs, Bool.false_eq_true, if_false] at h ⊢
    rw [if_pos (Nat.le_trans h (Nat.le_max_right _ _))]

/-- Writing does not change whether a side ever closes. -/
theorem writeFrom_closes (s : Sink) (done offer : Bytes) :
    (s.writeFrom done offer).sink.closes = s.closes := by
  fun_induction writeFrom s done offer with
  | case1 | case2 | case3 => rfl
  | case4 s done b r n h ih => exact ih

end Sink

theorem Flow.pass_closes (time : Nat) (bytes : Bytes) (rest : Replay) (f : Flow) :
    (f.pass time bytes rest).2.sink.closes = f.sink.closes := by
  have hw := f.sink.writeFrom_closes [] bytes
  unfold pass
  simp only
  split <;> exact hw

namespace Relay

variable {idle limit time : Nat} {r after : Relay} {finish : Finish}

theorem Interleaves.closes (h : r.Interleaves idle finish time after) (e : Direction) :
    (after.flow e).sink.closes = (r.flow e).sink.closes := by
  induction h with
  | read => rfl
  | @refused r d g time bytes rest fault next first pass =>
    have hp := Flow.pass_closes time bytes rest (r.flow d)
    rw [pass] at hp
    rcases d.eq_or_other e with rfl | rfl
    · rw [flow_setFlow]
      exact hp
    · rw [flow_setFlow_other]
  | @pass r after d g time last bytes rest finish next first pass more ih =>
    have hp := Flow.pass_closes time bytes rest (r.flow d)
    rw [pass] at hp
    rw [ih]
    rcases d.eq_or_other e with rfl | rfl
    · rw [flow_setFlow]
      exact hp
    · rw [flow_setFlow_other]

/-- The first of the two directions alone finishes the relay. -/
theorem Interleaves.first (h : r.Interleaves idle finish time after) :
    time = min (r.up.alone idle).time (r.down.alone idle).time ∧
      ((r.up.alone idle).time < (r.down.alone idle).time → finish.direction = .toServer) ∧
      ((r.down.alone idle).time < (r.up.alone idle).time → finish.direction = .toClient) := by
  obtain ⟨hends, hstands⟩ := h.alone
  have htime := congrArg Flow.Alone.time hends
  have hle := hstands.le_alone
  obtain ⟨d, cause⟩ := finish
  cases d with
  | toServer =>
    change (r.up.alone idle).time = time at htime
    change time ≤ (r.down.alone idle).time at hle
    exact ⟨by omega, fun _ => rfl, fun hlt => by omega⟩
  | toClient =>
    change (r.down.alone idle).time = time at htime
    change time ≤ (r.up.alone idle).time at hle
    exact ⟨by omega, fun hlt => by omega, fun _ => rfl⟩

/-- What went each way, if nothing had gone before. -/
theorem Interleaves.written (h : r.Interleaves idle finish time after) {d : Direction}
    (hd : (r.flow d).passed = []) :
    let alone := (r.flow d).alone idle
    (alone.writtenBefore time <+: (after.flow d).written ∧
      (after.flow d).written <+: alone.writtenBy time) ∧
    (finish.direction = d ∨ (∀ t ∈ alone.flow.passed, t.time ≠ time) →
      (after.flow d).written = alone.writtenBy time) := by
  obtain ⟨hends, hstands⟩ := h.alone
  have hordered : Taken.Ordered (r.flow d).since (r.flow d).passed := hd ▸ .nil _
  intro alone
  rcases finish.direction.eq_or_other d with rfl | rfl
  · -- The direction that finished has come to its end.
    have hall : (after.flow finish.direction).written = alone.writtenBy time := by
      have hw := Flow.written_alone idle hordered
      rw [hends] at hw
      rw [show alone = _ from hends]
      exact hw
    have hbefore : alone.writtenBefore time <+: alone.flow.written :=
      Flow.Alone.writtenBefore_isPrefix (Flow.passed_alone idle hordered).2
    rw [show alone.flow = after.flow finish.direction from congrArg Flow.Alone.flow hends]
      at hbefore
    exact ⟨⟨hbefore, hall ▸ List.prefix_refl _⟩, fun _ => hall⟩
  · have hbetween := hstands.written hordered (by simp [hd])
    refine ⟨hbetween, fun hor => ?_⟩
    have hnone := hor.resolve_left (by cases finish.direction <;> nofun)
    rw [← Flow.Alone.writtenBefore_eq hnone] at hbetween ⊢
    exact (hbetween.2.eq_of_length_le hbetween.1.length_le)

end Relay

/-! ## The relay -/

/-- A relay that was not cut short closes both sides, the server's first. -/
theorem relay_closes {limit idle : Nat} {r : Relay} {finish : Finish}
    (hf : (r.run limit idle).finish = some finish)
    (h : r.Interleaves idle finish (r.run limit idle).time (r.run limit idle).relay)
    (hlimit : (r.run limit idle).time + r.up.sink.closing + r.down.sink.closing ≤ limit) :
    relay limit idle r =
      { finish := some finish
        expired := false
        time := (r.run limit idle).time + r.up.sink.closing + r.down.sink.closing
        relay := (r.run limit idle).relay
        serverClosed := r.up.sink.closes
        clientClosed := r.down.sink.closes } := by
  have hup : (r.run limit idle).relay.up.sink.closes = r.up.sink.closes := h.closes .toServer
  have hdown : (r.run limit idle).relay.down.sink.closes = r.down.sink.closes := h.closes .toClient
  unfold relay
  simp only [hf, Sink.close_eq hup (Nat.le_trans (Nat.le_add_right _ _) hlimit),
    Sink.close_eq hdown hlimit]

/-- **A relay is its two directions side by side**, cut where the first of them finishes. Let each
direction go on alone, with bytes put back in front of what the client sends. The relay finishes
when the first of them does, with the cause that this one has, however the steps of both are
mixed. Until then each side has got just what its direction alone had written: that is all of what
was written before, and of what falls on the very moment as much as was done first.

Then both write sides are closed, and each that never closes costs `closePatience`. So a relay is
always over, unless its caller drops it before. -/
theorem relay_parallel (turns : Turns) (limit idle now : Nat) (front : Bytes)
    (client server : Replay) (toServer toClient : Sink) (sent received : Option Nat) :
    let start : Relay :=
      { turns := turns
        up := { source := client.putBack front, sink := toServer, since := now, counter := sent }
        down := { source := server, sink := toClient, since := now, counter := received } }
    let alone (d : Direction) := (start.flow d).alone idle
    let first := min (alone .toServer).time (alone .toClient).time
    let last := first + toServer.closing + toClient.closing
    last < limit →
    let done := relay limit idle start
    (done.expired = false ∧ done.time = last ∧ done.serverClosed = toServer.closes ∧
      done.clientClosed = toClient.closes ∧
      ∃ finish, done.finish = some finish ∧ start.Interleaves idle finish first done.relay) ∧
    ∀ finish time after, start.Interleaves idle finish time after →
      time = first ∧ finish.cause = (alone finish.direction).cause ∧
      ((alone .toServer).time < (alone .toClient).time → finish.direction = .toServer) ∧
      ((alone .toClient).time < (alone .toServer).time → finish.direction = .toClient) ∧
      ∀ d, ((alone d).writtenBefore first <+: (after.flow d).written ∧
          (after.flow d).written <+: (alone d).writtenBy first) ∧
        (finish.direction = d ∨ (∀ t ∈ (alone d).flow.passed, t.time ≠ first) →
          (after.flow d).written = (alone d).writtenBy first) := by
  intro start alone first last hlimit done
  have hfresh : ∀ d, (start.flow d).passed = [] := fun d => by cases d <;> rfl
  refine ⟨?_, fun finish time after h => ?_⟩
  · obtain ⟨finish, hfinish⟩ : ∃ finish, (start.run limit idle).finish = some finish := by
      cases hf : (start.run limit idle).finish with
      | some finish => exact ⟨finish, rfl⟩
      | none =>
        have hup : limit ≤ (alone .toServer).time := Relay.limit_le_of_run hf .toServer
        have hdown : limit ≤ (alone .toClient).time := Relay.limit_le_of_run hf .toClient
        omega
    have h := Relay.run_interleaves hfinish
    have hfirst : (start.run limit idle).time = first := h.first.1
    have hdone := relay_closes hfinish h (by rw [hfirst]; exact Nat.le_of_lt hlimit)
    rw [hfirst] at h hdone
    rw [show done = _ from hdone]
    exact ⟨rfl, rfl, rfl, rfl, finish, rfl, h⟩
  · obtain ⟨hfirst, hup, hdown⟩ := h.first
    obtain ⟨hends, -⟩ := h.alone
    obtain rfl : time = first := hfirst
    exact ⟨rfl, (congrArg Flow.Alone.cause hends).symm, hup, hdown, fun d => h.written (hfresh d)⟩

/-- A server that closes at 40 ends the relay before the client has been idle for too long, and the
server's side never closes. Whatever the order of the steps is, all that was sent by then has got
through. -/
theorem relay_parallel_server_first :
    let client : Replay := .ofSource { events := [⟨10, .data [1]⟩, ⟨30, .data [2]⟩, ⟨0, .silence⟩] }
    let server : Replay := .ofSource { events := [⟨20, .data [5]⟩, ⟨40, .close⟩] }
    let start : Relay :=
      { turns := fun _ => .toServer
        up := { source := client.putBack [7], sink := { closes := false }, since := 0 }
        down := { source := server, sink := {}, since := 0 } }
    (start.up.alone 60).time = 90 ∧ (start.down.alone 60).time = 40 ∧
      (relay 5000 60 start).expired = false ∧ (relay 5000 60 start).time = 1040 ∧
      ∀ finish time after, start.Interleaves 60 finish time after →
        time = 40 ∧ finish = ⟨.toClient, .ended⟩ ∧ after.up.written = [7, 1, 2] ∧
          after.down.written = [5] := by
  intro client server start
  obtain ⟨⟨hexpired, htime, -⟩, horders⟩ :=
    relay_parallel (fun _ => .toServer) 5000 60 0 [7] client server { closes := false } {} none none
      (by decide +kernel)
  refine ⟨by decide +kernel, by decide +kernel, hexpired, htime.trans (by decide +kernel),
    fun finish time after h => ?_⟩
  obtain ⟨htime, hcause, -, hclient, hwritten⟩ := horders finish time after h
  have hd : finish.direction = .toClient := hclient (by decide +kernel)
  refine ⟨htime.trans (by decide +kernel), ?_, ?_, ?_⟩
  · rw [hd] at hcause
    obtain ⟨d, cause⟩ := finish
    exact congr (congrArg _ hd) (hcause.trans (by decide +kernel))
  · exact ((hwritten .toServer).2 (.inr (by decide +kernel))).trans (by decide +kernel)
  · exact ((hwritten .toClient).2 (.inl hd)).trans (by decide +kernel)

end Intercept
