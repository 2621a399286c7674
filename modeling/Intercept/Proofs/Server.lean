import Intercept.Server

/-!
# Permits and draining

A permit is free, goes with a connection in flight, or is held by the accepting loop; nothing that
happens changes how many there are. Once the server was told to stop, the connections in flight can
only end.

* `Phase.elapse`, `Phase.close`: what time makes of a phase, and the end of the last connection.
* `Server.Accounted`: where the permits are, at every moment.
* `Occurrence.left`, `Occurrence.leftAfter`: the connections that are left when none is accepted.
* `Occurrence.emptiedAt?`: the moment at which the last of them ended.
* `Server.phaseAt`: what a server that was told to stop does at a time.
* `Server.Draining`: a server that was told to stop, whose phase follows from when its connections
  ended; `Server.Accepts`: one that was not.

Results:
* `Server.Accounted.run`: the permits are accounted for along every history.
* `Server.Draining.run`: so is what a server does that was told to stop.
* `Server.run_capped_drains`: a cap is kept, and stopping waits as long as it says and no longer.
-/

namespace Intercept

namespace Phase

/-- What time makes of a phase. -/
def elapse (drain now : Nat) : Phase → Phase
  | draining since =>
    if since + drain + Server.lastWait ≤ now then finished (since + drain + Server.lastWait)
    else if since + drain ≤ now then cancelling (since + drain)
    else draining since
  | cancelling since =>
    if since + Server.lastWait ≤ now then finished (since + Server.lastWait) else cancelling since
  | p => p

/-- What a server does once nothing is in flight any more. -/
def close (now : Nat) : Phase → Phase
  | draining _ | cancelling _ => finished now
  | p => p

end Phase

namespace Server

variable {limits : ServeLimits} {n now u v since : Nat} {s : Server} {o : Occurrence}
  {ended : Option Nat} {history : List (Nat × Occurrence)}

/-- Time changes nothing but the phase. -/
theorem elapse_eq (s : Server) (now : Nat) :
    s.elapse now = { s with phase := s.phase.elapse s.limits.drain now } := by
  obtain ⟨limits, phase, free, active⟩ := s
  cases phase with
  | draining since =>
    by_cases hd : since + limits.drain ≤ now
    · by_cases hl : since + limits.drain + lastWait ≤ now <;>
        simp [elapse, expireDrain, expireCancel, Phase.elapse, hd, hl]
    · have hl : ¬since + limits.drain + lastWait ≤ now := by omega
      simp [elapse, expireDrain, expireCancel, Phase.elapse, hd, hl]
  | cancelling since =>
    by_cases hl : since + lastWait ≤ now <;>
      simp [elapse, expireDrain, expireCancel, Phase.elapse, hl]
  | waiting | accepting | finished _ => rfl

/-! ## Permits -/

/-- There is a cap of `n`, and every permit is free, with a connection in flight, or held by the
accepting loop. -/
structure Accounted (n : Nat) (s : Server) : Prop where
  cap : s.limits.cap = some n
  permits : s.free + s.active.length + s.held = n

theorem Accounted.length_active (h : s.Accounted n) : s.active.length ≤ n := by
  have := h.permits
  omega

theorem Accounted.elapse (h : s.Accounted n) (now : Nat) : (s.elapse now).Accounted n := by
  have hp := h.permits
  rw [elapse_eq]
  refine ⟨h.cap, ?_⟩
  unfold held at hp ⊢
  cases hs : s.phase <;> grind [Phase.elapse]

/-- An accepted connection takes the permit of the loop with it; whatever else ends gives one
back. -/
theorem Accounted.react (h : s.Accounted n) (now : Nat) (o : Occurrence) :
    (s.react now o).Accounted n := by
  have hc := h.cap
  have hp := h.permits
  unfold held at hp
  cases o with
  | arrival id => constructor <;> grind [Server.react, held]
  | acceptFailure => constructor <;> grind [Server.react, Server.release, held]
  | completion id =>
    have := @List.length_erase_of_mem _ _ _ id s.active
    have := @List.length_pos_of_mem _ id s.active
    constructor <;> grind [Server.react, Server.release, held]
  | signal => constructor <;> grind [Server.react, Server.release, held]

theorem Accounted.settle (h : s.Accounted n) (now : Nat) : (s.settle now).Accounted n := by
  have hc := h.cap
  have hp := h.permits
  unfold held at hp
  constructor <;> grind [Server.settle, held]

theorem Accounted.observe (h : s.Accounted n) (now : Nat) (o : Occurrence) :
    (s.observe now o).Accounted n :=
  ((h.elapse now).react now o).settle now

/-- **No history loses a permit or makes one.** -/
theorem Accounted.run (h : s.Accounted n) (history : List (Nat × Occurrence)) :
    (s.run history).Accounted n := by
  induction history generalizing s with
  | nil => exact h
  | cons e history ih => exact ih (h.observe e.1 e.2)

theorem accounted_start (hc : limits.cap = some n) (hs : start limits = some s) :
    s.Accounted n := by
  unfold start at hs
  split at hs
  · cases hs
  · cases hs
    exact Accounted.settle ⟨hc, by simp [held, hc]⟩ 0

end Server

namespace Occurrence

/-- Which of some connections are left after this, if none is accepted. -/
def left (active : List Nat) : Occurrence → List Nat
  | completion id => active.erase id
  | _ => active

/-- Which of some connections are left after a history, if none is accepted. -/
def leftAfter (active : List Nat) (history : List (Nat × Occurrence)) : List Nat :=
  history.foldl (fun active e => e.2.left active) active

/-- The first moment of a history at which none of some connections is left, if none is accepted. -/
def emptiedAt? (active : List Nat) : List (Nat × Occurrence) → Option Nat
  | [] => none
  | (now, o) :: history =>
    if o.left active = [] then some now else emptiedAt? (o.left active) history

theorem left_nil (o : Occurrence) : o.left [] = [] := by
  cases o <;> rfl

end Occurrence

namespace Server

variable {limits : ServeLimits} {n now u v since : Nat} {s : Server} {o : Occurrence}
  {ended : Option Nat} {history : List (Nat × Occurrence)}

/-! ## Stopping -/

/-- When a server returns that was told to stop at `since`: once all connections ended, at the
latest when the cancelled ones were waited for. -/
def returnsAt (limits : ServeLimits) (since : Nat) (ended : Option Nat) : Nat :=
  let last := since + limits.drain + lastWait
  ended.elim last (min last)

/-- What a server does at time `u` that was told to stop at `since`. -/
def phaseAt (limits : ServeLimits) (since : Nat) (ended : Option Nat) (u : Nat) : Phase :=
  if returnsAt limits since ended ≤ u then .finished (returnsAt limits since ended)
  else if u < since + limits.drain then .draining since
  else .cancelling (since + limits.drain)

/-- A server was told to stop at `since`; `ended` is when the last connection ended, if that is so
at time `now`. From then on its phase is known, as long as nothing happens. -/
structure Draining (limits : ServeLimits) (since now : Nat) (ended : Option Nat) (s : Server) :
    Prop where
  bound : s.limits = limits
  ended_le : ∀ e ∈ ended, e ≤ now
  emptied : ended.isSome ↔ s.active = []
  phase : ∀ u, now ≤ u → s.phase.elapse limits.drain u = phaseAt limits since ended u

/-- Nothing is accepted by a server that is not accepting. -/
theorem react_of_stopped (h : s.phase ≠ .waiting) (h' : s.phase ≠ .accepting) (now : Nat)
    (o : Occurrence) :
    (s.react now o).limits = s.limits ∧ (s.react now o).phase = s.phase ∧
      (s.react now o).active = o.left s.active := by
  cases o with
  | completion id => grind [react, release, Occurrence.left, List.erase_of_not_mem]
  | arrival id | acceptFailure | signal => grind [react, Occurrence.left]

theorem settle_of_stopped (h : s.phase ≠ .waiting) (h' : s.phase ≠ .accepting) (now : Nat) :
    (s.settle now).limits = s.limits ∧ (s.settle now).active = s.active ∧
      (s.settle now).phase = if s.active = [] then s.phase.close now else s.phase := by
  cases hp : s.phase with
  | waiting => exact absurd hp h
  | accepting => exact absurd hp h'
  | draining since | cancelling since | finished time =>
    by_cases ha : s.active = [] <;> simp [settle, Phase.close, hp, ha]

theorem phaseAt_stopped (limits : ServeLimits) (since : Nat) (ended : Option Nat) (u : Nat) :
    phaseAt limits since ended u ≠ .waiting ∧ phaseAt limits since ended u ≠ .accepting := by
  grind [phaseAt]

/-- As long as connections are left, time alone decides. -/
theorem elapse_phaseAt (h : v ≤ u) :
    (phaseAt limits since none v).elapse limits.drain u = phaseAt limits since none u := by
  grind [phaseAt, returnsAt, Phase.elapse]

/-- With the last connection the server returns, unless it has returned before. -/
theorem close_phaseAt (h : ∀ e ∈ ended, e ≤ v) (hu : v ≤ u) :
    ((phaseAt limits since ended v).close v).elapse limits.drain u =
      phaseAt limits since (some (ended.getD v)) u := by
  cases ended with
  | none => grind [phaseAt, returnsAt, Phase.close, Phase.elapse]
  | some e =>
    have hr : returnsAt limits since (some e) ≤ v := Nat.le_trans (Nat.min_le_right _ _) (h e rfl)
    simp [phaseAt, Phase.close, Phase.elapse, hr, Nat.le_trans hr hu]

/-- What happens to a server that was told to stop can only end a connection. -/
theorem Draining.observe (h : s.Draining limits since now ended) (hv : now ≤ v) (o : Occurrence) :
    (s.observe v o).active = o.left s.active ∧
      (s.observe v o).Draining limits since v
        (if o.left s.active = [] then some (ended.getD v) else none) := by
  obtain ⟨hw, ha⟩ := phaseAt_stopped limits since ended v
  have hl : (s.elapse v).limits = limits := by rw [elapse_eq]; exact h.bound
  have hp : (s.elapse v).phase = phaseAt limits since ended v := by
    rw [elapse_eq, ← h.phase v hv, h.bound]
  have hactive : (s.elapse v).active = s.active := by rw [elapse_eq]
  obtain ⟨hl₁, hp₁, ha₁⟩ := react_of_stopped (hp ▸ hw) (hp ▸ ha) v o
  rw [hl] at hl₁
  rw [hp] at hp₁
  rw [hactive] at ha₁
  obtain ⟨hl₂, ha₂, hp₂⟩ := settle_of_stopped (hp₁ ▸ hw) (hp₁ ▸ ha) v
  rw [hl₁] at hl₂
  rw [ha₁] at ha₂
  rw [ha₁, hp₁] at hp₂
  have hended : ∀ e ∈ ended, e ≤ v := fun e he => Nat.le_trans (h.ended_le e he) hv
  change (s.observe v o).active = _ at ha₂
  by_cases hleft : o.left s.active = []
  · rw [if_pos hleft] at hp₂ ⊢
    refine ⟨ha₂, hl₂, ?_, by simpa using ha₂.trans hleft, fun u hu => ?_⟩
    · cases ended <;> simp_all
    · exact (congrArg _ hp₂).trans (close_phaseAt hended hu)
  · rw [if_neg hleft] at hp₂ ⊢
    have hnone : ended = none := by
      cases ended with
      | none => rfl
      | some e =>
        rw [h.emptied.1 rfl] at hleft
        exact absurd o.left_nil hleft
    subst hnone
    refine ⟨ha₂, hl₂, nofun, by simpa using ha₂ ▸ hleft, fun u hu => ?_⟩
    exact (congrArg _ hp₂).trans (elapse_phaseAt hu)

/-- **Behind the signal the connections only end**, and what the server does at any later time
follows from when they did. `post` is what happens from some time on, in order. -/
theorem Draining.run {post : List (Nat × Occurrence)} (h : s.Draining limits since now ended)
    (hs : (now :: (post.map (·.1) ++ [u])).Pairwise (· ≤ ·)) :
    ((s.run post).elapse u).active = Occurrence.leftAfter s.active post ∧
      ((s.run post).elapse u).phase =
        phaseAt limits since (ended.or (Occurrence.emptiedAt? s.active post)) u := by
  induction post generalizing s now ended with
  | nil =>
    rw [elapse_eq]
    have hu : now ≤ u := by simpa using hs
    refine ⟨rfl, ?_⟩
    rw [Occurrence.emptiedAt?, Option.or_none, ← h.phase u hu, ← h.bound]
    rfl
  | cons e post ih =>
    obtain ⟨v, o⟩ := e
    obtain ⟨hv, hs⟩ := List.pairwise_cons.1 hs
    obtain ⟨ha, hd⟩ := h.observe (hv v (by simp)) o
    obtain ⟨hleft, hphase⟩ := ih hd hs
    refine ⟨?_, ?_⟩
    · rw [ha] at hleft
      exact hleft
    · refine hphase.trans (congrArg (phaseAt limits since · u) ?_)
      have := h.emptied
      have := o.left_nil
      rw [ha, Occurrence.emptiedAt?]
      cases ended <;> grind

/-! ## Before the signal -/

/-- The server was not told to stop. -/
def Accepts (s : Server) : Prop := s.phase = .waiting ∨ s.phase = .accepting

theorem Accepts.elapse (h : s.Accepts) (now : Nat) : s.elapse now = s := by
  obtain ⟨limits, phase, free, active⟩ := s
  rcases h with rfl | rfl <;> rfl

theorem accepts_start (hs : start limits = some s) : s.limits = limits ∧ s.Accepts := by
  unfold start at hs
  split at hs
  · cases hs
  · cases hs
    unfold Accepts settle
    grind

/-- Without a signal a server goes on accepting. -/
theorem Accepts.observe (h : s.Accepts) (now : Nat) (ho : o ≠ .signal) :
    (s.observe now o).limits = s.limits ∧ (s.observe now o).Accepts := by
  unfold Server.observe
  rw [h.elapse]
  unfold Accepts at h ⊢
  cases o with
  | signal => exact absurd rfl ho
  | arrival id | acceptFailure | completion id => grind [react, release, settle]

theorem Accepts.run (h : s.Accepts) (ho : ∀ e ∈ history, e.2 ≠ .signal) :
    (s.run history).limits = s.limits ∧ (s.run history).Accepts := by
  induction history generalizing s with
  | nil => exact ⟨rfl, h⟩
  | cons e history ih =>
    obtain ⟨hl, hp⟩ := h.observe e.1 (ho e (by simp))
    obtain ⟨hl', hp'⟩ := ih hp fun e he => ho e (by simp [he])
    exact ⟨hl'.trans hl, hp'⟩

/-- The signal itself ends no connection; a server without any returns at once. -/
theorem Accepts.signal (h : s.Accepts) (now : Nat) :
    (s.observe now .signal).active = s.active ∧
      (s.observe now .signal).Draining s.limits now now
        (if s.active = [] then some now else none) := by
  have hr : (s.react now .signal).limits = s.limits ∧
      (s.react now .signal).phase = .draining now ∧
      (s.react now .signal).active = s.active := by
    rcases h with h | h <;> simp [react, release, h]
  obtain ⟨hl, hp, ha⟩ := hr
  obtain ⟨hl', ha', hp'⟩ := settle_of_stopped (s := s.react now .signal) (by simp [hp])
    (by simp [hp]) now
  rw [ha] at ha'
  rw [hl] at hl'
  rw [ha, hp] at hp'
  unfold Server.observe
  rw [h.elapse]
  by_cases hactive : s.active = []
  · rw [if_pos hactive] at hp' ⊢
    refine ⟨ha', hl', by simp, by simpa using ha'.trans hactive, fun u hu => ?_⟩
    rw [hp']
    grind [Phase.close, Phase.elapse, phaseAt, returnsAt]
  · rw [if_neg hactive] at hp' ⊢
    refine ⟨ha', hl', nofun, by simpa using ha' ▸ hactive, fun u hu => ?_⟩
    rw [hp']
    grind [Phase.elapse, phaseAt, returnsAt]

/-! ## From the start -/

theorem run_append (s : Server) (before after : List (Nat × Occurrence)) :
    s.run (before ++ after) = (s.run before).run after := List.foldl_append

/-- **A cap is kept, and stopping is graceful.** With a cap of `n` every permit is always free, with
a connection in flight or held by the accepting loop: behind every history, when time has passed
since, and in the middle of what happens next. So no more than `n` connections are in flight.

Once the server was told to stop, at `t`, none is accepted, and of those in flight just the ones end
that the history says. None is cancelled before the drain time is over. The server returns when the
last one has ended, at the latest `lastWait` after cancelling the rest. -/
theorem run_capped_drains (hc : limits.cap = some n) (hs : start limits = some s) :
    (∀ history u o, ∀ r ∈ [s.run history, (s.run history).elapse u,
        ((s.run history).elapse u).react u o],
      r.free + r.active.length + r.held = n ∧ r.active.length ≤ n) ∧
    ∀ before t after u, (∀ e ∈ before, e.2 ≠ .signal) →
      (t :: (after.map (·.1) ++ [u])).Pairwise (· ≤ ·) →
      let stopped := (s.run before).active
      let ended := Occurrence.emptiedAt? stopped ((t, .signal) :: after)
      let r := (s.run (before ++ (t, .signal) :: after)).elapse u
      r.active = Occurrence.leftAfter stopped after ∧ r.phase = phaseAt limits t ended u := by
  have hstart := accounted_start hc hs
  obtain ⟨hl, ha⟩ := accepts_start hs
  refine ⟨fun history u o r hr => ?_, fun before t after u hbefore horder => ?_⟩
  · have hrun := hstart.run history
    have hacc : r.Accounted n := by
      simp only [List.mem_cons, List.not_mem_nil, or_false] at hr
      rcases hr with rfl | rfl | rfl
      · exact hrun
      · exact hrun.elapse u
      · exact (hrun.elapse u).react u o
    exact ⟨hacc.permits, hacc.length_active⟩
  · obtain ⟨hlimits, haccepts⟩ := ha.run hbefore
    obtain ⟨hactive, hdraining⟩ := haccepts.signal t
    obtain ⟨hleft, hphase⟩ := hdraining.run horder
    rw [hactive] at hleft hphase
    rw [hlimits, hl] at hphase
    simp only [run_append]
    refine ⟨hleft, hphase.trans (congrArg (phaseAt limits t · u) ?_)⟩
    by_cases hempty : (s.run before).active = [] <;>
      simp [Occurrence.emptiedAt?, Occurrence.left, hempty]

/-- Two connections fill the cap. One ends in time, the other is cancelled and never ends. -/
theorem run_capped_drains_late :
    let limits : ServeLimits := { cap := some 2, drain := 5000 }
    let before : List (Nat × Occurrence) :=
      [(10, .arrival 1), (15, .acceptFailure), (20, .arrival 2)]
    let after : List (Nat × Occurrence) := [(300, .arrival 3), (400, .completion 1)]
    ∃ s, start limits = some s ∧
      let full := s.run before
      let told (u : Nat) := (s.run (before ++ (100, .signal) :: after)).elapse u
      (full.active = [2, 1] ∧ full.free + full.active.length + full.held = 2) ∧
        ((told 6099).active = [2] ∧ (told 6099).phase = .cancelling 5100) ∧
        (told 7000).active = [2] ∧ (told 7000).phase = .finished 6100 := by
  intro limits before after
  have hs : start limits = some { limits := limits, phase := .accepting, free := 1 } := by decide
  obtain ⟨hpermits, hdrains⟩ := run_capped_drains rfl hs
  refine ⟨_, hs, ⟨by decide, (hpermits before 20 .signal _ (by simp)).1⟩, ?_, ?_⟩
  · obtain ⟨hactive, hphase⟩ := hdrains before 100 after 6099 (by decide) (by decide)
    exact ⟨hactive.trans (by decide), hphase.trans (by decide)⟩
  · obtain ⟨hactive, hphase⟩ := hdrains before 100 after 7000 (by decide) (by decide)
    exact ⟨hactive.trans (by decide), hphase.trans (by decide)⟩

end Server
end Intercept
