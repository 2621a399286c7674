import Intercept.Proofs.Connection.Course

/-!
# Nothing is dialed that was not admitted

The three ways to a target compute it differently, and each can end early at its own places. All of
them ask the gate about the very text that they dial, and before they dial it.

* `Run.Admitted`: what went before a dialing, and what comes of it.

Results:
* `Course.admitted`, `Handled.admitted`: every dialing was admitted.
* `Handler.handle_dialer`: a run depends on nothing that the dialer says except where it was asked.
* `Handler.handle_rateLimited`: a client over its limit is dropped before anything else happens.
* `Handler.handle_admission`: the gate decides what is dialed.
-/

namespace Intercept

/-- A dialing of `target` was admitted. `answer` is what the gate said about the client, `before`
are the steps up to the dialing and `after` those behind it. -/
structure Run.Admitted (h : Handler) (gate : Gate) (answer : Admission) (c : Inbound) (run : Run)
    (before after : List (Nat × Step)) (network target : Text) : Prop where
  network : network = tcp
  client : answer = .allow ∧ ∃ time, (time, Step.checkedClient .allow) ∈ before
  resolved : ∃ dst, h.resolver c.peer c.near = .ok dst ∧
    ∃ time, (time, Step.resolved (.ok dst)) ∈ before
  destination : gate.checkDestination target = .allow ∧
    ∃ time, (time, Step.checkedDestination target .allow) ∈ before
  once : ∀ time network' target', (time, Step.dialing network' target') ∉ before ++ after
  reported : ∀ outcome, run.fate = .ended outcome → ∃ path, outcome = .completed path target

/-- Where a list is split behind a front piece that does not hold the middle. -/
theorem splits_behind {α : Type} (front : List α) {rest before after : List α} {a : α}
    (h : front ++ rest = before ++ a :: after) (ha : a ∉ front) :
    ∃ between, before = front ++ between ∧ rest = between ++ a :: after := by
  rcases List.append_eq_append_iff.1 h with ⟨between, hb, hr⟩ | ⟨between, hf, hr⟩
  · exact ⟨between, hb, hr⟩
  · cases between with
    | nil => exact ⟨[], by simpa using hf.symm, by simpa using hr.symm⟩
    | cons x between =>
      rw [List.cons_append, List.cons.injEq] at hr
      exact absurd (by rw [hf, hr.1]; simp) ha

/-! ## What is dialed -/

section
variable {h : Handler} {gate : Gate} {client : Bytes} {path : Protocol} {run : Run}
  {before after : List (Nat × Step)} {time : Nat} {network target : Text}

/-- Behind the gate's answer a target is dialed, and nothing else later: there is one place to split
the steps at a dialing. -/
theorem split_at_dialing {now : Nat} {answer : Admission} {target' : Text}
    {rest : List (Nat × Step)} (hrest : ∀ t n x, (t, Step.dialing n x) ∉ rest)
    (hs : (now, Step.checkedDestination target' answer) :: (now, .dialing tcp target') :: rest =
      before ++ (time, .dialing network target) :: after) :
    before = [(now, .checkedDestination target' answer)] ∧ network = tcp ∧ target = target' ∧
      after = rest := by
  obtain ⟨between, rfl, hr⟩ :=
    splits_behind [(now, Step.checkedDestination target' answer)] hs (by simp)
  cases between with
  | nil =>
    simp only [List.nil_append, List.cons.injEq, Prod.mk.injEq, Step.dialing.injEq] at hr
    obtain ⟨⟨-, rfl, rfl⟩, rfl⟩ := hr
    exact ⟨rfl, rfl, rfl, rfl⟩
  | cons x between =>
    rw [List.cons_append, List.cons.injEq] at hr
    exact absurd (by rw [hr.2]; simp) (hrest time network target)

/-- On any course a dialing comes right behind the gate's answer to its target, and only once. -/
theorem Course.admitted (hc : Course h gate client path run)
    (hs : run.steps = before ++ (time, .dialing network target) :: after) :
    network = tcp ∧ gate.checkDestination target = .allow ∧
      (∃ time, before = [(time, .checkedDestination target .allow)]) ∧
      (∀ time network' target', (time, Step.dialing network' target') ∉ after) ∧
      ∀ outcome, run.fate = .ended outcome → outcome = .completed path target := by
  cases hc with
  | stopped quiet steps fate => simp [steps] at hs
  | bypassed time target answer quiet steps fate => simp [steps, List.cons_eq_append_iff] at hs
  | dialing time target answer quiet steps fate =>
    rw [steps] at hs
    obtain ⟨rfl, rfl, rfl, rfl⟩ := split_at_dialing (by simp) hs
    exact ⟨rfl, answer, ⟨_, rfl⟩, by simp, by simp [fate]⟩
  | refused time later target e answer quiet result steps fate =>
    rw [steps] at hs
    obtain ⟨rfl, rfl, rfl, rfl⟩ := split_at_dialing (by simp) hs
    exact ⟨rfl, answer, ⟨_, rfl⟩, by simp, by simp [fate]⟩
  | connected time later target far answer result carries relayed steps fate =>
    rw [steps] at hs
    obtain ⟨rfl, rfl, rfl, rfl⟩ := split_at_dialing (by simp) hs
    exact ⟨rfl, answer, ⟨_, rfl⟩, by simp, fate⟩

/-- **Every dialing was admitted**: the client, the place it was headed for and the target, each
before. -/
theorem Handled.admitted {answer : Admission} {now : Nat} {c : Inbound}
    (hh : Handled h gate answer now c run)
    (hs : run.steps = before ++ (time, .dialing network target) :: after) :
    run.Admitted h gate answer c before after network target := by
  cases hh with
  | rateLimited denied eq =>
    subst eq
    simp [List.cons_eq_append_iff] at hs
  | unresolved e allowed result quiet steps fate => simp [steps, List.cons_eq_append_iff] at hs
  | @resolved run dst path seen allowed result course looked =>
    have hno : ∀ t n x, (t, Step.dialing n x) ∉
        (now, Step.checkedClient .allow) :: (now, .resolved (.ok dst)) :: seen := by
      rcases looked with ⟨rfl, -⟩ | ⟨t, rfl⟩ <;> simp
    obtain ⟨between, rfl, hrun⟩ := splits_behind _ hs (hno _ _ _)
    obtain ⟨hn, hd, ⟨t, rfl⟩, honce, hfate⟩ := course.admitted hrun
    refine ⟨hn, ⟨allowed, now, ?_⟩, ⟨dst, result, now, ?_⟩, ⟨hd, t, ?_⟩, fun t n x => ?_,
      fun outcome ho => ⟨path, hfate outcome ho⟩⟩
    · simp
    · simp
    · simp
    · have := hno t n x
      have := honce t n x
      simp_all

/-- What the gate says about a target is what its list says, and a target that it does not let
through is the last of the course. -/
theorem Course.checked {answer : Admission} (hc : Course h gate client path run)
    (hm : (time, Step.checkedDestination target answer) ∈ run.steps) :
    answer = gate.checkDestination target ∧
      (answer = .bypassed → run.fate = .ended (.bypassed path target) ∧
        ∀ time network target', (time, Step.dialing network target') ∉ run.steps) := by
  cases hc with
  | stopped quiet steps fate => simp [steps] at hm
  | bypassed time target answer quiet steps fate =>
    obtain ⟨-, rfl, rfl⟩ := by simpa [steps] using hm
    exact ⟨answer.symm, fun _ => ⟨fate, by simp [steps]⟩⟩
  | dialing time target answer quiet steps fate =>
    obtain ⟨-, rfl, rfl⟩ := by simpa [steps] using hm
    exact ⟨answer.symm, nofun⟩
  | refused time later target e answer quiet result steps fate =>
    obtain ⟨-, rfl, rfl⟩ := by simpa [steps] using hm
    exact ⟨answer.symm, nofun⟩
  | connected time later target far answer result carries relayed steps fate =>
    obtain ⟨-, rfl, rfl⟩ := by simpa [steps] using hm
    exact ⟨answer.symm, nofun⟩

theorem Handled.checked {answer said : Admission} {now : Nat} {c : Inbound}
    (hh : Handled h gate answer now c run)
    (hm : (time, Step.checkedDestination target said) ∈ run.steps) :
    said = gate.checkDestination target ∧
      (said = .bypassed → (∃ path, run.fate = .ended (.bypassed path target)) ∧
        ∀ time network target', (time, Step.dialing network target') ∉ run.steps) := by
  cases hh with
  | rateLimited denied eq => simp [eq] at hm
  | unresolved e allowed result quiet steps fate => simp [steps] at hm
  | @resolved run dst path seen allowed result course looked =>
    have hno : ∀ t x a, (t, Step.checkedDestination x a) ∉ seen := by
      rcases looked with ⟨rfl, -⟩ | ⟨t, rfl⟩ <;> simp
    obtain ⟨hsaid, hby⟩ := course.checked (by simpa [hno] using hm)
    refine ⟨hsaid, fun hb => ⟨⟨path, (hby hb).1⟩, fun t n x => ?_⟩⟩
    have := (hby hb).2 t n x
    rcases looked with ⟨rfl, -⟩ | ⟨t', rfl⟩ <;> simp [this]

/-- Without a dialing nothing goes either way. -/
theorem Handled.quiet {answer : Admission} {now : Nat} {c : Inbound}
    (hh : Handled h gate answer now c run)
    (hno : ∀ time network target, (time, Step.dialing network target) ∉ run.steps) :
    run.toServer = [] ∧ run.toClient = [] := by
  cases hh with
  | rateLimited denied eq => exact eq ▸ ⟨rfl, rfl⟩
  | unresolved e allowed result quiet steps fate => exact ⟨quiet.toServer, quiet.toClient⟩
  | @resolved run dst path seen allowed result course looked =>
    cases course with
    | stopped quiet steps fate => exact ⟨quiet.toServer, quiet.toClient⟩
    | bypassed time target answer quiet steps fate => exact ⟨quiet.toServer, quiet.toClient⟩
    | dialing time target answer quiet steps fate => exact ⟨quiet.toServer, quiet.toClient⟩
    | refused time later target e answer quiet result steps fate =>
      exact ⟨quiet.toServer, quiet.toClient⟩
    | connected time later target far answer result carries relayed steps fate =>
      exact absurd (by simp [steps]) (hno time tcp target)

end

/-! ## What a run depends on -/

namespace Handler

variable {h : Handler} {gate : Gate} {moment limit now : Nat} {c : Inbound} {dialer : Dialer}

/-- A client over its limit is dropped at once: nothing is asked of the resolver or the dialer, and
nothing of its stream is read. -/
theorem handle_rateLimited (hr : (gate.checkClient moment c.peer).1 = .rateLimited) :
    h.handle gate moment limit now c =
      Run.after [(now, .checkedClient .rateLimited)]
        { fate := .ended .rateLimited, time := now,
          gate := (gate.checkClient moment c.peer).2 } := by
  unfold handle
  simp only [hr, if_true]

/-- Dialing depends on nothing but the dialer's answer to what it is asked. -/
theorem connect_dialer {path : Protocol} {target : Text} {go : Nat → FarEnd → Run}
    (hd : ∀ t n x, (t, Step.dialing n x) ∈ (h.connect gate limit now path target go).steps →
      dialer n x = h.dialer n x) :
    { h with dialer := dialer }.connect gate limit now path target go =
      h.connect gate limit now path target go := by
  by_cases hb : gate.checkDestination target = .bypassed
  · unfold connect
    simp only [if_pos hb]
  · have hasked : (now, Step.dialing tcp target) ∈
        (h.connect gate limit now path target go).steps := by
      unfold connect
      simp only [if_neg hb]
      split
      · simp
      · split <;> simp
    have ht := hd _ _ _ hasked
    unfold connect
    simp only [if_neg hb, ht]

theorem viaAddress_dialer {dst : Socket} {stream : Replay} {sink : Sink}
    (hd : ∀ t n x, (t, Step.dialing n x) ∈ (h.viaAddress gate limit now dst stream sink).steps →
      dialer n x = h.dialer n x) :
    { h with dialer := dialer }.viaAddress gate limit now dst stream sink =
      h.viaAddress gate limit now dst stream sink := connect_dialer hd

theorem viaTls_dialer {deadline : Nat} {dst : Socket} {stream : Replay} {sink : Sink}
    (hd : ∀ t n x, (t, Step.dialing n x) ∈
        (h.viaTls gate limit deadline now dst stream sink).steps → dialer n x = h.dialer n x) :
    { h with dialer := dialer }.viaTls gate limit deadline now dst stream sink =
      h.viaTls gate limit deadline now dst stream sink := by
  unfold viaTls at hd ⊢
  simp only at hd ⊢
  split
  · rfl
  · rfl
  · split
    · rfl
    · rename_i u hu _ name hn
      simp only [hu, hn] at hd
      exact connect_dialer hd

theorem viaHttp_dialer {deadline : Nat} {stream : Replay} {sink : Sink}
    (hd : ∀ t n x, (t, Step.dialing n x) ∈
        (h.viaHttp gate limit deadline now stream sink).steps → dialer n x = h.dialer n x) :
    { h with dialer := dialer }.viaHttp gate limit deadline now stream sink =
      h.viaHttp gate limit deadline now stream sink := by
  unfold viaHttp at hd ⊢
  simp only at hd ⊢
  split
  · rfl
  · rfl
  · split
    · rfl
    · rename_i request hr _ host hh
      simp only [hr, hh] at hd
      exact connect_dialer hd

theorem route_dialer {dst : Socket}
    (hd : ∀ t n x, (t, Step.dialing n x) ∈ (h.route gate limit now dst c).steps →
      dialer n x = h.dialer n x) :
    { h with dialer := dialer }.route gate limit now dst c = h.route gate limit now dst c := by
  unfold route at hd ⊢
  simp only at hd ⊢
  by_cases hlook : (!h.options.sniffing) = true
  · simp only [if_pos hlook] at hd ⊢
    exact viaAddress_dialer hd
  by_cases hend : endOfTime ≤ now + h.options.sniffTimeout
  · simp only [if_neg hlook, if_pos hend]
  generalize sniff (min limit (now + h.options.sniffTimeout)) now c.input = s at hd ⊢
  by_cases hlate : s.timedOut = true ∧ limit < now + h.options.sniffTimeout
  · simp only [if_neg hlook, if_neg hend, if_pos hlate]
  simp only [if_neg hlook, if_neg hend, if_neg hlate, Run.steps_after] at hd ⊢
  have hway := fun t n x hm => hd t n x (List.mem_append_right _ hm)
  cases hp : s.protocol with
  | tls =>
    simp only [hp] at hway ⊢
    rw [viaTls_dialer hway]
  | http =>
    simp only [hp] at hway ⊢
    rw [viaHttp_dialer hway]
  | blind =>
    simp only [hp] at hway ⊢
    rw [viaAddress_dialer hway]

/-- **A run depends on the dialer only where it was asked.** -/
theorem handle_dialer
    (hd : ∀ t n x, (t, Step.dialing n x) ∈ (h.handle gate moment limit now c).steps →
      dialer n x = h.dialer n x) :
    { h with dialer := dialer }.handle gate moment limit now c =
      h.handle gate moment limit now c := by
  unfold handle at hd ⊢
  generalize gate.checkClient moment c.peer = asked at hd ⊢
  obtain ⟨answer, gate⟩ := asked
  simp only at hd ⊢
  by_cases hr : answer = .rateLimited
  · simp only [if_pos hr]
  simp only [if_neg hr, Run.steps_after] at hd ⊢
  cases hdst : h.resolver c.peer c.near with
  | error e => rfl
  | ok dst =>
    simp only [hdst, Run.steps_after] at hd ⊢
    rw [route_dialer fun t n x hm =>
      hd t n x (List.mem_append_right _ (List.mem_append_right _ hm))]

/-! ## The gate decides -/

/-- **The gate decides what is dialed.** Every dialing was admitted, and it is the only one. A
client over its limit is dropped, whatever it sends and whatever the rest of the handler is. A
target that the gate does not let through is what the outcome reports, and nothing is dialed. In
every run without a dialing nothing goes either way. The steps tell all that the dialer was asked:
one that answers the same there makes the same run. -/
theorem handle_admission (h : Handler) (gate : Gate) (moment limit now : Nat) (c : Inbound) :
    let run := h.handle gate moment limit now c
    let asked := gate.checkClient moment c.peer
    (∀ before after time network target,
      run.steps = before ++ (time, .dialing network target) :: after →
        run.Admitted h asked.2 asked.1 c before after network target) ∧
      (asked.1 = .rateLimited →
        run.fate = .ended .rateLimited ∧ run.steps = [(now, .checkedClient .rateLimited)] ∧
          ∀ (h' : Handler) (c' : Inbound), c'.peer = c.peer →
            h'.handle gate moment limit now c' = run) ∧
      (∀ time target answer, (time, Step.checkedDestination target answer) ∈ run.steps →
        answer = asked.2.checkDestination target ∧
          (answer = .bypassed → (∃ path, run.fate = .ended (.bypassed path target)) ∧
            ∀ time network target', (time, Step.dialing network target') ∉ run.steps)) ∧
      ((∀ time network target, (time, Step.dialing network target) ∉ run.steps) →
        run.toServer = [] ∧ run.toClient = []) ∧
      ∀ dialer : Dialer, (∀ time network target, (time, Step.dialing network target) ∈ run.steps →
        dialer network target = h.dialer network target) →
          { h with dialer := dialer }.handle gate moment limit now c = run := by
  intro run asked
  have hh : Handled h asked.2 asked.1 now c run := h.handle_handled gate moment limit now c
  refine ⟨fun _ _ _ _ _ hs => hh.admitted hs, fun hr => ?_, fun t x a hm => ?_, fun hno => ?_,
    fun dialer hd => handle_dialer hd⟩
  · have hrun : run = Run.after [(now, .checkedClient .rateLimited)] _ := handle_rateLimited hr
    refine ⟨by rw [hrun]; rfl, by rw [hrun]; rfl, fun h' c' hc => ?_⟩
    rw [hrun, handle_rateLimited (by rw [hc]; exact hr), hc]
  · exact hh.checked hm
  · exact hh.quiet hno

end Handler
end Intercept
