import Intercept.Proofs.Admission.Pattern
import Intercept.Proofs.Connection.Course

/-!
# Where the target comes from

A connection goes to the host of its request, to the server that its ClientHello names, or to the
place that it was headed for. What it sends decides which of them it is, never the place itself.
Only in the last case does the gate get to see how the place is written: an IPv4 destination that
shows up as an IPv4-mapped address is asked about under another name than the plain one.

* `Run.asked`: what the gate was asked about destinations, and its answers. `Run.way`: the way that
  was taken.
* `TargetSource`: what the target is made of, `TargetSource.On` on which way.
* `Sourced`: runs that differ in their destination and take their target from the same source.

Results:
* `Handler.viaTls_sourced`, `viaHttp_sourced`, `route_sourced`, `handle_sourced`: the source of a
  target does not depend on the destination.
* `Handler.route_blind`, `handle_blind`: on the opaque way it is the destination.
* `Handler.asked_respelled`: when the gate answers alike for both forms of an IPv4 destination.
-/

namespace Intercept

/-- The target that the gate is asked about in a step, with its answer. -/
def Step.asked? : Step → Option (Text × Admission)
  | .checkedDestination target answer => some (target, answer)
  | _ => none

/-- What the gate was asked about destinations, and what it answered. -/
def Run.asked (run : Run) : List (Text × Admission) := run.steps.filterMap (·.2.asked?)

@[simp]
theorem Run.asked_after (steps : List (Nat × Step)) (run : Run) :
    (run.after steps).asked = steps.filterMap (·.2.asked?) ++ run.asked :=
  List.filterMap_append

/-- The protocol that a step shows. -/
def Step.sniffed? : Step → Option Protocol
  | .sniffed p => some p
  | _ => none

/-- The way that a connection took: that of the protocol it showed, or the opaque one. -/
def Run.way (run : Run) : Protocol := (run.steps.findSome? (·.2.sniffed?)).getD .blind

/-- What the target of a connection is made of. -/
inductive TargetSource
  /-- The host that a request is meant for. -/
  | host (host : Text)
  /-- The server that a ClientHello names. -/
  | serverName (name : Text)
  /-- The place that the connection was headed for. -/
  | destination
deriving DecidableEq, Repr

namespace TargetSource

/-- The target of a connection that was headed for `dst`. -/
def target (dst : Socket) : TargetSource → Text
  | host h => Target.ofHost h
  | serverName name => (Target.ofServerName (some name) (some dst)).getD dst.render
  | destination => dst.render

/-- The sources of a way. -/
inductive On : Protocol → TargetSource → Prop
  | blind : On .blind destination
  | unnamed : On .tls destination
  | named {name : Text} (nonempty : name ≠ []) : On .tls (serverName name)
  | host (h : Text) : On .http (host h)

/-- Only as the source itself does a destination matter beyond its port. -/
theorem target_of_port {path : Protocol} {src : TargetSource} (hon : On path src)
    (hsrc : src ≠ destination) {dst dst' : Socket} (hport : dst'.port = dst.port) :
    src.target dst' = src.target dst := by
  cases hon with
  | blind => exact absurd rfl hsrc
  | unnamed => exact absurd rfl hsrc
  | host h => rfl
  | @named name nonempty =>
    have hname : (some name).filter (fun n => !n.isEmpty) = some name := by simp [nonempty]
    simp only [target, Target.ofServerName, hname, Option.map_some, hport]
    split_ifs
    · rfl
    · rfl

end TargetSource

/-- Runs for all destinations that take their target, if they get to one, from the same source. -/
inductive Sourced (gate : Gate) (path : Protocol) (run : Socket → Run) : Prop
  | never (asked : ∀ dst, (run dst).asked = [])
  | target (src : TargetSource) (on : src.On path) (asked : ∀ dst,
      (run dst).asked = [(src.target dst, gate.checkDestination (src.target dst))])

namespace Handler

variable (h : Handler) (gate : Gate) (limit now : Nat)

/-- Dialing asks the gate once, about the target. -/
theorem connect_asked {path : Protocol} {target : Text} {go : Nat → FarEnd → Run}
    (hgo : ∀ time far, (go time far).steps = []) :
    (h.connect gate limit now path target go).asked = [(target, gate.checkDestination target)] := by
  have hgo (time : Nat) (far : FarEnd) : (go time far).asked = [] := by
    rw [Run.asked, hgo]
    rfl
  unfold connect
  simp only
  split
  · rfl
  · split
    · rfl
    · split
      · rfl
      · rw [Run.asked_after, hgo]
        rfl

theorem tunnel_asked {path : Protocol} {target : Text} {stream : Replay} {sink : Sink} :
    (h.tunnel gate limit now path target stream sink).asked =
      [(target, gate.checkDestination target)] :=
  h.connect_asked gate limit now fun _ _ => rfl

theorem viaAddress_sourced {stream : Replay} {sink : Sink} :
    Sourced gate .blind fun dst => h.viaAddress gate limit now dst stream sink :=
  .target .destination .blind fun _ => h.tunnel_asked gate limit now

/-- The ClientHello decides whether there is a name to go by. -/
theorem viaTls_sourced {deadline : Nat} {stream : Replay} {sink : Sink} :
    Sourced gate .tls fun dst => h.viaTls gate limit deadline now dst stream sink := by
  unfold viaTls
  simp only
  split
  · refine .never fun _ => ?_
    split
    · rfl
    · rfl
  · exact .never fun _ => rfl
  · split
    · exact .never fun _ => rfl
    · rename_i name _
      cases hname : name.filter fun n => !n.isEmpty with
      | none =>
        refine .target .destination .unnamed fun dst => ?_
        have htarget : (Target.ofServerName name (some dst)).getD dst.render = dst.render := by
          simp [Target.ofServerName, hname]
        rw [htarget]
        exact h.tunnel_asked gate limit _
      | some n =>
        obtain ⟨rfl, hn⟩ := Option.filter_eq_some_iff.1 hname
        exact .target (.serverName n) (.named (by simpa using hn)) fun dst =>
          h.tunnel_asked gate limit _

/-- The request decides which host is asked for. -/
theorem viaHttp_sourced {deadline : Nat} {stream : Replay} {sink : Sink} :
    Sourced gate .http fun _ => h.viaHttp gate limit deadline now stream sink := by
  unfold viaHttp
  simp only
  split
  · refine .never fun _ => ?_
    split
    · rfl
    · rfl
  · exact .never fun _ => rfl
  · rename_i request _
    split
    · exact .never fun _ => rfl
    · rename_i host _
      exact .target (.host host) (.host host) fun _ =>
        h.connect_asked gate limit _ fun time far =>
          h.converse_steps gate limit time (Target.ofHost host) request _ sink far

end Handler

/-- Dialing shows no protocol. -/
theorem Course.not_sniffed {h : Handler} {gate : Gate} {client : Bytes} {path : Protocol}
    {run : Run} (hc : Course h gate client path run) (time : Nat) (p : Protocol) :
    (time, Step.sniffed p) ∉ run.steps := by
  cases hc with
  | stopped _ steps _ => simp [steps]
  | bypassed _ _ _ _ steps _ => simp [steps]
  | dialing _ _ _ _ steps _ => simp [steps]
  | refused _ _ _ _ _ _ _ steps _ => simp [steps]
  | connected _ _ _ _ _ _ _ _ steps _ => simp [steps]

theorem Course.way {h : Handler} {gate : Gate} {client : Bytes} {path : Protocol} {run : Run}
    (hc : Course h gate client path run) : run.way = .blind := by
  have hnone : run.steps.findSome? (·.2.sniffed?) = none := by
    rw [List.findSome?_eq_none_iff]
    rintro ⟨time, step⟩ hstep
    cases step with
    | sniffed p => exact absurd hstep (hc.not_sniffed time p)
    | _ => rfl
  rw [Run.way, hnone]
  rfl

/-- What goes before does not change what is asked about destinations. -/
theorem Sourced.after {gate : Gate} {path : Protocol} {run : Socket → Run}
    (hs : Sourced gate path run) {steps : Socket → List (Nat × Step)}
    (hsteps : ∀ dst, (steps dst).filterMap (·.2.asked?) = []) :
    Sourced gate path fun dst => (run dst).after (steps dst) := by
  cases hs with
  | never asked =>
    refine .never fun dst => ?_
    rw [Run.asked_after, hsteps, asked, List.nil_append]
  | target src on asked =>
    refine .target src on fun dst => ?_
    rw [Run.asked_after, hsteps, asked, List.nil_append]

/-- Of the gate only its answers about targets matter. -/
theorem Sourced.congr {gate gate' : Gate} {path : Protocol} {run : Socket → Run}
    (hs : Sourced gate' path run)
    (h : ∀ target, gate'.checkDestination target = gate.checkDestination target) :
    Sourced gate path run := by
  cases hs with
  | never asked => exact .never asked
  | target src on asked => exact .target src on fun dst => by rw [asked, h]

/-- Asking about a client does not change what is said about targets. -/
theorem Gate.checkDestination_checkClient (gate : Gate) (moment : Nat) (peer : Socket)
    (target : Text) :
    (gate.checkClient moment peer).2.checkDestination target = gate.checkDestination target := by
  unfold checkClient
  split
  · rfl
  · rfl

namespace Handler

variable (h : Handler) (gate : Gate) (limit now : Nat)

/-- **The first bytes decide which way is taken**, unless they are not looked at. -/
theorem route_sourced (c : Inbound) :
    ∃ path, Sourced gate path (fun dst => h.route gate limit now dst c) ∧
      ∀ dst, (h.route gate limit now dst c).asked ≠ [] →
        (h.route gate limit now dst c).way = path := by
  unfold route
  simp only
  split
  · exact ⟨.blind, h.viaAddress_sourced gate limit now,
      fun dst _ => (h.viaAddress_course gate limit now rfl).way⟩
  · split
    · exact ⟨.blind, .never fun _ => rfl, fun _ hasked => absurd rfl hasked⟩
    · split
      · exact ⟨.blind, .never fun _ => rfl, fun _ hasked => absurd rfl hasked⟩
      · generalize sniff (min limit (now + h.options.sniffTimeout)) now c.input = s
        refine ⟨s.protocol, Sourced.after ?_ fun _ => rfl, fun _ _ => rfl⟩
        cases s.protocol with
        | tls => exact h.viaTls_sourced gate limit s.time
        | http => exact h.viaHttp_sourced gate limit s.time
        | blind => exact h.viaAddress_sourced gate limit s.time

/-- On the opaque way the target is the destination. -/
theorem route_blind {c : Inbound} {dst : Socket} (hblind : h.options.sniffing = false ∨
      ∃ time, (time, Step.sniffed .blind) ∈ (h.route gate limit now dst c).steps) :
    (h.route gate limit now dst c).asked = [(dst.render, gate.checkDestination dst.render)] := by
  unfold route at hblind ⊢
  simp only at hblind ⊢
  by_cases hlook : h.options.sniffing = false
  · rw [if_pos (by simp [hlook])]
    exact h.tunnel_asked gate limit now
  · rw [if_neg (by simp [hlook])] at hblind ⊢
    obtain ⟨time, hstep⟩ := hblind.resolve_left hlook
    split at hstep
    · exact absurd hstep List.not_mem_nil
    · rename_i hend
      rw [if_neg hend]
      split at hstep
      · exact absurd hstep List.not_mem_nil
      · rename_i hlate
        rw [if_neg hlate]
        generalize sniff (min limit (now + h.options.sniffTimeout)) now c.input = s at hstep ⊢
        cases hp : s.protocol with
        | tls =>
          simp only [hp, Run.steps_after, List.singleton_append, List.mem_cons] at hstep
          obtain heq | hlater := hstep
          · cases heq
          · exact absurd hlater ((h.viaTls_course gate limit s.time rfl).not_sniffed time .blind)
        | http =>
          simp only [hp, Run.steps_after, List.singleton_append, List.mem_cons] at hstep
          obtain heq | hlater := hstep
          · cases heq
          · exact absurd hlater ((h.viaHttp_course gate limit s.time rfl).not_sniffed time .blind)
        | blind => exact h.tunnel_asked gate limit s.time

/-- A connection whose client may connect is routed by what the resolver says. -/
theorem handle_fixed {moment : Nat} {c : Inbound} (dst : Socket)
    (hallowed : (gate.checkClient moment c.peer).1 = .allow) :
    { h with resolver := .fixed dst }.handle gate moment limit now c =
      (h.route (gate.checkClient moment c.peer).2 limit now dst c).after
        [(now, .checkedClient .allow), (now, .resolved (.ok dst))] := by
  unfold handle
  simp only [hallowed]
  rfl

/-- **What a connection sends decides where its target comes from**, whatever it was headed for. -/
theorem handle_sourced (moment : Nat) (c : Inbound) :
    let run (dst : Socket) : Run :=
      { h with resolver := .fixed dst }.handle gate moment limit now c
    ∃ path, Sourced gate path run ∧ ∀ dst, (run dst).asked ≠ [] → (run dst).way = path := by
  intro run
  by_cases hlimited : (gate.checkClient moment c.peer).1 = .rateLimited
  · have hnever (dst : Socket) : (run dst).asked = [] := by
      simp only [run, handle, hlimited, if_true]
      rfl
    exact ⟨.blind, .never hnever, fun dst hasked => absurd (hnever dst) hasked⟩
  · have hallowed := Gate.checkClient_allow hlimited
    have hroute (dst : Socket) := h.handle_fixed gate limit now dst hallowed
    obtain ⟨path, hsourced, hway⟩ := h.route_sourced (gate.checkClient moment c.peer).2 limit now c
    simp only [run, funext hroute]
    have hsame := hsourced.congr (gate.checkDestination_checkClient moment c.peer)
    exact ⟨path, hsame.after fun _ => rfl, hway⟩

/-- A client that may connect and takes the opaque way goes to its destination. -/
theorem handle_blind {moment : Nat} {c : Inbound} {dst : Socket}
    (hblind :
      ((gate.checkClient moment c.peer).1 = .allow ∧ h.options.sniffing = false) ∨
        ∃ time, (time, Step.sniffed .blind) ∈
          ({ h with resolver := .fixed dst }.handle gate moment limit now c).steps) :
    ({ h with resolver := .fixed dst }.handle gate moment limit now c).asked =
      [(dst.render, gate.checkDestination dst.render)] := by
  by_cases hlimited : (gate.checkClient moment c.peer).1 = .rateLimited
  · simp [handle, hlimited] at hblind
  · have hallowed := Gate.checkClient_allow hlimited
    rw [h.handle_fixed gate limit now dst hallowed] at hblind ⊢
    have hroute : h.options.sniffing = false ∨ ∃ time, (time, Step.sniffed .blind) ∈
        (h.route (gate.checkClient moment c.peer).2 limit now dst c).steps := by
      simpa [hallowed] using hblind
    rw [Run.asked_after, h.route_blind _ limit now hroute, gate.checkDestination_checkClient]
    rfl

/-- **When both forms of an IPv4 destination are judged alike.** A connection that gets to a target
takes it from its request, from its ClientHello or from its destination, and on the opaque way
always from its destination. In the first two cases the gate is asked the same about both forms. In
the last it is asked about the form itself, and answers alike exactly when its list agrees on
both. -/
theorem asked_respelled (moment : Nat) (c : Inbound) (q : Ipv4) (port : UInt16) :
    let run (dst : Socket) : Run :=
      { h with resolver := .fixed dst }.handle gate moment limit now c
    let plain : Socket := ⟨.v4 q, port, 0⟩
    let mapped : Socket := ⟨.v6 (.ofIpv4 q), port, 0⟩
    ((∀ dst, (run dst).asked = []) ∨
      ∃ src : TargetSource,
        (∀ dst, src.On (run dst).way ∧
          (run dst).asked = [(src.target dst, gate.checkDestination (src.target dst))]) ∧
        (src ≠ .destination → (run mapped).asked = (run plain).asked) ∧
        (src = .destination →
          ((run mapped).asked.map (·.2) = (run plain).asked.map (·.2) ↔
            ∀ list, gate.bypass = some list → list.Agrees q port))) ∧
      ∀ dst, ((gate.checkClient moment c.peer).1 = .allow ∧ h.options.sniffing = false) ∨
          (∃ time, (time, Step.sniffed .blind) ∈ (run dst).steps) →
        (run dst).asked = [(dst.render, gate.checkDestination dst.render)] := by
  intro run plain mapped
  refine ⟨?_, fun dst hblind => h.handle_blind gate limit now hblind⟩
  obtain ⟨path, hsourced, hway⟩ : ∃ path, Sourced gate path run ∧
      ∀ dst, (run dst).asked ≠ [] → (run dst).way = path :=
    h.handle_sourced gate limit now moment c
  cases hsourced with
  | never asked => exact .inl asked
  | target src on asked =>
    have hon (dst : Socket) : src.On (run dst).way := by
      rw [hway dst (by rw [asked]; exact List.cons_ne_nil _ _)]
      exact on
    refine .inr ⟨src, fun dst => ⟨hon dst, asked dst⟩, fun hsrc => ?_, ?_⟩
    · have htarget : src.target mapped = src.target plain := TargetSource.target_of_port on hsrc rfl
      rw [asked, asked, htarget]
    · rintro rfl
      rw [asked, asked, List.map_singleton, List.map_singleton, List.singleton_inj]
      exact gate.checkDestination_respelled q port

/-- A connection to a listed address is dropped, unless the address shows up in its mapped form. -/
theorem asked_respelled_differ :
    ¬ ∀ (h : Handler) (patterns : List Text) (whitelist : Bool) (moment limit now : Nat)
      (c : Inbound) (q : Ipv4) (port : UInt16), h.options.sniffing = false →
        let run (dst : Socket) : Run :=
          { h with resolver := .fixed dst }.handle
            { bypass := some (.ofPatterns patterns whitelist) } moment limit now c
        (run ⟨.v6 (.ofIpv4 q), port, 0⟩).asked.map (·.2) =
          (run ⟨.v4 q, port, 0⟩).asked.map (·.2) := by
  intro halike
  let h : Handler :=
    { resolver := .localAddress
      dialer := fun _ target => { delay := 0, result := .error (.timeout target) }
      turns := fun _ => .toServer
      options := { sniffing := false } }
  let c : Inbound :=
    { peer := ⟨.v4 ⟨192, 0, 2, 9⟩, 4000, 0⟩, near := ⟨.v4 ⟨10, 0, 0, 1⟩, 443, 0⟩
      input := .ofSource {} }
  have hlisted := halike h ["10.0.0.1:443".toList] false 0 60000 0 c ⟨10, 0, 0, 1⟩ 443 rfl
  exact absurd hlisted (by decide +kernel)

end Handler
end Intercept
