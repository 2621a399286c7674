import Intercept.Proofs.Admission.RateLimit
import Intercept.Proofs.Connection.Deadline
import Intercept.Proofs.Launch

/-!
# What settings can crash

Two settings are used where a number that is too large ends in a crash and not in an error: the
moment up to which first bytes are looked at must be one that the clock can tell, and there must be
as many permits as the cap asks for. No check of the settings looks at either limit.

* `Run.FindsDestination`: the client was let in and the place it was headed for was found.
* `Accepted`, `Wiring.handleAll`: connections one behind the other, as a start handles them.
* `Wiring.Survives`: no connection up to a moment crashes.
* `Config.Permitted`, `Config.Timely`: what the permits and the clock ask of settings.

Results:
* `Handler.handle_crashed_iff`: which connections crash.
* `Wiring.handleAll_crashed`: which ones of a sequence do.
* `Server.start_eq_none_iff`: which servers do not start.
* `Launch.withMetrics_started_iff`: which valid settings start on a system that refuses nothing.
* `crashes_of_validate`: all that validated settings can crash, and when.
-/

namespace Intercept

/-! ## One connection -/

namespace Run

@[simp]
theorem fate_after (steps : List (Nat × Step)) (r : Run) : (r.after steps).fate = r.fate := rfl

/-- The client was let in and the place it was headed for was found. -/
def FindsDestination (r : Run) : Prop := ∃ time dst, (time, Step.resolved (.ok dst)) ∈ r.steps

end Run

namespace Handler

variable (h : Handler) (gate : Gate) (limit now : Nat) {deadline : Nat} {stream : Replay}
  {sink : Sink}

/-- Dialing crashes only what goes on behind it. -/
theorem connect_survives {path : Protocol} {target : Text} {go : Nat → FarEnd → Run}
    (hgo : ∀ time far, (go time far).fate ≠ .crashed) :
    (h.connect gate limit now path target go).fate ≠ .crashed := by
  unfold connect
  simp only
  split
  · exact nofun
  · split
    · exact nofun
    · split
      · exact nofun
      · exact hgo _ _

theorem transport_survives (outcome : Outcome) (client : Replay) (clientSink : Sink)
    (server : Replay) (serverSink : Sink) :
    (h.transport gate limit now outcome client clientSink server serverSink).fate ≠ .crashed := by
  unfold transport
  simp only
  split
  · exact nofun
  · exact nofun

theorem tunnel_survives (path : Protocol) (target : Text) :
    (h.tunnel gate limit now path target stream sink).fate ≠ .crashed :=
  h.connect_survives gate limit now fun _ _ => h.transport_survives gate limit _ _ _ _ _ _

theorem viaTls_survives (dst : Socket) :
    (h.viaTls gate limit deadline now dst stream sink).fate ≠ .crashed := by
  unfold viaTls
  simp only
  split
  · split
    · exact nofun
    · exact nofun
  · exact nofun
  · split
    · exact nofun
    · exact h.tunnel_survives gate limit _ _ _

theorem converse_survives (target : Text) (request : Http.Request) (client : Http.Reader)
    (far : FarEnd) :
    (h.converse gate limit now target request client sink far).fate ≠ .crashed := by
  unfold converse
  simp only
  split
  · exact Fate.noConfusion
  · exact Fate.noConfusion
  · exact Fate.noConfusion
  · exact h.transport_survives gate limit _ _ _ _ _ _

theorem viaHttp_survives : (h.viaHttp gate limit deadline now stream sink).fate ≠ .crashed := by
  unfold viaHttp
  simp only
  split
  · split
    · exact nofun
    · exact nofun
  · exact nofun
  · split
    · exact nofun
    · exact h.connect_survives gate limit _ fun _ _ => h.converse_survives gate limit _ _ _ _ _

/-- Behind the resolver a connection crashes exactly when its first bytes are to be looked at up to
a moment that the clock cannot tell. -/
theorem route_crashed_iff (dst : Socket) (c : Inbound) :
    (h.route gate limit now dst c).fate = .crashed ↔
      h.options.sniffing = true ∧ endOfTime ≤ now + h.options.sniffTimeout := by
  unfold route
  simp only
  cases hsniffing : h.options.sniffing with
  | false =>
    refine iff_of_false ?_ nofun
    exact h.tunnel_survives gate limit now _ _
  | true =>
    by_cases hend : endOfTime ≤ now + h.options.sniffTimeout
    · simp [hend]
    · refine iff_of_false ?_ fun hboth => hend hboth.2
      simp only [Bool.not_true, Bool.false_eq_true, if_false, if_neg hend]
      split
      · exact nofun
      · rw [Run.fate_after]
        split
        · exact h.viaTls_survives gate limit _ dst
        · exact h.viaHttp_survives gate limit _
        · exact h.tunnel_survives gate limit _ _ _

/-- The destination is found of the clients that are let in, if the resolver knows it. -/
theorem handle_findsDestination_iff (moment : Nat) (c : Inbound) :
    (h.handle gate moment limit now c).FindsDestination ↔
      (gate.checkClient moment c.peer).1 = .allow ∧ ∃ dst, h.resolver c.peer c.near = .ok dst := by
  constructor
  · rintro ⟨t, dst, hm⟩
    obtain ⟨-, hallow, hdst⟩ := (h.handle_handled gate moment limit now c).answered hm
    exact ⟨hallow, dst, hdst⟩
  · rintro ⟨hallow, dst, hdst⟩
    refine ⟨now, dst, ?_⟩
    simp [handle, hallow, hdst]

/-- **A connection crashes** exactly when its destination was found and its first bytes are to be
looked at up to a moment that the clock cannot tell. -/
theorem handle_crashed_iff (moment : Nat) (c : Inbound) :
    (h.handle gate moment limit now c).fate = .crashed ↔
      (h.handle gate moment limit now c).FindsDestination ∧ h.options.sniffing = true ∧
        endOfTime ≤ now + h.options.sniffTimeout := by
  rw [handle_findsDestination_iff]
  unfold handle
  simp only [Run.fate_after]
  by_cases hdenied : (gate.checkClient moment c.peer).1 = .rateLimited
  · simp [hdenied]
  · have hallow := Gate.checkClient_allow hdenied
    simp only [hallow, true_and]
    cases h.resolver c.peer c.near with
    | error e => simp
    | ok dst => simp [h.route_crashed_iff]

end Handler

/-! ## One connection behind the other -/

/-- A connection that was accepted: when it came in, and when it is dropped at the latest. -/
structure Accepted where
  limit : Nat
  now : Nat
  inbound : Inbound

namespace Wiring

/-- Handles connections in the order in which the gate is asked about their clients. -/
def handleAll : Wiring → List Accepted → List Run
  | _, [] => []
  | w, a :: rest =>
    let (run, w) := w.handle a.limit a.now a.inbound
    run :: w.handleAll rest

/-- No connection that comes in by `latest` crashes, whatever was handled before it. -/
def Survives (latest : Nat) (w : Wiring) : Prop :=
  ∀ accepted : List Accepted, (∀ a ∈ accepted, a.now ≤ latest) →
    ∀ run ∈ w.handleAll accepted, run.fate ≠ .crashed

variable {w : Wiring} {latest : Nat}

/-- **Which connections of a sequence crash.** The switches and deadlines are those of the start for
each of them: a connection leaves nothing behind but the gate and the metrics. -/
theorem handleAll_crashed (w : Wiring) (accepted : List Accepted) :
    List.Forall₂
      (fun a run => run.fate = .crashed ↔ run.FindsDestination ∧
        w.handler.options.sniffing = true ∧
          endOfTime ≤ a.now + w.handler.options.sniffTimeout)
      accepted (w.handleAll accepted) := by
  induction accepted generalizing w with
  | nil => exact .nil
  | cons a rest ih =>
    exact .cons (w.handler.handle_crashed_iff w.gate a.limit a.now _ a.inbound)
      (ih (w.handle a.limit a.now a.inbound).2)

/-- Nothing crashes as long as the clock can tell every moment up to which first bytes are looked
at. -/
theorem survives_of_deadline
    (hdeadline : w.handler.options.sniffing = true →
      latest + w.handler.options.sniffTimeout < endOfTime) : w.Survives latest := by
  intro accepted hnow run hrun hcrash
  obtain ⟨i, hi, rfl⟩ := List.getElem_of_mem hrun
  have hruns := w.handleAll_crashed accepted
  have hi' : i < accepted.length := hruns.length_eq ▸ hi
  obtain ⟨-, hsniffing, hend⟩ := (hruns.get hi' hi).1 hcrash
  have := hnow _ (List.get_mem accepted ⟨i, hi'⟩)
  have := hdeadline hsniffing
  omega

/-- A client that is let in, and whose destination is known, comes to tell if the clock cannot. -/
theorem Survives.deadline (h : w.Survives latest) {c : Inbound}
    (hallow : (w.gate.checkClient (latest * nanosPerMilli) c.peer).1 = .allow)
    (hdst : ∃ dst, w.handler.resolver c.peer c.near = .ok dst)
    (hsniffing : w.handler.options.sniffing = true) :
    latest + w.handler.options.sniffTimeout < endOfTime := by
  by_contra hend
  refine h [⟨latest, latest, c⟩] (by simp) _ List.mem_cons_self ?_
  refine (w.handler.handle_crashed_iff w.gate latest latest _ c).2 ⟨?_, hsniffing, by omega⟩
  exact (w.handler.handle_findsDestination_iff w.gate latest latest _ c).2 ⟨hallow, hdst⟩

end Wiring

/-! ## Settings -/

namespace Config

/-- There are as many permits as the settings ask for. -/
def Permitted (c : Config) : Prop :=
  ∀ n, c.maxConnections = some n → n.toNat ≤ Server.mostPermits

/-- The clock can tell every moment up to which the first bytes are looked at of connections that
come in by `latest`. -/
def Timely (latest : Nat) (c : Config) : Prop :=
  c.sniffing = true → latest + millis c.timeouts.sniff < endOfTime

end Config

/-- A server does not start exactly when its cap is more than there can be permits. -/
theorem Server.start_eq_none_iff {limits : ServeLimits} :
    Server.start limits = none ↔ ∃ n, limits.cap = some n ∧ Server.mostPermits < n := by
  unfold Server.start
  cases limits.cap with
  | none => simp
  | some n => simp

namespace Launch

variable {host : Host} {c : Config} {w : Wiring} {server : Server}

/-- Settings ask for too many permits exactly when no server starts with them. -/
theorem start_limits_eq_none_iff : Server.start (limits c) = none ↔ ¬c.Permitted := by
  rw [Server.start_eq_none_iff, Config.Permitted]
  simp [limits]

/-- A start that comes to its end has started a server. -/
theorem listen_started {w' : Wiring} {bound : List Socket} {addresses : List Text}
    (h : (listen host c w' bound addresses).result = .ok (w, server)) :
    Server.start (limits c) = some server := by
  induction addresses generalizing bound with
  | nil =>
    unfold listen at h
    split at h
    next started hstart =>
      cases h
      exact hstart
    next => cases h
  | cons address rest ih =>
    unfold listen at h
    split at h
    next => cases h
    next s hs =>
      split at h
      next => cases h
      next => exact ih h

theorem proxy_started {r : Option MetricsRegistry} {bound : List Socket}
    (h : (proxy host c r bound).result = .ok (w, server)) :
    Server.start (limits c) = some server := by
  unfold proxy at h
  split at h
  next => cases h
  next => exact listen_started h

theorem withMetrics_started (h : (withMetrics host c).result = .ok (w, server)) :
    Server.start (limits c) = some server := by
  unfold withMetrics at h
  split at h
  next => exact proxy_started h
  next =>
    split at h
    next => cases h
    next =>
      split at h
      next => cases h
      next => exact proxy_started h

/-- **On a system that refuses nothing, valid settings start** exactly when there are as many
permits as they ask for. -/
theorem withMetrics_started_iff (hc : c.Valid host.platform)
    (hp : host.platform.stateCommand ≠ some []) (hbind : ∀ bound s, host.bind bound s = .ok ()) :
    (∃ started, (withMetrics host c).result = .ok started) ↔ c.Permitted := by
  constructor
  · rintro ⟨⟨w, server⟩, hstarted⟩
    by_contra hpermits
    have hstart := withMetrics_started hstarted
    rw [start_limits_eq_none_iff.2 hpermits] at hstart
    cases hstart
  · intro hpermits
    cases hresult : (withMetrics host c).result with
    | ok started => exact ⟨started, rfl⟩
    | error e =>
      cases withMetrics_refused hc hp hresult with
      | bind _ _ refused => rw [hbind] at refused; cases refused
      | permits none => exact absurd hpermits (start_limits_eq_none_iff.1 none)

end Launch

/-- What a wiring takes over from the settings. -/
theorem Wiring.of_ofConfig {p : Platform} {outside : Outside} {r : Option MetricsRegistry}
    {c : Config} {w : Wiring} (h : Wiring.ofConfig p outside r c = .ok w) :
    w.handler.options = c.options ∧ c.registry = .ok w.gate.registry := by
  unfold Wiring.ofConfig at h
  cases hresolver : c.resolver p outside.programs with
  | error e =>
    rw [hresolver] at h
    cases h
  | ok resolver =>
    cases hregistry : c.registry with
    | error e =>
      rw [hresolver, hregistry] at h
      cases h
    | ok registry =>
      rw [hresolver, hregistry] at h
      cases r with
      | none =>
        cases h
        exact ⟨rfl, rfl⟩
      | some r =>
        cases hmetrics : r.register.mapError WiringError.registration with
        | error e =>
          simp only [hmetrics] at h
          cases h
        | ok metrics =>
          simp only [hmetrics] at h
          cases h
          exact ⟨rfl, rfl⟩

/-- A start lets every client in at first. -/
theorem Wiring.checkClient_ofConfig {p : Platform} {outside : Outside} {r : Option MetricsRegistry}
    {c : Config} {w : Wiring} (h : Wiring.ofConfig p outside r c = .ok w) (now : Nat)
    (peer : Socket) : (w.gate.checkClient now peer).1 = .allow := by
  obtain ⟨-, hregistry⟩ := of_ofConfig h
  obtain ⟨handler, ⟨registry, bypass⟩, metrics⟩ := w
  unfold Config.registry at hregistry
  split at hregistry
  next =>
    cases hregistry
    rfl
  next limits hlimits =>
    split at hregistry
    next registry hr =>
      cases hregistry
      exact (Registry.ofRate_new hr).checkClient bypass now peer
    next => cases hregistry

/-- **What validated settings can crash.** They start exactly when there are as many permits as they
ask for. A connection crashes exactly when its destination was found, its first bytes are to be
looked at, and the clock cannot tell the moment up to which they are. So up to a moment nothing
crashes if the clock can tell how long a connection of that moment is looked at; if it cannot,
something does, unless no destination is ever found. -/
theorem crashes_of_validate {p : Platform} (hp : p = .plain ∨ p = .packetFilter) {c : Config}
    (hc : c.validate p = .ok ()) (o : Overrides) :
    (Server.start (Launch.limits (o.apply c)) = none ↔ ¬c.Permitted) ∧
    (∀ host : Host, host.platform = p → (∀ bound s, host.bind bound s = .ok ()) →
      ((∃ started, (Launch.withMetrics host (o.apply c)).result = .ok started) ↔ c.Permitted)) ∧
    ∀ outside r, r = none ∨ r = some {} → ∃ w, Wiring.ofConfig p outside r (o.apply c) = .ok w ∧
      (∀ accepted : List Accepted,
        List.Forall₂
          (fun a run => run.fate = .crashed ↔ run.FindsDestination ∧
            (o.apply c).sniffing = true ∧ endOfTime ≤ a.now + Config.millis c.timeouts.sniff)
          accepted (w.handleAll accepted)) ∧
      ∀ latest, ((o.apply c).Timely latest → w.Survives latest) ∧
        ((∃ peer near dst, w.handler.resolver peer near = .ok dst) →
          w.Survives latest → (o.apply c).Timely latest) := by
  have hvalid := (Config.validate_eq_ok_iff.1 hc).apply o
  have hcommand : p.stateCommand ≠ some [] := by
    rcases hp with rfl | rfl
    · nofun
    · nofun
  refine ⟨Launch.start_limits_eq_none_iff, ?_, fun outside r hr => ?_⟩
  · rintro host rfl hbind
    exact Launch.withMetrics_started_iff hvalid hcommand hbind
  · obtain ⟨w, hw, -⟩ := hvalid.ofConfig hcommand outside hr
    obtain ⟨hoptions, -⟩ := Wiring.of_ofConfig hw
    have hruns := w.handleAll_crashed
    have hsurvives := fun latest => @Wiring.survives_of_deadline w latest
    rw [hoptions] at hruns hsurvives
    refine ⟨w, hw, hruns, fun latest => ⟨hsurvives latest, ?_⟩⟩
    rintro ⟨peer, near, hdst⟩ hsurvives hsniffing
    have hdeadline := hsurvives.deadline (c := ⟨peer, near, .ofSource {}, {}⟩)
      (Wiring.checkClient_ofConfig hw _ peer) hdst
    rw [hoptions] at hdeadline
    exact hdeadline hsniffing

/-- The largest cap that there are permits for, and the longest time to look at first bytes for
which a connection of the first second survives; one that comes a moment later does not. -/
theorem crashes_of_validate_largest :
    let c : Config :=
      { listenAddrs := ["127.0.0.1:12345".toList]
        transparent := true
        timeouts := ⟨10, 9223372036854775806, 300⟩
        metrics := ⟨false, []⟩
        maxConnections := some 2305843009213693951 }
    let o : Overrides := {}
    let host : Host := { Host.isolated fun _ => .error .noSuchFile with bind := fun _ _ => .ok () }
    c.validate .plain = .ok () ∧
      (∃ started, (Launch.withMetrics host (o.apply c)).result = .ok started) ∧
      ∃ w, Wiring.ofConfig .plain host.outside none (o.apply c) = .ok w ∧
        w.Survives 999 ∧ ¬w.Survives 1000 := by
  intro c o host
  have hfault : c.fault? .plain = none := by decide +kernel
  have hc : c.validate .plain = .ok () := by rw [Config.validate, hfault]
  obtain ⟨-, hstarts, hwiring⟩ := crashes_of_validate (.inl rfl) hc o
  have hpermitted : c.Permitted := by
    intro n hn
    cases hn
    decide
  obtain ⟨w, hw, -, hlatest⟩ := hwiring host.outside none (.inl rfl)
  have hresolver : w.handler.resolver = Resolver.localAddress := by
    cases hw
    rfl
  let near : Socket := ⟨.v4 ⟨192, 0, 2, 1⟩, 80, 0⟩
  have hstarted := (hstarts host rfl fun _ _ => rfl).2 hpermitted
  refine ⟨hc, hstarted, w, hw, (hlatest 999).1 ?_, fun h => ?_⟩
  · intro _
    decide
  · have hend := (hlatest 1000).2 ⟨near, near, near, by rw [hresolver]; rfl⟩ h rfl
    revert hend
    decide

/-- A time to look at first bytes that passes the checks crashes every connection, and a cap that
passes them stops the start. -/
theorem validated_settings_crash :
    let c : Config :=
      { listenAddrs := ["127.0.0.1:0".toList]
        transparent := true
        timeouts := ⟨10, 18446744073709551615, 300⟩
        metrics := ⟨false, []⟩ }
    let capped : Config :=
      { c with timeouts := ⟨10, 10, 300⟩, maxConnections := some 2305843009213693952 }
    let near : Socket := ⟨.v4 ⟨127, 0, 0, 1⟩, 1, 0⟩
    let input : Replay := .ofSource { events := [⟨0, .data [83, 83, 72]⟩] }
    let accepted : Accepted := ⟨60000, 0, ⟨near, near, input, {}⟩⟩
    let host : Host := { Host.isolated fun _ => .error .noSuchFile with bind := fun _ _ => .ok () }
    c.validate .plain = .ok () ∧
      (∃ w, Wiring.ofConfig .plain host.outside none c = .ok w ∧
        (w.handleAll [accepted, accepted]).map (·.fate) = [.crashed, .crashed]) ∧
      capped.validate .plain = .ok () ∧ Server.start (Launch.limits capped) = none ∧
      (Launch.withMetrics host capped).result = .error .tooManyPermits := by
  intro c capped near input accepted host
  have hfault : c.fault? .plain = none := by decide +kernel
  have hcapped : capped.fault? .plain = none := by decide +kernel
  refine ⟨by rw [Config.validate, hfault], ⟨_, rfl, ?_⟩, by rw [Config.validate, hcapped], ?_, ?_⟩
  · decide +kernel
  · decide +kernel
  · rfl

end Intercept
