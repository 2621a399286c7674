import Intercept.Launch
import Mathlib.Logic.Basic
import Mathlib.Tactic.SplitIfs

/-!
# Valid settings start

Settings are checked once and put to use somewhere else, and the start takes nothing for granted: it
parses every address again, and the handler asks again for a program and a rate. What follows from
the checks is stated once, and is all that a start needs.

* `Config.Valid`: what holds of settings that have no fault.
* `Config.places`: the places that a start binds.
* `Launch.Refused`: how a start with valid settings can still end early.

Results:
* `validate_eq_ok_iff`: settings pass exactly when they are valid.
* `Valid.apply`: the switches leave valid settings valid.
* `Valid.ofConfig`: valid settings make a handler.
* `Launch.withMetrics_refused`: then only the system can refuse a start.
* `launch_of_validate`: all that validated settings can count on.
-/

namespace Intercept

namespace Config

/-- What holds of settings without a fault. -/
structure Valid (p : Platform) (c : Config) : Prop where
  listener : c.listenAddrs ≠ []
  listeners : ∀ address ∈ c.listenAddrs, ∃ s, Socket.parse? address = some s
  metrics : c.metrics.enabled = true → ∃ s, Socket.parse? c.metrics.address = some s
  timeouts : c.timeouts.connect ≠ 0 ∧ c.timeouts.sniff ≠ 0 ∧ c.timeouts.idle ≠ 0
  connections : c.maxConnections ≠ some 0
  rate : ∀ l, c.rateLimit = some l → l.perSecond ≠ 0 ∧ l.burst ≠ some 0
  table : c.stateTable ≠ some []
  command : c.transparent = false → ∃ command, c.stateCommand p = some command

/-- The places that a start binds, in order: the one for metrics if they are enabled, then those to
listen at. -/
def places (c : Config) : List Text :=
  if c.metrics.enabled then c.metrics.address :: c.listenAddrs else c.listenAddrs

variable {p : Platform} {c : Config} {o : Overrides}

/-- Settings have no fault exactly when they are valid. -/
theorem fault?_eq_none_iff : c.fault? p = none ↔ c.Valid p := by
  have hlisteners : (c.listenAddrs.find? fun a => (Socket.parse? a).isNone) = none ↔
      ∀ address ∈ c.listenAddrs, ∃ s, Socket.parse? address = some s := by
    simp [List.find?_eq_none, Option.ne_none_iff_exists']
  unfold fault?
  cases hfind : c.listenAddrs.find? fun a => (Socket.parse? a).isNone with
  | some a =>
    constructor
    · intro h
      split_ifs at h
    · intro h
      rw [hlisteners.2 h.listeners] at hfind
      cases hfind
  | none =>
    simp only [ite_eq_iff, reduceCtorEq, and_false, false_or, and_true, List.isEmpty_iff,
      Bool.and_eq_true, Bool.or_eq_true, Bool.not_eq_true', decide_eq_true_eq,
      Option.isNone_iff_eq_none, Option.any_eq_true, not_and, not_or, not_exists, and_assoc,
      ← ne_eq, Option.ne_none_iff_exists']
    constructor
    · rintro ⟨listener, metrics, connect, sniff, idle, connections, rate, table, command⟩
      exact ⟨listener, hlisteners.1 hfind, metrics, ⟨connect, sniff, idle⟩, connections, rate,
        table, command⟩
    · intro h
      exact ⟨h.listener, h.metrics, h.timeouts.1, h.timeouts.2.1, h.timeouts.2.2, h.connections,
        h.rate, h.table, h.command⟩

/-- **Settings pass exactly when they are valid.** -/
theorem validate_eq_ok_iff : c.validate p = .ok () ↔ c.Valid p := by
  rw [← fault?_eq_none_iff, validate]
  cases c.fault? p with
  | none => exact iff_of_true rfl rfl
  | some fault => exact iff_of_false nofun nofun

/-- **The switches leave valid settings valid**: in transparent mode no state table is needed. -/
theorem Valid.apply (h : c.Valid p) (o : Overrides) : (o.apply c).Valid p where
  listener := h.listener
  listeners := h.listeners
  metrics := h.metrics
  timeouts := h.timeouts
  connections := h.connections
  rate := h.rate
  table := h.table
  command htransparent := h.command (Bool.or_eq_false_iff.1 htransparent).1

/-! ## The handler -/

/-- Valid settings have a resolver, unless the platform's own program is none. -/
theorem Valid.resolver (h : c.Valid p) (hp : p.stateCommand ≠ some [])
    (programs : Command.Programs) : ∃ r, c.resolver p programs = .ok r := by
  unfold Config.resolver
  by_cases htransparent : c.transparent = true
  · exact ⟨_, if_pos htransparent⟩
  · obtain ⟨command, hcommand⟩ := h.command (Bool.not_eq_true _ ▸ htransparent)
    have hprogram : command ≠ [] := by
      rintro rfl
      unfold stateCommand at hcommand
      split at hcommand
      next table htable => exact h.table (htable.trans hcommand)
      next htable => exact hp hcommand
    obtain ⟨program, args, rfl⟩ := List.exists_cons_of_ne_nil hprogram
    rw [if_neg htransparent, hcommand]
    exact ⟨_, rfl⟩

/-- Valid settings have buckets if and only if connections are limited. -/
theorem Valid.registry (h : c.Valid p) :
    ∃ r, c.registry = .ok r ∧ r.isSome = c.rateLimit.isSome := by
  unfold Config.registry
  cases hlimit : c.rateLimit with
  | none => exact ⟨none, rfl, rfl⟩
  | some l =>
    have hrate : l.perSecond.toNat ≠ 0 := fun hzero =>
      (h.rate l hlimit).1 (UInt32.toNat_inj.1 hzero)
    simp only [Registry.ofRate, if_neg hrate]
    exact ⟨_, rfl, rfl⟩

/-- **Valid settings make a handler**, without metrics or with metrics that nobody has
registered. -/
theorem Valid.ofConfig (h : c.Valid p) (hp : p.stateCommand ≠ some []) (outside : Outside)
    {r : Option MetricsRegistry} (hr : r = none ∨ r = some {}) :
    ∃ w, Wiring.ofConfig p outside r c = .ok w ∧
      w.gate.registry.isSome = c.rateLimit.isSome ∧ w.gate.bypass.isSome = c.bypass.isSome ∧
      w.metrics.metrics.isSome = r.isSome := by
  obtain ⟨resolver, hresolver⟩ := h.resolver hp outside.programs
  obtain ⟨registry, hregistry, hlimited⟩ := h.registry
  have hbypass : c.bypassList.isSome = c.bypass.isSome := Option.isSome_map
  unfold Wiring.ofConfig
  rw [hresolver, hregistry]
  rcases hr with rfl | rfl
  · exact ⟨_, rfl, hlimited, hbypass, rfl⟩
  · exact ⟨_, rfl, hlimited, hbypass, rfl⟩

end Config

/-! ## The start -/

namespace Launch

/-- How a start with valid settings can still end early: the system does not bind one of the places,
or there cannot be as many permits as the settings ask for. -/
inductive Refused (host : Host) (c : Config) : LaunchError → Prop
  | bind {address : Text} {bound : List Socket} {s : Socket} {fault : Fault}
      (place : address ∈ c.places) (parsed : Socket.parse? address = some s)
      (refused : host.bind bound s = .error fault) : Refused host c (.system fault)
  | permits (none : Server.start (limits c) = none) : Refused host c .tooManyPermits

variable {host : Host} {c : Config} {w : Wiring} {e : LaunchError}

@[simp]
theorem result_after (notices : List Notice) (l : Launch) :
    (l.after notices).result = l.result := rfl

/-- Binding socket addresses one after the other fails only as the system does. -/
theorem listen_refused {bound : List Socket} {addresses : List Text}
    (hplaces : ∀ address ∈ addresses, address ∈ c.places)
    (hparse : ∀ address ∈ addresses, ∃ s, Socket.parse? address = some s)
    (h : (listen host c w bound addresses).result = .error e) : Refused host c e := by
  induction addresses generalizing bound with
  | nil =>
    unfold listen at h
    split at h
    next server hstart => cases h
    next hstart =>
      cases h
      exact .permits hstart
  | cons address rest ih =>
    obtain ⟨hplace, hplaces⟩ := List.forall_mem_cons.1 hplaces
    obtain ⟨⟨s, hs⟩, hparse⟩ := List.forall_mem_cons.1 hparse
    rw [listen, hs] at h
    simp only at h
    split at h
    next fault hbind =>
      cases h
      exact .bind hplace hs hbind
    next hbind => exact ih hplaces hparse h

/-- With a handler and socket addresses, a start fails only as the system does. -/
theorem proxy_refused {r : Option MetricsRegistry} {bound : List Socket}
    (hc : c.Valid host.platform) (hp : host.platform.stateCommand ≠ some [])
    (hr : r = none ∨ r = some {}) (h : (proxy host c r bound).result = .error e) :
    Refused host c e := by
  obtain ⟨w, hw, -⟩ := hc.ofConfig hp host.outside hr
  have hplaces : ∀ address ∈ c.listenAddrs, address ∈ c.places := by
    intro address haddress
    unfold Config.places
    split_ifs
    · exact List.mem_cons_of_mem _ haddress
    · exact haddress
  rw [proxy, hw] at h
  exact listen_refused hplaces hc.listeners h

/-- **Only the system refuses a start with valid settings.** -/
theorem withMetrics_refused (hc : c.Valid host.platform)
    (hp : host.platform.stateCommand ≠ some [])
    (h : (withMetrics host c).result = .error e) : Refused host c e := by
  unfold withMetrics at h
  by_cases henabled : c.metrics.enabled = true
  · obtain ⟨s, hs⟩ := hc.metrics henabled
    rw [henabled, hs] at h
    simp only [Bool.not_true, Bool.false_eq_true, if_false] at h
    split at h
    next fault hbind =>
      cases h
      exact .bind (by simp [Config.places, henabled]) hs hbind
    next hbind => exact proxy_refused hc hp (.inr rfl) h
  · rw [Bool.not_eq_true] at henabled
    rw [henabled] at h
    exact proxy_refused hc hp (.inl rfl) h

end Launch

/-- **Validated settings start.** On every platform, settings that pass still pass with any switches
thrown or none, and then make a handler, without metrics or with new ones; every place that they
name is parsed again, and a start fails only if the system refuses a place or the permits. -/
theorem launch_of_validate {p : Platform} (hp : p = .plain ∨ p = .packetFilter) {c : Config}
    (hc : c.validate p = .ok ()) (o : Overrides) :
    (o.apply c).validate p = .ok () ∧
    (∀ outside r, r = none ∨ r = some {} →
      ∃ w, Wiring.ofConfig p outside r (o.apply c) = .ok w ∧
        w.gate.registry.isSome = c.rateLimit.isSome ∧ w.gate.bypass.isSome = c.bypass.isSome ∧
        w.metrics.metrics.isSome = r.isSome) ∧
    (∀ address ∈ (o.apply c).listenAddrs, ∃ s, Socket.parse? address = some s) ∧
    ((o.apply c).metrics.enabled = true →
      ∃ s, Socket.parse? (o.apply c).metrics.address = some s) ∧
    ∀ host : Host, host.platform = p → ∀ e,
      (Launch.withMetrics host (o.apply c)).result = .error e →
        Launch.Refused host (o.apply c) e := by
  have hvalid := (Config.validate_eq_ok_iff.1 hc).apply o
  have hcommand : p.stateCommand ≠ some [] := by
    rcases hp with rfl | rfl
    · nofun
    · nofun
  refine ⟨Config.validate_eq_ok_iff.2 hvalid,
    fun outside r hr => hvalid.ofConfig hcommand outside hr, hvalid.listeners,
    hvalid.metrics, fun host hhost e he => ?_⟩
  subst hhost
  exact Launch.withMetrics_refused hvalid hcommand he

/-- Settings that rely on the platform's own program, with metrics and a limit. In transparent mode
they start too, and on a system that binds everything nothing stops the start. -/
theorem launch_of_validate_packetFilter :
    let c : Config :=
      { listenAddrs := ["0.0.0.0:12345".toList]
        timeouts := ⟨10, 10, 300⟩
        metrics := ⟨true, "127.0.0.1:9000".toList⟩
        rateLimit := some { perSecond := 5 } }
    let o : Overrides := { transparent := true }
    let host : Host :=
      { Host.isolated fun _ => .error .noSuchFile with
        platform := .packetFilter
        bind := fun _ _ => .ok () }
    c.validate .packetFilter = .ok () ∧ (o.apply c).validate .packetFilter = .ok () ∧
      (∃ w, Wiring.ofConfig .packetFilter host.outside none (o.apply c) = .ok w) ∧
      ∀ e, (Launch.withMetrics host (o.apply c)).result ≠ .error e := by
  intro c o host
  have hfault : c.fault? .packetFilter = none := by decide +kernel
  have hc : c.validate .packetFilter = .ok () := by rw [Config.validate, hfault]
  obtain ⟨happly, hwiring, -, -, hlaunch⟩ := launch_of_validate (.inr rfl) hc o
  obtain ⟨w, hw, -⟩ := hwiring host.outside none (.inl rfl)
  refine ⟨hc, happly, ⟨w, hw⟩, fun e he => ?_⟩
  cases hlaunch host rfl e he with
  | bind _ _ refused => cases refused
  | permits none => exact absurd none (by decide +kernel)

end Intercept
