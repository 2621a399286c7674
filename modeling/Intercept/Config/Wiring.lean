import Intercept.Config.Basic
import Intercept.Connection.Metrics

/-!
# From settings to a handler

* `Wiring` is all that connections are handled with: the handler, the gate and the metrics.
* `Wiring.ofConfig` makes it from settings, which need not have been validated.
-/

namespace Intercept

/-- Why settings make no handler. -/
inductive WiringError
  | noCommand
  | emptyCommand
  | zeroRate
  | registration (error : RegistrationError)
deriving DecidableEq, Repr

namespace WiringError

/-- The text of the error. -/
def message : WiringError → String
  | noCommand => "no state table command configured for this platform"
  | emptyCommand => "empty state table command"
  | zeroRate => "rate_limit.requests_per_second must be greater than zero"
  | registration error => error.message

end WiringError

/-- What connections are handled with beside the settings. -/
structure Outside where
  /-- How targets are reached. -/
  dialer : Dialer
  /-- What the programs do that are asked for the state table. -/
  programs : Command.Programs
  /-- Which direction goes first when both are due. -/
  turns : Turns

/-- What connections are handled with. -/
structure Wiring where
  handler : Handler
  gate : Gate := {}
  metrics : MetricsRegistry := {}

namespace Config

/-- Milliseconds of a number of seconds. -/
def millis (seconds : UInt64) : Nat := seconds.toNat * 1000

/-- Where connections were headed: their near end in transparent mode, else what the state table
says. -/
def resolver (p : Platform) (programs : Command.Programs) (c : Config) :
    Except WiringError Resolver :=
  if c.transparent then .ok Resolver.localAddress
  else match c.stateCommand p with
    | none => .error .noCommand
    | some command =>
      match Resolver.command programs command with
      | some r => .ok r
      | none => .error .emptyCommand

/-- The buckets, if connections are limited (`HostRateLimiter::from_config`). -/
def registry (c : Config) : Except WiringError (Option Registry) :=
  match c.rateLimit with
  | none => .ok none
  | some l =>
    match Registry.ofRate l.perSecond.toNat (l.burst.map UInt32.toNat) l.exempt with
    | some r => .ok (some r)
    | none => .error .zeroRate

/-- The destinations that are dropped, if there are any (`BypassList::from_config`). -/
def bypassList (c : Config) : Option BypassList :=
  c.bypass.map fun b => BypassList.ofPatterns b.patterns b.whitelist

/-- The switches and deadlines. -/
def options (c : Config) : Options :=
  { sniffing := c.sniffing
    sniffTimeout := millis c.timeouts.sniff
    idle := millis c.timeouts.idle }

end Config

namespace Wiring

/-- What settings ask for, with metrics if there is a registry for them
(`ConnectionHandler::from_config`). -/
def ofConfig (p : Platform) (o : Outside) (r : Option MetricsRegistry) (c : Config) :
    Except WiringError Wiring := do
  let resolver ← c.resolver p o.programs
  let registry ← c.registry
  let metrics ← match r with
    | none => .ok {}
    | some r => r.register.mapError .registration
  return {
    handler :=
      { resolver := resolver, dialer := o.dialer, turns := o.turns, options := c.options }
    gate := { registry := registry, bypass := c.bypassList }
    metrics := metrics }

/-- Handles a connection that comes in at a time in milliseconds, and counts it. -/
def handle (w : Wiring) (limit now : Nat) (c : Inbound) : Run × Wiring :=
  let run := w.handler.handle w.gate (now * nanosPerMilli) limit now c
  (run, { w with gate := run.gate, metrics := w.metrics.record run })

end Wiring
end Intercept
