import Intercept.Net.Socket

/-!
# Settings

What an operator writes down: where to listen, whom to let through, how long to wait.

* `Config` holds all settings, with the numbers in the widths in which they are kept.
* `Config.validate` refuses settings that contradict each other or cannot work.
* `Overrides` are the switches that may be thrown on top of the settings.
* `Platform` says which program prints the firewall's state table when none is set.
-/

namespace Intercept

/-- How long to wait, in seconds. -/
structure Timeouts where
  connect : UInt64
  sniff : UInt64
  idle : UInt64
deriving DecidableEq, Repr

/-- Whether metrics are served, and where (`Metrics`). -/
structure MetricsSettings where
  enabled : Bool
  address : Text
deriving DecidableEq, Repr

/-- How many connections a client host may open (`RateLimit`). -/
structure RateLimitSettings where
  perSecond : UInt32
  burst : Option UInt32 := none
  exempt : List Text := []
deriving DecidableEq, Repr

/-- Which destinations are dropped (`Bypass`). -/
structure BypassSettings where
  patterns : List Text
  whitelist : Bool := false
deriving DecidableEq, Repr

/-- All settings. -/
structure Config where
  listenAddrs : List Text
  transparent : Bool := false
  sniffing : Bool := true
  timeouts : Timeouts
  metrics : MetricsSettings
  maxConnections : Option UInt64 := none
  /-- In seconds. -/
  shutdownTimeout : Option UInt64 := none
  /-- The program that prints the state table, with its arguments. -/
  stateTable : Option (List Text) := none
  rateLimit : Option RateLimitSettings := none
  bypass : Option BypassSettings := none
deriving DecidableEq, Repr

/-- What a platform brings along (`DEFAULT_STATE_COMMAND`). -/
structure Platform where
  /-- The program that prints the state table when none is set, with its arguments. -/
  stateCommand : Option (List Text)

namespace Platform

/-- A platform without a packet filter. -/
def plain : Platform := ⟨none⟩

/-- A platform with the packet filter whose state `pfctl` prints. -/
def packetFilter : Platform :=
  ⟨some (["sudo", "-n", "/sbin/pfctl", "-s", "state"].map String.toList)⟩

end Platform

/-- What is wrong with settings. -/
inductive Invalid
  | noListener
  | listener (address : Text)
  | metricsAddress (address : Text)
  | zeroTimeout
  | zeroConnections
  | zeroRate
  | emptyCommand
  | missingCommand
deriving DecidableEq, Repr

namespace Invalid

/-- The text of a fault in the settings. -/
def message : Invalid → Text
  | noListener => "listen_addrs must not be empty".toList
  | listener address =>
    "listen address ".toList ++ address ++ ": invalid socket address syntax".toList
  | metricsAddress address =>
    "metrics address ".toList ++ address ++ ": invalid socket address syntax".toList
  | zeroTimeout => "timeouts must be greater than zero".toList
  | zeroConnections => "max_connections must be greater than zero".toList
  | zeroRate => "rate_limit requests_per_second and burst must be greater than zero".toList
  | emptyCommand => "state_table.command must not be empty".toList
  | missingCommand =>
    "state_table.command is required when transparent mode is off on this platform".toList

end Invalid

namespace Config

/-- The program that prints the state table: the one that is set, or else the platform's
(`Config::state_command`). -/
def stateCommand (p : Platform) (c : Config) : Option (List Text) :=
  match c.stateTable with
  | some command => some command
  | none => p.stateCommand

/-- The first thing that is wrong with the settings. -/
def fault? (p : Platform) (c : Config) : Option Invalid :=
  if c.listenAddrs.isEmpty then some .noListener
  else match c.listenAddrs.find? fun a => (Socket.parse? a).isNone with
    | some a => some (.listener a)
    | none =>
      if c.metrics.enabled && (Socket.parse? c.metrics.address).isNone then
        some (.metricsAddress c.metrics.address)
      else if c.timeouts.connect = 0 || c.timeouts.sniff = 0 || c.timeouts.idle = 0 then
        some .zeroTimeout
      else if c.maxConnections = some 0 then some .zeroConnections
      else if c.rateLimit.any fun l => l.perSecond = 0 || l.burst = some 0 then some .zeroRate
      else if c.stateTable = some [] then some .emptyCommand
      else if !c.transparent && (c.stateCommand p).isNone then some .missingCommand
      else none

/-- Refuses settings with a fault (`Config::validate`). -/
def validate (p : Platform) (c : Config) : Except Invalid Unit :=
  match c.fault? p with
  | some fault => .error fault
  | none => .ok ()

end Config

/-- Switches that are thrown on top of the settings (`RunOptions`); each only ever goes one way. -/
structure Overrides where
  /-- Take the near end of a connection as its destination. -/
  transparent : Bool := false
  /-- Look at no connection's first bytes. -/
  noSniffing : Bool := false
deriving DecidableEq, Repr

/-- The settings with the switches thrown (`RunOptions::apply`). -/
def Overrides.apply (o : Overrides) (c : Config) : Config :=
  { c with
    transparent := c.transparent || o.transparent
    sniffing := c.sniffing && !o.noSniffing }

end Intercept
