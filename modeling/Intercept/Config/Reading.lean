import Intercept.Config.Basic
import Intercept.Stream.Fault
import Intercept.Text.Utf8
import Intercept.Yaml.Value

/-!
# Reading settings

Settings are a YAML document with a record of fields. Fields that are not known are passed over.

* `Config.ofText?` reads a text without judging what it says; `Config.parse` also validates.
* `Config.ofFile` reads the contents of a file, `Config.load` throws switches on top and then
  validates.
-/

namespace Intercept

open Yaml

/-- Why there are no settings. -/
inductive ConfigError
  | io (fault : Fault)
  /-- The text is not YAML, or its values are not settings. -/
  | yaml
  | invalid (fault : Invalid)
deriving DecidableEq, Repr

namespace ConfigError

/-- The text of the error, up to the details of what is wrong with YAML. -/
def message : ConfigError → String
  | io fault => "Failed to read config: " ++ fault.message
  | yaml => "Failed to parse config: "
  | invalid fault => "Invalid config: " ++ String.ofList fault.message

/-- The text of the error behind this one. -/
def cause? : ConfigError → Option String
  | io fault => some fault.message
  | _ => none

end ConfigError

/-- Reads a number of 32 bits. -/
def word32? (d : Document) (n : Node) : Option UInt32 := (d.natural? UInt32.size n).map UInt32.ofNat

/-- Reads a number of 64 bits. -/
def word64? (d : Document) (n : Node) : Option UInt64 := (d.natural? UInt64.size n).map UInt64.ofNat

/-- Reads a list of texts. -/
def texts? (d : Document) (n : Node) : Option (List Text) := d.items? d.text? n

namespace Timeouts

/-- Reads the record. -/
def ofNode? (d : Document) (n : Node) : Option Timeouts := do
  let fields ← d.fields? ["connect", "sniff", "idle"] n
  return {
    connect := ← required? fields "connect" (word64? d)
    sniff := ← required? fields "sniff" (word64? d)
    idle := ← required? fields "idle" (word64? d) }

end Timeouts

namespace MetricsSettings

/-- Reads the record. -/
def ofNode? (d : Document) (n : Node) : Option MetricsSettings := do
  let fields ← d.fields? ["enabled", "address"] n
  return {
    enabled := ← required? fields "enabled" d.bool?
    address := ← required? fields "address" d.text? }

end MetricsSettings

namespace RateLimitSettings

/-- Reads the record. -/
def ofNode? (d : Document) (n : Node) : Option RateLimitSettings := do
  let fields ← d.fields? ["requests_per_second", "burst", "exempt"] n
  return {
    perSecond := ← required? fields "requests_per_second" (word32? d)
    burst := ← defaulted? fields "burst" none (d.optional? (word32? d))
    exempt := ← defaulted? fields "exempt" [] (texts? d) }

end RateLimitSettings

namespace BypassSettings

/-- Reads the record. -/
def ofNode? (d : Document) (n : Node) : Option BypassSettings := do
  let fields ← d.fields? ["patterns", "whitelist"] n
  return {
    patterns := ← required? fields "patterns" (texts? d)
    whitelist := ← defaulted? fields "whitelist" false d.bool? }

end BypassSettings

namespace Config

/-- Reads the record with the command that prints the state table. -/
def stateTable? (d : Document) (n : Node) : Option (List Text) := do
  let fields ← d.fields? ["command"] n
  required? fields "command" (texts? d)

/-- The names of the fields. -/
def fieldNames : List String :=
  ["listen_addrs", "transparent", "sniffing", "timeouts", "metrics", "max_connections",
    "shutdown_timeout", "state_table", "rate_limit", "bypass"]

/-- Reads the record of all settings. -/
def ofNode? (d : Document) (n : Node) : Option Config := do
  let fields ← d.fields? fieldNames n
  return {
    listenAddrs := ← required? fields "listen_addrs" (texts? d)
    transparent := ← defaulted? fields "transparent" false d.bool?
    sniffing := ← defaulted? fields "sniffing" true d.bool?
    timeouts := ← required? fields "timeouts" (Timeouts.ofNode? d)
    metrics := ← required? fields "metrics" (MetricsSettings.ofNode? d)
    maxConnections := ← defaulted? fields "max_connections" none (d.optional? (word64? d))
    shutdownTimeout := ← defaulted? fields "shutdown_timeout" none (d.optional? (word64? d))
    stateTable := ← defaulted? fields "state_table" none (d.optional? (stateTable? d))
    rateLimit := ← defaulted? fields "rate_limit" none (d.optional? (RateLimitSettings.ofNode? d))
    bypass := ← defaulted? fields "bypass" none (d.optional? (BypassSettings.ofNode? d)) }

/-- Reads a text. -/
def ofText? (t : Text) : Option Config := do
  let d ← Document.ofText? t
  ofNode? d d.root

/-- Reads a text. -/
def ofText (t : Text) : Except ConfigError Config :=
  match ofText? t with
  | some c => .ok c
  | none => .error .yaml

/-- Passes settings on that have no fault. -/
def checked (p : Platform) (c : Config) : Except ConfigError Config := do
  (c.validate p).mapError .invalid
  return c

/-- Reads a text and validates (`Config::parse`). -/
def parse (p : Platform) (t : Text) : Except ConfigError Config := do
  checked p (← ofText t)

/-- Reads the contents of a file, which has to be UTF-8 text (`Config::read_file`). -/
def ofFile (file : Except Fault Bytes) : Except ConfigError Config := do
  let bytes ← file.mapError .io
  match Utf8.decode? bytes with
  | some t => ofText t
  | none => .error (.io .notText)

/-- Reads the contents of a file, throws the switches and validates (`run`). -/
def load (p : Platform) (o : Overrides) (file : Except Fault Bytes) : Except ConfigError Config := do
  checked p (o.apply (← ofFile file))

end Config
end Intercept
