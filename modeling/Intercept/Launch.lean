import Intercept.CommandLine
import Intercept.Config.Reading
import Intercept.Config.Wiring
import Intercept.Server

/-!
# Starting up

The settings are loaded, the places to listen at are bound, and connections are accepted until the
signal to stop.

* `Host` is what the system offers: files, places that can be bound and reached, and programs.
* `Notice` is a line of the log, `LaunchError` the reason why a start ends early.
* `Launch.proxy` starts from settings, `Launch.program` from a path and switches.
* `LaunchError.report` is the form in which the program prints an error at its end.
-/

namespace Intercept

/-- What the system offers. -/
structure Host where
  platform : Platform := .plain
  /-- The contents of the file at a path. -/
  file : Text → Except Fault Bytes
  /-- Binds a place to listen at beside those that are bound already. -/
  bind : List Socket → Socket → Except Fault Unit
  /-- What it says to a connection attempt. -/
  reach : Socket → Except Fault FarEnd
  programs : Command.Programs
  turns : Turns

namespace Host

/-- Whether two bound places would take each other's connections: the same port, and the same
address or one that stands for all. -/
def overlap (a b : Socket) : Bool :=
  let anywhere (s : Socket) : Bool := (Ip.parse? "0.0.0.0".toList = some s.ip) ||
    (Ip.parse? "::".toList = some s.ip)
  a.port = b.port && a.port ≠ 0 && (a.ip = b.ip || anywhere a || anywhere b)

/-- Whether the address is one of the host's own when it has no network: a loopback address or one
that stands for all. -/
def isOwn (s : Socket) : Bool :=
  match s.ip with
  | .v4 q => q.a = 127 || q.octets.all (· = 0)
  | .v6 g => g.groups.dropLast.all (· = 0) && g.groups.getLast?.any (· ≤ 1)

/-- Binds on a host without a network, for a user without privileges. -/
def bindLocal (bound : List Socket) (s : Socket) : Except Fault Unit :=
  if s.port ≠ 0 && s.port < 1024 then .error .forbidden
  else if !isOwn s then .error .addressNotAvailable
  else if bound.any (overlap s) then .error .addressInUse
  else .ok ()

/-- A host without a network and without programs, with the given files. -/
def isolated (file : Text → Except Fault Bytes) : Host :=
  { file := file
    bind := bindLocal
    reach := fun _ => .error .unreachable
    programs := fun _ _ => .error .noSuchFile
    turns := fun _ => .toServer }

/-- What connections are handled with on the host: it connects straight to every target. -/
def outside (h : Host) : Outside :=
  { dialer := Dialer.direct h.reach, programs := h.programs, turns := h.turns }

end Host

/-- A line of the log. -/
inductive Notice
  | loaded
  | metricsAt (address : Socket)
  | ready (transparent sniffing : Bool)
  | listeningAt (address : Socket)
  | started
  | draining
  /-- The drain time, in seconds, was not enough. -/
  | cancelling (seconds : Nat)
  | stopped
deriving DecidableEq, Repr

namespace Notice

/-- The text of the line. -/
def message : Notice → String
  | loaded => "Configuration loaded"
  | metricsAt address => "Metrics listening on " ++ String.ofList address.render
  | ready .. => "Connection handler ready"
  | listeningAt address => "Starting listener on " ++ String.ofList address.render
  | started => "Proxy started, waiting for connections..."
  | draining => "Received shutdown signal, draining connections"
  | cancelling _ => "Shutdown timeout reached, cancelling remaining connections"
  | stopped => "Shutting down proxy"

/-- How grave it is. -/
def level : Notice → String
  | cancelling _ => "WARN"
  | _ => "INFO"

end Notice

/-- Why a start ends early. -/
inductive LaunchError
  | config (error : ConfigError)
  | wiring (error : WiringError)
  /-- A place to listen at is no socket address. -/
  | address
  | system (fault : Fault)
  /-- There cannot be as many permits as the cap asks for. -/
  | tooManyPermits
deriving DecidableEq, Repr

namespace LaunchError

/-- The text of the error. -/
def message : LaunchError → String
  | config error => error.message
  | wiring error => error.message
  | address => Fault.badSocket.message
  | system fault => fault.message
  | tooManyPermits => "a semaphore may not have more than MAX_PERMITS permits"

/-- A character as it is printed between quotes: quotes, backslashes and control characters are
escaped. -/
def escape (c : Char) : Text :=
  match c with
  | '"' => ['\\', '"']
  | '\\' => ['\\', '\\']
  | '\n' => ['\\', 'n']
  | '\r' => ['\\', 'r']
  | '\t' => ['\\', 't']
  | '\x00' => ['\\', '0']
  | c =>
    if c.toNat < 0x20 || (0x7F ≤ c.toNat && c.toNat < 0xA0) then
      "\\u\x7b".toList ++ Numeral.hex c.toNat ++ ['\x7d']
    else [c]

/-- A text between quotes. -/
def quote (t : Text) : String := String.ofList ('"' :: t.flatMap escape ++ ['"'])

/-- A fault of the system by its number, kind and text. -/
def osReport (code : Nat) (kind text : String) : String :=
  "Os \x7b code: " ++ toString code ++ ", kind: " ++ kind ++ ", message: " ++ quote text.toList ++
    " \x7d"

/-- The printed form of a fault. -/
def faultReport : Fault → String
  | .noSuchFile => osReport 2 "NotFound" "No such file or directory"
  | .forbidden => osReport 13 "PermissionDenied" "Permission denied"
  | .isDirectory => osReport 21 "IsADirectory" "Is a directory"
  | .addressInUse => osReport 98 "AddrInUse" "Address already in use"
  | .addressNotAvailable => osReport 99 "AddrNotAvailable" "Cannot assign requested address"
  | .unreachable => osReport 101 "NetworkUnreachable" "Network is unreachable"
  | .notText =>
    "Error \x7b kind: InvalidData, message: " ++ quote Fault.notText.message.toList ++ " \x7d"
  | fault => quote fault.message.toList

/-- The form in which the program prints the error; the details of wrong YAML are left out. -/
def report : LaunchError → String
  | config (.io fault) => "Io(" ++ faultReport fault ++ ")"
  | config .yaml => "Yaml"
  | config (.invalid fault) => "Invalid(" ++ quote fault.message ++ ")"
  | wiring error => quote error.message.toList
  | address => "AddrParseError(Socket)"
  | system fault => faultReport fault
  | tooManyPermits => quote (message .tooManyPermits).toList

end LaunchError

/-- A start: what was logged, what was bound, and the server or the reason why there is none. -/
structure Launch where
  notices : List Notice := []
  bound : List Socket := []
  result : Except LaunchError (Wiring × Server)

namespace Launch

/-- A start that ends early. -/
def failed (notices : List Notice) (e : LaunchError) : Launch :=
  { notices := notices, result := .error e }

/-- The start with lines logged before it. -/
def after (notices : List Notice) (l : Launch) : Launch := { l with notices := notices ++ l.notices }

/-- The drain time when none is set, in seconds (`DEFAULT_SHUTDOWN_TIMEOUT`). -/
def defaultDrain : Nat := 30

/-- How many connections may be in flight, and how long they may take to end. -/
def limits (c : Config) : ServeLimits :=
  { cap := c.maxConnections.map UInt64.toNat
    drain := ((c.shutdownTimeout.map UInt64.toNat).getD defaultDrain) * 1000 }

/-- Binds the places to listen at in order, then starts to accept (`run_proxy`). -/
def listen (host : Host) (c : Config) (w : Wiring) (bound : List Socket) : List Text → Launch
  | [] =>
    match Server.start (limits c) with
    | some server => { notices := [.started], bound := bound.reverse, result := .ok (w, server) }
    | none => failed [] .tooManyPermits
  | address :: rest =>
    match Socket.parse? address with
    | none => failed [] .address
    | some s =>
      match host.bind bound s with
      | .error fault => failed [.listeningAt s] (.system fault)
      | .ok _ => (listen host c w (s :: bound) rest).after [.listeningAt s]

/-- Starts from settings (`run_proxy`). -/
def proxy (host : Host) (c : Config) (r : Option MetricsRegistry) (bound : List Socket) : Launch :=
  match Wiring.ofConfig host.platform host.outside r c with
  | .error e => failed [] (.wiring e)
  | .ok w => (listen host c w bound c.listenAddrs).after [.ready c.transparent c.sniffing]

/-- Starts from settings and serves metrics if they are enabled (`run`). -/
def withMetrics (host : Host) (c : Config) : Launch :=
  if !c.metrics.enabled then proxy host c none []
  else match Socket.parse? c.metrics.address with
    | none => failed [] .address
    | some s =>
      match host.bind [] s with
      | .error fault => failed [] (.system fault)
      | .ok _ => (proxy host c (some {}) [s]).after [.metricsAt s]

/-- Starts from the settings at a path and switches (`run`). -/
def program (host : Host) (path : Text) (o : Overrides) : Launch :=
  match Config.load host.platform o (host.file path) with
  | .error e => failed [] (.config e)
  | .ok c => (withMetrics host c).after [.loaded]

/-- What is logged when the signal to stop comes while nothing is in flight. -/
def farewell : List Notice := [.draining, .stopped]

end Launch
end Intercept
