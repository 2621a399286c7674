import Intercept.Net.Target
import Intercept.Stream.Sink
import Intercept.Stream.Source

/-!
# Dialing

A dialer opens connections to targets. It is asked for a network and an address, and answers after
some time with the far end of a connection or with the reason why there is none.

* `Dialer` is what every connection is opened with.
* `Address.parse?` reads an address of the form `host:port` whose host is an IP address.
* `dialDirect` connects straight to the address, given what the system says to a connection attempt.
-/

namespace Intercept

/-- Why a target was not reached. -/
inductive DialError
  | unsupportedNetwork (network : Text)
  | resolve (address : Text) (fault : Fault)
  | noAddress (address : Text)
  | connect (address : Text) (fault : Fault)
  | timeout (address : Text)
deriving DecidableEq, Repr

namespace DialError

/-- The text of the error. -/
def message : DialError → String
  | unsupportedNetwork network => "unsupported network: " ++ String.ofList network
  | resolve address fault =>
    "failed to resolve " ++ String.ofList address ++ ": " ++ fault.message
  | noAddress address => "no address found for " ++ String.ofList address
  | connect address fault =>
    "failed to connect to " ++ String.ofList address ++ ": " ++ fault.message
  | timeout address => "connect to " ++ String.ofList address ++ " timed out"

/-- The fault behind the error. -/
def fault? : DialError → Option Fault
  | resolve _ fault => some fault
  | connect _ fault => some fault
  | _ => none

end DialError

/-- The far end of a connection: what it is going to send, counted from when the connection stands,
and what it takes. -/
structure FarEnd where
  source : Source
  sink : Sink := {}

/-- What dialing comes to, and how many milliseconds it takes. -/
structure DialAnswer where
  delay : Nat := 0
  result : Except DialError FarEnd

/-- Opens a connection on a network to an address (`Dialer::dial`). -/
abbrev Dialer := (network address : Text) → DialAnswer

/-- Reads an address: a socket address, or an IP address, a colon and a port. The port may carry a
plus sign. -/
def Address.parse? (address : Text) : Except Fault Socket :=
  match Socket.parse? address with
  | some s => .ok s
  | none =>
    match cutLast ':' address with
    | none => .error .badAddress
    | some (host, port) =>
      match Numeral.read? 10 65536 port with
      | none => .error .badPort
      | some port =>
        match Ip.parse? host with
        | some ip => .ok ⟨ip, UInt16.ofNat port, 0⟩
        | none => .error .unknownHost

/-- The families of addresses that a network admits; `none` when the network is not supported. -/
def networkAdmits? (network : Text) : Option (Ip → Bool) :=
  if network = "tcp".toList then some fun _ => true
  else if network = "tcp4".toList then some fun ip => match ip with | .v4 _ => true | .v6 _ => false
  else if network = "tcp6".toList then some fun ip => match ip with | .v4 _ => false | .v6 _ => true
  else none

/-- Connects straight to the address (`DirectDialer::connect`). `reach` is what the system says to a
connection attempt. -/
def dialDirect (reach : Socket → Except Fault FarEnd) (network address : Text) :
    Except DialError FarEnd :=
  match networkAdmits? network with
  | none => .error (.unsupportedNetwork network)
  | some admits =>
    match Address.parse? address with
    | .error fault => .error (.resolve address fault)
    | .ok socket =>
      if admits socket.ip then (reach socket).mapError (.connect address)
      else .error (.noAddress address)

/-- The dialer that connects straight to every target and takes no time for it (`DirectDialer`). -/
def Dialer.direct (reach : Socket → Except Fault FarEnd) : Dialer :=
  fun network address => ⟨0, dialDirect reach network address⟩

end Intercept
