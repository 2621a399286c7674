import Intercept.Admission.Pattern
import Intercept.Admission.Registry

/-!
# The admission gate

Two questions are put before anything is dialed: may this client connect now, and is this
destination one that is dropped?

* `clientHost` is the key under which a client is counted: its address without port and scope, an
  IPv4-mapped address as the IPv4 address.
* `Gate.checkClient` spends one unit of the client's bucket.
* `Gate.checkDestination` consults the bypass list.
-/

namespace Intercept

/-- What the gate answers. -/
inductive Admission
  | allow
  | rateLimited
  | bypassed
deriving DecidableEq, Repr

namespace Admission

/-- The word under which an answer is counted (`Admission::as_str`). -/
def label : Admission → String
  | allow => "allow"
  | rateLimited => "rate_limited"
  | bypassed => "bypassed"

end Admission

/-- The key under which a client's requests are counted. -/
def clientHost (peer : Socket) : Text := peer.ip.canonical.render

/-- The registry and the bypass list in use (`AdmissionControl`). -/
structure Gate where
  registry : Option Registry := none
  bypass : Option BypassList := none

namespace Gate

/-- Whether the client may connect at this time (`AdmissionControl::check_client`). -/
def checkClient (g : Gate) (now : Nat) (peer : Socket) : Admission × Gate :=
  match g.registry with
  | none => (.allow, g)
  | some r =>
    let (answer, r) := r.ask now (clientHost peer) 1
    (if answer = some false then .rateLimited else .allow, { g with registry := some r })

/-- Whether the destination may be dialed (`AdmissionControl::check_destination`). -/
def checkDestination (g : Gate) (destination : Text) : Admission :=
  match g.bypass with
  | some list => if list.contains destination then .bypassed else .allow
  | none => .allow

end Gate
end Intercept
