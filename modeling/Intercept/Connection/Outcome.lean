import Intercept.Admission.Gate
import Intercept.Destination.StateTable
import Intercept.Http.Head
import Intercept.Net.Dial
import Intercept.Sniff

/-!
# How a connection ends

A connection that is not cut short is relayed to a target, dropped by an admission rule, or fails.

* `Outcome` covers all that is not a failure, `ConnectionError` the failures.
* `ConnectionError.message` is the text of a failure; `ConnectionError.cause?` is the text of the
  error behind it.
-/

namespace Intercept

/-- How a connection ends that does not fail. -/
inductive Outcome
  | completed (path : Protocol) (target : Text)
  | rateLimited
  | bypassed (path : Protocol) (target : Text)
deriving DecidableEq, Repr

namespace Outcome

/-- The word for what became of the connection (`Outcome::status`). -/
def status : Outcome → String
  | completed .. => "success"
  | rateLimited => "rate_limited"
  | bypassed .. => "bypassed"

/-- The word for the way it was handled (`Outcome::path`). -/
def path : Outcome → String
  | completed path _ => path.label
  | rateLimited => "none"
  | bypassed path _ => path.label

end Outcome

/-- What a client was being waited for. -/
inductive Stage
  | clientHello
  | requestHead
deriving DecidableEq, Repr

/-- The words for a stage. -/
def Stage.label : Stage → String
  | clientHello => "TLS ClientHello"
  | requestHead => "HTTP request head"

/-- Why a connection fails. -/
inductive ConnectionError
  | resolve (e : ResolveError)
  | decode (e : Tls.Error)
  | http (e : Http.Error)
  | dial (e : DialError)
  /-- The sniffing deadline passed. -/
  | timeout (stage : Stage)
deriving DecidableEq, Repr

namespace ConnectionError

/-- The word under which an error is counted (`ConnectionError::kind`). -/
def kind : ConnectionError → String
  | resolve _ => "resolve"
  | decode _ => "decode"
  | http _ => "http"
  | dial _ => "dial"
  | timeout _ => "timeout"

/-- The text of the error behind the failure. -/
def cause? : ConnectionError → Option String
  | resolve e => some e.message
  | decode e => some e.message
  | http e => some e.message
  | dial e => some e.message
  | timeout _ => none

/-- The text of the failure. -/
def message : ConnectionError → String
  | resolve e => e.message
  | decode e => "ClientHello decode failed: " ++ e.message
  | http e => e.message
  | dial e => e.message
  | timeout stage => "timeout reading " ++ stage.label

end ConnectionError
end Intercept
