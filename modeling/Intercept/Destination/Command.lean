import Intercept.Destination.StateTable
import Intercept.Text.Utf8

/-!
# Programs that print the state table

The state table comes from a program's standard output. What a program does is a matter of the
system: it is started anew for every connection and known by how it ended and what it wrote.

* `Ran` is how a program ended and what it wrote, `Programs` what comes of starting one.
* `dump` is the table that a program prints, or why there is none.
-/

namespace Intercept.Command

/-- How a program ended, and what it wrote to its standard output. -/
structure Ran where
  /-- The exit status; none when a signal ended the program. -/
  status : Option Int
  output : Bytes := []

/-- What comes of starting a program with some arguments. -/
abbrev Programs := (program : Text) → (args : List Text) → Except Fault Ran

/-- The state table that a program prints (`CommandSource::dump`). Bytes that are no text are
replaced. -/
def dump (programs : Programs) (program : Text) (args : List Text) : Except ResolveError Text :=
  match programs program args with
  | .error fault => .error (.command fault)
  | .ok ran =>
    if ran.status = some 0 then .ok (Utf8.decodeLossy ran.output) else .error (.status ran.status)

end Intercept.Command
