import Intercept.Stream.Replay
import Intercept.Stream.Sink

/-!
# Both sides of a connection

A connection is read and written, and its write side can be closed. Bytes put back touch only what
is read.

* `Duplex.read`, `Duplex.write`, `Duplex.writeVectored`, `Duplex.flush` and `Duplex.close` are the
  operations.
* `Duplex.written` is all that the peer took.
-/

namespace Intercept

/-- A connection: what is to be read, and what the peer takes. -/
structure Duplex where
  input : Replay
  sink : Sink := {}
  /-- What the peer took. -/
  written : Bytes := []
  /-- Whether the write side was closed. -/
  closed : Bool := false

namespace Duplex

/-- A connection in front of which nothing was put back. -/
def ofSource (source : Source) (sink : Sink) : Duplex := { input := .ofSource source, sink := sink }

/-- Puts bytes in front of what is to be read. -/
def putBack (bytes : Bytes) (d : Duplex) : Duplex := { d with input := d.input.putBack bytes }

/-- Waits for bytes from `now` until the deadline and takes at most `room` of them. -/
def read (deadline now room : Nat) (d : Duplex) : Option (Reading Duplex) :=
  (d.input.readBy deadline now room).map fun r =>
    ⟨r.time, r.delivery, { d with input := r.rest }⟩

/-- Offers bytes once: how many were taken, or the fault (`poll_write`). -/
def write (offer : Bytes) (d : Duplex) : Except Fault Nat × Duplex :=
  let w := d.sink.write offer
  match w.1 with
  | .ok n => (.ok n, { d with sink := w.2, written := d.written ++ offer.take n })
  | .error f => (.error f, { d with sink := w.2 })

/-- Offers several pieces as one (`poll_write_vectored`). -/
def writeVectored (offers : List Bytes) (d : Duplex) : Except Fault Nat × Duplex :=
  d.write offers.flatten

/-- Passes on what was written (`poll_flush`); nothing is ever held back. -/
def flush (d : Duplex) : Except Fault Unit × Duplex := (.ok (), d)

/-- Closes the write side (`poll_shutdown`); `none` when that never finishes. -/
def close (d : Duplex) : Option Duplex :=
  if d.sink.closes then some { d with closed := true } else none

end Duplex
end Intercept
