import Intercept.Direction
import Intercept.Stream.Replay
import Intercept.Stream.Sink

/-!
# The relay

Bytes go both ways between a client and a server until the first direction finishes: at the end of
its source, at a fault, when a write fails, or when a read stays idle for too long. Then both write
sides are closed.

* `Flow.next` is what a direction does next, and when.
* `Relay.run` takes the two directions' steps in the order of their times.
* `relay` runs both directions and closes both sides.

A direction counts a piece when all of it was taken.
-/

namespace Intercept

/-- Why a direction finished. -/
inductive Cause
  /-- There is no more to read. -/
  | ended
  /-- A read or a write failed. -/
  | fault (f : Fault)
  /-- A read stayed idle for too long. -/
  | idle
deriving DecidableEq, Repr

/-- The direction that ended a relay, and why it finished. -/
structure Finish where
  direction : Direction
  cause : Cause
deriving DecidableEq, Repr

/-- A direction under way. -/
structure Flow where
  source : Replay
  sink : Sink
  /-- When the read that it waits for began. -/
  since : Nat
  /-- How much was passed on in whole pieces. -/
  total : Nat := 0
  /-- A counter outside the relay that is kept in step. -/
  counter : Option Nat := none
  /-- What was passed on, the last first. -/
  passed : List Taken := []

namespace Flow

/-- The most that a direction reads at once (`COPY_BUFFER_SIZE`). -/
def readSize : Nat := 32768

/-- All that was passed on. -/
def written (f : Flow) : Bytes := Taken.all f.passed.reverse

/-- What the direction does next. -/
inductive Move
  | pass (bytes : Bytes) (rest : Replay)
  | finish (cause : Cause)
  /-- The caller's time limit passes. -/
  | expire

/-- What the direction does next, and when (`copy_half`). -/
def next (limit idle : Nat) (f : Flow) : Nat × Move :=
  match f.source.readBy (min limit (f.since + idle)) f.since readSize with
  | some ⟨time, .bytes (b :: bs), rest⟩ => (time, .pass (b :: bs) rest)
  | some ⟨time, .bytes [], _⟩ => (time, .finish .ended)
  | some ⟨time, .ended, _⟩ => (time, .finish .ended)
  | some ⟨time, .fault e, _⟩ => (time, .finish (.fault e))
  | none =>
    if f.since + idle ≤ max f.since limit then (f.since + idle, .finish .idle)
    else (max f.since limit, .expire)

/-- Passes a piece on: why not all of it was taken, if so, and the direction afterwards
(`copy_half`). -/
def pass (time : Nat) (bytes : Bytes) (rest : Replay) (f : Flow) : Option Fault × Flow :=
  let w := f.sink.writeAll bytes
  let passed := if w.taken.isEmpty then f.passed else ⟨time, w.taken⟩ :: f.passed
  let f := { f with source := rest, sink := w.sink, since := time, passed := passed }
  match w.fault with
  | some e => (some e, f)
  | none =>
    (none,
      { f with
        total := f.total + bytes.length
        counter := f.counter.map (· + bytes.length) })

theorem next_weight {limit idle time : Nat} {f : Flow} {bytes : Bytes} {rest : Replay}
    (h : f.next limit idle = (time, .pass bytes rest)) : rest.weight < f.source.weight := by
  unfold next at h
  split at h
  · rename_i t b bs r hr
    have := Replay.weight_of_read (Replay.read_of_readBy hr)
    simp only [Delivery.advances, List.isEmpty_cons, Bool.not_false, if_true] at this
    simp only [Prod.mk.injEq, Move.pass.injEq] at h
    obtain ⟨_, _, rfl⟩ := h
    omega
  · simp at h
  · simp at h
  · simp at h
  · split at h <;> simp at h

@[simp] theorem pass_source (time : Nat) (bytes : Bytes) (rest : Replay) (f : Flow) :
    (f.pass time bytes rest).2.source = rest := by
  unfold pass
  simp only
  split <;> rfl

end Flow

/-- The two directions of a relay, and which goes first when both are due. -/
structure Relay where
  turns : Turns
  up : Flow
  down : Flow

namespace Relay

/-- How the two directions ran. -/
structure Ran where
  /-- The direction that finished, and why; none when the time limit passed first. -/
  finish : Option Finish
  time : Nat
  relay : Relay

/-- Takes the directions' steps in the order of their times, up to the first that finishes
(`relay`). -/
def run (limit idle : Nat) (r : Relay) : Ran :=
  match _hu : r.up.next limit idle, _hd : r.down.next limit idle with
  | (timeUp, moveUp), (timeDown, moveDown) =>
    if r.turns.upFirst timeUp timeDown then
      match moveUp with
      | .expire => ⟨none, timeUp, r⟩
      | .finish cause => ⟨some ⟨.toServer, cause⟩, timeUp, r⟩
      | .pass bytes rest =>
        match _hp : r.up.pass timeUp bytes rest with
        | (none, up) => run limit idle { r with up := up }
        | (some e, up) => ⟨some ⟨.toServer, .fault e⟩, timeUp, { r with up := up }⟩
    else
      match moveDown with
      | .expire => ⟨none, timeDown, r⟩
      | .finish cause => ⟨some ⟨.toClient, cause⟩, timeDown, r⟩
      | .pass bytes rest =>
        match _hp : r.down.pass timeDown bytes rest with
        | (none, down) => run limit idle { r with down := down }
        | (some e, down) => ⟨some ⟨.toClient, .fault e⟩, timeDown, { r with down := down }⟩
termination_by r.up.source.weight + r.down.source.weight
decreasing_by
  · have h1 := Flow.next_weight _hu
    have h2 := Flow.pass_source timeUp bytes rest r.up
    rw [_hp] at h2
    simp only at h2
    rw [h2]
    omega
  · have h1 := Flow.next_weight _hd
    have h2 := Flow.pass_source timeDown bytes rest r.down
    rw [_hp] at h2
    simp only at h2
    rw [h2]
    omega

end Relay

/-- How long closing a write side may take. -/
def closePatience : Nat := 1000

/-- Closes the write side behind a sink: when that is over, and whether it was closed. A side that
never closes is given up after `closePatience`; `none` when the time limit passes first. -/
def Sink.close (limit now : Nat) (s : Sink) : Option (Nat × Bool) :=
  if s.closes then some (now, true)
  else if now + closePatience ≤ max now limit then some (now + closePatience, false)
  else none

/-- A relay that is over. -/
structure Relayed where
  /-- What ended it; none when the time limit passed before a direction finished. -/
  finish : Option Finish
  /-- Whether the time limit passed before all was over. -/
  expired : Bool
  time : Nat
  relay : Relay
  serverClosed : Bool
  clientClosed : Bool

/-- The direction that ended a relay. -/
def Relayed.finishedBy (r : Relayed) : Option Direction := r.finish.map (·.direction)

/-- Runs both directions, then closes the server's side and the client's. -/
def relay (limit idle : Nat) (r : Relay) : Relayed :=
  let ran := r.run limit idle
  match ran.finish with
  | none => ⟨none, true, ran.time, ran.relay, false, false⟩
  | some f =>
    match ran.relay.up.sink.close limit ran.time with
    | none => ⟨some f, true, max ran.time limit, ran.relay, false, false⟩
    | some (time, serverClosed) =>
      match ran.relay.down.sink.close limit time with
      | none => ⟨some f, true, max time limit, ran.relay, serverClosed, false⟩
      | some (time, clientClosed) => ⟨some f, false, time, ran.relay, serverClosed, clientClosed⟩

end Intercept
