import Intercept.Stream.Duplex

/-!
# Streams around streams

Bytes that are put back make a new stream around the old one, and more of them make another one
around that. Each layer has its own bytes and the stream inside, and knows of nothing else.

* `Channel` is any stream: how it answers a call. A call never waits; who makes it says in which
  context, and that is handed on as it is.
* `Layer` is a stream with bytes put back in front of another one, and `Channel.replaying` is how it
  answers. `Layers` and `Channel.stacked` are so many of them, one around the other.
* `Duplex.channel` is a connection, asked at a time and given until a deadline.
* `Channel.run` makes calls one behind the other.
-/

namespace Intercept

/-- What is asked of a stream. -/
inductive Channel.Call
  | read (room : Nat)
  | write (offer : Bytes)
  | writeVectored (offers : List Bytes)
  | flush
  | shutdown
deriving DecidableEq, Repr

/-- What a stream answers. -/
inductive Channel.Answer
  /-- Nothing yet. -/
  | waiting
  /-- What was read: no bytes at the end of the stream, or where there was no room. -/
  | data (bytes : Bytes)
  | took (n : Nat)
  /-- All is passed on, or the write side is closed. -/
  | done
  | failed (fault : Fault)
deriving DecidableEq, Repr

/-- A stream, by how it answers. -/
structure Channel (ε σ : Type) where
  poll : ε → Channel.Call → σ → Channel.Answer × σ
  /-- Whether several pieces are taken as one. -/
  gathers : σ → Bool

/-- Bytes put back in front of a stream (`ReplayStream`). -/
structure Layer (σ : Type) where
  pending : Bytes
  inner : σ
deriving DecidableEq, Repr

/-- So many layers, one around the other. -/
def Layers (σ : Type) : Nat → Type
  | 0 => σ
  | n + 1 => Layer (Layers σ n)

namespace Layers

variable {σ : Type}

/-- The bytes put back, the outermost first. -/
def held : {n : Nat} → Layers σ n → List Bytes
  | 0, _ => []
  | _ + 1, l => Layer.pending l :: held (Layer.inner l)

/-- The stream inside all of them. -/
def core : {n : Nat} → Layers σ n → σ
  | 0, st => st
  | _ + 1, l => core (Layer.inner l)

end Layers

namespace Channel

variable {ε σ : Type}

/-- Reads take the bytes put back first, and ask the stream inside when there are none
(`ReplayStream`); all other calls go through. -/
def replaying (c : Channel ε σ) : Channel ε (Layer σ) where
  poll cx call l :=
    match call, l.pending with
    | .read room, b :: bs =>
      (.data ((b :: bs).take room), { l with pending := (b :: bs).drop room })
    | call, _ => let (answer, inner) := c.poll cx call l.inner; (answer, { l with inner := inner })
  gathers l := c.gathers l.inner

/-- So many layers around a stream. -/
def stacked (c : Channel ε σ) : (n : Nat) → Channel ε (Layers σ n)
  | 0 => c
  | n + 1 => (c.stacked n).replaying

/-- A call that was made, its context, and what was answered. -/
structure Polled (ε : Type) where
  context : ε
  call : Call
  answer : Answer
deriving DecidableEq, Repr

/-- Makes calls one behind the other. -/
def run (c : Channel ε σ) : List (ε × Call) → σ → List (Polled ε) × σ
  | [], st => ([], st)
  | (cx, call) :: calls, st =>
    let (answer, st) := c.poll cx call st
    let (polled, st) := c.run calls st
    (⟨cx, call, answer⟩ :: polled, st)

/-- The same stream with a record of all that it is asked and answers. -/
def recorded (c : Channel ε σ) : Channel ε (σ × List (Polled ε)) where
  poll cx call st :=
    let (answer, next) := c.poll cx call st.1
    (answer, next, st.2 ++ [⟨cx, call, answer⟩])
  gathers st := c.gathers st.1

end Channel

namespace Duplex

open Channel (Answer)

/-- What a delivery answers to a read. -/
def answerOf : Delivery → Answer
  | .bytes data => .data data
  | .ended => .data []
  | .fault f => .failed f

/-- What an offer of bytes is answered. -/
def answerTaken : Except Fault Nat → Answer
  | .ok n => .took n
  | .error f => .failed f

/-- A connection as a stream: a read waits from a time on until a deadline, the others not at
all. -/
def channel : Channel (Nat × Nat) Duplex where
  poll cx call d :=
    match call with
    | .read room =>
      match d.read cx.1 cx.2 room with
      | none => (.waiting, d)
      | some r => (answerOf r.delivery, r.rest)
    | .write offer => let (taken, d) := d.write offer; (answerTaken taken, d)
    | .writeVectored offers => let (taken, d) := d.writeVectored offers; (answerTaken taken, d)
    | .flush =>
      match d.flush with
      | (.ok _, d) => (.done, d)
      | (.error f, d) => (.failed f, d)
    | .shutdown =>
      match d.close with
      | none => (.waiting, d)
      | some d => (.done, d)
  gathers _ := true

end Duplex

/-- A connection in layers, with all their bytes put back in front of it. -/
def Layers.flat : {n : Nat} → Layers Duplex n → Duplex
  | 0, d => d
  | _ + 1, l => (Layers.flat (Layer.inner l)).putBack (Layer.pending l)

end Intercept
