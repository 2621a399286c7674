import Intercept.Text.Cut

/-!
# Accepting connections

The server accepts one connection after the other and hands each to a task of its own. A cap on the
connections in flight is kept with permits: one is taken before a connection is accepted, goes with
it, and comes back when it is over.

* `Server` is the state, `Phase` says what the accepting loop is doing.
* `Occurrence` is what can happen from outside; `Server.observe` lets it happen at a time.
* `Server.run` lets a whole history happen.

After the signal to stop nothing more is accepted. The connections in flight then have the drain
time to end; the rest is cancelled and waited for during `lastWait`. Times are milliseconds.
-/

namespace Intercept

/-- What the accepting loop is doing. -/
inductive Phase
  /-- It waits for a permit. -/
  | waiting
  /-- It has a permit, if there is a cap, and waits for a connection. -/
  | accepting
  /-- It waits for the connections in flight to end. -/
  | draining (since : Nat)
  /-- The connections that are left have been cancelled. -/
  | cancelling (since : Nat)
  | finished (time : Nat)
deriving DecidableEq, Repr

/-- How many connections may be in flight, and how long they may take to end after the signal. -/
structure ServeLimits where
  cap : Option Nat := none
  drain : Nat := 30000
deriving DecidableEq, Repr

/-- What can happen to a server. -/
inductive Occurrence
  /-- A connection arrives. -/
  | arrival (id : Nat)
  /-- Accepting fails, or the accepted connection cannot tell its own address. -/
  | acceptFailure
  /-- A connection is over. -/
  | completion (id : Nat)
  /-- The signal to stop. -/
  | signal
deriving DecidableEq, Repr

/-- The state of accepting connections (`serve`). -/
structure Server where
  limits : ServeLimits
  phase : Phase
  /-- The permits that nobody holds. -/
  free : Nat
  /-- The connections in flight. -/
  active : List Nat := []
deriving DecidableEq, Repr

namespace Server

/-- The most permits that there can be. -/
def mostPermits : Nat := UInt64.size / 8 - 1

/-- How long cancelled connections are waited for. -/
def lastWait : Nat := 1000

/-- How many permits the accepting loop holds. -/
def held (s : Server) : Nat := if s.limits.cap.isSome && s.phase = .accepting then 1 else 0

/-- Gives a permit back, if there is a cap. -/
def release (s : Server) : Server :=
  { s with free := if s.limits.cap.isSome then s.free + 1 else s.free }

/-- Goes on as far as nothing has to be waited for: takes a free permit, or finishes when nothing is
left in flight. -/
def settle (now : Nat) (s : Server) : Server :=
  match s.phase with
  | .waiting =>
    if s.limits.cap.isNone then { s with phase := .accepting }
    else if 0 < s.free then { s with phase := .accepting, free := s.free - 1 }
    else s
  | .draining _ => if s.active.isEmpty then { s with phase := .finished now } else s
  | .cancelling _ => if s.active.isEmpty then { s with phase := .finished now } else s
  | _ => s

/-- A server that has just started (`serve`); `none` when the cap is more than there can be permits.
-/
def start (limits : ServeLimits) : Option Server :=
  if limits.cap.any (mostPermits < ·) then none
  else some (settle 0 { limits := limits, phase := .waiting, free := limits.cap.getD 0 })

/-- Cancels the connections that are left when the drain time is over. -/
def expireDrain (now : Nat) (s : Server) : Server :=
  match s.phase with
  | .draining since =>
    if since + s.limits.drain ≤ now then { s with phase := .cancelling (since + s.limits.drain) }
    else s
  | _ => s

/-- Finishes when the cancelled connections were waited for long enough. -/
def expireCancel (now : Nat) (s : Server) : Server :=
  match s.phase with
  | .cancelling since =>
    if since + lastWait ≤ now then { s with phase := .finished (since + lastWait) } else s
  | _ => s

/-- Lets time pass. -/
def elapse (now : Nat) (s : Server) : Server := (s.expireDrain now).expireCancel now

/-- What an occurrence changes at once. -/
def react (now : Nat) (s : Server) : Occurrence → Server
  | .arrival id =>
    if s.phase = .accepting then { s with phase := .waiting, active := id :: s.active } else s
  | .acceptFailure => if s.phase = .accepting then { s.release with phase := .waiting } else s
  | .completion id =>
    if id ∈ s.active then { s.release with active := s.active.erase id } else s
  | .signal =>
    match s.phase with
    | .waiting => { s with phase := .draining now }
    | .accepting => { s.release with phase := .draining now }
    | _ => s

/-- Lets something happen at a time (`serve`). -/
def observe (s : Server) (now : Nat) (o : Occurrence) : Server :=
  ((s.elapse now).react now o).settle now

/-- Lets a history happen. -/
def run (s : Server) (history : List (Nat × Occurrence)) : Server :=
  history.foldl (fun s (now, o) => s.observe now o) s

/-- Whether the server is still there. -/
def isRunning (s : Server) : Bool :=
  match s.phase with
  | .finished _ => false
  | _ => true

end Server
end Intercept
