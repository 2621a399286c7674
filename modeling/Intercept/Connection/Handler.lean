import Intercept.Connection.Outcome
import Intercept.Destination.Resolver
import Intercept.Http.Exchange
import Intercept.Relay
import Intercept.Tls.Record

/-!
# Handling a connection

A redirected connection is admitted, the place it was headed for is found, its first bytes are
looked at, a target is chosen, checked and dialed, and bytes are relayed.

* `Handler` holds what all connections share, `Inbound` is one connection.
* `Run` is what became of a connection: the steps that were taken and what both sides got.
* `Handler.handle` handles one connection up to a time limit, at which it is dropped.

The three ways to a target are `Handler.viaTls`, `Handler.viaHttp` and `Handler.viaAddress`; all of
them dial through `Handler.connect`, which asks the gate first.
-/

namespace Intercept

/-- Behaviour switches and deadlines, in milliseconds (`HandlerOptions`). -/
structure Options where
  /-- Whether the first bytes are looked at. -/
  sniffing : Bool := true
  /-- How long the client may take to show what it wants. -/
  sniffTimeout : Nat := 10000
  /-- How long a read may stay idle. -/
  idle : Nat := 300000

/-- What all connections share (`ConnectionHandler`). -/
structure Handler where
  resolver : Resolver
  dialer : Dialer
  /-- Which direction goes first when both are due. -/
  turns : Turns
  options : Options := {}

/-- A connection that came in: its ends and its two directions. -/
structure Inbound where
  peer : Socket
  near : Socket
  input : Replay
  sink : Sink := {}

/-- A step in handling a connection. -/
inductive Step
  | checkedClient (answer : Admission)
  | resolved (answer : Except ResolveError Socket)
  | sniffed (protocol : Protocol)
  | checkedDestination (target : Text) (answer : Admission)
  | dialing (network target : Text)
  /-- The dialer answered; without an error there is a connection. -/
  | dialed (network target : Text) (error : Option DialError)

/-- What a connection came to. -/
inductive Fate
  | ended (outcome : Outcome)
  | failed (error : ConnectionError)
  /-- The time limit passed. -/
  | cancelled
  /-- The sniffing deadline lies beyond what the clock can tell. -/
  | crashed
deriving DecidableEq

/-- How much a relay counted in each direction, and how it ended. -/
structure Tally where
  sent : Nat
  received : Nat
  /-- What ended the relay; none when the time limit passed before a direction finished. -/
  finish : Option Finish
deriving DecidableEq, Repr

/-- What became of a connection. -/
structure Run where
  fate : Fate
  time : Nat
  /-- The gate afterwards. -/
  gate : Gate
  /-- The steps in order, each with its time. -/
  steps : List (Nat × Step) := []
  /-- What the dialed server got. -/
  toServer : List Taken := []
  /-- What the client got. -/
  toClient : List Taken := []
  serverClosed : Bool := false
  clientClosed : Bool := false
  /-- What the relay counted, once there was one. -/
  tally : Option Tally := none

namespace Run

/-- The run with steps taken before it. -/
def after (steps : List (Nat × Step)) (r : Run) : Run := { r with steps := steps ++ r.steps }

@[simp] theorem after_nil (r : Run) : r.after [] = r := rfl

@[simp] theorem steps_after (steps : List (Nat × Step)) (r : Run) :
    (r.after steps).steps = steps ++ r.steps := rfl

end Run

/-- The first moment that the clock cannot tell, in milliseconds: its seconds are signed numbers of
64 bits, and it shows the first of them when times begin. -/
def endOfTime : Nat := (UInt64.size / 2 - 1) * 1000

/-- The network on which targets are dialed. -/
def tcp : Text := "tcp".toList

namespace Handler

/-- Asks the gate about a target and dials it; `go` has the connection from the time it stands. -/
def connect (h : Handler) (gate : Gate) (limit now : Nat) (path : Protocol) (target : Text)
    (go : Nat → FarEnd → Run) : Run :=
  let answer := gate.checkDestination target
  let checked := (now, Step.checkedDestination target answer)
  if answer = .bypassed then
    Run.after [checked] { fate := .ended (.bypassed path target), time := now, gate := gate }
  else
    let asked := [checked, (now, Step.dialing tcp target)]
    let dialed := h.dialer tcp target
    let time := now + dialed.delay
    if max now limit < time then
      Run.after asked { fate := .cancelled, time := max now limit, gate := gate }
    else match dialed.result with
      | .error e =>
        Run.after (asked ++ [(time, .dialed tcp target (some e))])
          { fate := .failed (.dial e), time := time, gate := gate }
      | .ok far => (go time far).after (asked ++ [(time, .dialed tcp target none)])

/-- Relays both ways until one direction finishes (`ConnectionHandler::transport`). -/
def transport (h : Handler) (gate : Gate) (limit now : Nat) (outcome : Outcome)
    (client : Replay) (clientSink : Sink) (server : Replay) (serverSink : Sink) : Run :=
  let done := relay limit h.options.idle
    { turns := h.turns
      up := { source := client, sink := serverSink, since := now }
      down := { source := server, sink := clientSink, since := now } }
  { fate := if done.expired then .cancelled else .ended outcome
    time := done.time
    gate := gate
    toServer := done.relay.up.passed.reverse
    toClient := done.relay.down.passed.reverse
    serverClosed := done.serverClosed
    clientClosed := done.clientClosed
    tally := some ⟨done.relay.up.total, done.relay.down.total, done.finish⟩ }

/-- Dials a target and relays the client's stream to it. -/
def tunnel (h : Handler) (gate : Gate) (limit now : Nat) (path : Protocol) (target : Text)
    (client : Replay) (clientSink : Sink) : Run :=
  h.connect gate limit now path target fun time far =>
    h.transport gate limit time (.completed path target) client clientSink
      (.ofSource { far.source with start := time }) far.sink

/-- The way of a connection that is not looked into: to where it was headed
(`ConnectionHandler::handle_opaque`). -/
def viaAddress (h : Handler) (gate : Gate) (limit now : Nat) (dst : Socket) (client : Replay)
    (clientSink : Sink) : Run :=
  h.tunnel gate limit now .blind dst.render client clientSink

/-- The way of a TLS connection: to the server that its ClientHello names
(`ConnectionHandler::handle_tls`). -/
def viaTls (h : Handler) (gate : Gate) (limit deadline now : Nat) (dst : Socket) (client : Replay)
    (clientSink : Sink) : Run :=
  let read := Tls.readRecord (min limit deadline) [] now client
  let stop (e : ConnectionError) : Run := { fate := .failed e, time := read.time, gate := gate }
  match read.result with
  | .error .expired =>
    if limit < deadline then { fate := .cancelled, time := read.time, gate := gate }
    else stop (.timeout .clientHello)
  | .error (.failed e) => stop (.decode e)
  | .ok _ =>
    match Tls.serverName? read.buffer with
    | .error e => stop (.decode e)
    | .ok name =>
      let target := (Target.ofServerName name (some dst)).getD dst.render
      h.tunnel gate limit read.time .tls target (read.rest.putBack read.buffer) clientSink

/-- Forwards a request and its answer to a target that was reached
(`ConnectionHandler::handle_http`). After a switch of protocols bytes are relayed. -/
def converse (h : Handler) (gate : Gate) (limit now : Nat) (target : Text) (request : Http.Request)
    (client : Http.Reader) (clientSink : Sink) (far : FarEnd) : Run :=
  let done := Http.exchange h.turns limit h.options.idle request { client with now := now }
    clientSink (.ofSource { far.source with start := now }) far.sink
  let toServer := done.up.taken.reverse
  let toClient := done.down.taken.reverse
  let finish (fate : Fate) : Run :=
    { fate := fate, time := done.time, gate := gate, toServer := toServer, toClient := toClient }
  match done.result with
  | .error .expired => finish .cancelled
  | .error (.failed e) => finish (.failed (.http e))
  | .ok .complete => finish (.ended (.completed .http target))
  | .ok .upgraded =>
    let run := h.transport gate limit done.time (.completed .http target)
      (done.up.reader.stream.putBack done.up.reader.buffer) done.down.sink
      (done.down.reader.stream.putBack done.down.reader.buffer) done.up.sink
    { run with toServer := toServer ++ run.toServer, toClient := toClient ++ run.toClient }

/-- The way of an HTTP request: to the host that it is meant for (`ConnectionHandler::handle_http`).
-/
def viaHttp (h : Handler) (gate : Gate) (limit deadline now : Nat) (client : Replay)
    (clientSink : Sink) : Run :=
  let reader : Http.Reader := { stream := client, patience := some h.options.idle, now := now }
  let head := reader.readRequest (min limit deadline)
  let stop (e : ConnectionError) : Run :=
    { fate := .failed e, time := head.reader.now, gate := gate }
  match head.result with
  | .error .expired =>
    if limit < deadline then { fate := .cancelled, time := head.reader.now, gate := gate }
    else stop (.timeout .requestHead)
  | .error (.failed e) => stop (.http e)
  | .ok request =>
    match request.host with
    | none => stop (.http .noHost)
    | some host =>
      let target := Target.ofHost host
      h.connect gate limit head.reader.now .http target fun time far =>
        h.converse gate limit time target request head.reader clientSink far

/-- Looks at the first bytes and takes the way that they show
(`ConnectionHandler::process_connection`). -/
def route (h : Handler) (gate : Gate) (limit now : Nat) (dst : Socket) (c : Inbound) : Run :=
  let deadline := now + h.options.sniffTimeout
  if !h.options.sniffing then h.viaAddress gate limit now dst (c.input.putBack []) c.sink
  else if endOfTime ≤ deadline then { fate := .crashed, time := now, gate := gate }
  else
    let s := sniff (min limit deadline) now c.input
    if s.timedOut ∧ limit < deadline then { fate := .cancelled, time := s.time, gate := gate }
    else
      let run := match s.protocol with
        | .tls => h.viaTls gate limit deadline s.time dst s.stream c.sink
        | .http => h.viaHttp gate limit deadline s.time s.stream c.sink
        | .blind => h.viaAddress gate limit s.time dst s.stream c.sink
      run.after [(s.time, .sniffed s.protocol)]

/-- Handles a connection that came in at time `now` (`ConnectionHandler::handle_inner`); at `limit`
it is dropped. `moment` is the time on the rate limiter's clock. -/
def handle (h : Handler) (gate : Gate) (moment limit now : Nat) (c : Inbound) : Run :=
  let (answer, gate) := gate.checkClient moment c.peer
  let run : Run :=
    if answer = .rateLimited then { fate := .ended .rateLimited, time := now, gate := gate }
    else match h.resolver c.peer c.near with
      | .error e =>
        Run.after [(now, .resolved (.error e))]
          { fate := .failed (.resolve e), time := now, gate := gate }
      | .ok dst => (h.route gate limit now dst c).after [(now, .resolved (.ok dst))]
  run.after [(now, .checkedClient answer)]

end Handler
end Intercept
