import Intercept.Direction
import Intercept.Http.Copying

/-!
# One exchange

A request head and its body go to the server, and the server's answer comes back: any number of
interim heads and one final response with its body. The two directions run side by side.

* `Copying.respond` passes the answer on.
* `Exchanged.join` lets both directions run to their ends, or to the first failure.
* `exchange` sends the head and runs both directions.
-/

namespace Intercept.Http

/-- How an exchange ends that does not fail (`Exchange`). -/
inductive Ending
  | complete
  /-- The server switched to another protocol. -/
  | upgraded
deriving DecidableEq, Repr

/-- The status with which a server switches to another protocol. -/
def switching : Nat := 101

namespace Copying

/-- Everything taken before the given moment. -/
def before (time : Nat) (c : Copying) : Copying :=
  { c with taken := c.taken.filter (·.time < time) }

/-- Everything taken up to and at the given moment. -/
def upTo (time : Nat) (c : Copying) : Copying :=
  { c with taken := c.taken.filter (·.time ≤ time) }

/-- Passes interim heads on, then the final head and its body (`exchange`). -/
def respond (limit : Nat) (headRequest : Bool) (c : Copying) : Copied Ending :=
  let head := c.reader.readResponse headRequest limit
  match _h : head.result with
  | .error s => ⟨.error s, c.resume head.reader⟩
  | .ok response =>
    let passed := (c.resume head.reader).put response.raw
    match passed.result with
    | .error s => ⟨.error s, passed.state⟩
    | .ok _ =>
      if response.status = switching then ⟨.ok .upgraded, passed.state⟩
      else if Response.isInterim response.status then respond limit headRequest passed.state
      else
        let body := passed.state.body limit response.framing
        ⟨body.result.map fun _ => .complete, body.state⟩
termination_by c.reader.bytes.length
decreasing_by exact Reader.length_of_readResponse _h

end Copying

/-- What an exchange came to. -/
structure Exchanged where
  result : Except (Stop Error) Ending
  time : Nat
  /-- From the client to the server. -/
  up : Copying
  /-- From the server to the client. -/
  down : Copying

/-- Lets both directions run to their ends (`exchange`). The first failure ends both; at its moment
the other direction took its own step if it went first. -/
def Exchanged.join (turns : Turns) (up : Copied Unit) (down : Copied Ending) : Exchanged :=
  let upEnd := up.state.reader.now
  let downEnd := down.state.reader.now
  let failUp (s : Stop Error) : Exchanged :=
    ⟨.error s, upEnd, up.state,
      if turns upEnd = .toServer then down.state.before upEnd else down.state.upTo upEnd⟩
  let failDown (s : Stop Error) : Exchanged :=
    ⟨.error s, downEnd,
      if turns downEnd = .toServer then up.state.upTo downEnd else up.state.before downEnd,
      down.state⟩
  match up.result, down.result with
  | .ok _, .ok ending => ⟨.ok ending, max upEnd downEnd, up.state, down.state⟩
  | .error s, .ok _ => failUp s
  | .ok _, .error s => failDown s
  | .error s, .error t => if turns.upFirst upEnd downEnd then failUp s else failDown t

/-- Forwards a request whose head was cut off `client` and relays its answer. Reads on either side
may stay idle for `idle`. -/
def exchange (turns : Turns) (limit idle : Nat) (request : Request) (client : Reader)
    (clientSink : Sink) (server : Replay) (serverSink : Sink) : Exchanged :=
  let up : Copying := { reader := { client with patience := some idle }, sink := serverSink }
  let down : Copying :=
    { reader := { stream := server, patience := some idle, now := client.now }, sink := clientSink }
  let head := up.put request.raw
  match head.result with
  | .error s => ⟨.error s, client.now, head.state, down⟩
  | .ok _ =>
    .join turns (head.state.body limit request.framing) (down.respond limit request.isHead)

end Intercept.Http
