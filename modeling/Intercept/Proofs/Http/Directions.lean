import Intercept.Proofs.Http.Exchange
import Intercept.Proofs.Http.Pace

/-!
# The two directions of an exchange

An exchange lets two directions run side by side, each on its own clock. What each of them comes to
on its own, and what that makes of the exchange.

* `Copied.time`: when a step ended.
* `sending`, `answering`: the direction to the server and the one to the client.

Results:
* `le_time_body`, `le_time_respond`: no step ends before it began.
* `join_both`, `join_failUp`, `join_failDown`: what two directions that ended make of an exchange.
* `exchange_eq_join`: once the request head was sent an exchange is its two directions.
* `cut_of_sending`, `cut_of_answering`: a direction that is through has passed its message on.
-/

namespace Intercept.Http

/-- When a step ended. -/
def Copied.time {α : Type} (out : Copied α) : Nat := out.state.reader.now

/-! ## Steps take time -/

namespace Copying

variable {limit n : Nat}

theorem le_time_exact (c : Copying) : c.reader.now ≤ (c.exact limit n).time := by
  fun_induction exact limit n c with
  | case1 n c => exact Nat.le_refl _
  | case2 n c => exact Nat.le_refl _
  | case3 n c done _ hu left reader hl r hr ih =>
    have hle := Reader.le_now_of_fill hr
    exact Nat.le_trans hle ih
  | case4 n c done _ hu left reader hl r hr => exact Reader.le_now_of_fill hr
  | case5 n c done _ hu left reader hl s r hr => exact Reader.le_now_of_fill hr

theorem le_time_line (c : Copying) : c.reader.now ≤ (c.line limit).time := by
  fun_induction line limit c with
  | case1 c => exact Nat.le_refl _
  | case2 c => exact Nat.le_refl _
  | case3 c hcut hl r hr ih => exact Nat.le_trans (Reader.le_now_of_fill hr) ih
  | case4 c hcut hl r hr => exact Reader.le_now_of_fill hr
  | case5 c hcut hl s r hr => exact Reader.le_now_of_fill hr

theorem le_time_trailers (c : Copying) : c.reader.now ≤ (c.trailers limit).time := by
  fun_induction trailers limit c with
  | case1 c s hs => exact le_time_line c
  | case2 c l hl heol => exact le_time_line c
  | case3 c l hl heol ih => exact Nat.le_trans (le_time_line c) ih

theorem le_time_chunked (c : Copying) : c.reader.now ≤ (c.chunked limit).time := by
  fun_induction chunked limit c with
  | case1 c sizeLine s hs => exact le_time_line c
  | case2 c sizeLine l hl hsize => exact le_time_line c
  | case3 c sizeLine l hl hsize => exact Nat.le_trans (le_time_line c) (le_time_trailers _)
  | case4 c sizeLine l hl n hn hsize data s hdata =>
    exact Nat.le_trans (le_time_line c) (le_time_exact _)
  | case5 c sizeLine l hl n hn hsize data u hdata ending s hs =>
    have hdone : c.reader.now ≤ data.time := Nat.le_trans (le_time_line c) (le_time_exact _)
    exact Nat.le_trans hdone (le_time_line _)
  | case6 c sizeLine l hl n hn hsize data u hdata ending l' hl' ih =>
    have hdone : c.reader.now ≤ data.time := Nat.le_trans (le_time_line c) (le_time_exact _)
    exact Nat.le_trans (Nat.le_trans hdone (le_time_line _)) ih

theorem le_time_toEnd (c : Copying) : c.reader.now ≤ (c.toEnd limit).time := by
  fun_induction toEnd limit c with
  | case1 c => exact Nat.le_refl _
  | case2 c done u hu r hr ih =>
    have hle := Reader.le_now_of_fill hr
    exact Nat.le_trans hle ih
  | case3 c done u hu r hr => exact Reader.le_now_of_fill hr
  | case4 c done u hu s r hr => exact Reader.le_now_of_fill hr

theorem le_time_body (framing : Framing) (c : Copying) :
    c.reader.now ≤ (c.body limit framing).time := by
  cases framing with
  | empty => exact Nat.le_refl _
  | length n => exact le_time_exact c
  | chunked => exact le_time_chunked c
  | untilClose => exact le_time_toEnd c

theorem le_time_respond (headRequest : Bool) (c : Copying) :
    c.reader.now ≤ (c.respond limit headRequest).time := by
  fun_induction respond limit headRequest c with
  | case1 c head s hs => exact le_now_readResponse headRequest limit c.reader
  | case2 c head r hr passed s hs => exact le_now_readResponse headRequest limit c.reader
  | case3 c head r hr passed u hu hstatus => exact le_now_readResponse headRequest limit c.reader
  | case4 c head r hr passed u hu hstatus hinterim ih =>
    exact Nat.le_trans (le_now_readResponse headRequest limit c.reader) ih
  | case5 c head r hr passed u hu hstatus hinterim body =>
    have hbody : passed.state.reader.now ≤ body.time := le_time_body r.framing passed.state
    exact Nat.le_trans (le_now_readResponse headRequest limit c.reader) hbody

end Copying

/-! ## Two directions that ended -/

namespace Exchanged

variable {turns : Turns} {up : Copied Unit} {down : Copied Ending} {ending : Ending}

/-- Directions that are both through end when the later one does. -/
theorem join_both (hup : up.result = .ok ()) (hdown : down.result = .ok ending) :
    join turns up down = ⟨.ok ending, max up.time down.time, up.state, down.state⟩ := by
  simp only [join, hup, hdown]
  rfl

/-- A failure to send ends an exchange, also when the answer is through. -/
theorem join_failUp {s : Stop Error} (hup : up.result = .error s)
    (hdown : down.result = .ok ending) :
    join turns up down =
      ⟨.error s, up.time, up.state,
        if turns up.time = .toServer then down.state.before up.time
        else down.state.upTo up.time⟩ := by
  simp only [join, hup, hdown]
  rfl

/-- So does a failure to answer. -/
theorem join_failDown {s : Stop Error} (hup : up.result = .ok ())
    (hdown : down.result = .error s) : (join turns up down).result = .error s := by
  simp only [join, hup, hdown]

end Exchanged

/-! ## Each direction on its own -/

/-- The request head is sent. -/
def sendingHead (idle : Nat) (request : Request) (client : Reader) (serverSink : Sink) :
    Copied Unit :=
  let up : Copying := { reader := { client with patience := some idle }, sink := serverSink }
  up.put request.raw

/-- The direction to the server on its own: the request head, and then the body. -/
def sending (limit idle : Nat) (request : Request) (client : Reader) (serverSink : Sink) :
    Copied Unit :=
  (sendingHead idle request client serverSink).andThen fun _ c => c.body limit request.framing

/-- The direction to the client on its own: the answer. -/
def answering (limit idle : Nat) (request : Request) (client : Reader) (clientSink : Sink)
    (server : Replay) : Copied Ending :=
  let down : Copying :=
    { reader := { stream := server, patience := some idle, now := client.now }, sink := clientSink }
  down.respond limit request.isHead

section

variable {turns : Turns} {limit idle : Nat} {request : Request} {client : Reader}
  {clientSink : Sink} {server : Replay} {serverSink : Sink}

/-- Once the request head was sent, an exchange is its two directions side by side. -/
theorem exchange_eq_join {u : Unit}
    (h : (sendingHead idle request client serverSink).result = .ok u) :
    exchange turns limit idle request client clientSink server serverSink =
      .join turns (sending limit idle request client serverSink)
        (answering limit idle request client clientSink server) := by
  simp only [sending, Copied.andThen, h]
  unfold exchange
  simp only
  split
  · rename_i s hs
    cases h.symm.trans hs
  · rfl

theorem le_time_answering :
    client.now ≤ (answering limit idle request client clientSink server).time := by
  let down : Copying :=
    { reader := { stream := server, patience := some idle, now := client.now }, sink := clientSink }
  exact down.le_time_respond request.isHead

theorem time_sending_empty (h : request.framing = .empty) :
    (sending limit idle request client serverSink).time = client.now := by
  simp only [sending, Copied.andThen, h]
  split <;> rfl

open Copying

/-- An answer that is through was passed on in full. -/
theorem cut_of_answering {answered : Copied Ending}
    (heq : answering limit idle request client clientSink server = answered)
    (h : answered.result = .ok .complete) :
    Taken.Ordered answered.time answered.state.taken ∧
      ∃ more, Cut.answer request.isHead server.bytes =
        .whole .complete answered.state.written more := by
  subst heq
  let down : Copying :=
    { reader := { stream := server, patience := some idle, now := client.now }, sink := clientSink }
  obtain ⟨passed, hpasses, -, hall⟩ := respond_follows limit request.isHead down
  have hwritten : (answering limit idle request client clientSink server).state.written = passed :=
    hpasses.written
  refine ⟨hpasses.ordered (.nil _), ?_⟩
  rw [hwritten]
  exact ⟨_, hall .complete h⟩

/-- A request that is through was passed on with its whole body. -/
theorem cut_of_sending {u : Unit}
    (h : (sending limit idle request client serverSink).result = .ok u) :
    ∃ body rest, request.framing.cut client.bytes = .whole () body rest := by
  let up : Copying := { reader := { client with patience := some idle }, sink := serverSink }
  have hsending : sending limit idle request client serverSink =
      (up.put request.raw).andThen fun _ c => c.body limit request.framing := rfl
  rw [hsending, Copied.andThen] at h
  split at h
  · obtain ⟨body, -, -, hall⟩ := body_follows limit request.framing (up.put request.raw).state
    exact ⟨body, _, hall u h⟩
  · cases h

end

end Intercept.Http
