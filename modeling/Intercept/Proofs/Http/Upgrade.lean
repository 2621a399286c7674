import Intercept.Proofs.Http.Exchange
import Intercept.Proofs.Stream.Reads
import Mathlib.Data.List.Basic

/-!
# A switch of protocols

When the server switches protocols the exchange is over before the connection is, and both readers
may hold bytes of what comes next. These are put back in front of their streams, so that a relay can
go on where the exchange stopped.

* `Exchanged.fromClient`, `Exchanged.fromServer`: the two streams that are read on.
* `Response.Fronts`: a response head is what some bytes start with.
* `UntilSwitch`: response heads up to the first one that switches protocols.

Results:
* `untilSwitch_of_answer`: an answer that ends in a switch is made of heads only.
* `exchange_upgraded`: both sides got what belongs to the exchange, and the streams that are read on
  hold all the rest.
-/

namespace Intercept.Http

/-- The client's stream behind an exchange: what was read ahead is put back in front. -/
def Exchanged.fromClient (e : Exchanged) : Replay := e.up.reader.stream.putBack e.up.reader.buffer

/-- The server's stream behind an exchange: what was read ahead is put back in front. -/
def Exchanged.fromServer (e : Exchanged) : Replay :=
  e.down.reader.stream.putBack e.down.reader.buffer

/-- The head `r` and `rest` stand one behind the other: the first empty line is the end of `r`. -/
structure Response.Fronts (headRequest : Bool) (r : Response) (rest : Bytes) : Prop where
  ends : headEnd? (r.raw ++ rest) = some r.raw.length
  reads : Response.ofRaw? headRequest r.raw = some r

/-- The bytes `heads` in front of `rest` are interim response heads, and then the first head that
switches protocols. -/
inductive UntilSwitch (headRequest : Bool) : (heads rest : Bytes) → Prop
  | switch {r : Response} {rest : Bytes} (head : r.Fronts headRequest rest)
      (status : r.status = switching) : UntilSwitch headRequest r.raw rest
  | interim {r : Response} {heads rest : Bytes} (head : r.Fronts headRequest (heads ++ rest))
      (status : Response.isInterim r.status ∧ r.status ≠ switching)
      (more : UntilSwitch headRequest heads rest) : UntilSwitch headRequest (r.raw ++ heads) rest

/-- A response head that was cut off stood in front of what is left. -/
theorem Cut.fronts_of_response {headRequest : Bool} {b front rest : Bytes} {r : Response}
    (h : response headRequest b = .whole r front rest) :
    front = r.raw ∧ b = r.raw ++ rest ∧ r.Fronts headRequest rest := by
  have hat : front ++ rest = b := by
    have := response_at headRequest b
    rwa [h] at this
  unfold response at h
  split at h
  · cases h
  · rename_i n hn
    split at h
    · cases h
    · rename_i hr
      cases h
      have hraw : r.raw = b.take n := Response.raw_of_ofRaw? hr
      have hlen : r.raw.length = n := by
        rw [hraw, List.length_take, Nat.min_eq_left (headEnd?_bounds hn).2]
      refine ⟨hraw.symm, by rw [hraw, hat], ⟨?_, by rw [hraw]; exact hr⟩⟩
      rw [hlen, hraw, hat]
      exact hn

/-- An answer that ends in a switch of protocols is made of heads: no body comes before it. -/
theorem untilSwitch_of_answer {headRequest : Bool} {b heads rest : Bytes}
    (h : Cut.answer headRequest b = .whole .upgraded heads rest) :
    UntilSwitch headRequest heads rest := by
  rw [Cut.answer_eq] at h
  cases hr : Cut.response headRequest b with
  | part front =>
    rw [hr] at h
    cases h
  | whole r front rest' =>
    have hlt := Cut.response_length hr
    obtain ⟨rfl, -, hfronts⟩ := Cut.fronts_of_response hr
    rw [hr, Cut.andThen] at h
    by_cases hswitch : r.status = switching
    · rw [if_pos hswitch] at h
      cases h
      rw [List.append_nil]
      exact .switch hfronts hswitch
    rw [if_neg hswitch] at h
    by_cases hinterim : Response.isInterim r.status = true
    · rw [if_pos hinterim] at h
      obtain ⟨more, hmore, rfl⟩ := Cut.of_behind_whole h
      have hrest : more ++ rest = rest' := by
        have := Cut.answer_at headRequest rest'
        rwa [hmore] at this
      refine .interim ?_ ⟨hinterim, hswitch⟩ (untilSwitch_of_answer hmore)
      rwa [hrest]
    · -- a final response never ends in a switch
      rw [if_neg hinterim] at h
      cases hbody : r.framing.cut rest' with
      | part _ =>
        rw [hbody] at h
        cases h
      | whole _ _ _ =>
        rw [hbody] at h
        cases h
termination_by b.length

/-- **A switch of protocols loses nothing.** When an exchange ends in one, the server has got the
request head and the body that the request's framing cuts off the client's bytes, and the client
has got the server's heads up to the first that switches. However much was read ahead on either
side, the bytes put back in front of the client's stream and those still to come are all that stands
behind the request body, and on the server's side all that stands behind that head: enough reads
with room deliver them, in order and each once. -/
theorem exchange_upgraded {turns : Turns} {limit idle : Nat} {request : Request} {client : Reader}
    {clientSink : Sink} {server : Replay} {serverSink : Sink}
    (h : (exchange turns limit idle request client clientSink server serverSink).result =
      .ok .upgraded) :
    let done := exchange turns limit idle request client clientSink server serverSink
    (∃ body, request.framing.cut client.bytes = .whole () body done.fromClient.bytes ∧
      done.up.written = request.raw ++ body ∧
      client.bytes = body ++ (done.up.reader.buffer ++ done.up.reader.stream.bytes)) ∧
    UntilSwitch request.isHead done.down.written done.fromServer.bytes ∧
    server.bytes =
      done.down.written ++ (done.down.reader.buffer ++ done.down.reader.stream.bytes) ∧
    ∃ enough, ∀ reads : List (Nat × Nat), (∀ x ∈ reads, 0 < x.2) → enough ≤ reads.length →
      (done.fromClient.readOn reads).1 =
        done.up.reader.buffer ++ done.up.reader.stream.bytes ∧
      (done.fromServer.readOn reads).1 =
        done.down.reader.buffer ++ done.down.reader.stream.bytes := by
  intro done
  have hcarries := exchange_carries turns limit idle request client clientSink server serverSink
  obtain ⟨⟨body, hbody, hup⟩, hanswer⟩ := hcarries.finished .upgraded h
  have hclient : body ++ done.up.reader.bytes = client.bytes := by
    have := request.framing.cut_at client.bytes
    rwa [hbody] at this
  have hserver : done.down.written ++ done.down.reader.bytes = server.bytes := by
    have := Cut.answer_at request.isHead server.bytes
    rwa [hanswer] at this
  have hfromClient : done.fromClient.bytes = done.up.reader.bytes := Replay.bytes_putBack _ _
  have hfromServer : done.fromServer.bytes = done.down.reader.bytes := Replay.bytes_putBack _ _
  refine ⟨⟨body, by rw [hfromClient]; exact hbody, hup, hclient.symm⟩, ?_, hserver.symm,
    max done.fromClient.weight done.fromServer.weight, fun reads hroom hlong => ⟨?_, ?_⟩⟩
  · rw [hfromServer]
    exact untilSwitch_of_answer hanswer
  · rw [Replay.readOn_all hroom (by omega)]
    exact hfromClient
  · rw [Replay.readOn_all hroom (by omega)]
    exact hfromServer

/-- A request with a body of two bytes. -/
def upgradeRequest : Request :=
  { raw := ascii "POST /chat HTTP/1.1\r\nHost: a\r\nContent-Length: 2\r\n\r\n"
    method := "POST".toList, target := "/chat".toList, host := some ['a'], framing := .length 2 }

/-- A client of which the body and one byte more were read ahead. -/
def upgradeClient : Reader :=
  { buffer := ascii "hi!", stream := .ofSource { events := [⟨5, .data (ascii "more")⟩] } }

/-- A server that speaks right behind its second head. -/
def upgradeServer : Replay :=
  .ofSource { events := [⟨1, .data (ascii
    "HTTP/1.1 100 Continue\r\n\r\nHTTP/1.1 101 Switching Protocols\r\n\r\nWS")⟩,
    ⟨9, .data (ascii "2")⟩] }

/-- What was read ahead on both sides is read on, and the interim head was passed on. -/
theorem exchange_upgraded_readAhead :
    let done := exchange (fun _ => .toServer) 100 50 upgradeRequest upgradeClient {} upgradeServer {}
    done.result = .ok .upgraded ∧ done.up.written = upgradeRequest.raw ++ ascii "hi" ∧
      done.down.written =
        ascii "HTTP/1.1 100 Continue\r\n\r\nHTTP/1.1 101 Switching Protocols\r\n\r\n" ∧
      UntilSwitch false done.down.written (ascii "WS2") ∧
      ∃ enough, (done.fromClient.readOn (List.replicate enough (10, 1))).1 = ascii "!more" := by
  intro done
  have hdone : done.result = .ok .upgraded := by decide +kernel
  obtain ⟨-, hheads, -, enough, hall⟩ := exchange_upgraded hdone
  refine ⟨hdone, by decide +kernel, by decide +kernel, ?_, enough, ?_⟩
  · have hrest : done.fromServer.bytes = ascii "WS2" := by decide +kernel
    rwa [← hrest]
  · have hroom : ∀ x ∈ List.replicate enough (10, 1), 0 < x.2 := by
      intro x hx
      rw [List.eq_of_mem_replicate hx]
      exact Nat.one_pos
    rw [(hall _ hroom (Nat.le_of_eq List.length_replicate.symm)).1]
    decide +kernel

end Intercept.Http
