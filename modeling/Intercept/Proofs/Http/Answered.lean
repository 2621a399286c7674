import Intercept.Proofs.Http.Directions

/-!
# When an exchange ends

The answer may be over while the client still owes bytes of its request body. The exchange then goes
on waiting for them, though nothing is left to be answered.

Results:
* `exchange_answered`: an exchange ends with its answer exactly when the request was sent by then.
  Otherwise it ends when sending does, and as sending does.
* `exchange_held`: a final response was passed on in full, and the exchange ends in a timeout.
-/

namespace Intercept.Http

namespace Copying

variable {c : Copying} {time : Nat}

/-- All that was taken by some moment was taken before any later one. -/
theorem written_before (h : Taken.Ordered c.reader.now c.taken) (hlt : c.reader.now < time) :
    (c.before time).written = c.written := by
  have hall : ∀ t ∈ c.taken, decide (t.time < time) = true := fun t ht =>
    decide_eq_true (Nat.lt_of_le_of_lt (h.past t ht) hlt)
  rw [written, before, List.filter_eq_self.2 hall]
  rfl

/-- All that was taken by some moment was taken up to any later one. -/
theorem written_upTo (h : Taken.Ordered c.reader.now c.taken) (hle : c.reader.now ≤ time) :
    (c.upTo time).written = c.written := by
  have hall : ∀ t ∈ c.taken, decide (t.time ≤ time) = true := fun t ht =>
    decide_eq_true (Nat.le_trans (h.past t ht) hle)
  rw [written, upTo, List.filter_eq_self.2 hall]
  rfl

end Copying

section

variable {turns : Turns} {limit idle : Nat} {request : Request} {client : Reader}
  {clientSink : Sink} {server : Replay} {serverSink : Sink}

/-- An answer that is over before sending failed found the request head sent. -/
theorem sendingHead_of_answered
    (hsend : ∀ s, (sending limit idle request client serverSink).result = .error s →
      (answering limit idle request client clientSink server).time <
        (sending limit idle request client serverSink).time) :
    (sendingHead idle request client serverSink).result = .ok () := by
  cases hhead : (sendingHead idle request client serverSink).result with
  | ok u => rfl
  | error s =>
    -- otherwise sending had failed before the answer began
    have hsending : sending limit idle request client serverSink =
        ⟨.error s, (sendingHead idle request client serverSink).state⟩ := by
      rw [sending, Copied.andThen, hhead]
    have hlt := hsend s (by rw [hsending])
    rw [hsending] at hlt
    exact absurd hlt (Nat.not_lt.2 le_time_answering)

/-- **When an exchange ends.** Let the answer be over, a final response and its whole body having
been passed on, and sending the request not have failed by then. The client has got all of the
answer. The exchange is complete at that moment exactly when the request was sent by then, as it is
when it has no body. Otherwise it ends when sending ends, and as sending does: if the client's bytes
do not make up the body that the request announces, in an error. -/
theorem exchange_answered
    (hanswer : (answering limit idle request client clientSink server).result = .ok .complete)
    (hsend : ∀ s, (sending limit idle request client serverSink).result = .error s →
      (answering limit idle request client clientSink server).time <
        (sending limit idle request client serverSink).time) :
    let done := exchange turns limit idle request client clientSink server serverSink
    let answered := (answering limit idle request client clientSink server).time
    let sent := sending limit idle request client serverSink
    (∃ more, Cut.answer request.isHead server.bytes = .whole .complete done.down.written more) ∧
    (done.result = .ok .complete ∧ done.time = answered ↔ sent.time ≤ answered) ∧
    (request.framing = .empty → sent.time ≤ answered) ∧
    (answered < sent.time →
      done.time = sent.time ∧ done.result = sent.result.map fun _ => .complete) ∧
    ∀ front, request.framing.cut client.bytes = .part front →
      answered < done.time ∧ ∃ s, done.result = .error s := by
  intro done answered sent
  have hdone : done = .join turns sent (answering limit idle request client clientSink server) :=
    exchange_eq_join (sendingHead_of_answered hsend)
  obtain ⟨hordered, more, hcut⟩ := cut_of_answering rfl hanswer
  have hempty (h : request.framing = .empty) : sent.time ≤ answered :=
    Nat.le_trans (Nat.le_of_eq (time_sending_empty h)) le_time_answering
  cases hsent : sent.result with
  | ok u =>
    rw [Exchanged.join_both hsent hanswer] at hdone
    have htime : done.time = max sent.time answered := by rw [hdone]
    have hresult : done.result = .ok .complete := by rw [hdone]
    refine ⟨⟨more, by rw [hdone]; exact hcut⟩, ?_, hempty, fun hlt => ⟨by omega, hresult⟩,
      fun front hpart => ?_⟩
    · rw [htime]
      exact ⟨fun h => by omega, fun h => ⟨hresult, by omega⟩⟩
    · obtain ⟨body, rest, hwhole⟩ := cut_of_sending hsent
      cases hpart.symm.trans hwhole
  | error s =>
    rw [Exchanged.join_failUp hsent hanswer] at hdone
    have hlt : answered < sent.time := hsend s hsent
    have hresult : done.result = .error s := by rw [hdone]
    have htime : done.time = sent.time := by rw [hdone]
    refine ⟨⟨more, ?_⟩, ⟨fun h => ?_, fun h => by omega⟩, hempty, fun _ => ⟨htime, hresult⟩,
      fun _ _ => ⟨by omega, s, hresult⟩⟩
    · -- the answer was over before the failure, so nothing of it is cut off
      rw [hdone]
      simp only
      split
      · rw [Copying.written_before hordered hlt]
        exact hcut
      · rw [Copying.written_upTo hordered (Nat.le_of_lt hlt)]
        exact hcut
    · cases hresult.symm.trans h.1

end

/-- A request that announces a body of ten bytes. -/
def tenRequest : Request where
  raw := ascii "POST /a HTTP/1.1\r\nHost: example.com\r\nContent-Length: 10\r\n\r\n"
  method := "POST".toList
  target := "/a".toList
  host := some "example.com".toList
  framing := .length 10

/-- A server that answers after so many milliseconds, without a look at the body. -/
def earlyServer (due : Nat) : Replay :=
  .ofSource { events := [⟨due, .data (ascii
    "HTTP/1.1 413 Payload Too Large\r\nContent-Length: 2\r\n\r\nno")⟩] }

/-- A client that sends the body in time. -/
def promptClient : Reader :=
  { stream := .ofSource { events := [⟨3, .data (ascii "0123456789")⟩, ⟨3, .silence⟩] } }

/-- An exchange that is complete with its answer. -/
theorem exchange_answered_sent :
    let turns : Turns := fun _ => .toServer
    let done := exchange turns 100000 5000 tenRequest promptClient {} (earlyServer 7) {}
    done.result = .ok .complete ∧ done.time = 7 := by
  intro turns done
  have hanswer : (answering 100000 5000 tenRequest promptClient {} (earlyServer 7)).result =
      .ok .complete := by decide +kernel
  have hsent : (sending 100000 5000 tenRequest promptClient {}).result = .ok () := by
    decide +kernel
  have htime : (answering 100000 5000 tenRequest promptClient {} (earlyServer 7)).time = 7 ∧
      (sending 100000 5000 tenRequest promptClient {}).time = 3 := by decide +kernel
  have hends := (@exchange_answered turns _ _ _ _ _ _ _ hanswer fun s hs => by
    cases hsent.symm.trans hs).2.1
  rw [htime.1, htime.2] at hends
  exact hends.2 (by decide)

/-- A client that stops inside its body. -/
def stalledClient : Reader :=
  { stream := .ofSource { events := [⟨0, .data (ascii "abc")⟩, ⟨0, .silence⟩] } }

/-- A final response that was passed on in full at once, and an exchange that fails for being idle
five seconds later. -/
theorem exchange_held :
    let turns : Turns := fun _ => .toServer
    let done := exchange turns 100000 5000 tenRequest stalledClient {} (earlyServer 0) {}
    let answered := answering 100000 5000 tenRequest stalledClient {} (earlyServer 0)
    answered.result = .ok .complete ∧ answered.time = 0 ∧
      done.down.written = (earlyServer 0).bytes ∧
      done.result = .error (.failed .timeout) ∧ done.time = 5000 := by
  decide +kernel

end Intercept.Http
