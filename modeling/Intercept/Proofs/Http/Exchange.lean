import Intercept.Proofs.Http.Copying

/-!
# One exchange carries one request and one answer

The two directions of an exchange run side by side over readers that may hold far more than one
message, and the first failure cuts both. What they are measured against is `Cut`: the body behind
the request head in the client's bytes, and the answer at the front of the server's.

* `Exchanged.Carries`: what an exchange of a request may have passed on.

Results:
* `join_up_isPrefix`, `join_down_isPrefix`: a failure of one direction cuts the other one short, and
  changes nothing of what went before.
* `exchange_carries`: every exchange carries its request.
* `exchange_one_message`: one request at most goes to the server and one answer at most comes back,
  and exactly one of each when the exchange is complete.
-/

namespace Intercept.Http

namespace Copying

/-- What was taken before some moment is a front piece of all that was taken. -/
theorem before_written {c : Copying} (h : Taken.Ordered c.reader.now c.taken) (time : Nat) :
    (c.before time).written <+: c.written :=
  h.filter_isPrefix fun late early hle hl => by
    simp only [decide_eq_true_eq] at hl ⊢
    omega

/-- What was taken up to some moment is a front piece of all that was taken. -/
theorem upTo_written {c : Copying} (h : Taken.Ordered c.reader.now c.taken) (time : Nat) :
    (c.upTo time).written <+: c.written :=
  h.filter_isPrefix fun late early hle hl => by
    simp only [decide_eq_true_eq] at hl ⊢
    omega

end Copying

namespace Exchanged

variable {turns : Turns} {up : Copied Unit} {down : Copied Ending}

theorem join_up_isPrefix (h : Taken.Ordered up.state.reader.now up.state.taken) :
    (join turns up down).up.written <+: up.state.written := by
  -- whoever goes first, a direction that the other one ends has taken no step too many
  have hcut : ∀ time, (if turns time = .toServer then up.state.upTo time
      else up.state.before time).written <+: up.state.written := by
    intro time
    split
    · exact Copying.upTo_written h time
    · exact Copying.before_written h time
  unfold join
  simp only
  split
  · exact List.prefix_refl _
  · exact List.prefix_refl _
  · exact hcut _
  · split
    · exact List.prefix_refl _
    · exact hcut _

theorem join_down_isPrefix (h : Taken.Ordered down.state.reader.now down.state.taken) :
    (join turns up down).down.written <+: down.state.written := by
  have hcut : ∀ time, (if turns time = .toServer then down.state.before time
      else down.state.upTo time).written <+: down.state.written := by
    intro time
    split
    · exact Copying.before_written h time
    · exact Copying.upTo_written h time
  unfold join
  simp only
  split
  · exact List.prefix_refl _
  · exact hcut _
  · exact List.prefix_refl _
  · split
    · exact hcut _
    · exact List.prefix_refl _

/-- An exchange that does not fail is two directions that did not. -/
theorem join_ok {ending : Ending} (h : (join turns up down).result = .ok ending) :
    up.result = .ok () ∧ down.result = .ok ending ∧
      (join turns up down).up = up.state ∧ (join turns up down).down = down.state := by
  unfold join at h ⊢
  simp only at h ⊢
  split at h
  · rename_i hu hd
    cases h
    exact ⟨hu, hd, rfl, rfl⟩
  · simp at h
  · simp at h
  · split at h <;> simp at h

/-- What an exchange of a request may have passed on, given the bytes behind its head and the bytes
that the server sends. -/
structure Carries (request : Request) (client server : Bytes) (e : Exchanged) : Prop where
  up : e.up.written <+: request.raw ++ (request.framing.cut client).front
  down : e.down.written <+: (Cut.answer request.isHead server).front
  /-- One that does not fail has carried all of it and has left the bytes behind it. -/
  finished : ∀ ending, e.result = .ok ending →
    (∃ body, request.framing.cut client = .whole () body e.up.reader.bytes ∧
      e.up.written = request.raw ++ body) ∧
    Cut.answer request.isHead server = .whole ending e.down.written e.down.reader.bytes

namespace Carries

variable {request : Request} {client server : Bytes} {e : Exchanged}

theorem up_isPrefix (h : Carries request client server e) :
    e.up.written <+: request.raw ++ client :=
  h.up.trans ((List.prefix_append_right_inj _).2 (request.framing.cut_at client).front_isPrefix)

theorem down_isPrefix (h : Carries request client server e) : e.down.written <+: server :=
  h.down.trans (Cut.answer_at _ server).front_isPrefix

/-- What was passed on and what was left behind an exchange that did not fail. -/
theorem bytes_of_ok (h : Carries request client server e) {ending : Ending}
    (hr : e.result = .ok ending) :
    e.up.written ++ e.up.reader.bytes = request.raw ++ client ∧
      e.down.written ++ e.down.reader.bytes = server := by
  obtain ⟨⟨body, hbody, hup⟩, hanswer⟩ := h.finished ending hr
  have hc := request.framing.cut_at client
  have hs := Cut.answer_at request.isHead server
  rw [hbody] at hc
  rw [hanswer] at hs
  exact ⟨by rw [hup, List.append_assoc, show body ++ _ = client from hc], hs⟩

end Carries

end Exchanged

open Copying Exchanged

/-- **Every exchange carries its request**, whatever arrives when and whoever fails first. -/
theorem exchange_carries (turns : Turns) (limit idle : Nat) (request : Request) (client : Reader)
    (clientSink : Sink) (server : Replay) (serverSink : Sink) :
    Carries request client.bytes server.bytes
      (exchange turns limit idle request client clientSink server serverSink) := by
  unfold exchange
  simp only
  obtain ⟨raw, hraw, hfront, hall⟩ :=
    put_passes request.raw ⟨{ client with patience := some idle }, serverSink, []⟩
  split
  · refine ⟨?_, List.nil_prefix, fun ending h => by cases h⟩
    rw [hraw.written]
    exact hfront.trans (List.prefix_append _ _)
  · rename_i u hu
    rw [hall u hu] at hraw
    obtain ⟨body, hbody, hbodyFront, hbodyAll⟩ := body_follows limit request.framing
      (put request.raw ⟨{ client with patience := some idle }, serverSink, []⟩).state
    obtain ⟨answer, hanswer, hanswerFront, hanswerAll⟩ := respond_follows limit request.isHead
      ⟨{ stream := server, patience := some idle, now := client.now }, clientSink, []⟩
    have hup := hraw.trans hbody
    refine ⟨?_, ?_, fun ending h => ?_⟩
    · refine (join_up_isPrefix (hup.ordered (.nil _))).trans ?_
      rw [hup.written]
      exact (List.prefix_append_right_inj request.raw).2 hbodyFront
    · refine (join_down_isPrefix (hanswer.ordered (.nil _))).trans ?_
      rw [hanswer.written]
      exact hanswerFront
    · obtain ⟨h1, h2, h3, h4⟩ := join_ok h
      rw [h3, h4, hup.written, hanswer.written]
      exact ⟨⟨body, hbodyAll _ h1, rfl⟩, hanswerAll _ h2⟩

/-- **One request and one answer.** However the bytes arrive and however the exchange ends, the
server has got a front piece of the request head and the body that the request's framing cuts off
the client's bytes, so nothing of a second request; and the client has got a front piece of the
server's interim heads and the one final head with its body. When the exchange is complete both got
all of it, and what stands behind was left alone. Answers to HEAD and of status 204 and 304 have no
body. -/
theorem exchange_one_message (turns : Turns) (limit idle : Nat) (request : Request)
    (client : Reader) (clientSink : Sink) (server : Replay) (serverSink : Sink) :
    let done := exchange turns limit idle request client clientSink server serverSink
    let body := request.framing.cut client.bytes
    let answer := Cut.answer request.isHead server.bytes
    done.up.written <+: request.raw ++ body.front ∧
      done.down.written <+: answer.front ∧
      (done.result = .ok .complete →
        body = .whole () body.front done.up.reader.bytes ∧
          done.up.written = request.raw ++ body.front ∧
          answer = .whole .complete answer.front done.down.reader.bytes ∧
          done.down.written = answer.front) ∧
      ∀ raw final, Response.ofRaw? request.isHead raw = some final →
        request.isHead = true ∨ final.status = 204 ∨ final.status = 304 →
        final.framing = .empty := by
  intro done body answer
  have h := exchange_carries turns limit idle request client clientSink server serverSink
  refine ⟨h.up, h.down, fun hc => ?_, fun _ _ => Response.framing_of_bodiless⟩
  obtain ⟨⟨front, hbody, hup⟩, hanswer⟩ := h.finished .complete hc
  have hb : body = .whole () front done.up.reader.bytes := hbody
  have ha : answer = .whole .complete done.down.written done.down.reader.bytes := hanswer
  rw [hb, ha]
  exact ⟨rfl, hup, rfl, rfl⟩

end Intercept.Http
