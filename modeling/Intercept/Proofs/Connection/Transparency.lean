import Intercept.Proofs.Connection.Course

/-!
# Whole connections are transparent

The bytes of a connection pass through the sniffing, one or two layers of bytes put back, the
ClientHello's buffer, the reader's buffer, the exchange and the relay, and any of them can be where
it fails or is dropped. At every hand-over the position in the stream is the same, so what arrives
on the other side is always a front piece of what was sent.

Results:
* `Course.quiet_or_connected`: without a connection to a server nothing goes either way.
* `Handler.handle_transparent`: what both sides got, for every connection.
-/

namespace Intercept

variable {h : Handler} {gate : Gate} {client : Bytes} {path : Protocol} {run : Run}

/-- A connection that the dialer answers carries its two streams, and all others are quiet. -/
theorem Course.quiet_or_connected (hc : Course h gate client path run) :
    (run.Quiet ∧ ∀ time network target, (time, Step.dialed network target none) ∉ run.steps) ∨
      ∃ far target, (h.dialer tcp target).result = .ok far ∧
        run.Carries client far.source.bytes ∧ (path ≠ .http → run.tally.isSome) ∧
        ∃ later, ∀ time network target',
          (time, Step.dialed network target' none) ∈ run.steps ↔
            time = later ∧ network = tcp ∧ target' = target := by
  cases hc with
  | stopped quiet steps fate => exact .inl ⟨quiet, by simp [steps]⟩
  | bypassed time target answer quiet steps fate => exact .inl ⟨quiet, by simp [steps]⟩
  | dialing time target answer quiet steps fate => exact .inl ⟨quiet, by simp [steps]⟩
  | refused time later target e answer quiet result steps fate =>
    exact .inl ⟨quiet, by simp [steps]⟩
  | connected time later target far answer result carries relayed steps fate =>
    exact .inr ⟨far, target, result, carries, relayed, later, by simp [steps]⟩

/-- **Whole connections are transparent.** However a connection ends, and whenever it is dropped,
the server has got a front piece of what the client sends, and the client a front piece of what the
server sends. Without a connection to a server nothing goes either way. When one side's stream
ended the relay, the other side has got all of it, the bytes that were looked at included. Except
on the way of HTTP requests, there always is a relay. -/
theorem Handler.handle_transparent (h : Handler) (gate : Gate) (moment limit now : Nat)
    (c : Inbound) :
    let run := h.handle gate moment limit now c
    Taken.all run.toServer <+: c.input.bytes ∧
      ((∀ time network target, (time, Step.dialed network target none) ∉ run.steps) →
        run.toServer = [] ∧ run.toClient = []) ∧
      ∀ time network target, (time, Step.dialed network target none) ∈ run.steps →
        ∃ far, (h.dialer network target).result = .ok far ∧
          Taken.all run.toClient <+: far.source.bytes ∧
          ((∀ time, (time, Step.sniffed .http) ∉ run.steps) → run.tally.isSome) ∧
          (run.tally.bind (·.finish) = some ⟨.toServer, .ended⟩ →
            Taken.all run.toServer = c.input.bytes) ∧
          (run.tally.bind (·.finish) = some ⟨.toClient, .ended⟩ →
            Taken.all run.toClient = far.source.bytes) := by
  intro run
  have hh : Handled h _ _ now c run := h.handle_handled gate moment limit now c
  generalize run = run at hh ⊢
  cases hh with
  | rateLimited denied eq =>
    subst eq
    exact ⟨List.nil_prefix, fun _ => ⟨rfl, rfl⟩, fun _ _ _ hm => by simp at hm⟩
  | unresolved e allowed result quiet steps fate =>
    rw [quiet.toServer, quiet.toClient, steps]
    exact ⟨List.nil_prefix, fun _ => ⟨rfl, rfl⟩, fun _ _ _ hm => by simp at hm⟩
  | @resolved run dst path seen allowed result course looked =>
    -- The steps before the way is taken never are an answer of the dialer.
    have hseen : ∀ time network target, (time, Step.dialed network target none) ∉ seen := by
      rcases looked with ⟨rfl, -⟩ | ⟨t, rfl⟩ <;> simp
    rcases course.quiet_or_connected with
      ⟨quiet, hnone⟩ | ⟨far, target, hfar, hcar, htally, later, hiff⟩
    · refine ⟨?_, fun _ => ⟨quiet.toServer, quiet.toClient⟩, fun t n x hm => ?_⟩
      · show Taken.all run.toServer <+: _
        rw [quiet.toServer]
        exact List.nil_prefix
      · simp [hseen, hnone] at hm
    · refine ⟨hcar.up, fun hno => ?_, fun t n x hm => ?_⟩
      · have hmem := (hiff later tcp target).2 ⟨rfl, rfl, rfl⟩
        exact absurd (List.mem_append_right _ hmem) (hno later tcp target)
      · have hm' : (t, Step.dialed n x none) ∈ run.steps := by simpa [hseen] using hm
        obtain ⟨-, rfl, rfl⟩ := (hiff t n x).1 hm'
        refine ⟨far, hfar, hcar.down, fun hhttp => htally ?_, hcar.upEnded, hcar.downEnded⟩
        rcases looked with ⟨-, hp⟩ | ⟨t', rfl⟩
        · exact hp
        · rintro rfl
          exact hhttp t' (by simp)

end Intercept
