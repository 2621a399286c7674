import Intercept.Relay

/-!
# What a relay delivers

Each direction of a relay keeps one sum: what it passed on and what its source still holds is what
there was to be passed on. A write that fails is the only step that breaks the sum, and with it the
direction finishes.

* `Flow.Carries data f`: what `f` passed on and what is still to come make up `data`.
* `Relay.Delivers`: what a relay that is over may have passed on.

Results:
* `Flow.carries_pass`, `Flow.written_of_fault`: one step of a direction.
* `Relay.run_delivers`: both directions pass on front pieces of their data, and the one that ended
  the relay because its source ended has passed on all of it.
-/

namespace Intercept

namespace Flow

/-- What the direction passed on and what is still to come make up `data`. -/
def Carries (data : Bytes) (f : Flow) : Prop := f.written ++ f.source.bytes = data

variable {f f' : Flow} {data bytes : Bytes} {rest : Replay} {limit idle time : Nat}

theorem Carries.written_isPrefix (h : f.Carries data) : f.written <+: data := ⟨_, h⟩

theorem bytes_of_next (h : f.next limit idle = (time, .pass bytes rest)) :
    bytes ++ rest.bytes = f.source.bytes := by
  unfold next at h
  split at h
  · rename_i t b bs r hr
    have := Replay.bytes_of_read (Replay.read_of_readBy hr)
    cases h
    exact this
  · cases h
  · cases h
  · cases h
  · split at h <;> cases h

/-- A direction whose source ended has nothing left to pass on. -/
theorem bytes_of_next_ended (h : f.next limit idle = (time, .finish .ended)) :
    f.source.bytes = [] := by
  unfold next at h
  split at h
  · cases h
  · rename_i t r hr
    exact absurd rfl ((Replay.length_of_read (Replay.read_of_readBy hr) rfl).2 (by decide))
  · rename_i t r hr
    exact Replay.bytes_of_ended (Replay.read_of_readBy hr) rfl
  · cases h
  · split at h <;> cases h

theorem Carries.written_of_ended (h : f.Carries data)
    (hn : f.next limit idle = (time, .finish .ended)) : f.written = data := by
  rw [← h, bytes_of_next_ended hn, List.append_nil]

/-- What a step passes on is what the sink took of the piece. -/
theorem written_pass (time : Nat) (bytes : Bytes) (rest : Replay) (f : Flow) :
    (f.pass time bytes rest).2.written = f.written ++ (f.sink.writeAll bytes).taken := by
  have hw : Taken.all (if (f.sink.writeAll bytes).taken.isEmpty then f.passed
      else ⟨time, (f.sink.writeAll bytes).taken⟩ :: f.passed).reverse =
      f.written ++ (f.sink.writeAll bytes).taken := by
    split
    · rename_i he
      rw [List.isEmpty_iff.1 he, List.append_nil, written]
    · rw [List.reverse_cons, Taken.all_append, Taken.all_singleton, written]
  unfold pass
  simp only
  split <;> exact hw

/-- A piece that was taken in full keeps the sum. -/
theorem carries_pass (h : f.Carries data) (hb : bytes ++ rest.bytes = f.source.bytes)
    (hp : f.pass time bytes rest = (none, f')) : f'.Carries data := by
  obtain ⟨left, htaken, hall⟩ := f.sink.writeAll_eq bytes
  have hfault : (f.sink.writeAll bytes).fault = none := by
    unfold pass at hp
    simp only at hp
    split at hp
    · cases hp
    · assumption
  rw [hall hfault, List.append_nil] at htaken
  have hw := written_pass time bytes rest f
  have hs := pass_source time bytes rest f
  rw [hp] at hw hs
  show f'.written ++ f'.source.bytes = data
  rw [show f'.written = _ from hw, show f'.source = _ from hs, htaken, List.append_assoc, hb]
  exact h

/-- Of a piece that was not taken in full a front piece was passed on. -/
theorem written_of_fault {e : Fault} (h : f.Carries data)
    (hb : bytes ++ rest.bytes = f.source.bytes) (hp : f.pass time bytes rest = (some e, f')) :
    f'.written <+: data := by
  obtain ⟨left, htaken, -⟩ := f.sink.writeAll_eq bytes
  have hw := written_pass time bytes rest f
  rw [hp] at hw
  refine ⟨left ++ rest.bytes, ?_⟩
  rw [show f'.written = _ from hw, List.append_assoc, ← List.append_assoc _ left, htaken, hb]
  exact h

end Flow

namespace Relay

/-- What a relay that is over may have passed on of the client's and the server's bytes. -/
structure Delivers (r : Relay) (client server : Bytes) (finish : Option Finish) : Prop where
  up : r.up.written <+: client
  down : r.down.written <+: server
  /-- When the client's stream ended, the server has got all of it. -/
  upEnded : finish = some ⟨.toServer, .ended⟩ → r.up.written = client
  /-- When the server's stream ended, the client has got all of it. -/
  downEnded : finish = some ⟨.toClient, .ended⟩ → r.down.written = server

/-- Both directions pass on front pieces of what they had, and the one whose source ended all. -/
theorem run_delivers (limit idle : Nat) {r : Relay} {client server : Bytes}
    (hu : r.up.Carries client) (hd : r.down.Carries server) :
    (r.run limit idle).relay.Delivers client server (r.run limit idle).finish := by
  fun_induction run limit idle r with
  | case1 r timeUp timeDown moveDown hdown hle hn =>
    exact ⟨hu.written_isPrefix, hd.written_isPrefix, nofun, nofun⟩
  | case2 r timeUp timeDown moveDown hdown hle cause hn =>
    refine ⟨hu.written_isPrefix, hd.written_isPrefix, fun he => ?_, nofun⟩
    obtain rfl : cause = .ended := by simpa using he
    exact hu.written_of_ended hn
  | case3 r timeUp timeDown moveDown hdown hle bytes rest _ up hp hn ih =>
    exact ih (Flow.carries_pass hu (Flow.bytes_of_next hn) hp) hd
  | case4 r timeUp timeDown moveDown hdown hle bytes rest _ e up hp hn =>
    refine ⟨Flow.written_of_fault hu (Flow.bytes_of_next hn) hp, hd.written_isPrefix, ?_, ?_⟩ <;>
      simp
  | case5 r timeUp moveUp timeDown hup hlt hn =>
    exact ⟨hu.written_isPrefix, hd.written_isPrefix, nofun, nofun⟩
  | case6 r timeUp moveUp timeDown hup hlt cause hn =>
    refine ⟨hu.written_isPrefix, hd.written_isPrefix, nofun, fun he => ?_⟩
    obtain rfl : cause = .ended := by simpa using he
    exact hd.written_of_ended hn
  | case7 r timeUp moveUp timeDown hup hlt bytes rest _ down hp hn ih =>
    exact ih hu (Flow.carries_pass hd (Flow.bytes_of_next hn) hp)
  | case8 r timeUp moveUp timeDown hup hlt bytes rest _ e down hp hn =>
    refine ⟨hu.written_isPrefix, Flow.written_of_fault hd (Flow.bytes_of_next hn) hp, ?_, ?_⟩ <;>
      simp

end Relay

/-- **What a relay delivers**, its two closings included. -/
theorem relay_delivers (limit idle : Nat) {r : Relay} {client server : Bytes}
    (hu : r.up.Carries client) (hd : r.down.Carries server) :
    (relay limit idle r).relay.Delivers client server (relay limit idle r).finish := by
  have h := Relay.run_delivers limit idle hu hd
  unfold relay
  simp only
  split
  · rename_i hf
    rw [hf] at h
    exact h
  · rename_i f hf
    rw [hf] at h
    split
    · exact h
    · split
      · exact h
      · exact h

end Intercept
