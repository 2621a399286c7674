import Intercept.Proofs.Relay

/-!
# What a relay counts

The two directions of a relay share nothing. Each takes steps of its own, and in whatever order
they are taken, one direction finishes and the other is dropped where it stands. So what holds of
one direction on its own, dropped anywhere, holds in every relay.

* `Flow.Ending` says how far a direction came, `Flow.Course` how it came there.
* `Relay.Ends` are the ways in which a relay can end, for every order of the steps.
* `Flow.Accounts`: how totals, counters and bytes of a direction that is over agree.

Results:
* `Flow.Balanced.pass`, `Flow.Balanced.refused`: one step of a direction.
* `Flow.Course.accounts`: a whole course keeps its accounts.
* `relay_ends`: `relay` takes one of the ways to end.
* `relay_accounts`: totals and counters of a relay agree with the bytes on both sides.
-/

namespace Intercept

namespace Flow

/-- How far a direction came. -/
inductive Ending
  /-- Reading finished it: the source ended, failed or stayed idle for too long. -/
  | read (cause : Cause)
  /-- A write failed. -/
  | refused (f : Fault)
  /-- It was dropped before it finished. -/
  | dropped
deriving DecidableEq

namespace Ending

/-- Why the direction finished, if it did. -/
def cause? : Ending → Option Cause
  | read cause => some cause
  | refused f => some (.fault f)
  | dropped => none

/-- What ended a relay whose directions came so far. -/
def finish (up down : Ending) : Option Finish :=
  match up.cause? with
  | some cause => some ⟨.toServer, cause⟩
  | none => down.cause?.map (⟨.toClient, ·⟩)

end Ending

/-- A direction on its own: it passes pieces on until it finishes, or is dropped between two
steps. -/
inductive Course (limit idle : Nat) : Flow → Ending → Flow → Prop
  | dropped (f : Flow) : Course limit idle f .dropped f
  | read {f : Flow} {time : Nat} {cause : Cause} (next : f.next limit idle = (time, .finish cause)) :
      Course limit idle f (.read cause) f
  | refused {f g : Flow} {time : Nat} {bytes : Bytes} {rest : Replay} {e : Fault}
      (next : f.next limit idle = (time, .pass bytes rest))
      (pass : f.pass time bytes rest = (some e, g)) : Course limit idle f (.refused e) g
  | pass {f g h : Flow} {time : Nat} {bytes : Bytes} {rest : Replay} {ending : Ending}
      (next : f.next limit idle = (time, .pass bytes rest))
      (pass : f.pass time bytes rest = (none, g)) (more : Course limit idle g ending h) :
      Course limit idle f ending h

/-- Between two steps: all of the data was passed on or is still to come, and what was passed on is
counted. `start` is where the outside counter stood at first. -/
structure Balanced (start : Option Nat) (data : Bytes) (f : Flow) : Prop where
  carries : f.Carries data
  total : f.total = f.written.length
  counter : f.counter = start.map (· + f.total)

/-- At the end: what was passed on is a front piece of the data, and no more is counted than that.
`start` is where the outside counter stood at first. -/
structure Accounts (start : Option Nat) (data : Bytes) (ending : Ending) (f : Flow) : Prop where
  written : f.written <+: data
  total_le : f.total ≤ f.written.length
  /-- Only of a piece that a write cut short some bytes are not counted. -/
  total_eq : (∀ e, ending ≠ .refused e) → f.total = f.written.length
  counter : f.counter = start.map (· + f.total)
  /-- A source that ended was passed on in full. -/
  ended : ending = .read .ended → f.written = data

variable {start : Option Nat} {data bytes : Bytes} {f g : Flow} {rest : Replay} {e : Fault}
  {ending : Ending} {limit idle time : Nat}

theorem Balanced.accounts (h : f.Balanced start data) (hended : ending ≠ .read .ended) :
    f.Accounts start data ending where
  written := h.carries.written_isPrefix
  total_le := Nat.le_of_eq h.total
  total_eq _ := h.total
  counter := h.counter
  ended he := absurd he hended

/-- A piece that was taken in full is counted in full. -/
theorem Balanced.pass (h : f.Balanced start data)
    (next : f.next limit idle = (time, .pass bytes rest))
    (pass : f.pass time bytes rest = (none, g)) : g.Balanced start data := by
  have hcarries := carries_pass h.carries (bytes_of_next next) pass
  have hwritten : g.written = f.written ++ bytes := by
    have hbefore := h.carries
    have hsource := pass_source time bytes rest f
    rw [pass] at hsource
    unfold Carries at hcarries hbefore
    rw [hsource, ← hbefore, ← bytes_of_next next, ← List.append_assoc] at hcarries
    exact List.append_cancel_right hcarries
  have hcounts : g.total = f.total + bytes.length ∧ g.counter = f.counter.map (· + bytes.length) := by
    unfold Flow.pass at pass
    simp only at pass
    split at pass
    · cases pass
    · cases pass
      exact ⟨rfl, rfl⟩
  refine ⟨hcarries, ?_, ?_⟩
  · rw [hcounts.1, hwritten, List.length_append, h.total]
  · rw [hcounts.2, hcounts.1, h.counter, Option.map_map]
    congr 1
    funext n
    exact Nat.add_assoc ..

/-- Of a piece that was not taken in full nothing is counted. -/
theorem Balanced.refused (h : f.Balanced start data)
    (next : f.next limit idle = (time, .pass bytes rest))
    (pass : f.pass time bytes rest = (some e, g)) : g.Accounts start data (.refused e) := by
  have hgrows := written_pass time bytes rest f
  rw [pass] at hgrows
  have hcounts : g.total = f.total ∧ g.counter = f.counter := by
    unfold Flow.pass at pass
    simp only at pass
    split at pass
    · cases pass
      exact ⟨rfl, rfl⟩
    · cases pass
  refine ⟨written_of_fault h.carries (bytes_of_next next) pass, ?_, ?_, ?_, nofun⟩
  · rw [hcounts.1, h.total, show g.written = _ from hgrows, List.length_append]
    exact Nat.le_add_right _ _
  · exact fun hne => absurd rfl (hne e)
  · rw [hcounts.2, hcounts.1, h.counter]

/-- **A direction on its own** keeps its accounts to its end, wherever that is. -/
theorem Course.accounts (h : Course limit idle f ending g) (hf : f.Balanced start data) :
    g.Accounts start data ending := by
  induction h with
  | dropped f => exact hf.accounts nofun
  | read next =>
    refine ⟨hf.carries.written_isPrefix, Nat.le_of_eq hf.total, fun _ => hf.total, hf.counter, ?_⟩
    intro he
    cases he
    exact hf.carries.written_of_ended next
  | refused next pass => exact hf.refused next pass
  | pass next pass _ ih => exact ih (hf.pass next pass)

end Flow

namespace Relay

/-- The ways in which a relay can end: its directions come so far and so far, at least one of them
to be dropped. In which order they take their steps is left open. -/
structure Ends (limit idle : Nat) (r : Relay) (upTo downTo : Flow.Ending) (after : Relay) :
    Prop where
  up : r.up.Course limit idle upTo after.up
  down : r.down.Course limit idle downTo after.down
  one : upTo = .dropped ∨ downTo = .dropped

theorem run_ends (limit idle : Nat) (r : Relay) :
    ∃ upTo downTo, r.Ends limit idle upTo downTo (r.run limit idle).relay ∧
      (r.run limit idle).finish = upTo.finish downTo := by
  fun_induction run limit idle r with
  | case1 r => exact ⟨.dropped, .dropped, ⟨.dropped _, .dropped _, .inl rfl⟩, rfl⟩
  | case2 r timeUp timeDown moveDown hdown hle cause hn =>
    exact ⟨.read cause, .dropped, ⟨.read hn, .dropped _, .inr rfl⟩, rfl⟩
  | case3 r timeUp timeDown moveDown hdown hle bytes rest _ up hp hn ih =>
    obtain ⟨eu, ed, ends, hfinish⟩ := ih
    exact ⟨eu, ed, ⟨.pass hn hp ends.up, ends.down, ends.one⟩, hfinish⟩
  | case4 r timeUp timeDown moveDown hdown hle bytes rest _ e up hp hn =>
    exact ⟨.refused e, .dropped, ⟨.refused hn hp, .dropped _, .inr rfl⟩, rfl⟩
  | case5 r => exact ⟨.dropped, .dropped, ⟨.dropped _, .dropped _, .inl rfl⟩, rfl⟩
  | case6 r timeUp moveUp timeDown hup hlt cause hn =>
    exact ⟨.dropped, .read cause, ⟨.dropped _, .read hn, .inl rfl⟩, rfl⟩
  | case7 r timeUp moveUp timeDown hup hlt bytes rest _ down hp hn ih =>
    obtain ⟨eu, ed, ends, hfinish⟩ := ih
    exact ⟨eu, ed, ⟨ends.up, .pass hn hp ends.down, ends.one⟩, hfinish⟩
  | case8 r timeUp moveUp timeDown hup hlt bytes rest _ e down hp hn =>
    exact ⟨.dropped, .refused e, ⟨.dropped _, .refused hn hp, .inl rfl⟩, rfl⟩

end Relay

/-- Closing the two sides changes nothing of what was passed on. -/
theorem relay_run (limit idle : Nat) (r : Relay) :
    (relay limit idle r).relay = (r.run limit idle).relay ∧
      (relay limit idle r).finish = (r.run limit idle).finish := by
  unfold relay
  simp only
  split
  · rename_i hf
    exact ⟨rfl, hf.symm⟩
  · rename_i f hf
    rw [hf]
    split
    · exact ⟨rfl, rfl⟩
    · split <;> exact ⟨rfl, rfl⟩

/-- A relay takes one of the ways to end. -/
theorem relay_ends (limit idle : Nat) (r : Relay) :
    ∃ upTo downTo, r.Ends limit idle upTo downTo (relay limit idle r).relay ∧
      (relay limit idle r).finish = upTo.finish downTo := by
  obtain ⟨hrelay, hfinish⟩ := relay_run limit idle r
  rw [hrelay, hfinish]
  exact r.run_ends limit idle

/-- **What a relay counts.** A relay of a client, with bytes put back in front of what it sends, and
a server takes one of its ways to end. In each of them, and so for every order of the steps, both
directions pass on front pieces of their data and count all that they passed on, but for a piece
that a write cut short; the outside counters grow by just that, and a direction whose source ended
has passed on all of it. -/
theorem relay_accounts (turns : Turns) (limit idle now : Nat) (front : Bytes)
    (client server : Replay) (toServer toClient : Sink) (sent received : Option Nat) :
    let start : Relay :=
      { turns := turns
        up := { source := client.putBack front, sink := toServer, since := now, counter := sent }
        down := { source := server, sink := toClient, since := now, counter := received } }
    let outcome := relay limit idle start
    (∃ upTo downTo, start.Ends limit idle upTo downTo outcome.relay ∧
      outcome.finish = upTo.finish downTo) ∧
    ∀ upTo downTo ended, start.Ends limit idle upTo downTo ended →
      ended.up.Accounts sent (front ++ client.bytes) upTo ∧
        ended.down.Accounts received server.bytes downTo := by
  intro start outcome
  have hup : start.up.Balanced sent (front ++ client.bytes) := by
    refine ⟨client.bytes_putBack front, rfl, ?_⟩
    cases sent <;> rfl
  have hdown : start.down.Balanced received server.bytes := by
    refine ⟨rfl, rfl, ?_⟩
    cases received <;> rfl
  exact ⟨relay_ends limit idle start, fun upTo downTo ended ends =>
    ⟨ends.up.accounts hup, ends.down.accounts hdown⟩⟩

/-- A server that takes two bytes of a piece of three has got them, but they are not counted. -/
example :
    let client : Replay := .ofSource { events := [⟨5, .data [1, 2, 3]⟩] }
    let ended := relay 100 50
      { turns := fun _ => .toServer
        up := { source := client, sink := { limit := some 2 }, since := 0, counter := some 7 }
        down := { source := .ofSource { events := [⟨0, .silence⟩] }, sink := {}, since := 0 } }
    ended.finish = some ⟨.toServer, .fault .pipe⟩ ∧ ended.relay.up.written = [1, 2] ∧
      ended.relay.up.total = 0 ∧ ended.relay.up.counter = some 7 := by
  decide +kernel

end Intercept
