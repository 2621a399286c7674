import Intercept.Stream.Fault
import Intercept.Text.Cut

/-!
# The write side of a connection

A sink says how much the peer is willing to take. A write takes no time: a peer that lets a write
wait is left out, and with it a direction that is dropped while a piece is half written.

* `Sink.write` offers bytes once; the peer takes some of them.
* `Sink.writeAll` offers bytes until all are taken or an offer fails.
* `Sink.closes` says whether closing the write side ever finishes.

Results:
* `writeAll_eq`: what was taken is a front piece of what was offered, and all of it when nothing
  failed.
-/

namespace Intercept

/-- What the peer is willing to take. -/
structure Sink where
  /-- The most that one write takes. -/
  most : Option Nat := none
  /-- The most that is taken in total. -/
  limit : Option Nat := none
  /-- Whether a write past the limit takes nothing instead of failing. -/
  quiet : Bool := false
  /-- Whether closing the write side finishes. -/
  closes : Bool := true
  /-- How much was taken so far. -/
  taken : Nat := 0
deriving DecidableEq, Repr

/-- Bytes that a peer took, and when. -/
structure Taken where
  time : Nat
  bytes : Bytes
deriving DecidableEq, Repr

/-- All the bytes that were taken, in order. -/
def Taken.all (l : List Taken) : Bytes := (l.map (·.bytes)).flatten

@[simp] theorem Taken.all_nil : Taken.all [] = [] := rfl

@[simp] theorem Taken.all_append (a b : List Taken) :
    Taken.all (a ++ b) = Taken.all a ++ Taken.all b := by simp [Taken.all]

@[simp] theorem Taken.all_singleton (t : Taken) : Taken.all [t] = t.bytes := by simp [Taken.all]

/-- Earlier pieces hold a front piece of all the bytes. -/
theorem Taken.all_isPrefix {a b : List Taken} (h : a <+: b) : Taken.all a <+: Taken.all b := by
  obtain ⟨rest, rfl⟩ := h
  rw [Taken.all_append]
  exact List.prefix_append _ _

namespace Sink

/-- How many bytes of an offer of `n` are taken; `none` when the write fails. -/
def accepts (s : Sink) (n : Nat) : Option Nat :=
  let once := (s.most.map (min n)).getD n
  match s.limit with
  | none => some once
  | some limit =>
    if limit ≤ s.taken then (if s.quiet then some 0 else none) else some (min once (limit - s.taken))

theorem accepts_le {s : Sink} {n k : Nat} (h : s.accepts n = some k) : k ≤ n := by
  have hle : (s.most.map (min n)).getD n ≤ n := by
    cases s.most with
    | none => exact Nat.le_refl n
    | some m => exact Nat.min_le_left n m
  unfold accepts at h
  split at h
  · simp_all
  · split at h
    · split at h <;> simp_all
      omega
    · simp only [Option.some.injEq] at h
      omega

/-- Offers bytes once: how many were taken, or the fault. -/
def write (s : Sink) (offer : Bytes) : Except Fault Nat × Sink :=
  match s.accepts offer.length with
  | some n => (.ok n, { s with taken := s.taken + n })
  | none => (.error .pipe, s)

/-- What offering bytes until all are taken comes to. -/
structure Written where
  /-- The bytes that were taken. -/
  taken : Bytes
  /-- Why not all were taken. -/
  fault : Option Fault
  sink : Sink

/-- Offers bytes until all are taken or an offer fails; `done` is what was taken, in reverse. -/
def writeFrom (s : Sink) (done offer : Bytes) : Written :=
  match offer with
  | [] => ⟨done.reverse, none, s⟩
  | b :: r =>
    match s.accepts (b :: r).length with
    | none => ⟨done.reverse, some .pipe, s⟩
    | some 0 => ⟨done.reverse, some .wroteNothing, s⟩
    | some (n + 1) =>
      writeFrom { s with taken := s.taken + (n + 1) } (((b :: r).take (n + 1)).reverse ++ done)
        (r.drop n)
termination_by offer.length
decreasing_by simp only [List.length_drop, List.length_cons]; omega

/-- Offers bytes until all are taken or an offer fails. -/
def writeAll (s : Sink) (offer : Bytes) : Written := s.writeFrom [] offer

theorem writeFrom_eq (s : Sink) (done offer : Bytes) :
    ∃ rest, (s.writeFrom done offer).taken ++ rest = done.reverse ++ offer ∧
      ((s.writeFrom done offer).fault = none → rest = []) := by
  fun_induction writeFrom s done offer with
  | case1 => exact ⟨[], by simp⟩
  | case2 s done b r _ => exact ⟨b :: r, by simp⟩
  | case3 s done b r _ => exact ⟨b :: r, by simp⟩
  | case4 s done b r n h ih =>
    obtain ⟨rest, h1, h2⟩ := ih
    refine ⟨rest, ?_, h2⟩
    rw [h1]
    simp

/-- What was taken is a front piece of what was offered, and all of it when nothing failed. -/
theorem writeAll_eq (s : Sink) (offer : Bytes) :
    ∃ rest, (s.writeAll offer).taken ++ rest = offer ∧
      ((s.writeAll offer).fault = none → rest = []) := by
  simpa [writeAll] using s.writeFrom_eq [] offer

end Sink
end Intercept
