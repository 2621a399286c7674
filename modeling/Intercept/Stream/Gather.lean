import Intercept.Stream.Replay

/-!
# Gathering bytes

Fixed-length pieces are read in as many reads as it takes, and each read asks for no more than is
missing (`fill_to`, `read_exact`).

* `Replay.gather` reads up to a given number of bytes.

Results:
* `gather_bytes`: what was gathered and what is left over are what there was to be read.
* `gather_length`: no more is gathered than is wanted.
-/

namespace Intercept

/-- Why a piece was not gathered in full. -/
inductive Shortfall
  | ended
  | fault (f : Fault)
  /-- The time limit passed. -/
  | expired
deriving DecidableEq, Repr

/-- What was gathered, and what was missing. -/
structure Gathered where
  bytes : Bytes
  /-- Why there are not more; none when all are there. -/
  short : Option Shortfall
  time : Nat
  rest : Replay

namespace Replay

/-- Reads until there are `want` bytes, `got` included. -/
def gather (limit want : Nat) (got : Bytes) (now : Nat) (r : Replay) : Gathered :=
  if want ≤ got.length then ⟨got, none, now, r⟩
  else match _h : r.readBy limit now (want - got.length) with
    | none => ⟨got, some .expired, max now limit, r⟩
    | some ⟨time, .bytes [], rest⟩ => ⟨got, some .ended, time, rest⟩
    | some ⟨time, .bytes (b :: bs), rest⟩ => gather limit want (got ++ b :: bs) time rest
    | some ⟨time, .ended, rest⟩ => ⟨got, some .ended, time, rest⟩
    | some ⟨time, .fault f, rest⟩ => ⟨got, some (.fault f), time, rest⟩
termination_by r.weight
decreasing_by
  have := weight_of_read (read_of_readBy _h)
  simp only [Delivery.advances, List.isEmpty_cons, Bool.not_false, if_true] at this
  omega

/-- Gathering goes on with what its next read brings. -/
theorem gather_eq {limit want now : Nat} {got : Bytes} {r : Replay} (h : ¬want ≤ got.length) :
    r.gather limit want got now =
      match r.readBy limit now (want - got.length) with
      | none => ⟨got, some .expired, max now limit, r⟩
      | some ⟨time, .bytes [], rest⟩ => ⟨got, some .ended, time, rest⟩
      | some ⟨time, .bytes (b :: bs), rest⟩ => rest.gather limit want (got ++ b :: bs) time
      | some ⟨time, .ended, rest⟩ => ⟨got, some .ended, time, rest⟩
      | some ⟨time, .fault f, rest⟩ => ⟨got, some (.fault f), time, rest⟩ := by
  rw [gather, if_neg h]
  split <;> rename_i heq <;> rw [heq]

/-- What was gathered and what is left over are what there was to be read. -/
theorem gather_bytes (limit want : Nat) (got : Bytes) (now : Nat) (r : Replay) :
    (r.gather limit want got now).bytes ++ (r.gather limit want got now).rest.bytes =
      got ++ r.bytes := by
  fun_induction gather limit want got now r with
  | case1 => rfl
  | case2 => rfl
  | case3 got now r _ time rest h =>
    have := bytes_of_read (read_of_readBy h)
    simp_all
  | case4 got now r _ time b bs rest h ih =>
    have := bytes_of_read (read_of_readBy h)
    rw [ih, ← this]
    simp
  | case5 got now r _ time rest h =>
    have := bytes_of_read (read_of_readBy h)
    simp_all
  | case6 got now r _ time f rest h =>
    have := bytes_of_read (read_of_readBy h)
    simp_all

/-- No more is gathered than is wanted. -/
theorem gather_length (limit want : Nat) (got : Bytes) (now : Nat) (r : Replay) :
    (r.gather limit want got now).bytes.length ≤ max want got.length := by
  fun_induction gather limit want got now r with
  | case1 => exact Nat.le_max_right _ _
  | case2 => exact Nat.le_max_right _ _
  | case3 => exact Nat.le_max_right _ _
  | case4 got now r hmore time b bs rest h ih =>
    have := (length_of_read (read_of_readBy h) rfl).1
    rw [List.length_append] at ih
    omega
  | case5 => exact Nat.le_max_right _ _
  | case6 => exact Nat.le_max_right _ _

end Replay
end Intercept
