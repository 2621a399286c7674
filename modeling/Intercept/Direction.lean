/-!
# Two directions

Bytes go from the client to the server and back. The two directions run side by side and each knows
the time of its next step; at a moment at which both have one to take, either may go first, as
`select!` and `try_join!` poll their branches in any order.

* `Turns` says who goes first at each moment. Nothing is assumed of it.
* `Turns.upFirst`: whether the next step is one to the server.
-/

namespace Intercept

/-- From the client to the server, or back (`Direction`). -/
inductive Direction
  | toServer
  | toClient
deriving DecidableEq, Repr

/-- The word for a direction (`Direction::as_str`). -/
def Direction.label : Direction → String
  | toServer => "Upstream"
  | toClient => "Downstream"

/-- The direction that goes first at each moment. -/
abbrev Turns := Nat → Direction

namespace Turns

/-- The direction to the server takes its step first: it is due earlier, or due at the same time
with the other one, and it is this direction's turn. -/
def upFirst (turns : Turns) (timeUp timeDown : Nat) : Bool :=
  timeUp < timeDown || timeUp = timeDown && turns timeUp = .toServer

variable {turns : Turns} {timeUp timeDown : Nat}

theorem le_of_upFirst (h : turns.upFirst timeUp timeDown = true) : timeUp ≤ timeDown := by
  simp only [upFirst, Bool.or_eq_true, Bool.and_eq_true, decide_eq_true_eq] at h
  omega

theorem le_of_not_upFirst (h : ¬ turns.upFirst timeUp timeDown = true) : timeDown ≤ timeUp := by
  simp only [upFirst, Bool.or_eq_true, Bool.and_eq_true, decide_eq_true_eq, not_or, not_and] at h
  omega

end Turns
end Intercept
