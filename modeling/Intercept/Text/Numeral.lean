import Intercept.Text.Cut

/-!
# Numbers in text

Ports, lengths and settings are written as digits in a base.

* `value?` reads a non-empty run of digits.
* `read?` also admits one leading plus sign and refuses numbers at or above a limit.
* `decimal` and `hex` print.
-/

namespace Intercept.Numeral

/-- The value of a digit or letter, if it is a digit of the base. -/
def digit? (base : Nat) (c : Char) : Option Nat :=
  let v :=
    if '0' ≤ c ∧ c ≤ '9' then c.toNat - '0'.toNat
    else if 'a' ≤ c ∧ c ≤ 'z' then c.toNat - 'a'.toNat + 10
    else if 'A' ≤ c ∧ c ≤ 'Z' then c.toNat - 'A'.toNat + 10
    else base
  if v < base then some v else none

/-- The number that digits denote, the most significant first. -/
def ofDigits (base : Nat) (ds : List Nat) : Nat := ds.foldl (fun n d => n * base + d) 0

/-- The number that a non-empty run of digits denotes. -/
def value? (base : Nat) (t : Text) : Option Nat :=
  if t.isEmpty then none else (t.mapM (digit? base)).map (ofDigits base)

/-- Reads a number below `limit`, with at most one plus sign in front. -/
def read? (base limit : Nat) (t : Text) : Option Nat :=
  let digits := match t with
    | '+' :: r => r
    | _ => t
  (value? base digits).filter (· < limit)

/-- The decimal digits of a number. -/
def decimal (n : Nat) : Text := Nat.toDigits 10 n

/-- The lower-case hexadecimal digits of a number. -/
def hex (n : Nat) : Text := Nat.toDigits 16 n

example : read? 10 65536 ['+', '8', '0'] = some 80 := by decide
example : read? 16 UInt64.size ['F', 'f'] = some 255 := by decide
example : read? 10 65536 ['6', '5', '5', '3', '6'] = none := by decide
example : read? 10 65536 ['+'] = none := by decide

end Intercept.Numeral
