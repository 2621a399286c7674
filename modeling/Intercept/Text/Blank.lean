import Intercept.Text.Cut

/-!
# Blank characters

The characters with the Unicode property White_Space. They separate the fields of a state table
and are trimmed off header values.

* `isBlank` is membership in the property's table.
* `trim` takes blanks off both ends, `words` gives the runs between them (`split_whitespace`).
-/

namespace Intercept.Text

/-- The code points with the property White_Space, as ranges in increasing order. -/
def blankRanges : List (Nat × Nat) :=
  [(0x09, 0x0D), (0x20, 0x20), (0x85, 0x85), (0xA0, 0xA0), (0x1680, 0x1680), (0x2000, 0x200A),
    (0x2028, 0x2029), (0x202F, 0x202F), (0x205F, 0x205F), (0x3000, 0x3000)]

/-- Whether a character has the property White_Space. -/
def isBlank (c : Char) : Bool :=
  if c.toNat < 0x80 then c.toNat = 0x20 || (0x09 ≤ c.toNat && c.toNat ≤ 0x0D)
  else blankRanges.any fun (lo, hi) => lo ≤ c.toNat && c.toNat ≤ hi

/-- Without the blanks at both ends. -/
def trim (t : Text) : Text := trimEnds isBlank t

/-- The runs between blanks. -/
def words (t : Text) : List Text := fields isBlank t

/-- No printable ASCII character is blank. -/
theorem isBlank_of_printable {c : Char} (h : 0x21 ≤ c.toNat ∧ c.toNat < 0x7F) :
    isBlank c = false := by
  unfold isBlank
  rw [if_pos (by omega)]
  simp only [Bool.or_eq_false_iff, Bool.and_eq_false_iff, decide_eq_false_iff_not]
  omega

/-- The table has the property's 25 characters. -/
example : (blankRanges.map fun (lo, hi) => hi + 1 - lo).sum = 25 := by decide

end Intercept.Text
