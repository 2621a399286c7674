import Intercept.Text.CaseTable

/-!
# Lower case

Host names and patterns are compared in lower case, by the full mapping of the Unicode standard: a
capital I with a dot becomes two characters, and a capital sigma at the end of a word becomes the
final form (`to_lowercase`).

* `lower` maps one character outside any context.
* `isWordFinal` says where a capital sigma is final.
* `toLower` maps a text.
-/

namespace Intercept.Text

/-- Whether a code point lies in one of the ranges. -/
def inRanges (ranges : Array (Nat × Nat)) (n : Nat) : Bool :=
  ranges.any fun (lo, hi) => lo ≤ n && n ≤ hi

/-- Whether a character is passed over when a sigma looks for its word. -/
def isCaseIgnorable (c : Char) : Bool := inRanges caseIgnorableRanges c.toNat

/-- Whether a character that is not passed over belongs to a cased word. -/
def isCased (c : Char) : Bool := inRanges casedRanges c.toNat

/-- Whether a code point belongs to the run. -/
def CaseRun.holds (run : CaseRun) (n : Nat) : Bool :=
  run.first ≤ n && n ≤ run.last && (n - run.first) % run.step = 0

/-- The lower-case form of one character. -/
def lower (c : Char) : Text :=
  if c.toNat < 0x80 then [c.toLower]
  else if c = '\u0130' then ['i', '\u0307']
  else match lowerRanges.find? (·.holds c.toNat) with
    | some run => [Char.ofNat (c.toNat + run.shift).toNat]
    | none => [c]

/-- Whether the first character that is not passed over is cased. -/
def startsCased (t : Text) : Bool :=
  match t.dropWhile isCaseIgnorable with
  | c :: _ => isCased c
  | [] => false

/-- Whether a sigma between `before` (nearest character first) and `after` ends its word. -/
def isWordFinal (before after : Text) : Bool := startsCased before && !startsCased after

/-- Lower case with the text passed so far, nearest character first. -/
def toLowerAfter (before : Text) : Text → Text
  | [] => []
  | c :: r =>
    let here :=
      if c = 'Σ' then (if isWordFinal before r then ['ς'] else ['σ'])
      else lower c
    here ++ toLowerAfter (c :: before) r

/-- The lower-case form of a text. -/
def toLower (t : Text) : Text := toLowerAfter [] t

end Intercept.Text
