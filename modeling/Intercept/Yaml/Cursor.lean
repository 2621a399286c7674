import Intercept.Text.Cut

/-!
# A place in a YAML text

* `isBreak` and `isSpace` are the classes of characters that separate what is written.
* `Cursor` is a place in a text with its line and column, counted from zero.
* `isAllowed` says which characters a text may hold at all.
-/

namespace Intercept.Yaml

/-- Whether a character ends a line. -/
def isBreak (c : Char) : Bool :=
  c = '\n' || c = '\r' || c = '\u0085' || c = '\u2028' || c = '\u2029'

/-- Whether a character is a blank within a line. -/
def isSpace (c : Char) : Bool := c = ' ' || c = '\t'

/-- Whether a character may stand in a YAML text: no control characters but tab and line ends, no
byte order swap mark and no noncharacters at the end of the basic plane. -/
def isAllowed (c : Char) : Bool :=
  let n := c.toNat
  n = 0x09 || n = 0x0A || n = 0x0D || (0x20 ≤ n && n ≤ 0x7E) || n = 0x85 ||
    (0xA0 ≤ n && n ≤ 0xD7FF) || (0xE000 ≤ n && n ≤ 0xFFFD) || 0x10000 ≤ n

/-- Whether a character may stand in the name of an anchor, a handle or a directive. -/
def isWordChar (c : Char) : Bool :=
  ('0' ≤ c && c ≤ '9') || ('A' ≤ c && c ≤ 'Z') || ('a' ≤ c && c ≤ 'z') || c = '_' || c = '-'

/-- A place in a text. -/
structure Cursor where
  rest : Text
  index : Nat := 0
  line : Nat := 0
  column : Nat := 0

namespace Cursor

/-- The character at a distance; none behind the end. -/
def peek (c : Cursor) (n : Nat) : Option Char := c.rest[n]?

/-- Whether the character is the next one. -/
def at? (c : Cursor) (x : Char) : Bool := c.rest.head? = some x

/-- Whether a line ends here, or the text. -/
def atLineEnd (c : Cursor) : Bool := c.rest.head?.all isBreak

/-- Whether a blank, a line end or the end of the text stands at a distance. -/
def gapAt (c : Cursor) (n : Nat) : Bool := (c.peek n).all fun x => isSpace x || isBreak x

/-- Passes over characters of a line. -/
def skip (n : Nat) (c : Cursor) : Cursor :=
  { c with rest := c.rest.drop n, index := c.index + n, column := c.column + n }

/-- The characters up to the first that does not satisfy `p`, and the place behind them. -/
def span (p : Char → Bool) (c : Cursor) : Text × Cursor :=
  let t := c.rest.takeWhile p
  (t, c.skip t.length)

/-- Passes over the characters that satisfy `p`. -/
def skipWhile (p : Char → Bool) (c : Cursor) : Cursor := (c.span p).2

/-- Takes one line end: the text that it counts as, and the start of the next line. -/
def takeBreak (c : Cursor) : Text × Cursor :=
  let next (n : Nat) : Cursor := ⟨c.rest.drop n, c.index + n, c.line + 1, 0⟩
  match c.rest with
  | '\r' :: '\n' :: _ => (['\n'], next 2)
  | x :: _ =>
    if x = '\u2028' || x = '\u2029' then ([x], next 1)
    else if isBreak x then (['\n'], next 1)
    else ([], c)
  | [] => ([], c)

/-- Passes over one line end. -/
def skipBreak (c : Cursor) : Cursor := c.takeBreak.2

/-- Passes over a comment. -/
def skipComment (c : Cursor) : Cursor :=
  if c.at? '#' then c.skipWhile (!isBreak ·) else c

/-- Passes over blanks and a comment up to the end of the line and over that; `none` when there is
something else. -/
def finishLine (c : Cursor) : Option Cursor :=
  let c := (c.skipWhile isSpace).skipComment
  if c.atLineEnd then some c.skipBreak else none

/-- Whether three characters in a row start the line, with a gap behind them. -/
def marks (x : Char) (c : Cursor) : Bool :=
  c.column = 0 && c.peek 0 = some x && c.peek 1 = some x && c.peek 2 = some x && c.gapAt 3

/-- Whether a document starts or ends here. -/
def atDocumentMark (c : Cursor) : Bool := c.marks '-' || c.marks '.'

end Cursor
end Intercept.Yaml
