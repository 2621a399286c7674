import Intercept.Text.Numeral
import Intercept.Yaml.Cursor

/-!
# How scalars are written

A scalar is written plain, in single or double quotes, or as an indented block behind `|` or `>`.

* `Gap` is what stands between two words of a scalar, and `Gap.text` what it counts as: a single
  line end is folded into a space.
* `quoted`, `plain` and `block` read a scalar from its first character on.

Every reader gives the text and the place behind it, or `none` when the writing is wrong. The
argument `fuel` bounds the rounds of a loop and is the number of characters left.
-/

namespace Intercept.Yaml

/-- How a scalar is written. -/
inductive Style
  | plain
  | quoted
  | literal
  | folded
deriving DecidableEq, Repr

/-- Blanks and line ends between two words. -/
structure Gap where
  spaces : Text := []
  /-- The first line end. -/
  first : Text := []
  /-- The line ends behind the first. -/
  more : Text := []
  broken : Bool := false

namespace Gap

/-- What a gap counts as. -/
def text (g : Gap) : Text :=
  if !g.broken then g.spaces
  else if g.first = ['\n'] then (if g.more.isEmpty then [' '] else g.more)
  else g.first ++ g.more

/-- Reads a gap. A tab left of `indent` on a line of its own is an error. -/
def read (indent : Option Int) (g : Gap) (c : Cursor) : (fuel : Nat) → Option (Gap × Cursor)
  | 0 => some (g, c)
  | fuel + 1 =>
    match c.rest.head? with
    | none => some (g, c)
    | some x =>
      if isSpace x then
        if g.broken && x = '\t' && indent.any ((c.column : Int) < ·) then none
        else
          let g := if g.broken then g else { g with spaces := g.spaces ++ [x] }
          read indent g (c.skip 1) fuel
      else if isBreak x then
        let (text, c) := c.takeBreak
        let g :=
          if g.broken then { g with more := g.more ++ text }
          else { g with first := text, broken := true }
        read indent g c fuel
      else some (g, c)

end Gap

/-- The character of an escape sequence of one letter. -/
def escaped? : Char → Option Char
  | '0' => some '\x00'
  | 'a' => some '\x07'
  | 'b' => some '\x08'
  | 't' => some '\t'
  | '\t' => some '\t'
  | 'n' => some '\n'
  | 'v' => some '\x0b'
  | 'f' => some '\x0c'
  | 'r' => some '\r'
  | 'e' => some '\x1b'
  | ' ' => some ' '
  | '"' => some '"'
  | '/' => some '/'
  | '\\' => some '\\'
  | 'N' => some '\u0085'
  | '_' => some '\u00a0'
  | 'L' => some '\u2028'
  | 'P' => some '\u2029'
  | _ => none

/-- How many hexadecimal digits follow the letter of an escape sequence. -/
def escapeWidth? : Char → Option Nat
  | 'x' => some 2
  | 'u' => some 4
  | 'U' => some 8
  | _ => none

/-- The character with a code point, if there is one. -/
def charOf? (n : Nat) : Option Char := if n.isValidChar then some (Char.ofNat n) else none

/-- Reads an escape sequence: the character and the place behind it. -/
def escape? (c : Cursor) : Option (Char × Cursor) := do
  let letter ← c.peek 1
  match escapeWidth? letter with
  | none => return (← escaped? letter, c.skip 2)
  | some width =>
    let digits := (c.rest.drop 2).take width
    if digits.length < width then none
    else return (← charOf? (← Numeral.value? 16 digits), c.skip (2 + width))

/-- Reads on within quotes up to a gap, the closing quote or an escaped line end: the text, in
reverse, and whether a line end was escaped. -/
def quotedWord (double : Bool) (out : Text) (c : Cursor) :
    (fuel : Nat) → Option (Text × Cursor × Bool)
  | 0 => some (out, c, false)
  | fuel + 1 =>
    match c.rest with
    | [] => some (out, c, false)
    | x :: r =>
      if isSpace x || isBreak x then some (out, c, false)
      else if !double && x = '\'' && r.head? = some '\'' then
        quotedWord double ('\'' :: out) (c.skip 2) fuel
      else if x = (if double then '"' else '\'') then some (out, c, false)
      else if double && x = '\\' then
        if r.head?.any isBreak then some (out, (c.skip 1).skipBreak, true)
        else match escape? c with
          | some (y, c) => quotedWord double (y :: out) c fuel
          | none => none
      else quotedWord double (x :: out) (c.skip 1) fuel

/-- Reads on within quotes; `out` is the text so far, in reverse. -/
def quotedFrom (double : Bool) (out : Text) (c : Cursor) : (fuel : Nat) → Option (Text × Cursor)
  | 0 => none
  | fuel + 1 =>
    if c.atDocumentMark || c.rest.isEmpty then none
    else match quotedWord double out c (c.rest.length + 1) with
      | none => none
      | some (out, c, joined) =>
        if c.at? (if double then '"' else '\'') then some (out.reverse, c.skip 1)
        else match Gap.read none { broken := joined } c (c.rest.length + 1) with
          | none => none
          | some (gap, c) => quotedFrom double (gap.text.reverse ++ out) c fuel

/-- Reads a scalar in quotes. -/
def quoted (double : Bool) (c : Cursor) : Option (Text × Cursor) :=
  quotedFrom double [] (c.skip 1) (c.rest.length + 1)

/-- Whether a character structures a flow collection. -/
def isFlowMark (x : Char) : Bool := x = ',' || x = '[' || x = ']' || x = '{' || x = '}'

/-- The characters up to a gap or to what ends a plain scalar; `none` when a colon stands where it
may not. -/
def plainWord (inFlow : Bool) : Text → Option Text
  | [] => some []
  | x :: r =>
    if isSpace x || isBreak x then some []
    else if inFlow && x = ':' && r.head?.any (fun y => isFlowMark y || y = '?') then none
    else if x = ':' && r.head?.all (fun y => isSpace y || isBreak y) then some []
    else if inFlow && isFlowMark x then some []
    else (plainWord inFlow r).map (x :: ·)

/-- Reads on in a plain scalar: the text, the place behind it, and whether a line end stands
before that place. -/
def plainFrom (inFlow : Bool) (indent : Int) (out : Text) (gap : Gap) (c : Cursor) :
    (fuel : Nat) → Option (Text × Cursor × Bool)
  | 0 => some (out, c, gap.broken)
  | fuel + 1 =>
    if c.atDocumentMark || c.at? '#' then some (out, c, gap.broken)
    else match plainWord inFlow c.rest with
      | none => none
      | some word =>
        let c := c.skip word.length
        let (out, gap) := if word.isEmpty then (out, gap) else (out ++ gap.text ++ word, {})
        if !c.rest.head?.any (fun x => isSpace x || isBreak x) then some (out, c, gap.broken)
        else match Gap.read (some indent) {} c (c.rest.length + 1) with
          | none => none
          | some (gap, c) =>
            if !inFlow && (c.column : Int) < indent then some (out, c, gap.broken)
            else plainFrom inFlow indent out gap c fuel

/-- Reads a plain scalar whose further lines start at `indent` or right of it. -/
def plain (inFlow : Bool) (indent : Int) (c : Cursor) : Option (Text × Cursor × Bool) :=
  plainFrom inFlow indent [] {} c (c.rest.length + 1)

/-- What becomes of the line ends behind a block. -/
inductive Chomp
  | strip
  | clip
  | keep
deriving DecidableEq

/-- Reads a chomping mark. -/
def chomp? (c : Cursor) : Option (Chomp × Cursor) :=
  if c.at? '+' then some (.keep, c.skip 1)
  else if c.at? '-' then some (.strip, c.skip 1)
  else none

/-- Reads an indentation mark: zero when there is none. A written zero is an error. -/
def increment? (c : Cursor) : Option (Nat × Cursor) :=
  match c.rest.head?.bind (Numeral.digit? 10) with
  | some 0 => none
  | some n => some (n, c.skip 1)
  | none => some (0, c)

/-- Reads the marks behind `|` or `>`, which stand in either order. -/
def blockHeader? (c : Cursor) : Option (Chomp × Nat × Cursor) :=
  match chomp? c with
  | some (chomp, c) => (increment? c).map fun (n, c) => (chomp, n, c)
  | none => (increment? c).map fun (n, c) =>
    match chomp? c with
    | some (chomp, c) => if n = 0 then (.clip, n, c) else (chomp, n, c)
    | none => (.clip, n, c)

/-- Reads the indentation and empty lines before a line of a block: the line ends, the widest
indentation seen and the place. Without a known indentation all spaces belong to it. -/
def blockBreaks (indent : Option Int) (widest : Nat) (breaks : Text) (c : Cursor) :
    (fuel : Nat) → Option (Text × Nat × Cursor)
  | 0 => some (breaks, widest, c)
  | fuel + 1 =>
    let spaces := (c.rest.takeWhile (· = ' ')).length
    let n := match indent with
      | some i => min spaces (i - c.column).toNat
      | none => spaces
    let c := c.skip n
    let widest := max widest c.column
    if c.at? '\t' && indent.all ((c.column : Int) < ·) then none
    else if c.rest.head?.any isBreak then
      let (text, c) := c.takeBreak
      blockBreaks indent widest (breaks ++ text) c fuel
    else some (breaks, widest, c)

/-- Reads the lines of a block. `held` is the line end before the present line, `breaks` are the
empty lines behind that, `spaced` says whether the line before started with a blank. -/
def blockLines (isLiteral : Bool) (indent : Int) (out held breaks : Text) (spaced : Bool)
    (c : Cursor) : (fuel : Nat) → Option (Text × Text × Text × Cursor)
  | 0 => some (out, held, breaks, c)
  | fuel + 1 =>
    if (c.column : Int) ≠ indent || c.rest.isEmpty then some (out, held, breaks, c)
    else
      let startsSpaced := c.rest.head?.any isSpace
      let joint :=
        if !isLiteral && held = ['\n'] && !spaced && !startsSpaced then
          (if breaks.isEmpty then [' '] else [])
        else held
      let (line, c) := c.span (!isBreak ·)
      let (held, c) := c.takeBreak
      match blockBreaks (some indent) 0 [] c (c.rest.length + 1) with
      | none => none
      | some (more, _, c) =>
        blockLines isLiteral indent (out ++ joint ++ breaks ++ line) held more startsSpaced c fuel

/-- Reads a block scalar inside a collection that is indented by `parent`. -/
def block (isLiteral : Bool) (parent : Int) (c : Cursor) : Option (Text × Cursor) := do
  let (chomp, n, c) ← blockHeader? (c.skip 1)
  let c ← c.finishLine
  let known : Option Int := if n = 0 then none else some (max parent 0 + n)
  let (breaks, widest, c) ← blockBreaks known 0 [] c (c.rest.length + 1)
  let indent := known.getD (max (max (widest : Int) (parent + 1)) 1)
  let (out, held, breaks, c) ← blockLines isLiteral indent [] [] breaks false c (c.rest.length + 1)
  match chomp with
  | .strip => return (out, c)
  | .clip => return (out ++ held, c)
  | .keep => return (out ++ held ++ breaks, c)

end Intercept.Yaml
