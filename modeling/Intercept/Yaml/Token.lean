import Intercept.Yaml.Scalar
import Intercept.Yaml.Tag

/-!
# The tokens of a YAML text

Tokens show the structure that a text gives by indentation and by keys: a block collection is
opened where a line is indented further and closed where one is indented less, and a key is marked
in front of what turns out to be one when the colon behind it is seen. The rules are those of the
scanner under `serde_yaml_ng` 0.10.

* `Token` are the tokens, `Token.ofText?` reads them.
* `Lexer` is the state in between: the open indentations and, for each flow collection around, the
  place where a key may have started.

Every step gives `none` when the text is wrong.
-/

namespace Intercept.Yaml

/-- What a text is made of. -/
inductive Token
  | version (major minor : Nat)
  | handle (handle meaning : Text)
  | documentStart
  | documentEnd
  | blockSequence
  | blockMapping
  | blockEnd
  | flowSequence
  | flowSequenceEnd
  | flowMapping
  | flowMappingEnd
  | blockEntry
  | flowEntry
  | key
  | value
  | reference (name : Text)
  | anchor (name : Text)
  | tag (tag : Tag)
  | scalar (style : Style) (text : Text)
deriving DecidableEq, Repr

/-- Where a key may have started. -/
structure KeyStart where
  /-- Whether there has to be a key for the indentation to make sense. -/
  required : Bool
  /-- How many tokens come before it. -/
  position : Nat
  line : Nat
  index : Nat
  column : Nat

/-- The state of reading tokens. -/
structure Lexer where
  cursor : Cursor
  tokens : Array Token := #[]
  /-- The indentation of the innermost block collection. -/
  indent : Int := -1
  /-- The indentations around it. -/
  indents : List Int := []
  /-- The possible key of the block level and of every open flow collection, the innermost
  first. -/
  keys : List (Option KeyStart) := [none]
  /-- Whether a key may start here. -/
  keyAllowed : Bool := true

namespace Lexer

/-- Whether a flow collection is open. -/
def inFlow (l : Lexer) : Bool := 1 < l.keys.length

/-- Appends a token. -/
def emit (l : Lexer) (t : Token) : Lexer := { l with tokens := l.tokens.push t }

/-- Opens a block collection at a column, if that is further in; its token goes to a position. -/
def openBlock (l : Lexer) (column position : Nat) (t : Token) : Lexer :=
  if !l.inFlow && l.indent < column then
    { l with
      tokens := l.tokens.insertIdxIfInBounds position t
      indent := column
      indents := l.indent :: l.indents }
  else l

/-- Closes the block collections that are further in than a column. -/
def closeBlocks (column : Int) (l : Lexer) : Lexer :=
  if l.inFlow then l
  else
    let closed := (l.indent :: l.indents).takeWhile (column < ·)
    let left := (l.indent :: l.indents).drop closed.length
    { l with
      tokens := l.tokens ++ Array.replicate closed.length .blockEnd
      indent := left.headD (-1)
      indents := left.drop 1 }

/-- Gives up the possible key of the innermost level. -/
def dropKey (l : Lexer) : Option Lexer :=
  match l.keys with
  | some key :: keys => if key.required then none else some { l with keys := none :: keys }
  | _ => some l

/-- Notes that a key may start here. -/
def noteKey (l : Lexer) : Option Lexer :=
  if !l.keyAllowed then some l
  else l.dropKey.map fun l =>
    let c := l.cursor
    let key : KeyStart :=
      ⟨!l.inFlow && l.indent = (c.column : Int), l.tokens.size, c.line, c.index, c.column⟩
    { l with keys := some key :: l.keys.drop 1 }

/-- Gives up the possible keys that are not on this line or more than 1024 characters back. -/
def dropStaleKeys (l : Lexer) : Option Lexer := do
  let keys ← l.keys.mapM fun
    | some key =>
      if key.line < l.cursor.line || key.index + 1024 < l.cursor.index then
        if key.required then none else some none
      else some (some key)
    | none => some none
  return { l with keys := keys }

/-- Passes over what separates tokens. At the start of a line and behind a block mark a tab is not
among it. -/
def skipGap (l : Lexer) : (fuel : Nat) → Lexer
  | 0 => l
  | fuel + 1 =>
    let c := l.cursor
    let c := if c.column = 0 && c.at? '\uFEFF' then c.skip 1 else c
    let tabs := l.inFlow || !l.keyAllowed
    let c := (c.skipWhile fun x => x = ' ' || (tabs && x = '\t')).skipComment
    if c.rest.head?.any isBreak then
      skipGap { l with cursor := c.skipBreak, keyAllowed := l.keyAllowed || !l.inFlow } fuel
    else { l with cursor := c }

/-- Takes the characters of a mark and says whether a key may follow. -/
def pass (l : Lexer) (n : Nat) (keyAllowed : Bool) (t : Token) : Lexer :=
  { l with cursor := l.cursor.skip n, keyAllowed := keyAllowed }.emit t

/-- Closes all block collections and gives up the possible key. -/
def closeAll (l : Lexer) : Option Lexer := (l.closeBlocks (-1)).dropKey

/-- Reads the number of a version. -/
def versionNumber? (c : Cursor) : Option (Nat × Cursor) := do
  let (digits, c) := c.span Char.isDigit
  if 9 < digits.length then none else return (← Numeral.value? 10 digits, c)

/-- Reads what follows the percent sign of a directive. -/
def directive? (c : Cursor) : Option (Token × Cursor) := do
  let (name, c) := c.span isWordChar
  if !c.gapAt 0 then none
  let c := c.skipWhile isSpace
  if name = "YAML".toList then
    let (major, c) ← versionNumber? c
    if !c.at? '.' then none
    let (minor, c) ← versionNumber? (c.skip 1)
    return (.version major minor, ← c.finishLine)
  else if name = "TAG".toList then
    let (handle, c) ← Tag.handle? c
    if 1 < handle.length && !Tag.isHandle handle then none
    if !c.rest.head?.any isSpace then none
    let (meaning, c) ← Tag.uri1? true (c.skipWhile isSpace)
    if !c.gapAt 0 then none
    return (.handle handle meaning, ← c.finishLine)
  else none

/-- Reads the name of an anchor or reference. -/
def name? (c : Cursor) : Option (Text × Cursor) :=
  let (name, c) := c.span isWordChar
  let ends := c.gapAt 0 || c.rest.head?.any ("?:,]\x7d%@`".toList.contains ·)
  if !name.isEmpty && ends then some (name, c) else none

/-- Opens a flow collection. -/
def openFlow (l : Lexer) (t : Token) : Option Lexer :=
  l.noteKey.map fun l => { l with keys := none :: l.keys }.pass 1 true t

/-- Closes a flow collection. -/
def closeFlow (l : Lexer) (t : Token) : Option Lexer :=
  l.dropKey.map fun l => { l with keys := if l.inFlow then l.keys.drop 1 else l.keys }.pass 1 false t

/-- Opens the block collection that a mark outside flow collections stands in. -/
def markBlock (l : Lexer) (t : Token) : Option Lexer :=
  if l.inFlow then some l
  else if l.keyAllowed then some (l.openBlock l.cursor.column l.tokens.size t)
  else none

/-- Takes the mark of a sequence entry. -/
def takeEntry (l : Lexer) : Option Lexer := do
  let l ← l.markBlock .blockSequence
  return (← l.dropKey).pass 1 true .blockEntry

/-- Takes the mark of a key. -/
def takeKey (l : Lexer) : Option Lexer := do
  let l ← l.markBlock .blockMapping
  return (← l.dropKey).pass 1 (!l.inFlow) .key

/-- Takes the mark of a value: what could be a key before it is one. -/
def takeValue (l : Lexer) : Option Lexer :=
  match l.keys with
  | some key :: keys =>
    let l := { l with tokens := l.tokens.insertIdxIfInBounds key.position .key }
    let l := l.openBlock key.column key.position .blockMapping
    some ({ l with keys := none :: keys }.pass 1 false .value)
  | _ => do
    let l ← l.markBlock .blockMapping
    return l.pass 1 (!l.inFlow) .value

/-- Takes something that a key may start with, whose reader gives a token and the place behind
it. -/
def takeLeaf (read : Cursor → Option (Token × Cursor)) (l : Lexer) : Option Lexer := do
  let l ← l.noteKey
  let (t, c) ← read l.cursor
  return { l with cursor := c, keyAllowed := false }.emit t

/-- Takes a block scalar. -/
def takeBlock (style : Style) (l : Lexer) : Option Lexer := do
  let l ← l.dropKey
  let (text, c) ← block (style = .literal) l.indent l.cursor
  return { l with cursor := c, keyAllowed := true }.emit (.scalar style text)

/-- Takes a plain scalar; a key may follow when a line ends behind it. -/
def takePlain (l : Lexer) : Option Lexer := do
  let l ← l.noteKey
  let (text, c, broken) ← plain l.inFlow (l.indent + 1) l.cursor
  return { l with cursor := c, keyAllowed := broken }.emit (.scalar .plain text)

/-- The characters that no plain scalar starts with, unless one of `-?:` does not mark anything. -/
def marks : Text := "-?:,[]\x7b\x7d#&*!|>'\"%@`".toList

/-- Whether a plain scalar starts here. -/
def atPlain (l : Lexer) : Bool :=
  match l.cursor.rest with
  | [] => false
  | x :: r =>
    !(isSpace x || isBreak x || marks.contains x) ||
      (x = '-' && !r.head?.any isSpace) ||
      (!l.inFlow && (x = '?' || x = ':') && !l.cursor.gapAt 1)

/-- Takes one token from its first character on. -/
def take (l : Lexer) : Option Lexer :=
  let c := l.cursor
  let marked := l.inFlow || c.gapAt 1
  if c.column = 0 && c.at? '%' then do
    let l ← l.closeAll
    let (t, c) ← directive? (l.cursor.skip 1)
    return { l with cursor := c, keyAllowed := false }.emit t
  else if c.marks '-' then l.closeAll.map (·.pass 3 false .documentStart)
  else if c.marks '.' then l.closeAll.map (·.pass 3 false .documentEnd)
  else if c.at? '[' then l.openFlow .flowSequence
  else if c.at? '\x7b' then l.openFlow .flowMapping
  else if c.at? ']' then l.closeFlow .flowSequenceEnd
  else if c.at? '\x7d' then l.closeFlow .flowMappingEnd
  else if c.at? ',' then l.dropKey.map (·.pass 1 true .flowEntry)
  else if c.at? '-' && c.gapAt 1 then l.takeEntry
  else if c.at? '?' && marked then l.takeKey
  else if c.at? ':' && marked then l.takeValue
  else if c.at? '*' then l.takeLeaf fun c => (name? (c.skip 1)).map fun (n, c) => (.reference n, c)
  else if c.at? '&' then l.takeLeaf fun c => (name? (c.skip 1)).map fun (n, c) => (.anchor n, c)
  else if c.at? '!' then l.takeLeaf fun c => (Tag.read? l.inFlow c).map fun (t, c) => (.tag t, c)
  else if c.at? '|' && !l.inFlow then l.takeBlock .literal
  else if c.at? '>' && !l.inFlow then l.takeBlock .folded
  else if c.at? '\'' || c.at? '"' then
    l.takeLeaf fun c => (quoted (c.at? '"') c).map fun (t, c) => (.scalar .quoted t, c)
  else if l.atPlain then l.takePlain
  else none

/-- Reads all tokens that are left. -/
def run (l : Lexer) : (fuel : Nat) → Option (Array Token)
  | 0 => none
  | fuel + 1 => do
    let l ← (l.skipGap (l.cursor.rest.length + 1)).dropStaleKeys
    let l := l.closeBlocks l.cursor.column
    if l.cursor.rest.isEmpty then return (← l.closeAll).tokens
    else run (← l.take) fuel

end Lexer

/-- The tokens of a text. -/
def Token.ofText? (t : Text) : Option (List Token) :=
  if t.all isAllowed then
    (Lexer.run { cursor := { rest := t } } (t.length + 1)).map Array.toList
  else none

end Intercept.Yaml
