import Intercept.Text.Numeral
import Intercept.Yaml.Cursor

/-!
# Tags

A tag names the type of a node. It is written in full between `!<` and `>`, or as a handle between
exclamation marks and a suffix; directives say what the handles stand for.

* `handle` and `uri?` read the parts, `read?` a whole tag.
* `Handles` are the meanings of the handles in a document, `Handles.expand?` applies them.

An octet that is escaped as `%XX` stands in a tag as the character of its number.
-/

namespace Intercept.Yaml

/-- A tag as written; the handle is empty when the suffix is the whole tag. -/
structure Tag where
  handle : Text
  suffix : Text
deriving DecidableEq, Repr

namespace Tag

/-- The punctuation that a tag may hold anywhere. -/
def marks : Text := ";/?:@&=+$.!~*'()%".toList

/-- Whether a character may stand in a tag; `wide` admits what structures flow collections. -/
def isUriChar (wide : Bool) (c : Char) : Bool :=
  isWordChar c || marks.contains c || (wide && (c = ',' || c = '[' || c = ']'))

/-- The octet behind a percent sign. -/
def octet? : Text → Option Nat
  | '%' :: a :: b :: _ => Numeral.value? 16 [a, b]
  | _ => none

/-- How many octets a character has by its first one. -/
def octetCount? (n : Nat) : Option Nat :=
  if n < 0x80 then some 1
  else if 0xC0 ≤ n && n < 0xE0 then some 2
  else if 0xE0 ≤ n && n < 0xF0 then some 3
  else if 0xF0 ≤ n && n < 0xF8 then some 4
  else none

/-- Reads `n` escaped octets that continue a character. -/
def tail? : Nat → Cursor → Option (Text × Cursor)
  | 0, c => some ([], c)
  | n + 1, c => do
    let o ← octet? c.rest
    if 0x80 ≤ o && o < 0xC0 then
      let (t, c) ← tail? n (c.skip 3)
      return (Char.ofNat o :: t, c)
    else none

/-- Reads the escaped octets of one character. -/
def escape? (c : Cursor) : Option (Text × Cursor) := do
  let o ← octet? c.rest
  let n ← octetCount? o
  let (t, c) ← tail? (n - 1) (c.skip 3)
  return (Char.ofNat o :: t, c)

/-- Reads a run of tag characters, which may be empty. -/
def uri? (wide : Bool) (c : Cursor) : (fuel : Nat) → Option (Text × Cursor)
  | 0 => none
  | fuel + 1 =>
    match c.rest with
    | [] => some ([], c)
    | x :: _ =>
      if x = '%' then do
        let (t, c) ← escape? c
        let (u, c) ← uri? wide c fuel
        return (t ++ u, c)
      else if isUriChar wide x then do
        let (u, c) ← uri? wide (c.skip 1) fuel
        return (x :: u, c)
      else some ([], c)

/-- A text up to the first null character. -/
def upToNull (t : Text) : Text := t.takeWhile (· ≠ '\x00')

/-- Reads a run of tag characters that is not empty. -/
def uri1? (wide : Bool) (c : Cursor) : Option (Text × Cursor) := do
  let (t, c) ← uri? wide c (c.rest.length + 1)
  if t.isEmpty then none else return (upToNull t, c)

/-- Reads an exclamation mark, word characters and perhaps an exclamation mark. -/
def handle? (c : Cursor) : Option (Text × Cursor) :=
  if !c.at? '!' then none
  else
    let (word, c) := (c.skip 1).span isWordChar
    if c.at? '!' then some ('!' :: word ++ ['!'], c.skip 1) else some ('!' :: word, c)

/-- Whether a text is a handle of its own: an exclamation mark at either end. -/
def isHandle (t : Text) : Bool := 2 ≤ t.length && t.getLast? = some '!'

/-- Reads a tag, which ends at a gap, or in a flow collection also at a comma. -/
def read? (inFlow : Bool) (c : Cursor) : Option (Tag × Cursor) := do
  let (tag, c) ← (do
    if c.peek 1 = some '<' then
      let (suffix, c) ← uri1? true (c.skip 2)
      if c.at? '>' then return (⟨[], suffix⟩, c.skip 1) else none
    else
      let (front, c) ← handle? c
      if isHandle front then
        let (suffix, c) ← uri1? false c
        return (⟨front, suffix⟩, c)
      else
        let (rest, c) ← uri? false c (c.rest.length + 1)
        let suffix := upToNull (front.drop 1 ++ rest)
        return (if suffix.isEmpty then ⟨[], ['!']⟩ else ⟨['!'], suffix⟩, c) : Option (Tag × Cursor))
  if c.gapAt 0 || (inFlow && c.at? ',') then return (tag, c) else none

end Tag

/-- What the handles of a document stand for. -/
abbrev Handles := List (Text × Text)

namespace Handles

/-- The meanings of handles that no directive declares. -/
def standard : Handles := [(['!'], ['!']), ("!!".toList, "tag:yaml.org,2002:".toList)]

/-- The full text of a tag; `none` when its handle is not declared. -/
def expand? (handles : Handles) (tag : Tag) : Option Text :=
  if tag.handle.isEmpty then some tag.suffix
  else ((handles ++ standard).lookup tag.handle).map (· ++ tag.suffix)

end Handles
end Intercept.Yaml
