import Intercept.Yaml.Node

/-!
# Values in YAML documents

A node is read as the value that is expected at its place. Which values a scalar can stand for hangs
on its text, on its style and on its tag: words and numbers are written plain, or as a literal block
with the tag of their type. This is what `serde_yaml_ng` 0.10 makes of nodes for fields of known
types.

* `text?`, `bool?` and `natural?` read scalars, `items?` lists and `fields?` records.
* `optional?` reads a value that may be null.

All of them follow references and give `none` for a node that does not fit.
-/

namespace Intercept.Yaml

/-- The full text of a tag of the language's own. -/
def coreTag (name : String) : Text := ("tag:yaml.org,2002:" ++ name).toList

/-- The spellings of null. -/
def isNull (t : Text) : Bool := ["~", "null", "Null", "NULL"].any (·.toList = t)

/-- The spellings of the truth values. -/
def truth? (t : Text) : Option Bool :=
  if ["true", "True", "TRUE"].any (·.toList = t) then some true
  else if ["false", "False", "FALSE"].any (·.toList = t) then some false
  else none

/-- Whether a text starts with a sign. -/
def isSigned (t : Text) : Bool := t.head? = some '+' || t.head? = some '-'

/-- A text behind at most one plus sign. -/
def dropPlus (t : Text) : Text := (dropFront ['+'] t).getD t

/-- Digits behind the mark of their base; no sign may stand between them. -/
def marked? (mark : String) (base limit : Nat) (t : Text) : Option Nat := do
  let digits ← dropFront mark.toList t
  if isSigned digits then none else Numeral.read? base limit digits

/-- Whether a number is written with a needless zero in front. -/
def isPadded (t : Text) : Bool :=
  1 < t.length && t.head? = some '0' && t.all Char.isDigit

/-- Reads a natural number below a limit: decimal without needless zeros, hexadecimal behind `0x`,
octal behind `0o` or binary behind `0b`. -/
def number? (limit : Nat) (t : Text) : Option Nat :=
  let digits := dropPlus t
  (marked? "0x" 16 limit digits).orElse fun _ =>
  (marked? "0o" 8 limit digits).orElse fun _ =>
  (marked? "0b" 2 limit digits).orElse fun _ =>
    if isSigned digits || isPadded digits then none else Numeral.read? 10 limit digits

/-- Whether a scalar may stand for a word or number of the type with this tag. -/
def isTyped (name : String) (tag : Option Text) : Style → Bool
  | .plain => true
  | .literal => tag = some (coreTag name)
  | _ => false

namespace Document

variable (d : Document)

/-- Reads a text. -/
def text? (n : Node) : Option Text :=
  match d.follow n with
  | .scalar _ _ text => some text
  | _ => none

/-- Reads a truth value. -/
def bool? (n : Node) : Option Bool :=
  match d.follow n with
  | .scalar tag style text => if isTyped "bool" tag style then truth? text else none
  | _ => none

/-- Reads a natural number below a limit. -/
def natural? (limit : Nat) (n : Node) : Option Nat :=
  match d.follow n with
  | .scalar tag style text => if isTyped "int" tag style then number? limit text else none
  | _ => none

/-- Whether a node is written as nothing at all. -/
def isBlank : Node → Bool
  | .scalar _ style text => style = .plain && text.isEmpty
  | _ => false

/-- Reads a list, which is empty where nothing is written. -/
def items? {α : Type} (read : Node → Option α) (n : Node) : Option (List α) :=
  match d.follow n with
  | .sequence items => items.mapM read
  | node => if isBlank node then some [] else none

/-- Whether a node stands for null; `none` when it says so wrongly. -/
def null? (n : Node) : Option Bool :=
  match n with
  | .scalar none .plain text => some (text.isEmpty || isNull text)
  | .scalar (some tag) .plain text =>
    if tag = coreTag "null" then (if isNull text then some true else none) else some false
  | _ => some false

/-- Reads a value that may be null. -/
def optional? {α : Type} (read : Node → Option α) (n : Node) : Option (Option α) := do
  if ← null? (d.follow n) then return none else return some (← read n)

/-- The known fields of a record with their nodes. A known field may be given only once; others
are passed over. -/
def known? (names : List Text) : List (Node × Node) → Option (List (Text × Node))
  | [] => some []
  | (key, value) :: rest => do
    let name ← d.text? key
    let fields ← known? names rest
    if !names.contains name then return fields
    else if (fields.lookup name).isSome then none
    else return (name, value) :: fields

/-- Reads the known fields of a record, which has none where nothing is written. -/
def fields? (names : List String) (n : Node) : Option (List (Text × Node)) :=
  match d.follow n with
  | .mapping entries => d.known? (names.map String.toList) entries
  | node => if isBlank node then some [] else none

end Document

/-- The value of a field that has to be there. -/
def required? {α : Type} (fields : List (Text × Node)) (name : String) (read : Node → Option α) :
    Option α := do
  read (← fields.lookup name.toList)

/-- The value of a field, or a default when the field is not there. -/
def defaulted? {α : Type} (fields : List (Text × Node)) (name : String) (default : α)
    (read : Node → Option α) : Option α :=
  match fields.lookup name.toList with
  | some node => read node
  | none => some default

example : number? 65536 "0x10".toList = some 16 := by decide
example : number? 65536 "+7".toList = some 7 := by decide
example : number? 65536 "007".toList = none := by decide
example : number? 65536 "++7".toList = none := by decide
example : number? 65536 "65536".toList = none := by decide

end Intercept.Yaml
