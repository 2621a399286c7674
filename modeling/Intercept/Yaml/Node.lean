import Intercept.Yaml.Token

/-!
# YAML documents

A document is a tree of scalars, sequences and mappings, in which a reference stands for the node
that carries the anchor of that name. It is read as `serde_yaml_ng` 0.10 reads it.

* `Node` is a node of the tree; `Document` holds the tree and its anchored nodes.
* `Document.ofText?` reads a text that holds one document.

An anchor gets as its number how many different names have been used before it, so that a name that
is used again can share a number; a reference means the node that took its number last.
-/

namespace Intercept.Yaml

/-- A node of a document. -/
inductive Node
  | reference (anchor : Nat)
  | scalar (tag : Option Text) (style : Style) (text : Text)
  | sequence (items : List Node)
  | mapping (entries : List (Node × Node))

/-- What stands where nothing is written. -/
def Node.empty : Node := .scalar none .plain []

/-- A tree and its anchored nodes, in the order in which they start. -/
structure Document where
  root : Node
  anchored : Array (Nat × Node) := #[]

/-- The state of reading nodes. -/
structure NodeReader where
  tokens : List Token
  handles : Handles := []
  /-- The number that each name stands for. -/
  names : List (Text × Nat) := []
  /-- The anchored nodes; one that is not complete stands for itself. -/
  anchored : Array (Nat × Node) := #[]

namespace NodeReader

/-- An action on the tokens that are left; `none` when they are not in order. -/
abbrev Action := StateT NodeReader Option

/-- The next token. -/
def peek : Action (Option Token) := fun r => some (r.tokens.head?, r)

/-- Passes over the next token. -/
def advance : Action Unit := fun r => some ((), { r with tokens := r.tokens.drop 1 })

/-- Passes over the next token and gives the one behind it. -/
def advancePeek : Action (Option Token) := do advance; peek

/-- Whether the next token is the given one, which is then passed over. -/
def accept (t : Token) : Action Bool := do
  if (← peek) = some t then
    advance
    return true
  else return false

/-- Passes over the given token, which has to be next. -/
def require (t : Token) : Action Unit := do
  if !(← accept t) then failure

/-- Takes an anchor, if there is one. -/
def anchor? : Action (Option Text) := do
  match ← peek with
  | some (.anchor name) => advance; return some name
  | _ => return none

/-- Takes a tag, if there is one. -/
def tag? : Action (Option Tag) := do
  match ← peek with
  | some (.tag tag) => advance; return some tag
  | _ => return none

/-- Takes the anchor and the tag of a node, in either order. -/
def properties : Action (Option Text × Option Tag) := do
  match ← anchor? with
  | some name => return (some name, ← tag?)
  | none =>
    match ← tag? with
    | some tag => return (← anchor?, some tag)
    | none => return (none, none)

/-- Gives a starting node the number of its anchor: its place among the anchored nodes. -/
def openAnchor (name : Option Text) : Action (Option Nat) := fun r =>
  match name with
  | none => some (none, r)
  | some name =>
    let number := r.names.length
    some (some r.anchored.size, { r with
      names := (name, number) :: r.names.filter (·.1 ≠ name)
      anchored := r.anchored.push (number, .reference number) })

/-- Completes an anchored node. -/
def closeAnchor (place : Option Nat) (node : Node) : Action Node := fun r =>
  match place with
  | none => some (node, r)
  | some i => some (node, { r with anchored := r.anchored.modify i fun (n, _) => (n, node) })

/-- A reference to the node with an anchor. -/
def refer (name : Text) : Action Node := fun r => do
  return (.reference (← r.names.lookup name), r)

/-- The full text of a tag. -/
def expand (tag : Option Tag) : Action (Option Text) := fun r =>
  match tag with
  | none => some (none, r)
  | some tag => (r.handles.expand? tag).map fun t => (some t, r)

/-- Whether an entry of a block sequence is left empty. -/
def endsEntry : Option Token → Bool
  | some .blockEntry | some .blockEnd => true
  | _ => false

/-- Whether a key or value of a block mapping, or an entry of a sequence that shares its
indentation, is left empty. -/
def endsField : Option Token → Bool
  | some .key | some .value | some .blockEnd => true
  | _ => false

/-- Whether a value of a flow collection is left empty. -/
def endsFlow (close : Token) : Option Token → Bool
  | some .flowEntry => true
  | t => t = some close

/-- Takes the comma between two items of a flow collection and gives the token behind it. -/
def comma (isFirst : Bool) : Action (Option Token) := do
  if !isFirst then require .flowEntry
  peek

/-- A node that has nothing but its properties. -/
def bare (name : Option Text) (tag : Option Text) : Action Node :=
  if name.isSome || tag.isSome then pure (.scalar tag .plain []) else failure

mutual

/-- Reads a node. In a flow collection no block may follow; `shares` says whether a sequence may
have the indentation of the mapping around it. -/
def node (inBlock shares : Bool) : (fuel : Nat) → Action Node
  | 0 => failure
  | fuel + 1 => do
    if let some (.reference name) ← peek then
      advance
      return ← refer name
    let (name, tag) ← properties
    let tag ← expand tag
    let place ← openAnchor name
    let content ← match ← peek with
      | some (.scalar style text) => do
        advance
        pure (Node.scalar (if tag = some ['!'] then none else tag) style text)
      | some .flowSequence => do advance; pure (.sequence (← flowItems true fuel))
      | some .flowMapping => do advance; pure (.mapping (← flowFields true fuel))
      | some .blockEntry =>
        if shares then do pure (.sequence (← sharedItems fuel))
        else bare name tag
      | some .blockSequence =>
        if inBlock then do advance; pure (.sequence (← blockItems fuel)) else bare name tag
      | some .blockMapping =>
        if inBlock then do advance; pure (.mapping (← blockFields fuel)) else bare name tag
      | _ => bare name tag
    closeAnchor place content

/-- Reads the entries of a block sequence and its end. -/
def blockItems : (fuel : Nat) → Action (List Node)
  | 0 => failure
  | fuel + 1 => do
    if ← accept .blockEntry then
      let item ← if endsEntry (← peek) then pure .empty else node true false fuel
      return item :: (← blockItems fuel)
    require .blockEnd
    return []

/-- Reads the entries of a sequence that has the indentation of the mapping around it. -/
def sharedItems : (fuel : Nat) → Action (List Node)
  | 0 => failure
  | fuel + 1 => do
    if ← accept .blockEntry then
      let next ← peek
      let item ← if endsField next || endsEntry next then pure .empty else node true false fuel
      return item :: (← sharedItems fuel)
    return []

/-- Reads the keys and values of a block mapping and its end. -/
def blockFields : (fuel : Nat) → Action (List (Node × Node))
  | 0 => failure
  | fuel + 1 => do
    if ← accept .key then
      let key ← if endsField (← peek) then pure .empty else node true true fuel
      let value ←
        if !(← accept .value) then pure .empty
        else if endsField (← peek) then pure .empty
        else node true true fuel
      return (key, value) :: (← blockFields fuel)
    require .blockEnd
    return []

/-- Reads the items of a flow sequence and its end. An item may be a single pair. -/
def flowItems (isFirst : Bool) : (fuel : Nat) → Action (List Node)
  | 0 => failure
  | fuel + 1 => do
    if ← accept .flowSequenceEnd then return []
    let next ← comma isFirst
    if next = some .key then
      let pair ← flowPair fuel
      return .mapping [pair] :: (← flowItems false fuel)
    if ← accept .flowSequenceEnd then return []
    let item ← node false false fuel
    return item :: (← flowItems false fuel)

/-- Reads a pair within a flow sequence. Where no key is written the next token is passed over. -/
def flowPair : (fuel : Nat) → Action (Node × Node)
  | 0 => failure
  | fuel + 1 => do
    let next ← advancePeek
    let key ←
      if next = some .value || endsFlow .flowSequenceEnd next then do advance; pure .empty
      else node false false fuel
    let value ← flowValue .flowSequenceEnd fuel
    return (key, value)

/-- Reads a value within a flow collection, if there is one. -/
def flowValue (close : Token) : (fuel : Nat) → Action Node
  | 0 => failure
  | fuel + 1 => do
    if !(← accept .value) then return .empty
    if endsFlow close (← peek) then return .empty
    node false false fuel

/-- Reads the keys and values of a flow mapping and its end. -/
def flowFields (isFirst : Bool) : (fuel : Nat) → Action (List (Node × Node))
  | 0 => failure
  | fuel + 1 => do
    if ← accept .flowMappingEnd then return []
    let next ← comma isFirst
    if next = some .key then
      let next ← advancePeek
      let key ←
        if next = some .value || endsFlow .flowMappingEnd next then pure .empty
        else node false false fuel
      let value ← flowValue .flowMappingEnd fuel
      return (key, value) :: (← flowFields false fuel)
    if ← accept .flowMappingEnd then return []
    let key ← node false false fuel
    return (key, .empty) :: (← flowFields false fuel)

end

/-- Takes the directives in front of a document and says whether there are any; `versioned` says
whether a version has been declared. -/
def directives (versioned : Bool) : (fuel : Nat) → Action Bool
  | 0 => failure
  | fuel + 1 => do
    match ← peek with
    | some (.version major minor) =>
      if versioned || major ≠ 1 || (minor ≠ 1 && minor ≠ 2) then failure
      advance
      let _ ← directives true fuel
      return true
    | some (.handle handle meaning) =>
      let r ← get
      if (r.handles.lookup handle).isSome then failure
      set { r with tokens := r.tokens.drop 1, handles := (handle, meaning) :: r.handles }
      let _ ← directives versioned fuel
      return true
    | _ => return false

/-- Whether the content of a document that starts with a mark is left empty. -/
def endsDocument : Option Token → Bool
  | none | some .documentStart | some .documentEnd | some (.version ..) | some (.handle ..) => true
  | _ => false

/-- Passes over the marks that end a document. -/
def documentEnds : Action Unit := fun r =>
  some ((), { r with tokens := r.tokens.dropWhile (· = .documentEnd) })

/-- Reads the one document of a text. -/
def document : Action Document := do
  let fuel := 4 * (← get).tokens.length + 4
  if (← peek).isNone then return ⟨.empty, #[]⟩
  let declared ← directives false fuel
  let root ←
    if ← accept .documentStart then
      if endsDocument (← peek) then pure .empty else node true false fuel
    else if declared then failure
    else node true false fuel
  documentEnds
  if (← peek).isSome then failure
  return ⟨root, (← get).anchored⟩

end NodeReader

namespace Document

/-- Reads a text that holds one document or nothing. -/
def ofText? (t : Text) : Option Document := do
  let tokens ← Token.ofText? t
  (NodeReader.document.run' { tokens := tokens } : Option Document)

/-- The node that a reference stands for, and any other node itself. -/
def follow (d : Document) : Node → Node
  | .reference n => (d.anchored.toList.reverse.lookup n).getD .empty
  | node => node

end Document
end Intercept.Yaml
