import Intercept.Tls.ClientHello

/-!
# The server name by position

The reader of `ClientHello.lean` once more, with a position in the bytes in place of the bytes that
are left. What could go wrong with a position is an outcome of its own: a byte or a slice outside of
its region, a sum that no machine word holds, and a loop that does not get on.

* `Halt`: the ways in which reading by position stops.
* `sum`, `difference`, `shifted`: arithmetic in a machine word.
* `byteAt`, `slice`: accesses that must lie inside their region.
* `byteOrEnd`, `numberOrEnd`: accesses that find the end of their region where they do not.
* `loop`: turns from position to position up to an end.
-/

namespace Intercept.Tls.Cursor

/-- How reading by position stops. -/
inductive Halt
  /-- The bytes are refused. -/
  | refused (e : Error)
  /-- A byte or a slice outside of its region. -/
  | outOfBounds
  /-- A number that no machine word holds. -/
  | overflow
  /-- A turn of a loop that leaves its position where it is, or moves it past the end. -/
  | adrift
deriving DecidableEq, Repr

/-- The greatest number in a machine word. No word is shorter than 32 bits. -/
def mostInWord : Nat := 4294967295

/-- A number in a machine word. -/
def word (n : Nat) : Except Halt Nat := if n ≤ mostInWord then .ok n else .error .overflow

/-- A sum in a machine word. -/
def sum (a b : Nat) : Except Halt Nat := word (a + b)

/-- A number shifted to the left in a machine word, without loss. -/
def shifted (a bits : Nat) : Except Halt Nat := word (a <<< bits)

/-- A difference in a machine word, which holds no negative number. -/
def difference (a b : Nat) : Except Halt Nat :=
  if b ≤ a then .ok (a - b) else .error .overflow

/-- The byte at a position. -/
def byteAt (region : Bytes) (pos : Nat) : Except Halt UInt8 :=
  match region[pos]? with
  | some b => .ok b
  | none => .error .outOfBounds

/-- The bytes between two positions, if they lie in the region. -/
def slice? (region : Bytes) (first past : Nat) : Option Bytes :=
  if first ≤ past ∧ past ≤ region.length then some ((region.take past).drop first) else none

/-- The bytes between two positions. -/
def slice (region : Bytes) (first past : Nat) : Except Halt Bytes :=
  match slice? region first past with
  | some bytes => .ok bytes
  | none => .error .outOfBounds

/-- The byte at a position that may lie behind the end. -/
def byteOrEnd (region : Bytes) (pos : Nat) : Except Halt UInt8 :=
  match region[pos]? with
  | some b => .ok b
  | none => .error (.refused .truncated)

/-- The number in the two bytes at a position that may lie behind the end (`read_u16`). -/
def numberOrEnd (region : Bytes) (pos : Nat) : Except Halt Nat := do
  match slice? region pos (← sum pos 2) with
  | some bytes => return number (← byteAt bytes 0) (← byteAt bytes 1)
  | none => .error (.refused .truncated)

/-- The position behind a field with its length in one byte. It may lie behind the end. -/
def past8 (region : Bytes) (pos : Nat) : Except Halt Nat := do
  let length ← byteOrEnd region pos
  sum pos (← sum 1 length.toNat)

/-- The position behind a field with its length in two bytes. It may lie behind the end. -/
def past16 (region : Bytes) (pos : Nat) : Except Halt Nat := do
  let length ← numberOrEnd region pos
  sum pos (← sum 2 length)

/-- What one turn of a loop comes to. -/
inductive Turn (α : Type)
  | answer (a : α)
  /-- The loop goes on from a position. -/
  | on (pos : Nat)

variable {α : Type}

/-- Turns from a position on. Each has to move it forward, and not past the end. -/
def loop (turn : Nat → Except Halt (Turn α)) (stop pos : Nat) : Except Halt α :=
  match turn pos with
  | .error h => .error h
  | .ok (.answer a) => .ok a
  | .ok (.on next) =>
    if pos < next ∧ next ≤ stop then loop turn stop next else .error .adrift
termination_by stop - pos

/-- A refusal for whatever reason as one for the name. -/
def asInvalidName : Except Halt α → Except Halt α
  | .error (.refused _) => .error (.refused .invalidName)
  | x => x

/-- A turn of the loop over the names in a server name extension. -/
def nameTurn (ext : Bytes) (stop pos : Nat) : Except Halt (Turn Text) := do
  if (← sum pos 3) ≤ stop then
    let type ← byteAt ext pos
    let length ← numberOrEnd ext (← sum pos 1)
    let first ← sum pos 3
    let past ← sum first length
    if stop < past then .error (.refused .invalidName)
    else if type = 0 then
      match Utf8.decode? (← slice ext first past) with
      | some name => return .answer name
      | none => .error (.refused .invalidName)
    else return .on past
  else .error (.refused .invalidName)

/-- The host name in a server name extension (`parse_server_name`). -/
def nameOfExtension (ext : Bytes) : Except Halt Text := do
  let length ← asInvalidName (numberOrEnd ext 0)
  let stop ← sum length 2
  if ext.length < stop then .error (.refused .invalidName)
  else loop (nameTurn ext stop) stop 2

/-- A turn of the loop over the extensions of a hello. -/
def extensionTurn (hello : Bytes) (stop pos : Nat) : Except Halt (Turn (Option Text)) := do
  if (← sum pos 4) ≤ stop then
    let type ← numberOrEnd hello pos
    let length ← numberOrEnd hello (← sum pos 2)
    let first ← sum pos 4
    let past ← sum first length
    if stop < past then .error (.refused .truncated)
    else if type = 0 then
      let name ← nameOfExtension (← slice hello first past)
      return .answer (some name)
    else return .on past
  else return .answer none

/-- The host name in the extensions of a hello, which stand at a position if there are any. -/
def nameFrom (hello : Bytes) (pos : Nat) : Except Halt (Option Text) :=
  if pos = hello.length then .ok none
  else do
    let length ← numberOrEnd hello pos
    let first ← sum pos 2
    let stop ← sum first length
    if hello.length < stop then .error (.refused .truncated)
    else loop (extensionTurn hello stop) stop first

/-- The host name in a ClientHello. -/
def nameOfHello (hello : Bytes) : Except Halt (Option Text) := do
  let pos ← past8 hello (← sum 2 32)
  let pos ← past16 hello pos
  let pos ← past8 hello pos
  nameFrom hello pos

/-- The host name in the body of a handshake record. -/
def nameOfHandshake (body : Bytes) : Except Halt (Option Text) := do
  if body.length < 4 then .error (.refused .truncated)
  else if (← byteAt body 0) ≠ clientHelloType then .error (.refused .notClientHello)
  else
    let high ← shifted (← byteAt body 1).toNat 16
    let middle ← shifted (← byteAt body 2).toNat 8
    let length := high ||| middle ||| (← byteAt body 3).toNat
    let stop ← sum 4 length
    if body.length < stop then
      -- how much there is of the message goes to the log
      let _available ← difference body.length 4
      .error (.refused .truncated)
    else nameOfHello (← slice body 4 stop)

/-- The server name in a handshake record (`extract_sni`). -/
def serverName? (record : Bytes) : Except Halt (Option Text) := do
  if record.length < headerLength then .error (.refused .truncated)
  else if (← byteAt record 0) ≠ handshakeType then .error (.refused .notHandshake)
  else
    let length := number (← byteAt record 3) (← byteAt record 4)
    let stop ← sum headerLength length
    if record.length < stop then .error (.refused .truncated)
    else nameOfHandshake (← slice record headerLength stop)

end Intercept.Tls.Cursor
