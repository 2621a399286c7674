import Intercept.Text.Utf8

/-!
# The grammar of message heads

A head is a request line or a status line and then one line for each field, ended by an empty line.
Lines end in LF or CR LF, and empty lines before the first line are passed over. This is the grammar
of `httparse` 1.10 without any of its options (`Request::parse`, `Response::parse`).

* `Scan` is what scanning the front of a buffer comes to: done, more bytes needed, or not a head.
* `scanRequest` and `scanResponse` scan a head. They take at most `slots` fields and give the rest
  of the buffer.

A buffer is refused at the first byte that no continuation can mend, and only then.
-/

namespace Intercept.Http

/-- Why a buffer does not start a head. -/
inductive Flaw
  | token
  | newLine
  | version
  | status
  | fieldName
  | fieldValue
  | tooManyFields
deriving DecidableEq, Repr

/-- What scanning the front of a buffer comes to. -/
inductive Scan (α : Type)
  | done (value : α) (rest : Bytes)
  /-- The buffer ends inside the construct. -/
  | more
  | flawed (flaw : Flaw)
deriving DecidableEq, Repr

namespace Scan

variable {α β : Type}

/-- Scans one construct behind the other. -/
def andThen (s : Scan α) (f : α → Bytes → Scan β) : Scan β :=
  match s with
  | done a rest => f a rest
  | more => more
  | flawed e => flawed e

/-- What was scanned, changed. -/
def map (f : α → β) (s : Scan α) : Scan β := s.andThen fun a rest => done (f a) rest

end Scan

/-- Carriage return. -/
def cr : UInt8 := 13

/-- Line feed. -/
def lf : UInt8 := 10

/-- Space. -/
def sp : UInt8 := 32

/-- The bytes of an ASCII text. -/
def ascii (s : String) : Bytes := s.toList.map fun c => UInt8.ofNat c.toNat

/-- Whether a byte is an ASCII letter. -/
def isLetter (b : UInt8) : Bool := (65 ≤ b && b ≤ 90) || (97 ≤ b && b ≤ 122)

/-- Whether a byte is an ASCII digit. -/
def isDigit (b : UInt8) : Bool := 48 ≤ b && b ≤ 57

/-- Whether a byte may stand in a method or a field name. -/
def isToken (b : UInt8) : Bool :=
  isLetter b || isDigit b || (ascii "!#$%&'*+-.^_`|~").contains b

/-- Whether a byte may stand in a request target: all but controls and space. -/
def isTarget (b : UInt8) : Bool := 0x21 ≤ b && b ≠ 0x7F

/-- Whether a byte may stand in a field value or a reason phrase: all but controls, and the tab. -/
def isValue (b : UInt8) : Bool := b = 9 || (0x20 ≤ b && b ≠ 0x7F)

/-- Whether a byte is a space or a tab. -/
def isSpace (b : UInt8) : Bool := b = 32 || b = 9

/-- A field of a head: its name, and its value without the spaces around it. -/
structure Field where
  name : Bytes
  value : Bytes
deriving DecidableEq, Repr

/-- A request head. -/
structure RequestLines where
  method : Bytes
  target : Bytes
  /-- The second digit of the version. -/
  minor : Nat
  fields : List Field
deriving DecidableEq, Repr

/-- A response head. -/
structure ResponseLines where
  minor : Nat
  status : Nat
  fields : List Field
deriving DecidableEq, Repr

/-- The end of a line, LF or CR LF; anything else is the given flaw. -/
def scanLineEnd (flaw : Flaw) : Bytes → Scan Unit
  | [] => .more
  | c :: r =>
    if c = lf then .done () r
    else if c = cr then
      match r with
      | [] => .more
      | d :: r => if d = lf then .done () r else .flawed flaw
    else .flawed flaw

/-- Passes over empty lines. -/
def skipEmptyLines : Bytes → Scan Unit
  | [] => .more
  | c :: r =>
    if c = lf then skipEmptyLines r
    else if c = cr then
      match r with
      | [] => .more
      | d :: r => if d = lf then skipEmptyLines r else .flawed .newLine
    else .done () (c :: r)

/-- A non-empty run of bytes of one class and the byte `stop` behind it, which is dropped. -/
def scanRun (p : UInt8 → Bool) (stop : UInt8) (flaw : Flaw) (b : Bytes) : Scan Bytes :=
  match b.dropWhile p with
  | [] => .more
  | c :: r => if c = stop ∧ b.takeWhile p ≠ [] then .done (b.takeWhile p) r else .flawed flaw

/-- A request target and the space behind it; it must be UTF-8. -/
def scanTarget (b : Bytes) : Scan Bytes :=
  (scanRun isTarget sp .token b).andThen fun target rest =>
    if (Utf8.decode? target).isSome then .done target rest else .flawed .token

/-- The version, of which the second digit is kept. -/
def scanVersion (b : Bytes) : Scan Nat :=
  let word := b.take 8
  if word.length < 8 then
    if word.isPrefixOf (ascii "HTTP/1.") then .more else .flawed .version
  else if word = ascii "HTTP/1.0" then .done 0 (b.drop 8)
  else if word = ascii "HTTP/1.1" then .done 1 (b.drop 8)
  else .flawed .version

/-- A given byte. -/
def scanByte (x : UInt8) (flaw : Flaw) : Bytes → Scan Unit
  | [] => .more
  | c :: r => if c = x then .done () r else .flawed flaw

/-- A digit of the status. -/
def scanDigit : Bytes → Scan Nat
  | [] => .more
  | c :: r => if isDigit c then .done (c.toNat - 48) r else .flawed .status

/-- The three digits of a status. -/
def scanStatus (b : Bytes) : Scan Nat :=
  (scanDigit b).andThen fun h r =>
    (scanDigit r).andThen fun t r =>
      (scanDigit r).map fun o => h * 100 + t * 10 + o

/-- What stands behind the status: nothing, or a space and a reason phrase. -/
def scanReason (b : Bytes) : Scan Unit :=
  match b with
  | [] => .more
  | c :: r => if c = sp then scanLineEnd .status (r.dropWhile isValue) else scanLineEnd .status b

/-- A field value and the end of its line, without the spaces around it. -/
def scanValue (b : Bytes) : Scan Bytes :=
  let b := b.dropWhile isSpace
  let value := ((b.takeWhile isValue).reverse.dropWhile isSpace).reverse
  (scanLineEnd .fieldValue (b.dropWhile isValue)).map fun _ => value

/-- One field line. -/
def scanField (b : Bytes) : Scan Field :=
  (scanRun isToken 58 .fieldName b).andThen fun name r => (scanValue r).map fun value => ⟨name, value⟩

/-- The field lines up to the empty line, at most `slots` of them; `done` is kept in reverse. -/
def scanFields (slots : Nat) (done : List Field) (b : Bytes) : Scan (List Field) :=
  match b with
  | [] => .more
  | c :: r =>
    if c = lf ∨ c = cr then (scanLineEnd .newLine (c :: r)).map fun _ => done.reverse
    else match slots with
      | 0 => .flawed .tooManyFields
      | slots + 1 =>
        match scanField (c :: r) with
        | .done field r => scanFields slots (field :: done) r
        | .more => .more
        | .flawed e => .flawed e

/-- A request head. -/
def scanRequest (slots : Nat) (b : Bytes) : Scan RequestLines :=
  (skipEmptyLines b).andThen fun _ b =>
    (scanRun isToken sp .token b).andThen fun method b =>
      (scanTarget b).andThen fun target b =>
        (scanVersion b).andThen fun minor b =>
          (scanLineEnd .newLine b).andThen fun _ b =>
            (scanFields slots [] b).map fun fields => ⟨method, target, minor, fields⟩

/-- A response head. -/
def scanResponse (slots : Nat) (b : Bytes) : Scan ResponseLines :=
  (skipEmptyLines b).andThen fun _ b =>
    (scanVersion b).andThen fun minor b =>
      (scanByte sp .version b).andThen fun _ b =>
        (scanStatus b).andThen fun status b =>
          (scanReason b).andThen fun _ b =>
            (scanFields slots [] b).map fun fields => ⟨minor, status, fields⟩

/-- Room for as many fields as the buffer has lines, and for at least one (`header_slots`). -/
def fieldSlots (b : Bytes) : Nat := max 1 (b.count lf)

end Intercept.Http
