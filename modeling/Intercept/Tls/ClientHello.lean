import Intercept.Stream.Fault
import Intercept.Text.Utf8

/-!
# The server name of a ClientHello

A TLS connection starts with a handshake record that carries a ClientHello, and the hello may name
the server in an extension.

* `isHandshake` recognises the start of such a record.
* `serverName?` reads a record: the name, or nothing when the hello has none.

Everything is nested in length-prefixed fields. `byte?`, `vector8?` and `vector16?` take one off
the front of the bytes and give the rest; they fail when the bytes end first.
-/

namespace Intercept.Tls

/-- Why a record could not be read or names no server (`SniError`). -/
inductive Error
  | io (fault : Fault)
  | notHandshake
  | notClientHello
  | recordTooLarge (length : Nat)
  | invalidName
  | truncated
deriving DecidableEq, Repr

/-- The text of an error. -/
def Error.message : Error → String
  | io fault => "Failed to read TLS record: " ++ fault.message
  | notHandshake => "Not a TLS handshake record"
  | notClientHello => "Invalid ClientHello"
  | recordTooLarge n => "TLS record too large: " ++ toString n ++ " bytes"
  | invalidName => "Invalid SNI format"
  | truncated => "ClientHello truncated"

/-- The content type of a handshake record. -/
def handshakeType : UInt8 := 0x16

/-- The handshake type of a ClientHello. -/
def clientHelloType : UInt8 := 0x01

/-- The length of a record header: type, version and body length. -/
def headerLength : Nat := 5

/-- The most that a record body may hold (`MAX_RECORD_LEN`). -/
def mostInRecord : Nat := 16384

/-- Whether bytes start a handshake record with the version that clients put on their first one
(`is_handshake_header`). -/
def isHandshake : Bytes → Bool
  | a :: b :: c :: _ => a = handshakeType && b = 0x03 && c = 0x01
  | _ => false

/-- A number from its two bytes, the high one first. -/
def number (hi lo : UInt8) : Nat := hi.toNat * 256 + lo.toNat

/-- The next byte. -/
def byte? : Bytes → Option (UInt8 × Bytes)
  | [] => none
  | b :: r => some (b, r)

/-- The next two bytes as a number. -/
def number? : Bytes → Option (Nat × Bytes)
  | hi :: lo :: r => some (number hi lo, r)
  | _ => none

/-- The next `n` bytes. -/
def split? (n : Nat) (b : Bytes) : Option (Bytes × Bytes) :=
  if n ≤ b.length then some (b.take n, b.drop n) else none

/-- A field behind its length in one byte. -/
def vector8? (b : Bytes) : Option (Bytes × Bytes) := do
  let (n, r) ← byte? b
  split? n.toNat r

/-- A field behind its length in two bytes. -/
def vector16? (b : Bytes) : Option (Bytes × Bytes) := do
  let (n, r) ← number? b
  split? n r

theorem split?_eq_some {n : Nat} {b x r : Bytes} :
    split? n b = some (x, r) ↔ b = x ++ r ∧ x.length = n := by
  unfold split?
  constructor
  · intro h
    split at h <;> simp only [Option.some.injEq, Prod.mk.injEq, reduceCtorEq] at h
    obtain ⟨rfl, rfl⟩ := h
    exact ⟨(List.take_append_drop n b).symm, by simp; omega⟩
  · rintro ⟨rfl, rfl⟩
    simp

theorem number?_length {b r : Bytes} {n : Nat} (h : number? b = some (n, r)) :
    b.length = r.length + 2 := by
  match b with
  | [] => simp [number?] at h
  | [_] => simp [number?] at h
  | _ :: _ :: _ =>
    simp only [number?, Option.some.injEq, Prod.mk.injEq] at h
    obtain ⟨_, rfl⟩ := h
    simp

theorem vector16?_length {b x r : Bytes} (h : vector16? b = some (x, r)) :
    b.length = x.length + r.length + 2 := by
  simp only [vector16?, Option.bind_eq_bind, Option.bind_eq_some_iff] at h
  obtain ⟨⟨n, r'⟩, hn, hs⟩ := h
  obtain ⟨rfl, rfl⟩ := split?_eq_some.1 hs
  rw [number?_length hn]
  simp

/-- The first host name in a list of names (`parse_server_name`); names of other types are passed
over. -/
def hostName? (names : Bytes) : Option Bytes :=
  match names with
  | [] => none
  | type :: r =>
    match _h : vector16? r with
    | none => none
    | some (name, r) => if type = 0 then some name else hostName? r
termination_by names.length
decreasing_by have := vector16?_length _h; simp; omega

/-- The host name in a server name extension (`parse_server_name`). Bytes behind the name list are
ignored. -/
def nameOfExtension (ext : Bytes) : Except Error Text :=
  match (vector16? ext).bind fun (names, _) => (hostName? names).bind Utf8.decode? with
  | some name => .ok name
  | none => .error .invalidName

/-- The host name of the first server name extension; fewer than four bytes at the end of the
block are ignored. -/
def nameOfExtensions (block : Bytes) : Except Error (Option Text) :=
  match block with
  | t0 :: t1 :: l0 :: l1 :: r =>
    match _h : split? (number l0 l1) r with
    | none => .error .truncated
    | some (ext, r) =>
      if number t0 t1 = 0 then (nameOfExtension ext).map some else nameOfExtensions r
  | _ => .ok none
termination_by block.length
decreasing_by
  have := congrArg List.length (split?_eq_some.1 _h).1
  simp at this ⊢
  omega

/-- The host name in a ClientHello: version and random, then session, cipher suites and
compression methods, and then the extensions if there are any. -/
def nameOfHello (hello : Bytes) : Except Error (Option Text) :=
  let rest := do
    let (_, r) ← split? 34 hello
    let (_, r) ← vector8? r
    let (_, r) ← vector16? r
    let (_, r) ← vector8? r
    return r
  match rest with
  | none => .error .truncated
  | some [] => .ok none
  | some r =>
    match vector16? r with
    | none => .error .truncated
    | some (block, _) => nameOfExtensions block

/-- The host name in the body of a handshake record. -/
def nameOfHandshake (body : Bytes) : Except Error (Option Text) :=
  match body with
  | type :: a :: b :: c :: r =>
    if type ≠ clientHelloType then .error .notClientHello
    else match split? (a.toNat * 65536 + number b c) r with
      | none => .error .truncated
      | some (hello, _) => nameOfHello hello
  | _ => .error .truncated

/-- The server name in a handshake record (`extract_sni`); bytes behind the record are ignored. -/
def serverName? (record : Bytes) : Except Error (Option Text) :=
  match record with
  | type :: _ :: _ :: hi :: lo :: r =>
    if type ≠ handshakeType then .error .notHandshake
    else match split? (number hi lo) r with
      | none => .error .truncated
      | some (body, _) => nameOfHandshake body
  | _ => .error .truncated

end Intercept.Tls
