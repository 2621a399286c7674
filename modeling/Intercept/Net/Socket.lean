import Intercept.Net.Ip

/-!
# Socket addresses

An IP address with a port; an IPv6 address may carry a scope.

* `parse?` reads `1.2.3.4:80`, `[::1]:80` and `[fe80::1%3]:80`.
* `render` prints the same forms; a scope of zero is left out.
-/

namespace Intercept

/-- An address to which a connection is made or from which it comes. -/
structure Socket where
  ip : Ip
  port : UInt16
  /-- The zone of an IPv6 address; zero when there is none. -/
  scope : UInt32 := 0
deriving DecidableEq, Repr, Inhabited

namespace Socket

/-- A port after its colon. -/
def readPort (t : Text) : Option (UInt16 × Text) := do
  let (n, r) ← Numeral.take? 10 65536 none true (← takeChar? ':' t)
  return (UInt16.ofNat n, r)

/-- A scope after its percent sign, if there is one. -/
def readScope (t : Text) : UInt32 × Text :=
  match (takeChar? '%' t).bind (Numeral.take? 10 UInt32.size none true) with
  | some (n, r) => (UInt32.ofNat n, r)
  | none => (0, t)

/-- An IPv6 address in brackets and its port. -/
def readV6 (t : Text) : Option (Socket × Text) := do
  let (addr, t) ← Ipv6.read (← takeChar? '[' t)
  let (scope, t) := readScope t
  let (port, t) ← readPort (← takeChar? ']' t)
  return (⟨.v6 addr, port, scope⟩, t)

/-- An IPv4 address and its port. -/
def readV4 (t : Text) : Option (Socket × Text) := do
  let (addr, t) ← Ipv4.read t
  let (port, t) ← readPort t
  return (⟨.v4 addr, port, 0⟩, t)

/-- Reads a whole text. -/
def parse? (t : Text) : Option Socket :=
  match (readV4 t).orElse fun _ => readV6 t with
  | some (addr, []) => some addr
  | _ => none

/-- The IP address with its scope, as it is printed between the brackets. -/
def renderHost (s : Socket) : Text :=
  match s.ip with
  | .v4 q => q.render
  | .v6 g => if s.scope = 0 then g.render else g.render ++ '%' :: Numeral.decimal s.scope.toNat

/-- The printed address. -/
def render (s : Socket) : Text :=
  let host := match s.ip with
    | .v4 _ => s.renderHost
    | .v6 _ => '[' :: s.renderHost ++ [']']
  host ++ ':' :: Numeral.decimal s.port.toNat

/-- The address with an IPv4-mapped IP address as the IPv4 address it stands for. -/
def canonical (s : Socket) : Socket :=
  match s.ip with
  | .v4 _ => s
  | .v6 g => match g.mapped? with
    | some q => ⟨.v4 q, s.port, 0⟩
    | none => s

end Socket
end Intercept
