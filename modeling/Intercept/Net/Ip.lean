import Intercept.Text.Numeral

/-!
# IP addresses

An IPv4 address is four octets, an IPv6 address eight groups of sixteen bits.

* `Ipv4.read` and `Ipv6.read` take an address off the front of a text and give the rest; `parse?`
  wants the whole text.
* `render` is the canonical form: the longest run of two or more zero groups is written `::`, the
  first of equally long ones, and an IPv4-mapped address ends in its dotted form.
* `Ip.canonical` turns an IPv4-mapped IPv6 address into the IPv4 address it stands for.
-/

namespace Intercept

/-- The four octets of an IPv4 address. -/
structure Ipv4 where
  a : UInt8
  b : UInt8
  c : UInt8
  d : UInt8
deriving DecidableEq, Repr, Inhabited

/-- The eight groups of an IPv6 address. -/
structure Ipv6 where
  g0 : UInt16
  g1 : UInt16
  g2 : UInt16
  g3 : UInt16
  g4 : UInt16
  g5 : UInt16
  g6 : UInt16
  g7 : UInt16
deriving DecidableEq, Repr, Inhabited

/-- An address of either family. -/
inductive Ip
  | v4 (addr : Ipv4)
  | v6 (addr : Ipv6)
deriving DecidableEq, Repr, Inhabited

namespace Numeral

/-- Takes the digits off the front and gives their number and the rest: at least one digit, at
most `width` when that is given, no superfluous zero in front unless `zeros`, and below `limit`. -/
def take? (base limit : Nat) (width : Option Nat) (zeros : Bool) (t : Text) :
    Option (Nat × Text) :=
  let ds := t.takeWhile fun c => (digit? base c).isSome
  let n := ofDigits base (ds.filterMap (digit? base))
  if ds.isEmpty || width.any (· < ds.length) then none
  else if !zeros && ds.head? = some '0' && 1 < ds.length then none
  else if n < limit then some (n, t.drop ds.length)
  else none

end Numeral

/-- Takes one character off the front. -/
def takeChar? (c : Char) : Text → Option Text
  | x :: r => if x = c then some r else none
  | [] => none

namespace Ipv4

/-- One octet: one to three digits without a superfluous zero. -/
def octet? (t : Text) : Option (UInt8 × Text) :=
  (Numeral.take? 10 256 (some 3) false t).map fun (n, r) => (UInt8.ofNat n, r)

/-- Takes a dotted address off the front. -/
def read (t : Text) : Option (Ipv4 × Text) := do
  let (a, t) ← octet? t
  let (b, t) ← octet? (← takeChar? '.' t)
  let (c, t) ← octet? (← takeChar? '.' t)
  let (d, t) ← octet? (← takeChar? '.' t)
  return (⟨a, b, c, d⟩, t)

/-- Reads a whole text. -/
def parse? (t : Text) : Option Ipv4 :=
  match read t with
  | some (addr, []) => some addr
  | _ => none

/-- The octets in order. -/
def octets (addr : Ipv4) : List UInt8 := [addr.a, addr.b, addr.c, addr.d]

/-- The dotted form. -/
def render (addr : Ipv4) : Text :=
  ['.'].intercalate (addr.octets.map fun o => Numeral.decimal o.toNat)

end Ipv4

namespace Ipv6

/-- The address with the given groups; missing ones are zero. -/
def ofGroups (g : List UInt16) : Ipv6 :=
  ⟨g.getD 0 0, g.getD 1 0, g.getD 2 0, g.getD 3 0, g.getD 4 0, g.getD 5 0, g.getD 6 0, g.getD 7 0⟩

/-- The groups in order. -/
def groups (addr : Ipv6) : List UInt16 :=
  [addr.g0, addr.g1, addr.g2, addr.g3, addr.g4, addr.g5, addr.g6, addr.g7]

/-- Sixteen bits from two octets. -/
def join (hi lo : UInt8) : UInt16 := UInt16.ofNat (hi.toNat * 256 + lo.toNat)

/-- The separator before every group but the first. -/
def afterColon (first : Bool) (t : Text) : Option Text := if first then some t else takeChar? ':' t

/-- Takes up to `room` groups off the front. Where at least two fit, a dotted address counts as two
groups and ends the run; the flag says that this happened. -/
def readGroups (first : Bool) (t : Text) : (room : Nat) → List UInt16 × Bool × Text
  | 0 => ([], false, t)
  | room + 1 =>
    let dotted := if room = 0 then none else (afterColon first t).bind Ipv4.read
    match dotted with
    | some (q, r) => ([join q.a q.b, join q.c q.d], true, r)
    | none =>
      match (afterColon first t).bind (Numeral.take? 16 65536 (some 4) true) with
      | some (n, r) =>
        let (gs, dot, r) := readGroups false r room
        (UInt16.ofNat n :: gs, dot, r)
      | none => ([], false, t)

/-- Takes an address off the front: eight groups, or fewer around one `::`, which stands for at
least one group. -/
def read (t : Text) : Option (Ipv6 × Text) :=
  let (head, dotted, r) := readGroups true t 8
  if head.length = 8 then some (ofGroups head, r)
  else if dotted then none
  else match r with
    | ':' :: ':' :: r =>
      let (tail, _, r) := readGroups true r (8 - (head.length + 1))
      let zeros := List.replicate (8 - head.length - tail.length) 0
      some (ofGroups (head ++ zeros ++ tail), r)
    | _ => none

/-- Reads a whole text. -/
def parse? (t : Text) : Option Ipv6 :=
  match read t with
  | some (addr, []) => some addr
  | _ => none

/-- The IPv4 address that an IPv4-mapped address stands for. -/
def mapped? (addr : Ipv6) : Option Ipv4 :=
  if addr.g0 = 0 ∧ addr.g1 = 0 ∧ addr.g2 = 0 ∧ addr.g3 = 0 ∧ addr.g4 = 0 ∧ addr.g5 = 0xFFFF then
    some ⟨UInt8.ofNat (addr.g6.toNat / 256), UInt8.ofNat addr.g6.toNat,
      UInt8.ofNat (addr.g7.toNat / 256), UInt8.ofNat addr.g7.toNat⟩
  else none

/-- The IPv4-mapped address of an IPv4 address. -/
def ofIpv4 (q : Ipv4) : Ipv6 := ⟨0, 0, 0, 0, 0, 0xFFFF, join q.a q.b, join q.c q.d⟩

/-- Start and length of the longest run of zero groups, the first of equally long ones. -/
def longestZeros (at0 : Nat) (best : Nat × Nat) (run : Nat × Nat) : List UInt16 → Nat × Nat
  | [] => best
  | g :: r =>
    if g = 0 then
      let run := if run.2 = 0 then (at0, 1) else (run.1, run.2 + 1)
      longestZeros (at0 + 1) (if best.2 < run.2 then run else best) run r
    else longestZeros (at0 + 1) best (0, 0) r

/-- Groups in hexadecimal with colons between them. -/
def renderGroups (gs : List UInt16) : Text :=
  [':'].intercalate (gs.map fun g => Numeral.hex g.toNat)

/-- The canonical form. -/
def render (addr : Ipv6) : Text :=
  match addr.mapped? with
  | some q => "::ffff:".toList ++ q.render
  | none =>
    let (start, len) := longestZeros 0 (0, 0) (0, 0) addr.groups
    if 1 < len then
      renderGroups (addr.groups.take start) ++ [':', ':'] ++
        renderGroups (addr.groups.drop (start + len))
    else renderGroups addr.groups

end Ipv6

namespace Ip

/-- Takes an address of either family off the front. -/
def read (t : Text) : Option (Ip × Text) :=
  match Ipv4.read t with
  | some (q, r) => some (.v4 q, r)
  | none => (Ipv6.read t).map fun (s, r) => (.v6 s, r)

/-- Reads a whole text. -/
def parse? (t : Text) : Option Ip :=
  match read t with
  | some (addr, []) => some addr
  | _ => none

/-- The printed address. -/
def render : Ip → Text
  | v4 q => q.render
  | v6 s => s.render

/-- An IPv4-mapped address as the IPv4 address it stands for. -/
def canonical : Ip → Ip
  | v4 q => v4 q
  | v6 s => match s.mapped? with
    | some q => v4 q
    | none => v6 s

end Ip
end Intercept
