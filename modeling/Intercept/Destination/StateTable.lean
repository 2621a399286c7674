import Intercept.Net.Socket
import Intercept.Stream.Fault
import Intercept.Text.Blank

/-!
# The firewall's state table

A redirected connection has an entry in the firewall's state table: one line with the client's
address and, two fields on, the address the client asked for.

* `Entry` is such an entry, `Entry.fields` are the fields of its line, `tuple` is how an address and
  a port are printed: `addr:port` for IPv4, `addr[port]` for IPv6.
* `mentions` finds a tuple that stands between blanks, parentheses or the ends of the line.
* `lookup` takes the first established line that mentions the client and reads its fifth field.
-/

namespace Intercept

/-- Why it is not known where a connection was headed. -/
inductive ResolveError
  /-- No established entry has this client. -/
  | noMatch (client : Socket)
  /-- The program that prints the table could not be run. -/
  | command (fault : Fault)
  /-- The program failed: its exit status, or none when a signal ended it. -/
  | status (code : Option Int)
  /-- The client's entry has no readable destination. -/
  | malformed (entry : Text)
deriving DecidableEq, Repr

namespace ResolveError

/-- The text of the error. -/
def message : ResolveError → String
  | noMatch client =>
    "could not resolve original destination for " ++ String.ofList client.render
  | command fault => "state table query failed: " ++ fault.message
  | status (some code) => "state table query exited with status " ++ toString code
  | status none => "state table query terminated by signal"
  | malformed entry => "malformed state entry: " ++ String.ofList entry

end ResolveError

namespace StateTable

/-- The state pair of a connection that is up on both sides (`ESTABLISHED`). -/
def established : Text := "ESTABLISHED:ESTABLISHED".toList

/-- An address and port as the table prints them for IPv4. -/
def tupleV4 (addr : Ip) (port : UInt16) : Text :=
  addr.render ++ ':' :: Numeral.decimal port.toNat

/-- An address and port as the table prints them for IPv6. -/
def tupleV6 (addr : Ip) (port : UInt16) : Text :=
  addr.render ++ '[' :: Numeral.decimal port.toNat ++ [']']

/-- An address and port as the table prints them. -/
def tuple : Ip → UInt16 → Text
  | .v4 q, port => tupleV4 (.v4 q) port
  | .v6 s, port => tupleV6 (.v6 s) port

/-- One state: where a connection comes from, where it goes and the pair of state words. -/
structure Entry where
  tag : Text
  sourceAddr : Ip
  sourcePort : UInt16
  /-- Whether the source is printed in parentheses. -/
  wrapped : Bool := false
  targetAddr : Ip
  targetPort : UInt16
  state : Text

/-- The fields of an entry's line. -/
def Entry.fields (e : Entry) : List Text :=
  let source := tuple e.sourceAddr e.sourcePort
  ["ALL".toList, e.tag, if e.wrapped then '(' :: source ++ [')'] else source, "->".toList,
    tuple e.targetAddr e.targetPort, e.state]

/-- Whether a character may stand beside a tuple. -/
def isEdge (c : Char) : Bool := Text.isBlank c || c = '(' || c = ')'

/-- Whether the text is empty or starts with an edge. -/
def startsAtEdge : Text → Bool
  | [] => true
  | c :: _ => isEdge c

/-- Whether the tuple stands between edges in the text; `atEdge` says whether an edge comes
before it. -/
def mentionsFrom (tuple : Text) (atEdge : Bool) : Text → Bool
  | [] => false
  | c :: r =>
    (atEdge && (dropFront tuple (c :: r)).any startsAtEdge) || mentionsFrom tuple (isEdge c) r

/-- Whether the tuple stands between edges in the line (`contains_tuple`). -/
def mentions (tuple line : Text) : Bool := mentionsFrom tuple true line

/-- A port number, which may carry a plus sign. -/
def port? (t : Text) : Option UInt16 := (Numeral.read? 10 65536 t).map UInt16.ofNat

/-- Reads `addr:port` (`parse_v4_tuple`). -/
def targetV4? (field : Text) : Option Socket := do
  let [addr, port] := pieces (· = ':') field | none
  return ⟨← Ip.parse? addr, ← port? port, 0⟩

/-- Reads `addr[port]` (`parse_v6_tuple`). -/
def targetV6? (field : Text) : Option Socket := do
  let (addr, rest) ← cutFirst '[' field
  return ⟨← Ip.parse? addr, ← port? (← dropBack [']'] rest), 0⟩

/-- The field of a line that holds the destination (`DESTINATION_FIELD`). -/
def targetField (line : Text) : Option Text := (Text.words line)[4]?

/-- What an established line says about the client: nothing, its destination, or that the
destination cannot be read. -/
def destinationOn (addr : Ip) (port : UInt16) (line : Text) :
    Option (Except ResolveError Socket) :=
  let found : Option (Option Socket) :=
    if !holds established line then none
    else if mentions (tupleV4 addr port) line then some ((targetField line).bind targetV4?)
    else if mentions (tupleV6 addr port) line then some ((targetField line).bind targetV6?)
    else none
  found.map fun
    | some s => .ok s
    | none => .error (.malformed (Text.trim line))

/-- The destination on the first established line that mentions the client. -/
def lookup (table : Text) (addr : Ip) (port : UInt16) : Except ResolveError Socket :=
  ((lines table).findSome? (destinationOn addr port)).getD (.error (.noMatch ⟨addr, port, 0⟩))

end StateTable
end Intercept
