import Intercept.Net.Socket

/-!
# Targets

A target is the text that is dialed and checked against the bypass patterns: a host, a colon and a
port, with an IPv6 host in brackets.

* `split?` and `join` take a target apart and build one.
* `host` is the host part, or the text without brackets when it has no port.
* `ofHost` is the target of an HTTP host, `ofServerName` that of a TLS server name.
-/

namespace Intercept.Target

/-- The port of a host that names none (`DEFAULT_HTTP_PORT`). -/
def httpPort : Nat := 80

/-- The port of a server name when the place the connection was headed for has none
(`DEFAULT_TLS_PORT`). -/
def tlsPort : Nat := 443

/-- Host and port (`split_host_port`); `none` when there is no port, and for an IPv6 address without
brackets. -/
def split? (t : Text) : Option (Text × Text) :=
  match t with
  | '[' :: r => do
    let (host, tail) ← cutFirst ']' r
    let port ← dropFront [':'] tail
    if port.isEmpty then none else some (host, port)
  | _ => do
    let (host, port) ← cutLast ':' t
    if ':' ∈ host ∨ port.isEmpty then none else some (host, port)

/-- A host and a port as one target, with brackets around a host that has colons (`join_host_port`).
-/
def join (host : Text) (port : Nat) : Text :=
  if ':' ∈ host then '[' :: host ++ ']' :: ':' :: Numeral.decimal port
  else host ++ ':' :: Numeral.decimal port

/-- The host part, or the text without the brackets around it when it has no port (`strip_port`). -/
def host (t : Text) : Text :=
  match split? t with
  | some (host, _) => host
  | none => ((t.dropWhile (· = '[')).reverse.dropWhile (· = ']')).reverse

/-- The target of a host as a request names it (`http_target`). -/
def ofHost (h : Text) : Text := if (split? h).isSome then h else join (host h) httpPort

/-- The target of a server name, on the port that the connection was headed for (`tls_target`);
without a name the place it was headed for itself. -/
def ofServerName (name : Option Text) (dst : Option Socket) : Option Text :=
  match name.filter (!·.isEmpty) with
  | none => dst.map Socket.render
  | some n =>
    if (split? n).isSome then some n
    else
      let port := (dst.map (·.port.toNat)).filter (· ≠ 0)
      some (join n (port.getD tlsPort))

end Intercept.Target
