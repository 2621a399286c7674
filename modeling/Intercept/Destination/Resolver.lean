import Intercept.Destination.Command

/-!
# Where connections were headed

A resolver says where a redirected connection was headed, given its two ends.

* `Resolver.localAddress` serves set-ups in which the near end is the destination itself.
* `Resolver.stateTable` looks the client up in a table, `Resolver.command` in the table that a
  program prints. An IPv4-mapped client is looked up as the IPv4 client it is.
-/

namespace Intercept

/-- Where a connection with this peer and this near end was headed (`OriginalDst`). -/
abbrev Resolver := (peer near : Socket) → Except ResolveError Socket

namespace Resolver

/-- The near end of the connection is its destination (`LocalAddrResolver`). -/
def localAddress : Resolver := fun _ near => .ok near

/-- Every connection has the same destination. -/
def fixed (dst : Socket) : Resolver := fun _ _ => .ok dst

/-- The destination is in a table that is read anew for every connection (`PfStateResolver`). -/
def fromDump (dump : Except ResolveError Text) : Resolver := fun peer _ => do
  StateTable.lookup (← dump) peer.ip.canonical peer.port

/-- The destination is in the given table. -/
def stateTable (table : Text) : Resolver := fromDump (.ok table)

/-- The destination is in the table that a program prints (`CommandSource::new`); there is no such
resolver without a program. -/
def command (programs : Command.Programs) : List Text → Option Resolver
  | [] => none
  | program :: args => some (fromDump (Command.dump programs program args))

end Resolver
end Intercept
