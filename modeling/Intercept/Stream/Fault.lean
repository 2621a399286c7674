/-!
# Faults of the system

What reading, writing, dialing, running a program or opening a file can fail with (`io::Error`).

* `Fault.message` is the text under which a fault is reported.
-/

namespace Intercept

/-- The causes for which an operation on a connection, file or program fails. -/
inductive Fault
  /-- The peer reset the connection. -/
  | reset
  | aborted
  | refused
  /-- The peer takes no more bytes. -/
  | pipe
  | timedOut
  | unexpectedEnd
  | denied
  /-- A write took nothing of what it was offered. -/
  | wroteNothing
  /-- The stream ended inside a piece of fixed length. -/
  | endedEarly
  | noSuchFile
  | isDirectory
  /-- The system forbids the operation. -/
  | forbidden
  | unreachable
  | addressInUse
  | addressNotAvailable
  /-- A file is not UTF-8 text. -/
  | notText
  /-- A program argument holds a null character. -/
  | nullCharacter
  /-- A text is no address: it has no colon. -/
  | badAddress
  /-- The port of an address is no number below 65536. -/
  | badPort
  /-- A host name has no known address. -/
  | unknownHost
  /-- A text is not of the form of a socket address. -/
  | badSocket
deriving DecidableEq, Repr

namespace Fault

/-- The text of a fault. -/
def message : Fault → String
  | reset => "connection reset"
  | aborted => "connection aborted"
  | refused => "connection refused"
  | pipe => "broken pipe"
  | timedOut => "timed out"
  | unexpectedEnd => "unexpected end of file"
  | denied => "permission denied"
  | wroteNothing => "write zero"
  | endedEarly => "early eof"
  | noSuchFile => "No such file or directory (os error 2)"
  | isDirectory => "Is a directory (os error 21)"
  | forbidden => "Permission denied (os error 13)"
  | unreachable => "Network is unreachable (os error 101)"
  | addressInUse => "Address already in use (os error 98)"
  | addressNotAvailable => "Cannot assign requested address (os error 99)"
  | notText => "stream did not contain valid UTF-8"
  | nullCharacter => "nul byte found in provided data"
  | badAddress => "invalid socket address"
  | badPort => "invalid port value"
  | unknownHost => "failed to lookup address information: Temporary failure in name resolution"
  | badSocket => "invalid socket address syntax"

end Fault
end Intercept
