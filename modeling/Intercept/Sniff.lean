import Intercept.Http.Head
import Intercept.Stream.Gather
import Intercept.Tls.ClientHello

/-!
# Telling protocols apart

The first bytes that a client sends show whether it speaks TLS or HTTP. They are read, looked at and
put back.

* `Protocol` is the answer; whatever is neither TLS nor HTTP is blind traffic, relayed unread.
* `probe` reads on until the bytes are a request head or cannot become one.
* `sniff` looks for a TLS record header first, then for a request head.

Results:
* `sniff_bytes`: sniffing leaves all bytes to be read again.
-/

namespace Intercept

/-- What a client speaks (`Sniffed`). -/
inductive Protocol
  | tls
  | http
  /-- Neither of the two. -/
  | blind
deriving DecidableEq, Repr

/-- The word under which a protocol is counted and reported (`Sniffed::as_str`). -/
def Protocol.label : Protocol → String
  | tls => "tls"
  | http => "http"
  | blind => "opaque"

/-- How much a probe asks for at once (`READ_CHUNK`). -/
def probeSize : Nat := 4096

/-- What sniffing came to. -/
structure Sniffed where
  protocol : Protocol
  /-- The bytes that were looked at. -/
  seen : Bytes
  time : Nat
  /-- What comes behind the bytes that were looked at. -/
  rest : Replay
  /-- Whether the deadline passed while more was needed. -/
  timedOut : Bool := false

namespace Sniffed

/-- The stream with the bytes that were looked at put back. -/
def stream (s : Sniffed) : Replay := s.rest.putBack s.seen

end Sniffed

/-- Reads on until the bytes are a request head or cannot become one (`probe_http`). -/
def probe (deadline : Nat) (seen : Bytes) (now : Nat) (r : Replay) : Sniffed :=
  match Http.scanRequest (Http.fieldSlots seen) seen with
  | .done .. => ⟨.http, seen, now, r, false⟩
  | .flawed _ => ⟨.blind, seen, now, r, false⟩
  | .more =>
    if Http.mostInHead ≤ seen.length then ⟨.blind, seen, now, r, false⟩
    else match _h : r.readBy deadline now probeSize with
      | none => ⟨.blind, seen, max now deadline, r, true⟩
      | some ⟨time, .bytes (b :: bs), rest⟩ => probe deadline (seen ++ b :: bs) time rest
      | some ⟨time, .bytes [], rest⟩ => ⟨.blind, seen, time, rest, false⟩
      | some ⟨time, .ended, rest⟩ => ⟨.blind, seen, time, rest, false⟩
      | some ⟨time, .fault _, rest⟩ => ⟨.blind, seen, time, rest, false⟩
termination_by r.weight
decreasing_by
  have := Replay.weight_of_read (Replay.read_of_readBy _h)
  simp only [Delivery.advances, List.isEmpty_cons, Bool.not_false, if_true] at this
  omega

/-- Tells what a stream speaks, reading no longer than until the deadline. -/
def sniff (deadline now : Nat) (r : Replay) : Sniffed :=
  let head := r.gather deadline Tls.headerLength [] now
  if head.short = none ∧ Tls.isHandshake head.bytes then
    ⟨.tls, head.bytes, head.time, head.rest, false⟩
  else
    let probed := probe deadline head.bytes head.time head.rest
    { probed with timedOut := probed.timedOut || head.short = some .expired }

theorem probe_bytes (deadline : Nat) (seen : Bytes) (now : Nat) (r : Replay) :
    (probe deadline seen now r).seen ++ (probe deadline seen now r).rest.bytes =
      seen ++ r.bytes := by
  fun_induction probe deadline seen now r with
  | case1 => rfl
  | case2 => rfl
  | case3 => rfl
  | case4 => rfl
  | case5 seen now r _ _ time b bs rest h ih =>
    have := Replay.bytes_of_read (Replay.read_of_readBy h)
    rw [ih, ← this]
    simp
  | case6 seen now r _ _ time rest h =>
    have := Replay.bytes_of_read (Replay.read_of_readBy h)
    simp_all
  | case7 seen now r _ _ time rest h =>
    have := Replay.bytes_of_read (Replay.read_of_readBy h)
    simp_all
  | case8 seen now r _ _ time _ rest h =>
    have := Replay.bytes_of_read (Replay.read_of_readBy h)
    simp_all

/-- Sniffing leaves all bytes to be read again. -/
theorem sniff_bytes (deadline now : Nat) (r : Replay) :
    (sniff deadline now r).stream.bytes = r.bytes := by
  have hg := Replay.gather_bytes deadline Tls.headerLength [] now r
  have : (sniff deadline now r).seen ++ (sniff deadline now r).rest.bytes = r.bytes := by
    unfold sniff
    simp only
    split
    · exact hg
    · exact (probe_bytes ..).trans hg
  rw [Sniffed.stream, Replay.bytes_putBack, this]

end Intercept
