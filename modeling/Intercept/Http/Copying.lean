import Intercept.Http.Reader
import Intercept.Stream.Sink

/-!
# Copying bodies

A body goes from a reader to a sink byte for byte, framing included.

* `Copying.exact`, `Copying.line` and `Copying.toEnd` copy a counted piece, one line, and the rest.
* `Copying.chunked` copies chunks up to the last one and its trailers.
* `Copying.body` copies one body of a given framing.

Results:
* `exact_bytes`, `line_bytes`: what a finished step passes on is what it takes off the reader.
-/

namespace Intercept.Http

/-- The most that is buffered in search of the end of a framing line (`MAX_CHUNK_LINE`). -/
def mostInLine : Nat := 4096

/-- A reader whose bytes go to a sink, with what the sink took so far and when, the last first. -/
structure Copying where
  reader : Reader
  sink : Sink
  taken : List Taken := []

/-- A copying step that ended: what came of it and where it left the copying. -/
structure Copied (α : Type) where
  result : Except (Stop Error) α
  state : Copying

namespace Copying

/-- All that the sink took. -/
def written (c : Copying) : Bytes := Taken.all c.taken.reverse

/-- The same copying with another state of its reader. -/
def resume (r : Reader) (c : Copying) : Copying := { c with reader := r }

/-- Offers bytes to the sink. -/
def put (bytes : Bytes) (c : Copying) : Copied Unit :=
  let w := c.sink.writeAll bytes
  { result := match w.fault with
      | none => .ok ()
      | some f => .error (.failed (.io f))
    state := { c with
      sink := w.sink
      taken := if w.taken.isEmpty then c.taken else ⟨c.reader.now, w.taken⟩ :: c.taken } }

/-- Copies exactly `n` bytes (`HttpReader::copy_exact`). -/
def exact (limit n : Nat) (c : Copying) : Copied Unit :=
  let done := c.put (c.reader.buffer.take n)
  match done.result with
  | .error s => ⟨.error s, done.state⟩
  | .ok _ =>
    let left := n - c.reader.buffer.length
    let reader := c.reader.skip n
    if left = 0 then ⟨.ok (), done.state.resume reader⟩
    else match _h : reader.fill limit with
      | .more r => exact limit left (done.state.resume r)
      | .ended r => ⟨.error (.failed (.io .unexpectedEnd)), done.state.resume r⟩
      | .stopped s r => ⟨.error s, done.state.resume r⟩
termination_by c.reader.stream.weight
decreasing_by
  have := Reader.fill_weight _h
  exact this

/-- Copies one line, its line feed included, and gives it (`HttpReader::copy_line`). -/
def line (limit : Nat) (c : Copying) : Copied Bytes :=
  match cutFirst lf c.reader.buffer with
  | some (front, _) =>
    let line := front ++ [lf]
    let done := (c.resume (c.reader.skip line.length)).put line
    ⟨done.result.map fun _ => line, done.state⟩
  | none =>
    if mostInLine < c.reader.buffer.length then ⟨.error (.failed .invalidRequest), c⟩
    else match _h : c.reader.fill limit with
      | .more r => line limit (c.resume r)
      | .ended r => ⟨.error (.failed (.io .unexpectedEnd)), c.resume r⟩
      | .stopped s r => ⟨.error s, c.resume r⟩
termination_by c.reader.stream.weight
decreasing_by
  have := Reader.fill_weight _h
  exact this

/-- A finished copy of `n` bytes takes that many off the reader. -/
theorem exact_bytes {limit n : Nat} {c : Copying} {u : Unit}
    (h : (c.exact limit n).result = .ok u) :
    (c.exact limit n).state.reader.bytes = c.reader.bytes.drop n ∧ n ≤ c.reader.bytes.length := by
  fun_induction exact limit n c with
  | case1 => simp at h
  | case2 n c done _ _ left reader hl =>
    have hle : n ≤ c.reader.buffer.length := by omega
    simp only [resume, reader, Reader.bytes, Reader.skip, List.length_append]
    rw [List.drop_append_of_le_length hle]
    exact ⟨rfl, by omega⟩
  | case3 n c done _ _ left reader hl r hr ih =>
    obtain ⟨h1, h2⟩ := ih h
    have hb : (done.state.resume r).reader.bytes =
        c.reader.buffer.drop n ++ c.reader.stream.bytes := Reader.bytes_of_fill hr
    have hd : c.reader.buffer.drop n = [] := List.drop_eq_nil_of_le (by omega)
    rw [hb, hd, List.nil_append] at h1 h2
    rw [h1]
    simp only [Reader.bytes, List.length_append, List.drop_append, hd, List.nil_append]
    exact ⟨rfl, by omega⟩
  | case4 => simp at h
  | case5 => simp at h

/-- A finished copy of a line takes that line off the reader; it ends in a line feed. -/
theorem line_bytes {limit : Nat} {c : Copying} {l : Bytes}
    (h : (c.line limit).result = .ok l) :
    l ++ (c.line limit).state.reader.bytes = c.reader.bytes ∧ ∃ front, l = front ++ [lf] := by
  fun_induction line limit c with
  | case1 c front rest hc line' done =>
    have hl : line' = l := by
      cases hr : done.result <;> simp_all [Except.map]
    subst hl
    refine ⟨?_, front, rfl⟩
    have := (cutFirst_eq_some.1 hc).1
    simp [Reader.bytes, this, line', done, put, resume, Reader.skip]
  | case2 => simp at h
  | case3 c hc hl r hr ih =>
    obtain ⟨h1, h2⟩ := ih h
    exact ⟨h1.trans (Reader.bytes_of_fill hr), h2⟩
  | case4 => simp at h
  | case5 => simp at h

/-- What is left after a line is shorter. -/
theorem length_of_line {limit : Nat} {c : Copying} {l : Bytes}
    (h : (c.line limit).result = .ok l) :
    (c.line limit).state.reader.bytes.length < c.reader.bytes.length := by
  obtain ⟨hb, front, rfl⟩ := line_bytes h
  rw [← hb]
  simp
  omega

/-- What is left after a counted piece is no longer. -/
theorem length_of_exact {limit n : Nat} {c : Copying} {u : Unit}
    (h : (c.exact limit n).result = .ok u) :
    (c.exact limit n).state.reader.bytes.length ≤ c.reader.bytes.length := by
  rw [(exact_bytes h).1]
  simp

/-- Copies trailer lines up to and with the empty one. -/
def trailers (limit : Nat) (c : Copying) : Copied Unit :=
  match _h : (c.line limit).result with
  | .error s => ⟨.error s, (c.line limit).state⟩
  | .ok l =>
    if l = [cr, lf] ∨ l = [lf] then ⟨.ok (), (c.line limit).state⟩
    else trailers limit (c.line limit).state
termination_by c.reader.bytes.length
decreasing_by exact length_of_line _h

/-- Copies chunks up to the one of size zero, and the trailers behind it
(`HttpReader::copy_chunked`). -/
def chunked (limit : Nat) (c : Copying) : Copied Unit :=
  let sizeLine := c.line limit
  match _h1 : sizeLine.result with
  | .error s => ⟨.error s, sizeLine.state⟩
  | .ok l =>
    match chunkSize? l with
    | none => ⟨.error (.failed .invalidRequest), sizeLine.state⟩
    | some 0 => sizeLine.state.trailers limit
    | some n =>
      let data := sizeLine.state.exact limit n
      match _h2 : data.result with
      | .error s => ⟨.error s, data.state⟩
      | .ok _ =>
        let ending := data.state.line limit
        match _h3 : ending.result with
        | .error s => ⟨.error s, ending.state⟩
        | .ok _ => chunked limit ending.state
termination_by c.reader.bytes.length
decreasing_by
  have h1 := length_of_line _h1
  have h2 := length_of_exact _h2
  have h3 := length_of_line _h3
  simp only [sizeLine, data] at h1 h2 h3 ⊢
  omega

/-- Copies all that comes before the end of the stream (`HttpReader::copy_to_end`). -/
def toEnd (limit : Nat) (c : Copying) : Copied Unit :=
  let done := c.put c.reader.buffer
  match done.result with
  | .error s => ⟨.error s, done.state⟩
  | .ok _ =>
    match _h : (c.reader.skip c.reader.buffer.length).fill limit with
    | .more r => toEnd limit (done.state.resume r)
    | .ended r => ⟨.ok (), done.state.resume r⟩
    | .stopped s r => ⟨.error s, done.state.resume r⟩
termination_by c.reader.stream.weight
decreasing_by
  have := Reader.fill_weight _h
  exact this

/-- Copies one body of the given framing (`HttpReader::copy_body`). -/
def body (limit : Nat) (framing : Framing) (c : Copying) : Copied Unit :=
  match framing with
  | .empty => ⟨.ok (), c⟩
  | .length n => c.exact limit n
  | .chunked => c.chunked limit
  | .untilClose => c.toEnd limit

end Copying
end Intercept.Http
