import Intercept.Proofs.Http.Completion
import Intercept.Proofs.Text.Utf8

/-!
# Chunked bodies that were written are copied

A chunked body from the side of the one who writes it. The data of a chunk is any bytes, so that it
may look like lines, sizes or the end of the body; its size may be spelled in several ways, have an
extension, and each line may end in its own way. Copying takes none of that for anything else: it
passes on the body as it was written and stops right behind it.

* `Sent.Ending`, `Sent.Size n`, `Sent.Chunk`, `Sent.Trailer`, `Sent.Body`: what is written. Each
  holds only what may be written.
* `Sent.Body.encode`: the bytes of a body.

Results:
* `Sent.Size.sizeLine`, `Sent.Size.text`: what is written for a size is a size line of the grammar,
  and text.
* `Sent.Body.legible`: what is written for a body is a body that is copied.
* `sent_body_copied`: copying passes on just these bytes and leaves what stands behind them.
-/

namespace Intercept.Http

open Text Numeral

namespace Sent

/-- How a line ends. -/
inductive Ending
  | bare
  | pair
deriving DecidableEq, Repr

def Ending.bytes : Ending → Bytes
  | bare => [lf]
  | pair => [cr, lf]

theorem Ending.lineEnd : ∀ e : Ending, LineEnd e.bytes
  | bare => .bare
  | pair => .pair

/-- What stands behind a size: any text on one line. -/
structure Extension where
  bytes : Bytes
  text : (Utf8.decode? bytes).isSome
  oneLine : lf ∉ bytes

/-- A line that gives a size: hexadecimal digits of either case and perhaps with zeros in front, and
perhaps an extension behind a semicolon. -/
structure Size (n : Nat) where
  digits : Bytes
  denotes : Denotes 16 (Utf8.asciiText digits) n
  extension : Option Extension := none
  ending : Ending

def Size.line {n : Nat} (s : Size n) : Bytes :=
  match s.extension with
  | none => s.digits ++ s.ending.bytes
  | some e => s.digits ++ 59 :: e.bytes ++ s.ending.bytes

/-- A chunk with any data. Its size is a number of 64 bits. -/
structure Chunk where
  data : Bytes
  some : data ≠ []
  countable : data.length < UInt64.size
  size : Size data.length
  ending : Ending

/-- A trailer line: any bytes that are not taken for the end of a line. -/
structure Trailer where
  bytes : Bytes
  oneLine : lf ∉ bytes
  notEmpty : bytes ≠ []
  notReturn : bytes ≠ [cr]
  ending : Ending

def Trailer.line (t : Trailer) : Bytes := t.bytes ++ t.ending.bytes

/-- A chunked body. -/
structure Body where
  chunks : List Chunk
  last : Size 0
  trailers : List Trailer := []
  ending : Ending

/-- The body in the parts of the grammar. -/
def Body.parts (b : Body) : ChunkedBody where
  chunks := b.chunks.map fun c => ⟨c.size.line, c.data, c.ending.bytes⟩
  last := b.last.line
  trailers := b.trailers.map Trailer.line
  eol := b.ending.bytes

/-- The bytes of the body. -/
def Body.encode (b : Body) : Bytes := b.parts.bytes

/-- The lines of the body: those that give a size, those behind data and the trailers. -/
def Body.lines (b : Body) : List Bytes := b.parts.lines

/-! ## What is written is read -/

namespace Size

variable {n : Nat}

/-- What is written for a size is a size line of the grammar. -/
theorem sizeLine (s : Size n) : SizeLine n s.line := by
  unfold line
  split
  · exact .bare s.denotes s.ending.lineEnd
  · rename_i e _
    have h := SizeLine.extended s.denotes (List.forall_mem_nil _) e.oneLine s.ending.lineEnd
    rwa [List.append_nil] at h

/-- And it is text. -/
theorem text (s : Size n) : (Utf8.decode? s.line).isSome := by
  have hdigits : ∀ b ∈ s.digits, b < 0x80 := fun b hb =>
    UInt8.lt_iff_toNat_lt.2
      (Nat.lt_of_le_of_lt (SizeLine.digit_range s.denotes b hb).2 (by decide))
  have hending : (Utf8.decode? s.ending.bytes).isSome :=
    Utf8.decode?_isSome_of_ascii fun b hb => (s.ending.lineEnd.blank b hb).1
  unfold line
  split
  · rw [Utf8.decode?_append_ascii hdigits, Option.isSome_map]
    exact hending
  · rename_i e _
    have hfront : ∀ b ∈ s.digits ++ [59], b < 0x80 :=
      List.forall_mem_append.2 ⟨hdigits, List.forall_mem_singleton.2 (by decide)⟩
    obtain ⟨t, ht⟩ := Option.isSome_iff_exists.1 e.text
    have hsplit : s.digits ++ 59 :: e.bytes ++ s.ending.bytes =
        s.digits ++ [59] ++ (e.bytes ++ s.ending.bytes) := by simp
    rw [hsplit, Utf8.decode?_append_ascii hfront, Option.isSome_map, Utf8.decode?_append ht,
      Option.isSome_map]
    exact hending

end Size

/-- A trailer line is a line and not an empty one. -/
theorem Trailer.isLine (t : Trailer) : IsLine t.line ∧ ¬ LineEnd t.line := by
  refine ⟨t.ending.lineEnd.isLine_append t.oneLine, fun h => ?_⟩
  have heq := lineEnd_iff.1 h
  unfold line at heq
  cases hending : t.ending with
  | bare =>
    rw [hending] at heq
    rcases heq with heq | heq
    · have heq : t.bytes ++ [lf] = [cr] ++ [lf] := heq
      exact t.notReturn (List.append_cancel_right heq)
    · have heq : t.bytes ++ [lf] = [] ++ [lf] := heq
      exact t.notEmpty (List.append_cancel_right heq)
  | pair =>
    rw [hending] at heq
    rcases heq with heq | heq
    · have heq : t.bytes ++ [cr, lf] = [] ++ [cr, lf] := heq
      exact t.notEmpty (List.append_cancel_right heq)
    · have hlength := congrArg List.length heq
      rw [List.length_append] at hlength
      exact absurd hlength (by simp [Ending.bytes])

/-- What is written for a body is a body that is copied, if no line is too long. -/
theorem Body.legible {b : Body} (h : ∀ l ∈ b.lines, l.length ≤ mostInLine + 1) :
    b.parts.Legible where
  formed := by
    refine ⟨?_, b.last.sizeLine, ?_, b.ending.lineEnd⟩
    · refine List.forall_mem_map.2 fun c _ => ?_
      exact ⟨c.some, c.size.sizeLine, c.ending.lineEnd⟩
    · exact List.forall_mem_map.2 fun t _ => t.isLine
  text := List.forall_mem_map.2 fun c _ => c.size.text
  last := b.last.text
  size := List.forall_mem_map.2 fun c _ => c.countable
  short := h

end Sent

/-- **A chunked body that was written is copied.** The bytes of the body come in time, of which any
part was read ahead before, and the sink takes them. Then copying is done, has passed on just the
body as it was written, and leaves just the bytes that stand behind it, whatever they are and
however the bytes are cut into pieces. -/
theorem sent_body_copied {b : Sent.Body} {limit : Nat} {c : Copying} {rest : Bytes}
    (hshort : ∀ l ∈ b.lines, l.length ≤ mostInLine + 1)
    (hready : c.Ready limit b.encode.length b.encode.length)
    (hbytes : c.reader.bytes = b.encode ++ rest) :
    (c.body limit .chunked).result = .ok () ∧
      (c.body limit .chunked).state.written = c.written ++ b.encode ∧
      (c.body limit .chunked).state.reader.bytes = rest := by
  have hframes : Framing.chunked.Frames ChunkedBody.Legible b.encode rest :=
    .chunked (Sent.Body.legible hshort)
  obtain ⟨hdone, hrest⟩ := Copying.body_completes hframes hready hbytes
  obtain ⟨passed, hpasses, -, hcut⟩ := Copying.body_follows limit .chunked c
  have hat : (Cut.chunks c.reader.bytes).At c.reader.bytes := Cut.chunks_at _
  rw [show Cut.chunks c.reader.bytes = _ from hcut () hdone, hrest, hbytes] at hat
  have hpassed : passed = b.encode := List.append_cancel_right hat
  exact ⟨hdone, hpassed ▸ hpasses.written, hrest⟩

/-- A body with data that looks like the end of a body and like a chunk, a size in both cases with
zeros in front, an extension that is not ASCII and trailers that look like a chunk. -/
def deceptiveBody : Sent.Body where
  chunks :=
    [{  data := ascii "\n0\r\n\r\n5\r\nhell"
        some := by decide
        countable := by decide
        size :=
          { digits := ascii "00d"
            denotes := (value?_eq_some (by decide)).1 (by decide +kernel)
            extension := some ⟨[195, 169, 61, 59], by decide +kernel, by decide⟩
            ending := .bare }
        ending := .pair },
      { data := ascii "0123456789"
        some := by decide
        countable := by decide
        size :=
          { digits := ascii "A"
            denotes := (value?_eq_some (by decide)).1 (by decide +kernel)
            ending := .pair }
        ending := .bare }]
  last :=
    { digits := ascii "000"
      denotes := (value?_eq_some (by decide)).1 (by decide +kernel)
      ending := .bare }
  trailers := [⟨ascii "5", by decide, by decide, by decide, .pair⟩,
    ⟨ascii " \r", by decide, by decide, by decide, .bare⟩]
  ending := .pair

/-- It is copied as it was written, in pieces that end inside lines and data. -/
theorem sent_body_copied_deceptive :
    let c : Copying :=
      { reader :=
          { buffer := ascii "00d;"
            stream := .ofPieces ((deceptiveBody.encode.drop 4).map (fun b => [b]) ++
              [ascii "\r\nNEXT"]) }
        sink := {} }
    (c.body 0 .chunked).result = .ok () ∧ (c.body 0 .chunked).state.written = deceptiveBody.encode ∧
      (c.body 0 .chunked).state.reader.bytes = ascii "\r\nNEXT" := by
  intro c
  have hready : c.Ready 0 deceptiveBody.encode.length deceptiveBody.encode.length :=
    ⟨Replay.Steady.ofPieces _, .default _⟩
  exact sent_body_copied (by decide) hready (by decide +kernel)

end Intercept.Http
