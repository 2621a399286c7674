import Intercept.Proofs.Http.Pace

/-!
# A reader keeps its place

A reader is asked for heads and bodies in any order, and may be asked again after it failed. Each
byte of its stream is handed over once and in order, however a step ends: at the end of the stream,
at a fault, at a limit, at bytes that are refused, or when a wait was too long.

* `Copying.Keeps c c'`: between `c` and `c'` no byte was lost and none was made up.
* `Demand`, `Reply`: what is asked of a reader, and what comes of it.
* `Reader.serve`, `Reader.serveAll`: one demand is met, and demands one after the other.

Results:
* `body_keeps`: copying a body keeps the place, also when it fails.
* `readHead_keeps`: so does looking for a head.
* `serve_bytes`: so does meeting any demand.
* `serveAll_keeps_place`: after any number of demands, what was handed over and what is still to
  come make up the bytes that there were.
-/

namespace Intercept.Http

/-! ## Copying -/

namespace Copying

/-- What was written and what is still to come are the same bytes as before, and the sink has room
for what is still to come. -/
structure Keeps (c c' : Copying) : Prop where
  bytes : c'.written ++ c'.reader.bytes = c.written ++ c.reader.bytes
  takes : c'.sink.Takes c'.reader.bytes.length

variable {limit n : Nat} {c : Copying}

namespace Keeps

theorem refl (h : c.sink.Takes c.reader.bytes.length) : c.Keeps c := ⟨rfl, h⟩

theorem trans {c' c'' : Copying} (h : c.Keeps c') (h' : c'.Keeps c'') : c.Keeps c'' :=
  ⟨h'.bytes.trans h.bytes, h'.takes⟩

/-- Reading ahead keeps the place, whatever comes of it. -/
theorem fill {c' : Copying} {r : Reader} {filled : Reader.Filled} (h : c.Keeps (c'.resume r))
    (hr : r.fill limit = filled) : c.Keeps (c'.resume filled.reader) := by
  have hb := Reader.bytes_of_fill hr
  refine ⟨Eq.trans ?_ h.bytes, ?_⟩
  · rw [show (c'.resume filled.reader).reader.bytes = r.bytes from hb]
    rfl
  · rw [show (c'.resume filled.reader).reader.bytes = r.bytes from hb]
    exact h.takes

end Keeps

/-- Passing over the bytes that are offered keeps the place, and the offer is taken. -/
theorem put_keeps {bytes : Bytes} {r : Reader} (h : c.sink.Takes c.reader.bytes.length)
    (hbytes : c.reader.bytes = bytes ++ r.bytes) :
    (c.put bytes).result = .ok () ∧ c.Keeps ((c.put bytes).state.resume r) := by
  rw [hbytes, List.length_append] at h
  obtain ⟨hok, htakes⟩ := put_takes h
  refine ⟨hok, ?_, htakes⟩
  have hwritten : ((c.put bytes).state.resume r).written = c.written ++ bytes :=
    (put_ok hok).written
  rw [hwritten, hbytes, List.append_assoc]
  rfl

theorem exact_keeps (h : c.sink.Takes c.reader.bytes.length) :
    c.Keeps (c.exact limit n).state := by
  have hput (n : Nat) (c : Copying) (h : c.sink.Takes c.reader.bytes.length) :
      (c.put (c.reader.buffer.take n)).result = .ok () ∧
        c.Keeps ((c.put (c.reader.buffer.take n)).state.resume (c.reader.skip n)) := by
    refine put_keeps h ?_
    rw [Reader.bytes, Reader.bytes, ← List.append_assoc]
    exact congrArg (· ++ _) (List.take_append_drop n _).symm
  fun_induction exact limit n c with
  | case1 n c done s hs => cases hs.symm.trans (hput n c h).1
  | case2 n c => exact (hput n c h).2
  | case3 n c done _ hu left reader hl r hr ih =>
    have hkeeps := (hput n c h).2.fill hr
    exact hkeeps.trans (ih hkeeps.takes)
  | case4 n c done _ hu left reader hl r hr => exact (hput n c h).2.fill hr
  | case5 n c done _ hu left reader hl s r hr => exact (hput n c h).2.fill hr

theorem line_keeps (h : c.sink.Takes c.reader.bytes.length) : c.Keeps (c.line limit).state := by
  fun_induction line limit c with
  | case1 c before rest hcut line done =>
    have hat := Cut.line_at c.reader.bytes
    rw [cut_line_buffer hcut] at hat
    have hkeeps : c.Keeps ((c.put line).state.resume (c.reader.skip line.length)) :=
      (put_keeps h hat.symm).2
    exact hkeeps
  | case2 c => exact .refl h
  | case3 c hcut hl r hr ih =>
    have hkeeps := (Keeps.refl h).fill hr
    exact hkeeps.trans (ih hkeeps.takes)
  | case4 c hcut hl r hr => exact (Keeps.refl h).fill hr
  | case5 c hcut hl s r hr => exact (Keeps.refl h).fill hr

theorem trailers_keeps (h : c.sink.Takes c.reader.bytes.length) :
    c.Keeps (c.trailers limit).state := by
  fun_induction trailers limit c with
  | case1 c s hs => exact line_keeps h
  | case2 c l hl heol => exact line_keeps h
  | case3 c l hl heol ih => exact (line_keeps h).trans (ih (line_keeps h).takes)

theorem chunked_keeps (h : c.sink.Takes c.reader.bytes.length) :
    c.Keeps (c.chunked limit).state := by
  fun_induction chunked limit c with
  | case1 c sizeLine s hs => exact line_keeps h
  | case2 c sizeLine l hl hsize => exact line_keeps h
  | case3 c sizeLine l hl hsize => exact (line_keeps h).trans (trailers_keeps (line_keeps h).takes)
  | case4 c sizeLine l hl n hn hsize data s hdata =>
    exact (line_keeps h).trans (exact_keeps (line_keeps h).takes)
  | case5 c sizeLine l hl n hn hsize data u hdata ending s hs =>
    have hkeeps : c.Keeps data.state := (line_keeps h).trans (exact_keeps (line_keeps h).takes)
    exact hkeeps.trans (line_keeps hkeeps.takes)
  | case6 c sizeLine l hl n hn hsize data u hdata ending l' hl' ih =>
    have hdone : c.Keeps data.state := (line_keeps h).trans (exact_keeps (line_keeps h).takes)
    have hkeeps : c.Keeps ending.state := hdone.trans (line_keeps hdone.takes)
    exact hkeeps.trans (ih hkeeps.takes)

theorem toEnd_keeps (h : c.sink.Takes c.reader.bytes.length) : c.Keeps (c.toEnd limit).state := by
  have hput (c : Copying) (h : c.sink.Takes c.reader.bytes.length) :
      (c.put c.reader.buffer).result = .ok () ∧ c.Keeps
        ((c.put c.reader.buffer).state.resume (c.reader.skip c.reader.buffer.length)) := by
    have hempty : (c.reader.skip c.reader.buffer.length).buffer = [] :=
      Reader.buffer_skip (Nat.le_refl _)
    refine put_keeps h ?_
    rw [Reader.bytes, Reader.bytes, hempty, List.nil_append]
    rfl
  fun_induction toEnd limit c with
  | case1 c done s hs => cases hs.symm.trans (hput c h).1
  | case2 c done u hu r hr ih =>
    have hkeeps := (hput c h).2.fill hr
    exact hkeeps.trans (ih hkeeps.takes)
  | case3 c done u hu r hr => exact (hput c h).2.fill hr
  | case4 c done u hu s r hr => exact (hput c h).2.fill hr

/-- Copying a body into a sink with room keeps the place, also when it fails. -/
theorem body_keeps {framing : Framing} (h : c.sink.Takes c.reader.bytes.length) :
    c.Keeps (c.body limit framing).state := by
  cases framing with
  | empty => exact .refl h
  | length n => exact exact_keeps h
  | chunked => exact chunked_keeps h
  | untilClose => exact toEnd_keeps h

end Copying

/-! ## Heads -/

namespace Reader

/-- Looking for a head keeps the place, also when none is found. -/
theorem readHead_keeps (incomplete : Error) (limit : Nat) (r : Reader) :
    ((r.readHead incomplete limit).result.toOption).getD [] ++
      (r.readHead incomplete limit).reader.bytes = r.bytes := by
  fun_induction readHead incomplete limit r with
  | case1 r n hn =>
    simp only [Except.toOption, Option.getD_some, Reader.bytes]
    rw [← List.append_assoc, List.take_append_drop]
  | case2 => rfl
  | case3 r hnone hlarge r' hr ih => exact ih.trans (bytes_of_fill hr)
  | case4 r hnone hlarge r' hr => exact bytes_of_fill hr
  | case5 r hnone hlarge s r' hr => exact bytes_of_fill hr

end Reader

/-! ## Demands -/

/-- What is asked of a reader. -/
inductive Ask
  | request
  | response (headRequest : Bool)
  /-- A body, to be copied to a sink. -/
  | body (framing : Framing) (sink : Sink)

/-- What is asked of a reader, how long after the demand before it, and until when it may take. -/
structure Demand where
  ask : Ask
  pause : Nat := 0
  limit : Nat

/-- The sink of the demand, if it has one, takes so many bytes. -/
def Demand.Takes (n : Nat) (d : Demand) : Prop :=
  match d.ask with
  | .body _ sink => sink.Takes n
  | _ => True

theorem Demand.Takes.mono {n fewer : Nat} {d : Demand} (h : d.Takes n) (hle : fewer ≤ n) :
    d.Takes fewer := by
  unfold Demand.Takes at h ⊢
  split at h
  · exact Sink.Takes.mono h hle
  · trivial

/-- What comes of a demand. -/
inductive Reply
  | request (q : Request)
  | response (a : Response)
  /-- A head was cut off and is not accepted. -/
  | rejected (raw : Bytes) (s : Stop Error)
  /-- No head was cut off. -/
  | stopped (s : Stop Error)
  /-- So many bytes of a body were written, and that is how the copying ended. -/
  | copied (bytes : Bytes) (result : Except (Stop Error) Unit)
deriving DecidableEq

/-- The bytes that were handed over. -/
def Reply.bytes : Reply → Bytes
  | request q => q.raw
  | response a => a.raw
  | rejected raw _ => raw
  | stopped _ => []
  | copied bytes _ => bytes

/-- What comes of reading a head, given what was cut off for it. -/
def Reply.ofHead {α : Type} (accepted : α → Reply) (cut : Except (Stop Error) Bytes)
    (result : Except (Stop Error) α) : Reply :=
  match result, cut with
  | .ok a, _ => accepted a
  | .error s, .ok raw => rejected raw s
  | .error s, .error _ => stopped s

/-- When a head is accepted that is the one that was cut off, the bytes that were handed over are
those that were cut off. -/
theorem Reply.bytes_ofHead {α : Type} {accepted : α → Reply} {cut : Except (Stop Error) Bytes}
    {result : Except (Stop Error) α} (h : ∀ a, result = .ok a → cut = .ok (accepted a).bytes) :
    (ofHead accepted cut result).bytes = cut.toOption.getD [] := by
  cases result with
  | ok a =>
    rw [h a rfl]
    rfl
  | error s => cases cut <;> rfl

namespace Reader

/-- A request that was read is the head that was cut off for it. -/
theorem readHead_of_readRequest {limit : Nat} {r : Reader} {q : Request}
    (h : (r.readRequest limit).result = .ok q) :
    (r.readHead .invalidRequest limit).result = .ok q.raw := by
  unfold readRequest at h
  simp only at h
  split at h
  · cases h
  · rename_i raw hraw
    cases hq : Request.ofRaw? raw with
    | none =>
      rw [hq] at h
      cases h
    | some q' =>
      rw [hq] at h
      cases h
      rw [hraw, Request.raw_of_ofRaw? hq]

theorem readHead_of_readResponse {headRequest : Bool} {limit : Nat} {r : Reader} {a : Response}
    (h : (r.readResponse headRequest limit).result = .ok a) :
    (r.readHead .invalidResponse limit).result = .ok a.raw := by
  unfold readResponse at h
  simp only at h
  split at h
  · cases h
  · rename_i raw hraw
    cases ha : Response.ofRaw? headRequest raw with
    | none =>
      rw [ha] at h
      cases h
    | some a' =>
      rw [ha] at h
      cases h
      rw [hraw, Response.raw_of_ofRaw? ha]

/-- Meets one demand. -/
def serve (demand : Demand) (r : Reader) : Reply × Reader :=
  let r := { r with now := r.now + demand.pause }
  match demand.ask with
  | .request =>
    let cut := r.readHead .invalidRequest demand.limit
    let done := r.readRequest demand.limit
    (.ofHead .request cut.result done.result, done.reader)
  | .response headRequest =>
    let cut := r.readHead .invalidResponse demand.limit
    let done := r.readResponse headRequest demand.limit
    (.ofHead .response cut.result done.result, done.reader)
  | .body framing sink =>
    let done := Copying.body demand.limit framing { reader := r, sink := sink }
    (.copied done.state.written done.result, done.state.reader)

/-- Meets demands one after the other, however each of them ends. -/
def serveAll : List Demand → Reader → List Reply × Reader
  | [], r => ([], r)
  | demand :: demands, r =>
    let (reply, r) := r.serve demand
    let (replies, r) := r.serveAll demands
    (reply :: replies, r)

/-- What comes of the first demands does not depend on the others. -/
theorem serveAll_take (demands : List Demand) (k : Nat) (r : Reader) :
    (r.serveAll (demands.take k)).1 = (r.serveAll demands).1.take k := by
  induction demands generalizing k r with
  | nil =>
    rw [List.take_nil]
    exact List.take_nil.symm
  | cons demand demands ih =>
    cases k with
    | zero => rfl
    | succ k => exact congrArg (_ :: ·) (ih k _)

/-- Meeting a demand keeps the place. -/
theorem serve_bytes {demand : Demand} {r : Reader} (h : demand.Takes r.bytes.length) :
    (r.serve demand).1.bytes ++ (r.serve demand).2.bytes = r.bytes := by
  obtain ⟨ask, pause, limit⟩ := demand
  cases ask with
  | request =>
    simp only [serve]
    rw [Reply.bytes_ofHead fun q hq => readHead_of_readRequest hq, reader_readRequest]
    exact readHead_keeps .invalidRequest limit { r with now := r.now + pause }
  | response headRequest =>
    simp only [serve]
    rw [Reply.bytes_ofHead fun a ha => readHead_of_readResponse ha, reader_readResponse]
    exact readHead_keeps .invalidResponse limit { r with now := r.now + pause }
  | body framing sink =>
    let c : Copying := { reader := { r with now := r.now + pause }, sink := sink }
    have hkeeps : c.Keeps (c.body limit framing).state := Copying.body_keeps h
    exact hkeeps.bytes

theorem serveAll_bytes {demands : List Demand} {r : Reader}
    (h : ∀ demand ∈ demands, demand.Takes r.bytes.length) :
    (r.serveAll demands).1.flatMap Reply.bytes ++ (r.serveAll demands).2.bytes = r.bytes := by
  induction demands generalizing r with
  | nil => rfl
  | cons demand demands ih =>
    obtain ⟨hdemand, hdemands⟩ := List.forall_mem_cons.1 h
    have hbytes := serve_bytes hdemand
    have hle : (r.serve demand).2.bytes.length ≤ r.bytes.length := by
      rw [← hbytes, List.length_append]
      exact Nat.le_add_left _ _
    have hrest := ih fun d hd => (hdemands d hd).mono hle
    rw [serveAll, List.flatMap_cons, List.append_assoc, hrest]
    exact hbytes

/-- **A reader keeps its place.** Whatever was read ahead, whatever the stream does and when, and
however each demand ends: after each of them the heads that were cut off, accepted or not, and the
bytes of bodies that were written, in the order of the demands, and then what the reader holds and
what the stream still brings, are what the reader held at first and what the stream brought. -/
theorem serveAll_keeps_place {demands : List Demand} {r : Reader}
    (hsinks : ∀ demand ∈ demands, demand.Takes r.bytes.length) (k : Nat) :
    let replies := (r.serveAll demands).1.take k
    let after := (r.serveAll (demands.take k)).2
    replies.flatMap Reply.bytes ++ (after.buffer ++ after.stream.bytes) =
      r.buffer ++ r.stream.bytes := by
  intro replies after
  have hfront : ∀ demand ∈ demands.take k, demand.Takes r.bytes.length :=
    fun demand hdemand => hsinks demand (List.mem_of_mem_take hdemand)
  have hbytes := serveAll_bytes hfront
  rw [serveAll_take] at hbytes
  exact hbytes

end Reader

/-- A reader that holds two empty lines, with a fault and a gap ahead. -/
def brokenReader : Reader where
  buffer := ascii "\n\n"
  stream := .ofSource { events := [⟨1, .data (ascii "5\r\nhe")⟩, ⟨2, .fault .reset⟩,
    ⟨3, .data (ascii "llo")⟩, ⟨90, .data (ascii "!\nHTTP/1.1 204 No Content\r\n\r\n+")⟩] }
  patience := some 50

/-- Demands that go on after failures. -/
def stubbornDemands : List Demand :=
  [⟨.request, 0, 1000⟩, ⟨.body .chunked { most := some 1 }, 0, 1000⟩,
    ⟨.body (.length 5) {}, 0, 1000⟩, ⟨.body (.length 2) {}, 10, 1000⟩, ⟨.response false, 0, 1000⟩]

/-- A head that is not accepted, a fault and a wait that was too long cost no byte. -/
theorem serveAll_keeps_place_stubborn :
    let (replies, after) := brokenReader.serveAll stubbornDemands
    replies = [.rejected (ascii "\n\n") (.failed .invalidRequest),
        .copied (ascii "5\r\nhe") (.error (.failed (.io .reset))),
        .copied (ascii "llo") (.error (.failed .timeout)), .copied (ascii "!\n") (.ok ()),
        .response ⟨ascii "HTTP/1.1 204 No Content\r\n\r\n", 204, .empty⟩] ∧
      (replies.take 5).flatMap Reply.bytes ++ (after.buffer ++ after.stream.bytes) =
        ascii "\n\n5\r\nhello!\nHTTP/1.1 204 No Content\r\n\r\n+" := by
  have hsinks : ∀ demand ∈ stubbornDemands, demand.Takes brokenReader.bytes.length := by
    simp only [stubbornDemands, List.forall_mem_cons, Demand.Takes]
    exact ⟨trivial, .of_unlimited (by decide) rfl, .default _, .default _, trivial, by simp⟩
  have hall : stubbornDemands.take 5 = stubbornDemands := rfl
  have hplace := Reader.serveAll_keeps_place hsinks 5
  rw [hall] at hplace
  exact ⟨by decide +kernel, hplace.trans (by decide +kernel)⟩

end Intercept.Http
