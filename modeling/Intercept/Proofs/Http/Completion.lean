import Intercept.Proofs.Http.Directions

/-!
# Well-formed exchanges complete

The client sends the body that the request announces, the server sends interim heads, a final head
and the body that it announces, neither waits too long, and both take what they are sent. Then the
exchange is complete and has passed all of that on, in whatever pieces the bytes arrived.

* `ChunkedBody.Legible`: a well-formed chunked body of which every line can be read.
* `Framing.Frames`: a body that a framing announces, and what may stand behind it.
* `Script`: what both sides say. `Script.WellFormed`: it is one exchange. `Script.Spoken`: the two
  streams bring it in time. `Script.Heard`: the two sinks take it.

Results:
* `body_completes`, `respond_completes`: a body and an answer that come in time are passed on.
* `exchange_completes`: so is a whole exchange.
* `exchange_incomplete`: not every well-formed chunked body is legible, and not every accepted head
  ends where the reader cuts it.
-/

namespace Intercept

/-- A stream that never falls silent for too long keeps the pace of a reader with a late enough
limit. -/
theorem Source.Steady.of_idle {start since want idle : Nat} {es : List Event}
    (h : Source.Steady (.idle idle) start since want es) :
    ∃ enough, ∀ limit, enough ≤ limit →
      Source.Steady (Http.pace limit (some idle)) start since want es := by
  induction es generalizing since want with
  | nil => exact ⟨0, fun _ _ => trivial⟩
  | cons e es ih =>
    rcases h with rfl | ⟨hdue, h⟩
    · exact ⟨0, fun _ _ => .inl rfl⟩
    have hlatest (limit : Nat) (hlimit : start + e.due ≤ limit) :
        start + e.due ≤ (Http.pace limit (some idle)).latest since := by
      simp only [Pace.idle] at hdue
      simp only [Http.pace, Http.latestWait]
      omega
    obtain ⟨due, what⟩ := e
    cases what with
    | data bytes =>
      obtain ⟨enough, hall⟩ := ih h
      refine ⟨max enough (start + due), fun limit hlimit => .inr ⟨?_, ?_⟩⟩
      · exact hlatest limit (by simp only; omega)
      · exact hall limit (by omega)
    | fault f => exact absurd h id
    | close => exact ⟨start + due, fun limit hlimit => .inr ⟨hlatest limit hlimit, trivial⟩⟩
    | silence => exact absurd h id

namespace Http

open Text Numeral

/-! ## Bodies -/

/-- A well-formed body that can be read: the lines that give a size are text and give one below
2^64, and no line is too long. -/
structure ChunkedBody.Legible (b : ChunkedBody) : Prop where
  formed : b.WellFormed
  text : ∀ c ∈ b.chunks, (Utf8.decode? c.line).isSome
  last : (Utf8.decode? b.last).isSome
  size : ∀ c ∈ b.chunks, c.data.length < UInt64.size
  short : ∀ l ∈ b.lines, l.length ≤ mostInLine + 1

/-- A size line that is text is read as its size. -/
theorem SizeLine.taken {n : Nat} {l : Bytes} (h : SizeLine n l) (htext : (Utf8.decode? l).isSome)
    (hn : n < UInt64.size) : TakenForSize n l := by
  obtain ⟨t, ht⟩ := Option.isSome_iff_exists.1 htext
  refine takenForSize_iff.2 ⟨h.isLine, ?_⟩
  rw [chunkSize?, ht]
  exact (read?_eq_some (by decide)).2 ⟨.inl (h.denotes ht), hn⟩

theorem ChunkedBody.Legible.copied {b : ChunkedBody} (h : b.Legible) : b.Copied where
  chunk c hc := by
    obtain ⟨hdata, hsize, hending⟩ := h.formed.chunk c hc
    exact ⟨hdata, hsize.taken (h.text c hc) (h.size c hc), hending.isLine⟩
  last := h.formed.last.taken h.last (by decide)
  trailer := h.formed.trailer
  eol := h.formed.eol

/-- The framing announces `body` where `rest` stands behind it, given the chunked bodies that count.
One that runs to the end of the stream has nothing behind it. -/
inductive Framing.Frames (counts : ChunkedBody → Prop) : Framing → (body rest : Bytes) → Prop
  | empty {rest : Bytes} : Frames counts .empty [] rest
  | length {body rest : Bytes} : Frames counts (.length body.length) body rest
  | chunked {body : ChunkedBody} {rest : Bytes} (h : counts body) :
      Frames counts .chunked body.bytes rest
  | untilClose {body : Bytes} : Frames counts .untilClose body []

/-- How much of a stream is waited for in copying a body. The end of the stream, where it is waited
for, counts as one more byte. -/
def Framing.wants (framing : Framing) (body : Bytes) : Nat :=
  if framing = .untilClose then body.length + 1 else body.length

namespace Copying

variable {limit : Nat} {c : Copying} {body rest : Bytes}

/-- A legible body that comes in time is copied. -/
theorem body_completes {framing : Framing} (hbody : framing.Frames ChunkedBody.Legible body rest)
    (h : c.Ready limit (framing.wants body) body.length) (hbytes : c.reader.bytes = body ++ rest) :
    (c.body limit framing).result = .ok () ∧ (c.body limit framing).state.reader.bytes = rest := by
  cases hbody with
  | empty => exact ⟨rfl, hbytes⟩
  | length =>
    have h : c.Ready limit (body.length + 0) (body.length + 0) := h
    obtain ⟨hdone, -, hrest⟩ := exact_crosses limit body h hbytes
    exact ⟨hdone, hrest⟩
  | @chunked body rest hlegible =>
    have h : c.Ready limit (body.bytes.length + 0) (body.bytes.length + 0) := h
    obtain ⟨hdone, -, hrest⟩ := chunked_crosses limit hlegible.copied hlegible.short h hbytes
    exact ⟨hdone, hrest⟩
  | untilClose =>
    rw [List.append_nil] at hbytes
    rw [← hbytes] at h
    exact toEnd_ready h

end Copying

/-! ## Answers -/

/-- The response stands on its own: its head is read, is not too long, and its first empty line is
its end. -/
structure Response.Stands (headRequest : Bool) (r : Response) : Prop where
  reads : Response.ofRaw? headRequest r.raw = some r
  short : r.raw.length ≤ mostInHead
  ends : headEnd? r.raw = some r.raw.length

namespace Copying

variable {limit : Nat} {headRequest : Bool} {c : Copying}

/-- Passes one response head on. -/
def passHead (limit : Nat) (headRequest : Bool) (c : Copying) : Copied Response :=
  let head := c.reader.readResponse headRequest limit
  match head.result with
  | .error s => ⟨.error s, c.resume head.reader⟩
  | .ok response =>
    let passed := (c.resume head.reader).put response.raw
    ⟨passed.result.map fun _ => response, passed.state⟩

/-- An answer is a response head and what its status calls for. -/
theorem respond_eq (limit : Nat) (headRequest : Bool) :
    respond limit headRequest = fun c => (c.passHead limit headRequest).andThen fun r c =>
      if r.status = switching then ⟨.ok .upgraded, c⟩
      else if Response.isInterim r.status then c.respond limit headRequest
      else ⟨(c.body limit r.framing).result.map fun _ => .complete,
        (c.body limit r.framing).state⟩ := by
  funext c
  rw [respond, passHead, Copied.andThen]
  simp only
  split
  · rename_i h
    rw [h]
  · rename_i r h
    rw [h]
    simp only
    split <;> rename_i hput <;> rw [hput] <;> rfl

/-- A response head is crossed. -/
theorem passHead_crosses {r : Response} (limit : Nat) (h : r.Stands headRequest) :
    Crosses limit (passHead limit headRequest) r.raw r := by
  intro c want room rest hready hbytes
  have hend : headEnd? c.reader.bytes = some r.raw.length := by
    rw [hbytes]
    exact headEnd?_append h.ends
  obtain ⟨hhead, hsteady, hrest⟩ :=
    Reader.readHead_steady .invalidResponse hready.steady hend h.short
  rw [hbytes, List.take_left] at hhead
  rw [hbytes, List.drop_left] at hrest
  have hread : (c.reader.readResponse headRequest limit).result = .ok r := by
    rw [Reader.readResponse_of_readHead hhead, h.reads]
    rfl
  have hreader := Reader.reader_readResponse headRequest limit c.reader
  rw [← hreader] at hsteady hrest
  let head := c.resume (c.reader.readResponse headRequest limit).reader
  obtain ⟨hput, htakes⟩ : (head.put r.raw).result = .ok () ∧
      (head.put r.raw).state.sink.Takes room := put_takes hready.takes
  simp only [passHead, hread]
  rw [show (put r.raw (c.resume (c.reader.readResponse headRequest limit).reader)).result = .ok ()
    from hput]
  exact ⟨rfl, ⟨hsteady, htakes⟩, hrest⟩

/-- Interim heads and a final head with its body that come in time are passed on. -/
theorem respond_completes {interims : List Response} {final : Response} {answer rest : Bytes}
    (hinterims : ∀ r ∈ interims, r.Stands headRequest ∧ Response.isInterim r.status ∧
      r.status ≠ switching)
    (hfinal : final.Stands headRequest) (hstatus : ¬ Response.isInterim final.status)
    (hanswer : final.framing.Frames ChunkedBody.Legible answer rest)
    (h : c.Ready limit
      ((interims.flatMap Response.raw ++ final.raw).length + final.framing.wants answer)
      ((interims.flatMap Response.raw ++ final.raw).length + answer.length))
    (hbytes : c.reader.bytes = interims.flatMap Response.raw ++ final.raw ++ (answer ++ rest)) :
    (c.respond limit headRequest).result = .ok .complete ∧
      (c.respond limit headRequest).state.reader.bytes = rest := by
  induction interims generalizing c with
  | nil =>
    rw [List.flatMap_nil, List.nil_append] at h hbytes
    obtain ⟨hhead, hready, hbytes⟩ := passHead_crosses limit hfinal h hbytes
    obtain ⟨hbody, hrest⟩ := body_completes hanswer hready hbytes
    have hswitch : final.status ≠ switching := fun h0 => hstatus (by rw [h0]; decide)
    rw [respond_eq]
    simp only [Copied.andThen, hhead, if_neg hswitch, if_neg hstatus, hbody]
    exact ⟨rfl, hrest⟩
  | cons r interims ih =>
    obtain ⟨⟨hstands, hinterim, hswitch⟩, hinterims⟩ := List.forall_mem_cons.1 hinterims
    rw [List.flatMap_cons, List.append_assoc] at h hbytes
    rw [List.length_append, Nat.add_assoc, Nat.add_assoc] at h
    obtain ⟨hhead, hready, hbytes⟩ :=
      passHead_crosses limit hstands h (by rw [hbytes, List.append_assoc])
    rw [respond_eq]
    simp only [Copied.andThen, hhead, if_neg hswitch, if_pos hinterim]
    exact ih hinterims hready (by rw [hbytes, List.append_assoc])

end Copying

/-! ## Exchanges -/

/-- What both sides say in an exchange, and what comes behind it. -/
structure Script where
  body : Bytes
  /-- What the client sends behind the body. -/
  rest : Bytes
  interims : List Response
  final : Response
  answer : Bytes
  /-- What the server sends behind the final body. -/
  more : Bytes

namespace Script

/-- The response heads, one behind the other. -/
def heads (s : Script) : Bytes := s.interims.flatMap Response.raw ++ s.final.raw

/-- The script is one exchange of the request, given which chunked bodies and which heads count. -/
structure WellFormed (sent answered : ChunkedBody → Prop) (head : Response → Prop)
    (request : Request) (s : Script) : Prop where
  body : request.framing.Frames sent s.body s.rest
  interims : ∀ r ∈ s.interims, head r ∧ Response.isInterim r.status ∧ r.status ≠ switching
  final : head s.final ∧ ¬ Response.isInterim s.final.status
  answer : s.final.framing.Frames answered s.answer s.more

/-- The two streams bring what the script says, and never wait too long before it is complete. -/
structure Spoken (idle : Nat) (request : Request) (client : Reader) (server : Replay)
    (s : Script) : Prop where
  sent : client.bytes = s.body ++ s.rest
  answered : server.bytes = s.heads ++ (s.answer ++ s.more)
  sentSteadily : client.stream.Steady (.idle idle) client.now
    (request.framing.wants s.body - client.buffer.length)
  answeredSteadily : server.Steady (.idle idle) client.now
    (s.heads.length + s.final.framing.wants s.answer)

/-- The two sinks take what the script says. -/
structure Heard (request : Request) (clientSink serverSink : Sink) (s : Script) : Prop where
  server : serverSink.Takes (request.raw.length + s.body.length)
  client : clientSink.Takes (s.heads.length + s.answer.length)

end Script

open Copying

/-- A request that comes in time is sent. -/
theorem sending_completes {limit idle : Nat} {request : Request} {client : Reader}
    {serverSink : Sink} {body rest : Bytes}
    (hbody : request.framing.Frames ChunkedBody.Legible body rest)
    (hbytes : client.bytes = body ++ rest)
    (hsteady : client.stream.Steady (pace limit (some idle)) client.now
      (request.framing.wants body - client.buffer.length))
    (htakes : serverSink.Takes (request.raw.length + body.length)) :
    (sendingHead idle request client serverSink).result = .ok () ∧
      (sending limit idle request client serverSink).result = .ok () ∧
      (sending limit idle request client serverSink).state.reader.bytes = rest := by
  let head := sendingHead idle request client serverSink
  obtain ⟨hhead, hroom⟩ : head.result = .ok () ∧ head.state.sink.Takes body.length :=
    put_takes htakes
  have hready : head.state.Ready limit (request.framing.wants body) body.length := ⟨hsteady, hroom⟩
  have hsending : sending limit idle request client serverSink =
      head.state.body limit request.framing := by
    rw [sending, Copied.andThen, show (sendingHead idle request client serverSink).result = .ok ()
      from hhead]
  rw [hsending]
  exact ⟨hhead, body_completes hbody hready hbytes⟩

/-- **Well-formed exchanges complete.** The client's bytes hold the body that the request announces,
and anything behind it; the server's hold any number of interim heads, a final head and the body
that it announces, and anything behind that unless the end of the stream ends the body. Chunked
bodies are legible and each head ends with its first empty line. Neither side lets a reader wait
longer than `idle`, and both take what they are sent. Then, unless the caller sets too early a
limit, the exchange is complete: the server has got the request head and the body, and the client
all the heads and the final body, in whatever pieces they came. -/
theorem exchange_completes {turns : Turns} {idle : Nat} {request : Request} {client : Reader}
    {server : Replay} {clientSink serverSink : Sink} {s : Script}
    (hform : s.WellFormed ChunkedBody.Legible ChunkedBody.Legible
      (Response.Stands request.isHead) request)
    (hspoken : s.Spoken idle request client server)
    (hheard : s.Heard request clientSink serverSink) :
    ∃ enough, ∀ limit, enough ≤ limit →
      let done := exchange turns limit idle request client clientSink server serverSink
      done.result = .ok .complete ∧ done.up.written = request.raw ++ s.body ∧
        done.down.written = s.heads ++ s.answer := by
  obtain ⟨enough, hsent⟩ := hspoken.sentSteadily.of_idle
  obtain ⟨enough', hanswered⟩ := hspoken.answeredSteadily.of_idle
  refine ⟨max enough enough', fun limit hlimit => ?_⟩
  intro done
  obtain ⟨hhead, hup, hrest⟩ :=
    sending_completes hform.body hspoken.sent (hsent limit (by omega)) hheard.server
  obtain ⟨hdown, hmore⟩ : (answering limit idle request client clientSink server).result =
        .ok .complete ∧
      (answering limit idle request client clientSink server).state.reader.bytes = s.more :=
    respond_completes hform.interims hform.final.1 hform.final.2 hform.answer
      ⟨hanswered limit (by omega), hheard.client⟩ hspoken.answered
  have hdone : done = _ := (exchange_eq_join hhead).trans (Exchanged.join_both hup hdown)
  have hresult : done.result = .ok .complete := by rw [hdone]
  -- what was passed on and what is left are all there was
  have hcarries := exchange_carries turns limit idle request client clientSink server serverSink
  obtain ⟨hupBytes, hdownBytes⟩ := hcarries.bytes_of_ok hresult
  rw [show done.up.reader.bytes = s.rest by rw [hdone]; exact hrest, hspoken.sent,
    ← List.append_assoc] at hupBytes
  rw [show done.down.reader.bytes = s.more by rw [hdone]; exact hmore, hspoken.answered,
    ← List.append_assoc] at hdownBytes
  exact ⟨hresult, List.append_cancel_right hupBytes, List.append_cancel_right hdownBytes⟩

/-- A request with a body of six bytes. -/
def uploadRequest : Request where
  raw := ascii "PUT /a HTTP/1.1\r\nHost: a\r\nContent-Length: 6\r\n\r\n"
  method := "PUT".toList
  target := "/a".toList
  host := some ['a']
  framing := .length 6

/-- The client's body and a byte more, an interim head, and a final head with a chunked body that
has an extension and a trailer. -/
def uploadScript : Script where
  body := ascii "upload"
  rest := ascii "?"
  interims := [⟨ascii "HTTP/1.1 100 Continue\r\n\r\n", 100, .empty⟩]
  final := ⟨ascii "HTTP/1.1 201 Created\r\nTransfer-Encoding: chunked\r\n\r\n", 201, .chunked⟩
  answer := ascii "2;x\r\nok\r\n0\r\nA: b\r\n\r\n"
  more := ascii "!"

/-- A client of which two bytes were read ahead. Behind the body it sends one byte, and then nothing
ever again. -/
def uploadClient : Reader where
  buffer := ascii "up"
  stream := .ofSource
    { events := [⟨40, .data (ascii "lo")⟩, ⟨90, .data (ascii "ad?")⟩, ⟨90, .silence⟩] }

/-- A server that cuts its answer in odd places. -/
def uploadServer : Replay :=
  .ofSource { events := [⟨10, .data (ascii "HTTP/1.1 100 Cont")⟩, ⟨60, .data (ascii "inue\r\n\r")⟩,
    ⟨100, .data (ascii "\nHTTP/1.1 201 Created\r\nTransfer-Encoding: chunked\r\n\r\n2;")⟩,
    ⟨150, .data (ascii "x\r\no")⟩, ⟨200, .data (ascii "k\r\n0\r\nA: b\r\n\r\n!")⟩,
    ⟨200, .fault .reset⟩] }

theorem uploadScript_wellFormed : uploadScript.WellFormed ChunkedBody.Legible ChunkedBody.Legible
    (Response.Stands uploadRequest.isHead) uploadRequest := by
  have htwo : Denotes 16 (Utf8.asciiText (ascii "2")) 2 :=
    (value?_eq_some (by decide)).1 (by decide +kernel)
  have hzero : Denotes 16 (Utf8.asciiText (ascii "0")) 0 :=
    (value?_eq_some (by decide)).1 (by decide +kernel)
  let body : ChunkedBody :=
    ⟨[⟨ascii "2;x\r\n", ascii "ok", ascii "\r\n"⟩], ascii "0\r\n", [ascii "A: b\r\n"], ascii "\r\n"⟩
  have hbody : body.WellFormed := by
    refine ⟨List.forall_mem_singleton.2 ⟨by decide, ?_, .pair⟩, .bare hzero .pair, ?_, .pair⟩
    · exact @SizeLine.extended 2 (ascii "2") [] (ascii "x") _ htwo (by simp) (by decide) .pair
    · refine List.forall_mem_singleton.2 ⟨⟨ascii "A: b\r", by decide, by decide⟩, ?_⟩
      rw [lineEnd_iff]
      decide
  have hlegible : body.Legible :=
    ⟨hbody, List.forall_mem_singleton.2 (by decide +kernel), by decide +kernel,
      List.forall_mem_singleton.2 (by decide), by decide⟩
  have hlength : uploadRequest.framing.Frames ChunkedBody.Legible uploadScript.body
      uploadScript.rest := @Framing.Frames.length _ (ascii "upload") _
  refine ⟨hlength, List.forall_mem_singleton.2 ⟨?_, by decide, by decide⟩, ⟨?_, by decide⟩,
    .chunked hlegible⟩
  · exact ⟨by decide +kernel, by decide, by decide⟩
  · exact ⟨by decide +kernel, by decide, by decide⟩

theorem uploadScript_spoken : uploadScript.Spoken 50 uploadRequest uploadClient uploadServer :=
  ⟨by decide, by decide +kernel, by decide, by decide +kernel⟩

/-- An exchange with read-ahead, an interim head, a chunked answer and a client that never closes.
-/
theorem exchange_completes_upload :
    ∃ enough, ∀ limit, enough ≤ limit →
      let turns : Turns := fun _ => .toServer
      let done := exchange turns limit 50 uploadRequest uploadClient {} uploadServer {}
      done.result = .ok .complete ∧ done.up.written = uploadRequest.raw ++ ascii "upload" ∧
        done.down.written = ascii ("HTTP/1.1 100 Continue\r\n\r\nHTTP/1.1 201 Created\r\n" ++
          "Transfer-Encoding: chunked\r\n\r\n2;x\r\nok\r\n0\r\nA: b\r\n\r\n") := by
  have hheard : uploadScript.Heard uploadRequest {} {} := ⟨.default _, .default _⟩
  obtain ⟨enough, hall⟩ := exchange_completes uploadScript_wellFormed uploadScript_spoken hheard
  exact ⟨enough, fun limit hlimit => hall limit hlimit⟩

/-- An exchange that fails with `e`, whoever goes first, though both sides say what is well-formed,
in the pieces given, without delay, and are heard. The client's chunked body has no long line, and
each head is one that is accepted. -/
structure Refused (request : Request) (client server : List Bytes) (e : Error) : Prop where
  script : ∃ s : Script,
    s.WellFormed (fun b => b.WellFormed ∧ ∀ l ∈ b.lines, l.length ≤ mostInLine)
      ChunkedBody.WellFormed
      (fun r => Response.ofRaw? request.isHead r.raw = some r ∧ r.raw.length ≤ mostInHead) request ∧
    s.Spoken 1000 request { stream := .ofPieces client } (.ofPieces server) ∧
    s.Heard request {} {}
  fails :
    ∀ turns,
      (exchange turns 5000 1000 request { stream := .ofPieces client } {} (.ofPieces server)
        {}).result = .error (.failed e)

/-- A request without a body. -/
def getRequest : Request where
  raw := ascii "GET / HTTP/1.1\r\nHost: a.test\r\n\r\n"
  method := "GET".toList
  target := ['/']
  host := some "a.test".toList
  framing := .empty

/-- A response with a chunked body, of which the head is given. -/
def chunkedResponse : Response :=
  ⟨ascii "HTTP/1.1 200 OK\r\nTransfer-Encoding: chunked\r\n\r\n", 200, .chunked⟩

/-- A head in a short enough piece is cut off with one read. -/
theorem Reader.readHead_piece {incomplete : Error} {limit : Nat} {r : Reader} {head behind : Bytes}
    {pieces : List Bytes} (hbuffer : r.buffer = [])
    (hstream : r.stream = .ofPieces ((head ++ behind) :: pieces))
    (hend : headEnd? head = some head.length)
    (hshort : (head ++ behind).length ≤ readAhead) :
    r.readHead incomplete limit =
      ⟨.ok head, { r with buffer := behind, stream := .ofPieces pieces }⟩ := by
  have hne : head ++ behind ≠ [] := by
    rintro h0
    have := (headEnd?_bounds hend).1
    rw [(List.append_eq_nil_iff.1 h0).1, List.length_nil] at this
    omega
  have hfill := fill_piece limit hstream hne hshort
  rw [hbuffer, List.nil_append] at hfill
  have hnone : headEnd? r.buffer = none := by
    rw [hbuffer]
    rfl
  have hfits : ¬mostInHead < r.buffer.length := by
    rw [hbuffer]
    exact Nat.not_lt_zero _
  rw [readHead_of_fill incomplete hnone hfits hfill,
    readHead_of_buffer incomplete limit (headEnd?_append hend)]
  simp only [skip, List.take_left, List.drop_left]

/-- A final head that was cut off leaves its body to be copied. -/
theorem respond_of_readHead {limit : Nat} {headRequest : Bool} {c : Copying} {r : Response}
    {behind : Reader} (hhead : c.reader.readHead .invalidResponse limit = ⟨.ok r.raw, behind⟩)
    (hreads : Response.ofRaw? headRequest r.raw = some r) (hfinal : ¬ Response.isInterim r.status)
    (htakes : c.sink.Takes (r.raw.length + 0)) :
    (c.respond limit headRequest).result =
      (((c.resume behind).put r.raw).state.body limit r.framing).result.map fun _ => .complete := by
  have hread : (c.reader.readResponse headRequest limit).result = .ok r := by
    rw [Reader.readResponse_of_readHead (congrArg Reader.Read.result hhead), hreads]
    rfl
  have hreader : (c.reader.readResponse headRequest limit).reader = behind := by
    rw [Reader.reader_readResponse, hhead]
  have hput : ((c.resume behind).put r.raw).result = .ok () := (put_takes htakes).1
  have hswitch : r.status ≠ switching := fun h0 => hfinal (by rw [h0]; decide)
  rw [respond_eq]
  simp only [passHead, hread, hreader, hput, Copied.andThen, Except.map, if_neg hswitch,
    if_neg hfinal]

/-- The last line of a chunked body, with an extension. -/
def lastLine (ext : Bytes) : Bytes := ascii "0" ++ [] ++ 59 :: ext ++ [cr, lf]

/-- A chunked body that is just its last line and the empty one. -/
def lastOnly (ext : Bytes) : ChunkedBody := ⟨[], lastLine ext, [], [cr, lf]⟩

/-- The answer with that body, cut in front of the end of the line. -/
def cutAnswer (ext : Bytes) : List Bytes :=
  [chunkedResponse.raw ++ (ascii "0;" ++ ext), ascii "\r\n\r\n"]

theorem bytes_cutAnswer (ext : Bytes) :
    (cutAnswer ext).flatten = chunkedResponse.raw ++ (lastOnly ext).bytes := by
  simp [cutAnswer, lastOnly, ChunkedBody.bytes, lastLine, ascii, cr, lf]

section

variable {ext : Bytes}

theorem lastOnly_wellFormed (hlf : lf ∉ ext) : (lastOnly ext).WellFormed := by
  have hzero : Denotes 16 (Utf8.asciiText (ascii "0")) 0 :=
    (value?_eq_some (by decide)).1 (by decide +kernel)
  exact ⟨by simp [lastOnly], .extended hzero (by simp) hlf .pair, by simp [lastOnly], .pair⟩

theorem chunkedResponse_reads :
    Response.ofRaw? getRequest.isHead chunkedResponse.raw = some chunkedResponse := by
  decide +kernel

theorem chunkedResponse_final :
    chunkedResponse.raw.length ≤ 100 ∧ ¬ Response.isInterim chunkedResponse.status := by
  decide

/-- An answer of which all but the end of a long line is there is refused. -/
theorem cutAnswer_refused (limit idle : Nat) (hlf : lf ∉ ext) (hlong : mostInLine ≤ ext.length)
    (hshort : ext.length ≤ 8000) :
    (respond limit getRequest.isHead
      { reader := { stream := .ofPieces (cutAnswer ext), patience := some idle }
        sink := {} }).result = .error (.failed .invalidRequest) := by
  let down : Copying :=
    { reader := { stream := .ofPieces (cutAnswer ext), patience := some idle }, sink := {} }
  let behind : Reader := { down.reader with
    buffer := ascii "0;" ++ ext, stream := .ofPieces [ascii "\r\n\r\n"] }
  have hhead : down.reader.readHead .invalidResponse limit =
      ⟨.ok chunkedResponse.raw, behind⟩ := by
    refine Reader.readHead_piece rfl rfl (by decide) ?_
    have hraw := chunkedResponse_final.1
    have hfront : (ascii "0;").length = 2 := by decide
    simp only [List.length_append, readAhead]
    omega
  have hno : lf ∉ behind.buffer := by
    rw [List.mem_append, not_or]
    exact ⟨by decide, hlf⟩
  have hmany : mostInLine < behind.buffer.length := by
    rw [show behind.buffer.length = 2 + ext.length from List.length_append]
    omega
  let passed := (put chunkedResponse.raw (down.resume behind)).state
  have hline : passed.line limit = ⟨.error (.failed .invalidRequest), passed⟩ :=
    line_tooLong limit hno hmany
  rw [respond_of_readHead hhead chunkedResponse_reads chunkedResponse_final.2 (.default _),
    show chunkedResponse.framing = .chunked from rfl, body, chunked_eq]
  simp only [passed] at hline
  simp only [hline, Copied.andThen]
  rfl

/-- So is the whole exchange. -/
theorem long_refused (hlf : lf ∉ ext) (hlong : mostInLine ≤ ext.length)
    (hshort : ext.length ≤ 8000) : Refused getRequest [] (cutAnswer ext) .invalidRequest := by
  have hbody := lastOnly_wellFormed hlf
  refine ⟨⟨⟨[], [], [], chunkedResponse, (lastOnly ext).bytes, []⟩, ⟨.empty, by simp,
    ⟨⟨chunkedResponse_reads, Nat.le_trans chunkedResponse_final.1 (by decide)⟩,
      chunkedResponse_final.2⟩, .chunked hbody⟩,
    ⟨rfl, ?_, .ofPieces _, .ofPieces _⟩, ⟨.default _, .default _⟩⟩, ?_⟩
  · rw [Replay.bytes_ofPieces, bytes_cutAnswer]
    simp [Script.heads]
  · intro turns
    obtain ⟨hhead, hup, -⟩ := @sending_completes 5000 1000 getRequest
      { stream := .ofPieces [] } {} [] [] .empty rfl (.ofPieces []) (.default _)
    rw [exchange_eq_join hhead]
    exact Exchanged.join_failDown hup (cutAnswer_refused 5000 1000 hlf hlong hshort)

end

/-- A request with a chunked body. -/
def chunkedRequest : Request where
  raw := ascii "POST / HTTP/1.1\r\nHost: a.test\r\nTransfer-Encoding: chunked\r\n\r\n"
  method := "POST".toList
  target := ['/']
  host := some "a.test".toList
  framing := .chunked

/-- A chunked body with an extension that is no text. -/
def quotedBody : ChunkedBody :=
  ⟨[⟨ascii "5" ++ [] ++ 59 :: (ascii "a=\"" ++ 255 :: ascii "\"") ++ [cr, lf], ascii "hello",
    [cr, lf]⟩], ascii "0\r\n", [], [cr, lf]⟩

theorem quoted_refused : Refused chunkedRequest [quotedBody.bytes]
    [ascii "HTTP/1.1 204 No Content\r\n\r\n"] .invalidRequest := by
  have hfive : Denotes 16 (Utf8.asciiText (ascii "5")) 5 :=
    (value?_eq_some (by decide)).1 (by decide +kernel)
  have hzero : Denotes 16 (Utf8.asciiText (ascii "0")) 0 :=
    (value?_eq_some (by decide)).1 (by decide +kernel)
  have hbody : quotedBody.WellFormed :=
    ⟨List.forall_mem_singleton.2 ⟨by decide, .extended hfive (by simp) (by decide) .pair, .pair⟩,
      .bare hzero .pair, by simp [quotedBody], .pair⟩
  refine ⟨⟨⟨quotedBody.bytes, [], [],
      ⟨ascii "HTTP/1.1 204 No Content\r\n\r\n", 204, .empty⟩, [], []⟩,
    ⟨.chunked ⟨hbody, by decide⟩, by simp, ⟨⟨by decide +kernel, by decide⟩, by decide⟩, .empty⟩,
    ⟨by decide, by decide, .ofPieces _, .ofPieces _⟩, ⟨.default _, .default _⟩⟩, fun turns => ?_⟩
  let client : Reader := { stream := .ofPieces [quotedBody.bytes] }
  let server : Replay := .ofPieces [ascii "HTTP/1.1 204 No Content\r\n\r\n"]
  have hhead : (sendingHead 1000 chunkedRequest client {}).result = .ok () := by decide +kernel
  have hup : (sending 5000 1000 chunkedRequest client {}).result =
      .error (.failed .invalidRequest) := by decide +kernel
  have hdown : (answering 5000 1000 chunkedRequest client {} server).result = .ok .complete := by
    decide +kernel
  rw [exchange_eq_join hhead, Exchanged.join_failUp hup hdown]

theorem emptyLines_refused : Refused getRequest [] [ascii "\r\n\r\nHTTP/1.1 204 No Content\r\n\r\n"]
    .invalidResponse := by
  refine ⟨⟨⟨[], [], [],
      ⟨ascii "\r\n\r\nHTTP/1.1 204 No Content\r\n\r\n", 204, .empty⟩, [], []⟩,
    ⟨.empty, by simp, ⟨⟨by decide +kernel, by decide⟩, by decide⟩, .empty⟩,
    ⟨by decide, by decide, .ofPieces _, .ofPieces _⟩, ⟨.default _, .default _⟩⟩, fun turns => ?_⟩
  let client : Reader := { stream := .ofPieces [] }
  have hhead : (sendingHead 1000 getRequest client {}).result = .ok () := by decide +kernel
  rw [exchange_eq_join hhead]
  exact Exchanged.join_failDown (by decide +kernel) (by decide +kernel)

/-- A long extension in an answer, an extension that is no text, and two empty lines in front of an
accepted head each break an exchange that is well-formed. -/
theorem exchange_incomplete :
    Refused getRequest [] (cutAnswer (List.replicate 4097 97)) .invalidRequest ∧
    Refused chunkedRequest [quotedBody.bytes] [ascii "HTTP/1.1 204 No Content\r\n\r\n"]
      .invalidRequest ∧
    Refused getRequest [] [ascii "\r\n\r\nHTTP/1.1 204 No Content\r\n\r\n"] .invalidResponse := by
  refine ⟨long_refused ?_ ?_ ?_, quoted_refused, emptyLines_refused⟩
  · intro hmem
    exact absurd (List.eq_of_mem_replicate hmem) (by decide)
  · rw [List.length_replicate]
    decide
  · rw [List.length_replicate]
    decide

end Http
end Intercept
