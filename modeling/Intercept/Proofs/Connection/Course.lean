import Intercept.Connection.Handler
import Intercept.Proofs.Http.Exchange
import Intercept.Proofs.Relay

/-!
# The courses a connection can take

Three ways lead to a target, and each of them can end early at many places. Seen from outside they
all take one of a few courses, and what holds of every run is read off these.

* `Run.Carries client server run`: what went either way, measured against what both sides send.
* `Course`: how a connection goes on once its first bytes were looked at.
* `Handled`: how a connection goes from the start.

Results:
* `Handler.transport_carries`: a relay carries its two streams.
* `Handler.viaAddress_course`, `viaTls_course`, `viaHttp_course`: each way takes one of the courses.
* `Handler.handle_handled`: so does every connection.
-/

namespace Intercept

namespace Run

/-- What went either way, given all that the client sends and all that the dialed server sends. -/
structure Carries (client server : Bytes) (run : Run) : Prop where
  up : Taken.all run.toServer <+: client
  down : Taken.all run.toClient <+: server
  /-- When the client's stream ended the relay, the server has got all of it. -/
  upEnded : run.tally.bind (·.finish) = some ⟨.toServer, .ended⟩ → Taken.all run.toServer = client
  /-- When the server's stream ended the relay, the client has got all of it. -/
  downEnded : run.tally.bind (·.finish) = some ⟨.toClient, .ended⟩ → Taken.all run.toClient = server

/-- Nothing went either way. -/
structure Quiet (run : Run) : Prop where
  toServer : run.toServer = []
  toClient : run.toClient = []
  tally : run.tally = none

variable {client server sent got : Bytes} {run : Run} {steps : List (Nat × Step)}

/-- A run that carries on where both streams were read before carries all of them. -/
theorem Carries.behind (h : run.Carries client server) (toServer toClient : List Taken) :
    Carries (Taken.all toServer ++ client) (Taken.all toClient ++ server)
      { run with toServer := toServer ++ run.toServer, toClient := toClient ++ run.toClient } where
  up := by simpa using h.up
  down := by simpa using h.down
  upEnded hf := by simpa using h.upEnded hf
  downEnded hf := by simpa using h.downEnded hf

/-- A run without a relay carries what went either way. -/
theorem Carries.of_tally (hu : Taken.all run.toServer <+: client)
    (hd : Taken.all run.toClient <+: server) (ht : run.tally = none) :
    run.Carries client server := by
  refine ⟨hu, hd, ?_, ?_⟩ <;> rw [ht] <;> nofun

end Run

/-- How a connection goes on once its first bytes were looked at. `client` is all that the client
sends, `path` what it was taken to speak. -/
inductive Course (h : Handler) (gate : Gate) (client : Bytes) (path : Protocol) : Run → Prop
  /-- It ends before there is a target. -/
  | stopped {run : Run} (quiet : run.Quiet) (steps : run.steps = [])
      (fate : ∀ outcome, run.fate ≠ .ended outcome) : Course h gate client path run
  /-- The gate does not let it go to its target. -/
  | bypassed {run : Run} (time : Nat) (target : Text)
      (answer : gate.checkDestination target = .bypassed) (quiet : run.Quiet)
      (steps : run.steps = [(time, .checkedDestination target .bypassed)])
      (fate : run.fate = .ended (.bypassed path target)) : Course h gate client path run
  /-- The time limit passes before the dialer answers. -/
  | dialing {run : Run} (time : Nat) (target : Text)
      (answer : gate.checkDestination target = .allow) (quiet : run.Quiet)
      (steps : run.steps =
        [(time, .checkedDestination target .allow), (time, .dialing tcp target)])
      (fate : run.fate = .cancelled) : Course h gate client path run
  /-- The dialer does not reach the target. -/
  | refused {run : Run} (time later : Nat) (target : Text) (e : DialError)
      (answer : gate.checkDestination target = .allow) (quiet : run.Quiet)
      (result : (h.dialer tcp target).result = .error e)
      (steps : run.steps =
        [(time, .checkedDestination target .allow), (time, .dialing tcp target),
          (later, .dialed tcp target (some e))])
      (fate : run.fate = .failed (.dial e)) : Course h gate client path run
  /-- The target is reached, and bytes go both ways. -/
  | connected {run : Run} (time later : Nat) (target : Text) (far : FarEnd)
      (answer : gate.checkDestination target = .allow)
      (result : (h.dialer tcp target).result = .ok far)
      (carries : run.Carries client far.source.bytes)
      (relayed : path ≠ .http → run.tally.isSome)
      (steps : run.steps =
        [(time, .checkedDestination target .allow), (time, .dialing tcp target),
          (later, .dialed tcp target none)])
      (fate : ∀ outcome, run.fate = .ended outcome → outcome = .completed path target) :
      Course h gate client path run

namespace Handler

variable (h : Handler) (gate : Gate) (limit now : Nat) {client : Bytes}

theorem checkDestination_allow {gate : Gate} {target : Text}
    (hb : gate.checkDestination target ≠ .bypassed) : gate.checkDestination target = .allow := by
  unfold Gate.checkDestination at hb ⊢
  split at hb <;> simp_all

/-! ## The ways to a target -/

/-- Dialing takes one of the courses, if what comes of a connection carries its two streams. -/
theorem connect_course {path : Protocol} {target : Text} {go : Nat → FarEnd → Run}
    (hgo : ∀ time far, (go time far).Carries client far.source.bytes ∧
      (path ≠ .http → (go time far).tally.isSome) ∧ (go time far).steps = [] ∧
      ∀ outcome, (go time far).fate = .ended outcome → outcome = .completed path target) :
    Course h gate client path (h.connect gate limit now path target go) := by
  unfold connect
  simp only
  split
  · rename_i hb
    exact .bypassed now target hb ⟨rfl, rfl, rfl⟩ (by rw [← hb]; rfl) rfl
  · rename_i hb
    have ha := checkDestination_allow hb
    rw [ha]
    split
    · exact .dialing now target ha ⟨rfl, rfl, rfl⟩ rfl rfl
    · split
      · rename_i e he
        exact .refused now _ target e ha ⟨rfl, rfl, rfl⟩ he rfl rfl
      · rename_i far hf
        obtain ⟨hc, ht, hs, ho⟩ := hgo (now + (h.dialer tcp target).delay) far
        refine .connected now (now + (h.dialer tcp target).delay) target far ha hf
          ⟨hc.up, hc.down, hc.upEnded, hc.downEnded⟩ ht ?_ ho
        show _ ++ (go _ far).steps = _
        rw [hs]
        rfl

/-- A relay carries its two streams. -/
theorem transport_carries (outcome : Outcome) (client : Replay) (clientSink : Sink)
    (server : Replay) (serverSink : Sink) :
    (h.transport gate limit now outcome client clientSink server serverSink).Carries
      client.bytes server.bytes := by
  have hup : Flow.Carries client.bytes
      { source := client, sink := serverSink, since := now } := rfl
  have hdown : Flow.Carries server.bytes
      { source := server, sink := clientSink, since := now } := rfl
  have hd := relay_delivers limit h.options.idle (r := ⟨h.turns, _, _⟩) hup hdown
  exact ⟨hd.up, hd.down, hd.upEnded, hd.downEnded⟩

theorem transport_fate {outcome outcome' : Outcome} {client server : Replay}
    {clientSink serverSink : Sink}
    (hf : (h.transport gate limit now outcome client clientSink server serverSink).fate =
      .ended outcome') : outcome' = outcome := by
  unfold transport at hf
  simp only at hf
  split at hf <;> simp_all

/-- A stream that is relayed from its first byte on takes one of the courses. -/
theorem tunnel_course {path : Protocol} {target : Text} {stream : Replay} {sink : Sink}
    (hs : stream.bytes = client) :
    Course h gate client path (h.tunnel gate limit now path target stream sink) := by
  subst hs
  exact h.connect_course gate limit now fun time far =>
    ⟨h.transport_carries gate limit time _ stream sink
        (.ofSource { far.source with start := time }) far.sink,
      fun _ => rfl, rfl, fun _ => h.transport_fate gate limit time⟩

theorem viaAddress_course {dst : Socket} {stream : Replay} {sink : Sink}
    (hs : stream.bytes = client) :
    Course h gate client .blind (h.viaAddress gate limit now dst stream sink) :=
  h.tunnel_course gate limit now hs

/-- The record that holds the ClientHello is put back before the stream is relayed. -/
theorem viaTls_course {deadline : Nat} {dst : Socket} {stream : Replay} {sink : Sink}
    (hs : stream.bytes = client) :
    Course h gate client .tls (h.viaTls gate limit deadline now dst stream sink) := by
  unfold viaTls
  simp only
  split
  · split
    · exact .stopped ⟨rfl, rfl, rfl⟩ rfl nofun
    · exact .stopped ⟨rfl, rfl, rfl⟩ rfl nofun
  · exact .stopped ⟨rfl, rfl, rfl⟩ rfl nofun
  · rename_i u hu
    obtain ⟨record, hbuffer, hrest⟩ := Tls.readRecord_ok hu
    split
    · exact .stopped ⟨rfl, rfl, rfl⟩ rfl nofun
    · refine h.tunnel_course gate limit _ ?_
      rw [Replay.bytes_putBack, hbuffer, List.nil_append, hrest, hs]

/-- A request and its answer, and what is relayed after a switch of protocols, are front pieces of
the two streams: the bytes behind the request's head and body are read on where they were left. -/
theorem converse_carries (target : Text) (request : Http.Request) (reader : Http.Reader)
    (sink : Sink) (far : FarEnd) :
    (h.converse gate limit now target request reader sink far).Carries
      (request.raw ++ reader.bytes) far.source.bytes := by
  have hc := Http.exchange_carries h.turns limit h.options.idle request
    { reader with now := now } sink (.ofSource { far.source with start := now }) far.sink
  unfold converse
  simp only
  generalize Http.exchange h.turns limit h.options.idle request { reader with now := now } sink
    (.ofSource { far.source with start := now }) far.sink = done at hc ⊢
  split
  · exact .of_tally hc.up_isPrefix hc.down_isPrefix rfl
  · exact .of_tally hc.up_isPrefix hc.down_isPrefix rfl
  · exact .of_tally hc.up_isPrefix hc.down_isPrefix rfl
  · rename_i hr
    obtain ⟨hup, hdown⟩ := hc.bytes_of_ok hr
    have ht := h.transport_carries gate limit done.time (.completed .http target)
      (done.up.reader.stream.putBack done.up.reader.buffer) done.down.sink
      (done.down.reader.stream.putBack done.down.reader.buffer) done.up.sink
    have hall := ht.behind done.up.taken.reverse done.down.taken.reverse
    rw [Replay.bytes_putBack, Replay.bytes_putBack] at hall
    rw [show request.raw ++ reader.bytes = _ from hup.symm,
      show far.source.bytes = _ from hdown.symm]
    exact hall

theorem converse_fate {target : Text} {request : Http.Request} {reader : Http.Reader} {sink : Sink}
    {far : FarEnd} {outcome : Outcome}
    (hf : (h.converse gate limit now target request reader sink far).fate = .ended outcome) :
    outcome = .completed .http target := by
  unfold converse at hf
  simp only at hf
  split at hf
  · cases hf
  · cases hf
  · cases hf
    rfl
  · exact h.transport_fate gate limit _ hf

theorem converse_steps (target : Text) (request : Http.Request) (reader : Http.Reader) (sink : Sink)
    (far : FarEnd) : (h.converse gate limit now target request reader sink far).steps = [] := by
  unfold converse
  simp only
  split <;> rfl

/-- The head that was cut off and what the reader still holds are what the client sends. -/
theorem viaHttp_course {deadline : Nat} {stream : Replay} {sink : Sink}
    (hs : stream.bytes = client) :
    Course h gate client .http (h.viaHttp gate limit deadline now stream sink) := by
  unfold viaHttp
  simp only
  split
  · split
    · exact .stopped ⟨rfl, rfl, rfl⟩ rfl nofun
    · exact .stopped ⟨rfl, rfl, rfl⟩ rfl nofun
  · exact .stopped ⟨rfl, rfl, rfl⟩ rfl nofun
  · rename_i request hr
    split
    · exact .stopped ⟨rfl, rfl, rfl⟩ rfl nofun
    · rename_i host _
      have hb := (Http.Reader.readRequest_bytes hr).trans (show [] ++ stream.bytes = client from hs)
      refine h.connect_course gate limit _ fun time far => ⟨?_, nofun, ?_, ?_⟩
      · rw [← hb]
        exact h.converse_carries gate limit time _ request _ sink far
      · exact h.converse_steps gate limit time _ request _ sink far
      · exact fun _ => h.converse_fate gate limit time

/-! ## From the start -/

/-- Whatever the first bytes show, a connection takes one of the courses, with at most one step
before it. -/
theorem route_course (dst : Socket) (c : Inbound) :
    ∃ path seen run, h.route gate limit now dst c = Run.after seen run ∧
      Course h gate c.input.bytes path run ∧
      (seen = [] ∧ path ≠ .http ∨ ∃ time, seen = [(time, .sniffed path)]) := by
  unfold route
  simp only
  split
  · refine ⟨.blind, [], _, rfl, h.viaAddress_course gate limit now ?_, .inl ⟨rfl, nofun⟩⟩
    exact Replay.bytes_putBack [] c.input
  · split
    · refine ⟨.blind, [], _, (Run.after_nil _).symm, ?_, .inl ⟨rfl, nofun⟩⟩
      exact .stopped ⟨rfl, rfl, rfl⟩ rfl nofun
    · split
      · refine ⟨.blind, [], _, (Run.after_nil _).symm, ?_, .inl ⟨rfl, nofun⟩⟩
        exact .stopped ⟨rfl, rfl, rfl⟩ rfl nofun
      · have hs := sniff_bytes (min limit (now + h.options.sniffTimeout)) now c.input
        refine ⟨_, _, _, rfl, ?_, .inr ⟨_, rfl⟩⟩
        split
        · rename_i hp
          rw [hp]
          exact h.viaTls_course gate limit _ hs
        · rename_i hp
          rw [hp]
          exact h.viaHttp_course gate limit _ hs
        · rename_i hp
          rw [hp]
          exact h.viaAddress_course gate limit _ hs

end Handler

/-- How a connection goes from the start: `answer` is what the gate says about the client, `gate` is
the gate from then on. -/
inductive Handled (h : Handler) (gate : Gate) (answer : Admission) (now : Nat) (c : Inbound) :
    Run → Prop
  | rateLimited {run : Run} (denied : answer = .rateLimited)
      (eq : run = Run.after [(now, .checkedClient .rateLimited)]
        { fate := .ended .rateLimited, time := now, gate := gate }) :
      Handled h gate answer now c run
  | unresolved {run : Run} (e : ResolveError) (allowed : answer = .allow)
      (result : h.resolver c.peer c.near = .error e) (quiet : run.Quiet)
      (steps : run.steps = [(now, .checkedClient .allow), (now, .resolved (.error e))])
      (fate : run.fate = .failed (.resolve e)) : Handled h gate answer now c run
  | resolved {run : Run} (dst : Socket) (path : Protocol) (seen : List (Nat × Step))
      (allowed : answer = .allow) (result : h.resolver c.peer c.near = .ok dst)
      (course : Course h gate c.input.bytes path run)
      (looked : seen = [] ∧ path ≠ .http ∨ ∃ time, seen = [(time, .sniffed path)]) :
      Handled h gate answer now c
        (run.after ((now, .checkedClient .allow) :: (now, .resolved (.ok dst)) :: seen))

theorem Gate.checkClient_allow {gate : Gate} {moment : Nat} {peer : Socket}
    (h : (gate.checkClient moment peer).1 ≠ .rateLimited) :
    (gate.checkClient moment peer).1 = .allow := by
  unfold checkClient at h ⊢
  split
  · rfl
  · simp only at h ⊢
    split <;> simp_all

/-- **Every connection is handled in one of these ways.** -/
theorem Handler.handle_handled (h : Handler) (gate : Gate) (moment limit now : Nat) (c : Inbound) :
    Handled h (gate.checkClient moment c.peer).2 (gate.checkClient moment c.peer).1 now c
      (h.handle gate moment limit now c) := by
  have hallow := @Gate.checkClient_allow gate moment c.peer
  unfold handle
  generalize gate.checkClient moment c.peer = asked at hallow ⊢
  obtain ⟨answer, gate⟩ := asked
  simp only at hallow ⊢
  split
  · rename_i hr
    exact .rateLimited hr (by rw [hr])
  · rename_i hr
    rw [hallow hr]
    split
    · rename_i e he
      exact .unresolved e rfl he ⟨rfl, rfl, rfl⟩ rfl rfl
    · rename_i dst hdst
      obtain ⟨path, seen, run, heq, hcourse, hseen⟩ := h.route_course gate limit now dst c
      rw [heq]
      exact .resolved dst path seen rfl hdst hcourse hseen

end Intercept
