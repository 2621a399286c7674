import Intercept.Proofs.Connection.Course
import Intercept.Proofs.Sniff.Deadline
import Intercept.Proofs.Stream.Reads

/-!
# The sniffing deadline

A client has until one deadline to show where it wants to go. The deadline stands over everything
that is read before a target is dialed: the first bytes, the probe, a whole ClientHello, a whole
request head with its own patience between two reads.

* `Run.DialsBy`: a run that is through with the client by a deadline.
* `Run.AgreesUntilDialing`: runs that are the same up to the dialing.

Results:
* `Tls.readRecord_time_le`, `Http.Reader.now_readRequest_le`: the reads behind sniffing.
* `Handler.route_dialsBy`: no way to a target takes longer than until the deadline.
* `Handler.route_hush`: on no way anything that the client does later makes a difference before.
* `Handler.handle_sniffDeadline`: the deadline bounds every wait for the client.
-/

namespace Intercept

/-! ## Records -/

namespace Tls

/-- What reading a record came to, of a peer that falls silent at the deadline. -/
def RecordRead.hush (deadline : Nat) (r : RecordRead) : RecordRead :=
  { r with rest := r.rest.hush deadline }

theorem readRecord_time_le (limit : Nat) (buffer : Bytes) (now : Nat) (r : Replay) :
    (readRecord limit buffer now r).time ≤ max now limit := by
  have hhead := r.gather_time_le limit headerLength [] now
  unfold readRecord
  generalize r.gather limit headerLength [] now = head at hhead ⊢
  simp only
  split
  · exact hhead
  · exact hhead
  · exact hhead
  · split
    · exact hhead
    · split
      · exact hhead
      · exact Nat.le_trans (head.rest.gather_time_le ..) (by omega)

/-- The record that is read by the deadline does not hang on what the peer does later. -/
theorem readRecord_hush {deadline limit now : Nat} (hb : max now limit ≤ deadline) (buffer : Bytes)
    (r : Replay) :
    readRecord limit buffer now (r.hush deadline) =
      (readRecord limit buffer now r).hush deadline := by
  have hhead := r.gather_time_le limit headerLength [] now
  unfold readRecord
  rw [Replay.gather_hush hb]
  generalize r.gather limit headerLength [] now = head at hhead ⊢
  simp only
  split
  · rfl
  · rfl
  · rfl
  · split
    · rfl
    · split
      · rfl
      · rw [Replay.gather_hush (by omega)]
        rfl

end Tls

/-! ## Request heads -/

namespace Http.Reader

variable {deadline limit : Nat}

/-- The reader of a peer that falls silent at the deadline. -/
def hush (deadline : Nat) (r : Reader) : Reader := { r with stream := r.stream.hush deadline }

/-- What reading ahead comes to, of a peer that falls silent at the deadline. -/
def Filled.hush (deadline : Nat) : Filled → Filled
  | more r => more (r.hush deadline)
  | ended r => ended (r.hush deadline)
  | stopped s r => stopped s (r.hush deadline)

theorem deadline_le (limit : Nat) (r : Reader) : r.deadline limit ≤ max r.now limit := by
  unfold deadline
  split
  · exact Nat.min_le_left _ _
  · exact Nat.le_refl _

/-- Patience can only make a wait shorter. -/
theorem now_fill_le (limit : Nat) (r : Reader) : (r.fill limit).reader.now ≤ max r.now limit := by
  have hdeadline := r.deadline_le limit
  unfold fill
  split
  · exact hdeadline
  · rename_i d hd
    have htime : d.time ≤ max r.now (r.deadline limit) := (Replay.readBy_eq_some_iff.1 hd).2
    split <;> exact Nat.le_trans htime (by omega)

theorem now_le_of_fill {r : Reader} {filled : Filled} (h : r.fill limit = filled) :
    filled.reader.now ≤ max r.now limit := h ▸ now_fill_le limit r

theorem fill_hush {r : Reader} (hb : max r.now limit ≤ deadline) :
    (r.hush deadline).fill limit = (r.fill limit).hush deadline := by
  have hdeadline := r.deadline_le limit
  unfold fill
  rw [show (r.hush deadline).stream = r.stream.hush deadline from rfl,
    show (r.hush deadline).deadline limit = r.deadline limit from rfl,
    show (r.hush deadline).now = r.now from rfl, Replay.readBy_hush (by omega)]
  cases hd : r.stream.readBy (r.deadline limit) r.now readAhead with
  | none => rfl
  | some d =>
    obtain ⟨time, delivery, rest⟩ := d
    cases delivery with
    | bytes data => cases data <;> rfl
    | ended => rfl
    | fault f => rfl

theorem now_readHead_le (incomplete : Error) (limit : Nat) (r : Reader) :
    (r.readHead incomplete limit).reader.now ≤ max r.now limit := by
  fun_induction readHead incomplete limit r with
  | case1 | case2 => exact Nat.le_max_left _ _
  | case3 r _ _ r' hr ih =>
    have hfill : r'.now ≤ max r.now limit := now_le_of_fill hr
    omega
  | case4 r _ _ r' hr => exact now_le_of_fill hr
  | case5 r _ _ s r' hr => exact now_le_of_fill hr

theorem readHead_hush (incomplete : Error) {r : Reader} (hb : max r.now limit ≤ deadline) :
    (r.hush deadline).readHead incomplete limit =
      ⟨(r.readHead incomplete limit).result,
        (r.readHead incomplete limit).reader.hush deadline⟩ := by
  fun_induction readHead incomplete limit r with
  | case1 r n hn => rw [readHead, show headEnd? (r.hush deadline).buffer = some n from hn]; rfl
  | case2 r hn hlong =>
    rw [readHead, show headEnd? (r.hush deadline).buffer = none from hn]
    simp only [show mostInHead < (r.hush deadline).buffer.length from hlong, if_true]
  | case3 r hn hfits r' hr ih =>
    have hfill : r'.now ≤ max r.now limit := now_le_of_fill hr
    rw [readHead_eq incomplete (r.hush deadline) hn hfits, fill_hush hb, hr]
    exact ih (by omega)
  | case4 r hn hfits r' hr =>
    rw [readHead_eq incomplete (r.hush deadline) hn hfits, fill_hush hb, hr]
    rfl
  | case5 r hn hfits s r' hr =>
    rw [readHead_eq incomplete (r.hush deadline) hn hfits, fill_hush hb, hr]
    rfl

theorem now_readRequest_le (limit : Nat) (r : Reader) :
    (r.readRequest limit).reader.now ≤ max r.now limit := by
  have h := now_readHead_le .invalidRequest limit r
  unfold readRequest
  simp only
  split <;> exact h

/-- The request that is read by the deadline does not hang on what the peer does later. -/
theorem readRequest_hush {r : Reader} (hb : max r.now limit ≤ deadline) :
    (r.hush deadline).readRequest limit =
      ⟨(r.readRequest limit).result, (r.readRequest limit).reader.hush deadline⟩ := by
  unfold readRequest
  rw [readHead_hush _ hb]
  simp only
  split <;> rfl

end Http.Reader

/-! ## Runs -/

namespace Run

/-- The run does nothing later than the deadline but what comes of a dialing. -/
structure DialsBy (deadline : Nat) (run : Run) : Prop where
  step_le : ∀ t step, (t, step) ∈ run.steps → (∀ n x e, step ≠ .dialed n x e) → t ≤ deadline
  time_le : (∀ t n x, (t, Step.dialing n x) ∉ run.steps) → run.time ≤ deadline

/-- The runs are the same up to the dialing, and altogether where there is none. -/
structure AgreesUntilDialing (run run' : Run) : Prop where
  steps : run.steps = run'.steps
  eq : (∀ t n x, (t, Step.dialing n x) ∉ run.steps) → run = run'

variable {deadline : Nat} {run run' : Run} {steps : List (Nat × Step)}

theorem AgreesUntilDialing.refl (run : Run) : run.AgreesUntilDialing run := ⟨rfl, fun _ => rfl⟩

/-- A run that stops at once is through with the client. -/
theorem DialsBy.of_steps (hsteps : run.steps = []) (htime : run.time ≤ deadline) :
    run.DialsBy deadline := ⟨by simp [hsteps], fun _ => htime⟩

/-- A run that dials does so by the deadline if nothing but the answer comes later. -/
theorem DialsBy.of_dialing {t : Nat} {network target : Text}
    (hdialing : (t, Step.dialing network target) ∈ run.steps)
    (hsteps : ∀ e ∈ run.steps, e.1 ≤ deadline ∨ ∃ n x answer, e.2 = .dialed n x answer) :
    run.DialsBy deadline := by
  refine ⟨fun t step hm hs => ?_, fun hno => absurd hdialing (hno _ _ _)⟩
  rcases hsteps _ hm with hle | ⟨n, x, answer, heq⟩
  · exact hle
  · exact absurd heq (hs n x answer)

theorem DialsBy.after (h : run.DialsBy deadline) (hsteps : ∀ e ∈ steps, e.1 ≤ deadline) :
    (run.after steps).DialsBy deadline := by
  refine ⟨fun t step hm hs => ?_, fun hno => h.time_le fun t n x hm => ?_⟩
  · rcases List.mem_append.1 hm with hm | hm
    · exact hsteps _ hm
    · exact h.step_le t step hm hs
  · exact hno t n x (List.mem_append_right _ hm)

theorem AgreesUntilDialing.after (h : run.AgreesUntilDialing run') (steps : List (Nat × Step)) :
    (run.after steps).AgreesUntilDialing (run'.after steps) := by
  refine ⟨congrArg (steps ++ ·) h.steps, fun hno => ?_⟩
  rw [h.eq fun t n x hm => hno t n x (List.mem_append_right _ hm)]

end Run

/-! ## The answer of the resolver -/

section

variable {h : Handler} {gate : Gate} {run : Run} {t now : Nat} {answer : Except ResolveError Socket}

/-- Behind the resolver nothing is resolved again. -/
theorem Course.not_resolved {client : Bytes} {path : Protocol}
    (hc : Course h gate client path run) : (t, Step.resolved answer) ∉ run.steps := by
  cases hc with
  | stopped quiet steps fate => simp [steps]
  | bypassed time target answer quiet steps fate => simp [steps]
  | dialing time target answer quiet steps fate => simp [steps]
  | refused time later target e answer quiet result steps fate => simp [steps]
  | connected time later target far answer result carries relayed steps fate => simp [steps]

/-- The resolver is asked about clients that are let in, and answers at once. -/
theorem Handled.answered {said : Admission} {c : Inbound} (hh : Handled h gate said now c run)
    (hm : (t, Step.resolved answer) ∈ run.steps) :
    t = now ∧ said = .allow ∧ h.resolver c.peer c.near = answer := by
  cases hh with
  | rateLimited denied eq => simp [eq] at hm
  | unresolved e allowed result quiet steps fate =>
    obtain ⟨rfl, rfl⟩ := by simpa [steps] using hm
    exact ⟨rfl, allowed, result⟩
  | @resolved run dst path seen allowed result course looked =>
    have hseen : (t, Step.resolved answer) ∉ seen := by
      rcases looked with ⟨rfl, -⟩ | ⟨time, rfl⟩ <;> simp
    obtain ⟨rfl, rfl⟩ := by simpa [hseen, course.not_resolved] using hm
    exact ⟨rfl, allowed, result⟩

end

/-! ## The ways to a target -/

namespace Handler

variable (h : Handler) (gate : Gate) (limit : Nat) {deadline now : Nat} {dst : Socket}
  {stream : Replay} {sink : Sink}

/-- Dialing itself waits for nobody but the dialer. -/
theorem connect_dialsBy {path : Protocol} {target : Text} {go : Nat → FarEnd → Run}
    (hnow : now ≤ deadline) (hgo : ∀ time far, (go time far).steps = []) :
    (h.connect gate limit now path target go).DialsBy deadline := by
  unfold connect
  simp only
  split
  · exact (Run.DialsBy.of_steps rfl hnow).after (by simpa using hnow)
  · -- From here on a target is dialed, and of the steps only the answer can come later.
    split
    · exact .of_dialing (.tail _ (.head _)) (by simp [hnow])
    · split
      · exact .of_dialing (.tail _ (.head _)) (by simp [hnow])
      · exact .of_dialing (.tail _ (.head _)) (by simp [hgo, hnow])

/-- What becomes of a connection shows only behind the dialing. -/
theorem connect_agrees {path : Protocol} {target : Text} {go go' : Nat → FarEnd → Run}
    (hgo : ∀ time far, (go time far).steps = []) (hgo' : ∀ time far, (go' time far).steps = []) :
    (h.connect gate limit now path target go).AgreesUntilDialing
      (h.connect gate limit now path target go') := by
  unfold connect
  simp only
  split
  · exact .refl _
  · split
    · exact .refl _
    · split
      · exact .refl _
      · refine ⟨by simp [hgo, hgo'], fun hno => absurd (by simp) (hno now tcp target)⟩

theorem tunnel_dialsBy {path : Protocol} {target : Text} (hnow : now ≤ deadline) :
    (h.tunnel gate limit now path target stream sink).DialsBy deadline := by
  unfold tunnel
  exact h.connect_dialsBy gate limit hnow fun _ _ => rfl

theorem tunnel_agrees {path : Protocol} {target : Text} (stream stream' : Replay) :
    (h.tunnel gate limit now path target stream sink).AgreesUntilDialing
      (h.tunnel gate limit now path target stream' sink) := by
  unfold tunnel
  exact h.connect_agrees gate limit (fun _ _ => rfl) fun _ _ => rfl

theorem viaAddress_dialsBy (hnow : now ≤ deadline) :
    (h.viaAddress gate limit now dst stream sink).DialsBy deadline :=
  h.tunnel_dialsBy gate limit hnow

theorem viaAddress_agrees (stream stream' : Replay) :
    (h.viaAddress gate limit now dst stream sink).AgreesUntilDialing
      (h.viaAddress gate limit now dst stream' sink) :=
  h.tunnel_agrees gate limit stream stream'

theorem viaTls_dialsBy (hnow : now ≤ deadline) :
    (h.viaTls gate limit deadline now dst stream sink).DialsBy deadline := by
  have htime := Tls.readRecord_time_le (min limit deadline) [] now stream
  have hle : (Tls.readRecord (min limit deadline) [] now stream).time ≤ deadline := by omega
  unfold viaTls
  simp only
  split
  · split
    · exact .of_steps rfl hle
    · exact .of_steps rfl hle
  · exact .of_steps rfl hle
  · split
    · exact .of_steps rfl hle
    · exact h.tunnel_dialsBy gate limit hle

theorem viaTls_hush (hnow : now ≤ deadline) (stream : Replay) :
    (h.viaTls gate limit deadline now dst (stream.hush deadline) sink).AgreesUntilDialing
      (h.viaTls gate limit deadline now dst stream sink) := by
  unfold viaTls
  rw [Tls.readRecord_hush (show max now (min limit deadline) ≤ deadline by omega)]
  obtain ⟨result, buffer, time, rest⟩ := Tls.readRecord (min limit deadline) [] now stream
  simp only [Tls.RecordRead.hush]
  cases result with
  | error e => cases e <;> exact .refl _
  | ok _ =>
    cases Tls.serverName? buffer with
    | error e => exact .refl _
    | ok name => exact h.tunnel_agrees gate limit _ _

theorem viaHttp_dialsBy (hnow : now ≤ deadline) :
    (h.viaHttp gate limit deadline now stream sink).DialsBy deadline := by
  have htime := Http.Reader.now_readRequest_le (min limit deadline)
    { stream := stream, patience := some h.options.idle, now := now }
  have hle : (Http.Reader.readRequest (min limit deadline)
      { stream := stream, patience := some h.options.idle, now := now }).reader.now ≤ deadline :=
    Nat.le_trans htime (by simp only; omega)
  unfold viaHttp
  simp only
  split
  · split
    · exact .of_steps rfl hle
    · exact .of_steps rfl hle
  · exact .of_steps rfl hle
  · split
    · exact .of_steps rfl hle
    · exact h.connect_dialsBy gate limit hle fun time far => h.converse_steps ..

theorem viaHttp_hush (hnow : now ≤ deadline) (stream : Replay) :
    (h.viaHttp gate limit deadline now (stream.hush deadline) sink).AgreesUntilDialing
      (h.viaHttp gate limit deadline now stream sink) := by
  have hread := @Http.Reader.readRequest_hush deadline (min limit deadline)
    { stream := stream, patience := some h.options.idle, now := now } (by simp only; omega)
  unfold Http.Reader.hush at hread
  unfold viaHttp
  simp only at hread ⊢
  rw [hread]
  generalize Http.Reader.readRequest (min limit deadline)
    { stream := stream, patience := some h.options.idle, now := now } = head
  obtain ⟨result, reader⟩ := head
  cases result with
  | error e => cases e <;> exact .refl _
  | ok request =>
    simp only
    cases request.host with
    | none => exact .refl _
    | some host =>
      exact h.connect_agrees gate limit (fun _ _ => h.converse_steps ..)
        fun _ _ => h.converse_steps ..

/-! ## From the resolver's answer on -/

variable {c : Inbound}

/-- With sniffing on, no way to a target takes longer than until the deadline. -/
theorem route_dialsBy (hs : h.options.sniffing = true) :
    (h.route gate limit now dst c).DialsBy (now + h.options.sniffTimeout) := by
  have hnow : now ≤ now + h.options.sniffTimeout := Nat.le_add_right _ _
  have htime := sniff_time_le (min limit (now + h.options.sniffTimeout)) now c.input
  unfold route
  simp only [hs, Bool.not_true, Bool.false_eq_true, if_false]
  generalize now + h.options.sniffTimeout = deadline at hnow htime ⊢
  generalize sniff (min limit deadline) now c.input = s at htime ⊢
  have hle : s.time ≤ deadline := by omega
  split
  · exact .of_steps rfl hnow
  · split
    · exact .of_steps rfl hle
    · refine Run.DialsBy.after ?_ (by simpa using hle)
      split
      · exact h.viaTls_dialsBy gate limit hle
      · exact h.viaHttp_dialsBy gate limit hle
      · exact h.viaAddress_dialsBy gate limit hle

/-- A client that goes on behind the deadline and one that falls silent then are treated alike until
a target is dialed. -/
theorem route_hush (hs : h.options.sniffing = true) :
    (h.route gate limit now dst
        { c with input := c.input.hush (now + h.options.sniffTimeout) }).AgreesUntilDialing
      (h.route gate limit now dst c) := by
  have hnow : now ≤ now + h.options.sniffTimeout := Nat.le_add_right _ _
  have htime := sniff_time_le (min limit (now + h.options.sniffTimeout)) now c.input
  unfold route
  simp only [hs, Bool.not_true, Bool.false_eq_true, if_false]
  generalize now + h.options.sniffTimeout = deadline at hnow htime ⊢
  rw [sniff_hush (by omega)]
  generalize sniff (min limit deadline) now c.input = s at htime ⊢
  have hle : s.time ≤ deadline := by omega
  by_cases hend : endOfTime ≤ deadline
  · simp only [if_pos hend]
    exact .refl _
  simp only [if_neg hend]
  by_cases hlate : s.timedOut = true ∧ limit < deadline
  · rw [if_pos (show (s.hush deadline).timedOut = true ∧ limit < deadline from hlate),
      if_pos hlate]
    exact .refl _
  rw [if_neg (show ¬((s.hush deadline).timedOut = true ∧ limit < deadline) from hlate),
    if_neg hlate]
  refine Run.AgreesUntilDialing.after ?_ [(s.time, .sniffed s.protocol)]
  rw [show (s.hush deadline).protocol = s.protocol from rfl]
  cases s.protocol with
  | tls => exact h.viaTls_hush gate limit hle s.stream
  | http => exact h.viaHttp_hush gate limit hle s.stream
  | blind => exact h.viaAddress_agrees gate limit _ _

/-- **A client that runs out of time** is sent on at the deadline, unread: to where it was headed,
with the bytes that were looked at in front of what comes behind them. -/
theorem route_timedOut (hs : h.options.sniffing = true)
    (hclock : now + h.options.sniffTimeout < endOfTime)
    (hlimit : now + h.options.sniffTimeout ≤ limit)
    (hout : (sniff (now + h.options.sniffTimeout) now c.input).timedOut = true) :
    h.route gate limit now dst c =
      (h.viaAddress gate limit (now + h.options.sniffTimeout) dst
        (sniff (now + h.options.sniffTimeout) now c.input).stream c.sink).after
        [(now + h.options.sniffTimeout, .sniffed .blind)] := by
  obtain ⟨hblind, htime⟩ := sniff_timedOut hout
  have hmax : max now (now + h.options.sniffTimeout) = now + h.options.sniffTimeout := by omega
  rw [hmax] at htime
  unfold route
  simp only [hs, Bool.not_true, Bool.false_eq_true, if_false, Nat.not_le.2 hclock,
    Nat.min_eq_right hlimit, Nat.not_lt.2 hlimit, and_false, hblind, htime]

/-! ## Whole connections -/

variable {moment : Nat}

theorem handle_dialsBy (hs : h.options.sniffing = true) :
    (h.handle gate moment limit now c).DialsBy (now + h.options.sniffTimeout) := by
  have hnow : now ≤ now + h.options.sniffTimeout := Nat.le_add_right _ _
  unfold handle
  generalize gate.checkClient moment c.peer = asked
  obtain ⟨answer, gate⟩ := asked
  simp only
  refine Run.DialsBy.after ?_ (by simp)
  split
  · exact .of_steps rfl hnow
  · split
    · exact (Run.DialsBy.of_steps rfl hnow).after (by simp)
    · exact (h.route_dialsBy gate limit hs).after (by simp)

theorem handle_hush (hs : h.options.sniffing = true) :
    (h.handle gate moment limit now
        { c with input := c.input.hush (now + h.options.sniffTimeout) }).AgreesUntilDialing
      (h.handle gate moment limit now c) := by
  unfold handle
  generalize gate.checkClient moment c.peer = asked
  obtain ⟨answer, gate⟩ := asked
  simp only
  refine Run.AgreesUntilDialing.after ?_ _
  split
  · exact .refl _
  · split
    · exact .refl _
    · exact (h.route_hush gate limit hs).after _

/-- Once the resolver has answered, a client that runs out of time is sent on at the deadline. -/
theorem handle_timedOut (hs : h.options.sniffing = true)
    (hclient : (gate.checkClient moment c.peer).1 = .allow)
    (hresolver : h.resolver c.peer c.near = .ok dst)
    (hclock : now + h.options.sniffTimeout < endOfTime)
    (hlimit : now + h.options.sniffTimeout ≤ limit)
    (hout : (sniff (now + h.options.sniffTimeout) now c.input).timedOut = true) :
    h.handle gate moment limit now c =
      (h.viaAddress (gate.checkClient moment c.peer).2 limit (now + h.options.sniffTimeout) dst
        (sniff (now + h.options.sniffTimeout) now c.input).stream c.sink).after
        [(now, .checkedClient .allow), (now, .resolved (.ok dst)),
          (now + h.options.sniffTimeout, .sniffed .blind)] := by
  unfold handle
  simp only [hclient, hresolver, h.route_timedOut _ limit hs hclock hlimit hout]
  rfl

/-- **The sniffing deadline bounds every wait for the client.** With sniffing on, whatever the
client sends and whenever it does: counted from the answer of the resolver, a target is dialed by
the deadline, and a connection for which none is dialed is over by then. Up to the dialing nobody
can tell the client from one that falls silent at the deadline, so that nothing it does later is
waited for. A client that runs out of time while its first bytes are looked at, and is not dropped
before that, is taken for blind traffic at the deadline: it is sent to where it was headed, and
what is relayed to there are the bytes that some run of reads took off its stream, followed by what
these left. -/
theorem handle_sniffDeadline (h : Handler) (gate : Gate) (moment limit now : Nat) (c : Inbound)
    (hs : h.options.sniffing = true) :
    let run := h.handle gate moment limit now c
    ∀ t answer, (t, Step.resolved answer) ∈ run.steps →
      let deadline := t + h.options.sniffTimeout
      (∀ t' network target, (t', Step.dialing network target) ∈ run.steps → t' ≤ deadline) ∧
        ((∀ t' network target, (t', Step.dialing network target) ∉ run.steps) →
          run.time ≤ deadline) ∧
        (h.handle gate moment limit now
          { c with input := c.input.hush deadline }).AgreesUntilDialing run ∧
        ∀ dst, answer = .ok dst → deadline < endOfTime → deadline ≤ limit →
          let s := sniff deadline t c.input
          s.timedOut = true →
            run = (h.viaAddress (gate.checkClient moment c.peer).2 limit deadline dst
                (s.rest.putBack s.seen) c.sink).after
              [(t, .checkedClient .allow), (t, .resolved (.ok dst)), (deadline, .sniffed .blind)] ∧
            ∃ reads, c.input.readOn reads = (s.seen, s.rest) := by
  intro run t answer hm deadline
  obtain ⟨rfl, hclient, hresolver⟩ := (h.handle_handled gate moment limit now c).answered hm
  have hby : run.DialsBy deadline := h.handle_dialsBy gate limit hs
  refine ⟨fun t' n x hd => hby.step_le t' _ hd nofun, hby.time_le, h.handle_hush gate limit hs,
    fun dst hdst hclock hlimit => ?_⟩
  intro s hout
  refine ⟨?_, sniff_gives deadline t c.input⟩
  exact h.handle_timedOut gate limit hs hclient (hresolver.trans hdst) hclock hlimit hout

/-- A client sends the bytes of a method one by one, the third of them long after the deadline. It
is sent on at the deadline, dialing takes three milliseconds, and the server gets all three. -/
theorem handle_sniffDeadline_dripping :
    let dst : Socket := ⟨.v4 ⟨192, 0, 2, 1⟩, 80, 0⟩
    let h : Handler :=
      { resolver := .fixed dst
        dialer := fun _ _ =>
          { delay := 3, result := .ok { source := { events := [⟨0, .silence⟩] } } }
        turns := fun _ => .toServer
        options := { sniffTimeout := 20 } }
    let c : Inbound :=
      { peer := ⟨.v4 ⟨192, 0, 2, 9⟩, 4000, 0⟩, near := dst
        input := .ofSource
          { start := 5
            events := [⟨2, .data [0x47]⟩, ⟨9, .data [0x45]⟩, ⟨60, .data [0x54]⟩, ⟨70, .close⟩] } }
    let run := h.handle {} 0 1000 5 c
    (5, Step.resolved (.ok dst)) ∈ run.steps ∧
      (∀ t network target, (t, Step.dialing network target) ∈ run.steps → t ≤ 25) ∧
      (∃ gate stream, run = (h.viaAddress gate 1000 25 dst stream c.sink).after
        [(5, .checkedClient .allow), (5, .resolved (.ok dst)), (25, .sniffed .blind)]) ∧
      (Taken.all run.toServer, run.toServer.map (·.time), run.time) =
        ([0x47, 0x45, 0x54], [28, 65], 75) := by
  intro dst h c run
  have hm : (5, Step.resolved (.ok dst)) ∈ run.steps := .tail _ (.head _)
  obtain ⟨hdial, -, -, hout⟩ := handle_sniffDeadline h {} 0 1000 5 c rfl 5 _ hm
  obtain ⟨hrun, -⟩ := hout dst rfl (by decide) (by decide) (by decide +kernel)
  exact ⟨hm, hdial, ⟨_, _, hrun⟩, by decide +kernel⟩

end Handler

end Intercept
