import Intercept.Stream.Layer

/-!
# Layers behave as one stream

However many layers are around a stream, they are read as their bytes from the outermost to the
innermost and the stream behind them, and everything but a read goes through to the stream.

* `Channel.Delivers left`: what a stream still delivers.
* `Channel.Apart side`: what a stream takes does not depend on what is read.
* `Channel.Maps f`: streams that answer alike.
* `Layers.Polls`: all that one call can do to layers.
* `Layers.seen`: what the stream inside is asked, and answers.
* `Layers.ActsAsOne`: what layers make of a run of calls, as one stream would.

Results:
* `Layers.polls_stacked`: what one call does, by induction on the layers.
* `Layers.runs_stacked`: so what a run of calls does, by induction on the calls.
* `Layers.run_seen`, `Layers.seen_reached`: so what the stream inside sees.
* `Layers.actsAsOne`: so layers behave as one stream, around any stream.
* `Layers.run_flat`: a connection in layers answers as the connection does with all their bytes put
  back in front of it.
* `layers_act_as_one`: both together.
-/

namespace Intercept

open Channel (Call Answer Polled)

variable {ε σ : Type} {c : Channel ε σ} {n : Nat}

namespace Channel

/-- Whether a call is a read. -/
def Call.isRead : Call → Bool
  | .read _ => true
  | _ => false

/-- What was asked, and in which context. -/
def Polled.asked (p : Polled ε) : ε × Call := (p.context, p.call)

/-- The bytes that a read came to. -/
def Polled.bytes (p : Polled ε) : Bytes :=
  match p.call, p.answer with
  | .read _, .data bytes => bytes
  | _, _ => []

/-- All the bytes that were read. -/
def bytesOf (polled : List (Polled ε)) : Bytes := polled.flatMap (·.bytes)

/-- All but the reads. -/
def writesOf (polled : List (Polled ε)) : List (Polled ε) := polled.filter (!·.call.isRead)

/-- `left` is what a stream still delivers: a call takes the bytes that it reads off its front. -/
def Delivers (c : Channel ε σ) (left : σ → Bytes) : Prop :=
  ∀ cx call st,
    Polled.bytes ⟨cx, call, (c.poll cx call st).1⟩ ++ left (c.poll cx call st).2 = left st

/-- Reads leave a side of a stream alone, and all other calls are answered by that side. -/
structure Apart {ω : Type} (c : Channel ε σ) (side : σ → ω) : Prop where
  read : ∀ cx room st, side (c.poll cx (.read room) st).2 = side st
  other : ∀ cx call st st', call.isRead = false → side st = side st' →
    (c.poll cx call st).1 = (c.poll cx call st').1 ∧
      side (c.poll cx call st).2 = side (c.poll cx call st').2

/-- `f` makes of a stream another one that answers alike. -/
def Maps {τ : Type} (f : σ → τ) (c : Channel ε σ) (d : Channel ε τ) : Prop :=
  ∀ cx call st, d.poll cx call (f st) = ((c.poll cx call st).1, f (c.poll cx call st).2)

/-! ## Streams and their runs -/

/-- All calls but reads go through a layer, and reads do when it has no bytes put back. -/
theorem replaying_through (c : Channel ε σ) (cx : ε) {call : Call} {pending : Bytes} (inner : σ)
    (h : call.isRead = true → pending = []) :
    c.replaying.poll cx call ⟨pending, inner⟩ =
      ((c.poll cx call inner).1, ⟨pending, (c.poll cx call inner).2⟩) := by
  cases call with
  | read room => rw [h rfl]; rfl
  | write offer => rfl
  | writeVectored offers => rfl
  | flush => rfl
  | shutdown => rfl

theorem Call.eq_read {call : Call} (h : call.isRead = true) : ∃ room, call = .read room := by
  cases call with
  | read room => exact ⟨room, rfl⟩
  | write offer => cases h
  | writeVectored offers => cases h
  | flush => cases h
  | shutdown => cases h

/-- A call goes through a layer, or reads what is put back there. -/
theorem Call.through_or (call : Call) (pending : Bytes) :
    (call.isRead = true → pending = []) ∨ ∃ room b bs, call = .read room ∧ pending = b :: bs := by
  cases hread : call.isRead with
  | false => exact .inl fun h => by cases h
  | true =>
    obtain ⟨room, rfl⟩ := Call.eq_read hread
    cases pending with
    | nil => exact .inl fun _ => rfl
    | cons b bs => exact .inr ⟨room, b, bs, rfl, rfl⟩

theorem run_cons (c : Channel ε σ) (cx : ε) (call : Call) (calls : List (ε × Call)) (st : σ) :
    c.run ((cx, call) :: calls) st =
      (⟨cx, call, (c.poll cx call st).1⟩ :: (c.run calls (c.poll cx call st).2).1,
        (c.run calls (c.poll cx call st).2).2) := rfl

theorem bytesOf_cons (p : Polled ε) (polled : List (Polled ε)) :
    bytesOf (p :: polled) = p.bytes ++ bytesOf polled := List.flatMap_cons

theorem Polled.bytes_other {p : Polled ε} (h : p.call.isRead = false) : p.bytes = [] := by
  obtain ⟨cx, call, answer⟩ := p
  cases call with
  | read room => cases h
  | write offer => rfl
  | writeVectored offers => rfl
  | flush => rfl
  | shutdown => rfl

theorem writesOf_read {p : Polled ε} (h : p.call.isRead = true) (polled : List (Polled ε)) :
    writesOf (p :: polled) = writesOf polled := List.filter_cons_of_neg (by simp [h])

theorem writesOf_other {p : Polled ε} (h : p.call.isRead = false) (polled : List (Polled ε)) :
    writesOf (p :: polled) = p :: writesOf polled := List.filter_cons_of_pos (by simp [h])

theorem asked_run (c : Channel ε σ) (calls : List (ε × Call)) (st : σ) :
    (c.run calls st).1.map Polled.asked = calls := by
  induction calls generalizing st with
  | nil => rfl
  | cons asked calls ih => rw [run_cons, List.map_cons, ih]; rfl

theorem run_append (c : Channel ε σ) (calls calls' : List (ε × Call)) (st : σ) :
    c.run (calls ++ calls') st =
      ((c.run calls st).1 ++ (c.run calls' (c.run calls st).2).1,
        (c.run calls' (c.run calls st).2).2) := by
  induction calls generalizing st with
  | nil => rfl
  | cons asked calls ih => rw [List.cons_append, run_cons, run_cons, ih]; rfl

theorem Maps.comp {τ υ : Type} {f : σ → τ} {g : τ → υ} {d : Channel ε τ} {e : Channel ε υ}
    (hf : c.Maps f d) (hg : d.Maps g e) : c.Maps (g ∘ f) e := fun cx call st => by
  rw [Function.comp, hg, hf]
  rfl

/-- Streams that answer alike do so inside a layer. -/
theorem Maps.replaying {τ : Type} {f : σ → τ} {d : Channel ε τ} (h : c.Maps f d) :
    c.replaying.Maps (fun l => ⟨l.pending, f l.inner⟩) d.replaying := by
  intro cx call l
  obtain ⟨pending, inner⟩ := l
  obtain hpending | ⟨room, b, bs, rfl, rfl⟩ := call.through_or pending
  · rw [replaying_through _ _ _ hpending, replaying_through _ _ _ hpending, h]
  · rfl

theorem Maps.run {τ : Type} {f : σ → τ} {d : Channel ε τ} (h : c.Maps f d)
    (calls : List (ε × Call)) (st : σ) :
    d.run calls (f st) = ((c.run calls st).1, f (c.run calls st).2) := by
  induction calls generalizing st with
  | nil => rfl
  | cons asked calls ih => rw [run_cons, run_cons, h, ih]

theorem filter_asked (polled : List (Polled ε)) :
    (polled.map Polled.asked).filter (!·.2.isRead) = (writesOf polled).map Polled.asked :=
  List.filter_map

/-- What a stream still delivers is read off its front by any run of calls. -/
theorem Delivers.run {left : σ → Bytes} (h : c.Delivers left) (calls : List (ε × Call)) (st : σ) :
    bytesOf (c.run calls st).1 ++ left (c.run calls st).2 = left st := by
  induction calls generalizing st with
  | nil => rfl
  | cons asked calls ih =>
    rw [run_cons, bytesOf_cons, List.append_assoc]
    exact (congrArg _ (ih _)).trans (h _ _ _)

/-- All that a stream was asked and answered is on its record. -/
theorem run_recorded (c : Channel ε σ) (calls : List (ε × Call)) (st : σ)
    (record : List (Polled ε)) :
    c.recorded.run calls (st, record) =
      ((c.run calls st).1, (c.run calls st).2, record ++ (c.run calls st).1) := by
  induction calls generalizing st record with
  | nil => rw [Channel.run, Channel.run, List.append_nil]
  | cons asked calls ih =>
    have hpoll : c.recorded.poll asked.1 asked.2 (st, record) = ((c.poll asked.1 asked.2 st).1,
        (c.poll asked.1 asked.2 st).2, record ++ [⟨asked.1, asked.2, (c.poll asked.1 asked.2 st).1⟩]) :=
      rfl
    rw [run_cons, run_cons, hpoll]
    simp only [ih, List.append_assoc, List.singleton_append]

/-- Without the reads a stream whose sides are apart answers the other calls alike. -/
theorem Apart.run {ω : Type} {side : σ → ω} (h : c.Apart side) (calls : List (ε × Call)) {st st' : σ}
    (hside : side st = side st') :
    writesOf (c.run calls st).1 = (c.run (calls.filter (!·.2.isRead)) st').1 := by
  induction calls generalizing st st' with
  | nil => rfl
  | cons asked calls ih =>
    obtain ⟨cx, call⟩ := asked
    cases hcall : call.isRead with
    | true =>
      obtain ⟨room, rfl⟩ := Call.eq_read hcall
      rw [run_cons, writesOf_read hcall, List.filter_cons_of_neg (by simp [hcall])]
      exact ih ((h.read cx room st).trans hside)
    | false =>
      obtain ⟨hanswer, hnext⟩ := h.other cx call st st' hcall hside
      rw [run_cons, writesOf_other hcall, List.filter_cons_of_pos (by simp [hcall]), run_cons,
        hanswer, ih hnext]

end Channel

open Channel

/-! ## One call -/

namespace Layers

/-- **All that one call can do to layers**, told by the bytes that they put back and the stream
inside: a read takes some of the bytes, or there are none; then it goes through, as all other calls
do in any case. -/
inductive Polls (c : Channel ε σ) (cx : ε) (call : Call) (l : Layers σ n) (answer : Answer)
    (l' : Layers σ n) : Prop
  | replayed {room : Nat} {bytes : Bytes} (hcall : call = .read room)
      (htake : Replay.take room l.held = some (bytes, l'.held)) (hanswer : answer = .data bytes)
      (hcore : l'.core = l.core)
  | passed (hempty : call.isRead = true → l.held.flatten = []) (hheld : l'.held = l.held)
      (hpoll : c.poll cx call l.core = (answer, l'.core))

variable {cx : ε} {call : Call} {answer : Answer} {l l' : Layers σ n}

theorem held_around (pending : Bytes) (l : Layers σ n) :
    held (n := n + 1) ⟨pending, l⟩ = pending :: l.held := rfl

/-- A call that goes through a layer does to the layers inside what it does to them anyway. -/
theorem Polls.through (h : Polls c cx call l answer l') {pending : Bytes}
    (hpending : call.isRead = true → pending = []) :
    Polls (n := n + 1) c cx call ⟨pending, l⟩ answer ⟨pending, l'⟩ := by
  cases h with
  | replayed hcall htake hanswer hcore =>
    have hnil : pending = [] := hpending (by rw [hcall]; rfl)
    refine .replayed hcall ?_ hanswer hcore
    rw [hnil, held_around, held_around, Replay.take, htake]
    rfl
  | passed hempty hheld hpoll =>
    refine .passed (fun hread => ?_) (by rw [held_around, held_around, hheld]) hpoll
    rw [held_around, hpending hread, List.flatten_cons, hempty hread, List.append_nil]

/-- Where no bytes are put back in its way, a call is one of the stream inside. -/
theorem Polls.passes (h : Polls c cx call l answer l')
    (hopen : call.isRead = true → l.held.flatten = []) : c.poll cx call l.core = (answer, l'.core) := by
  cases h with
  | replayed hcall htake => exact absurd (hopen (by rw [hcall]; rfl)) (Replay.flatten_of_take htake)
  | passed _ _ hpoll => exact hpoll

/-- What one call can do to layers, by induction on how many there are. -/
theorem polls_stacked (c : Channel ε σ) (cx : ε) (call : Call) (l : Layers σ n) :
    Polls c cx call l ((c.stacked n).poll cx call l).1 ((c.stacked n).poll cx call l).2 := by
  induction n with
  | zero => exact .passed (fun _ => rfl) rfl rfl
  | succ n ih =>
    obtain ⟨pending, inner⟩ := l
    obtain hpending | ⟨room, b, bs, rfl, rfl⟩ := call.through_or pending
    · rw [show (c.stacked (n + 1)).poll cx call ⟨pending, inner⟩ = _ from
        (c.stacked n).replaying_through cx inner hpending]
      exact (ih inner).through hpending
    · exact .replayed rfl rfl rfl rfl

/-! ## A run of calls -/

/-- The calls that came through to the stream inside: it was left as they leave it, what was read is
the front of the bytes put back and then what it read, and all but the reads came through as they
were made and were answered as it answered them. -/
theorem runs_stacked (c : Channel ε σ) (calls : List (ε × Call)) (l : Layers σ n) :
    ∃ seen, c.run (seen.map Polled.asked) l.core = (seen, ((c.stacked n).run calls l).2.core) ∧
      bytesOf ((c.stacked n).run calls l).1 ++ ((c.stacked n).run calls l).2.held.flatten =
        l.held.flatten ++ bytesOf seen ∧
      writesOf seen = writesOf ((c.stacked n).run calls l).1 := by
  induction calls generalizing l with
  | nil => exact ⟨[], rfl, by simp [Channel.run, bytesOf], rfl⟩
  | cons asked calls ih =>
    obtain ⟨cx, call⟩ := asked
    have hpoll := polls_stacked c cx call l
    obtain ⟨seen, hrun, hbytes, hwrites⟩ := ih ((c.stacked n).poll cx call l).2
    rw [Channel.run_cons]
    generalize (c.stacked n).poll cx call l = answered at *
    obtain ⟨answer, next⟩ := answered
    cases hpoll with
    | @replayed room bytes hcall htake hanswer hcore =>
      dsimp only at *
      refine ⟨seen, by rw [← hcore, hrun], ?_, ?_⟩
      · rw [bytesOf_cons, List.append_assoc, hbytes, ← List.append_assoc, hcall, hanswer,
          Polled.bytes, Replay.take_flatten htake]
      · rw [hwrites, writesOf_read (by rw [hcall]; rfl)]
    | passed hempty hheld hpoll =>
      refine ⟨⟨cx, call, answer⟩ :: seen, ?_, ?_, ?_⟩
      · rw [List.map_cons, Polled.asked, Channel.run_cons, hpoll, hrun]
      · rw [bytesOf_cons, bytesOf_cons, List.append_assoc, hbytes, hheld]
        cases hread : call.isRead with
        | true => rw [hempty hread, List.nil_append, List.nil_append]
        | false => rw [Polled.bytes_other hread, List.nil_append, List.nil_append]
      · cases hread : call.isRead with
        | true => rw [writesOf_read hread, writesOf_read hread, hwrites]
        | false => rw [writesOf_other hread, writesOf_other hread, hwrites]

/-- A read of layers that still have bytes put back takes from those, and leaves the stream inside
as it is. -/
theorem read_stacked (c : Channel ε σ) (cx : ε) (room : Nat) {l : Layers σ n}
    (hheld : l.held.flatten ≠ []) :
    ∃ data, ((c.stacked n).poll cx (.read room) l).1 = .data data ∧
      data ++ ((c.stacked n).poll cx (.read room) l).2.held.flatten = l.held.flatten ∧
      data.length ≤ room ∧ (0 < room → data ≠ []) ∧
      ((c.stacked n).poll cx (.read room) l).2.core = l.core := by
  cases polls_stacked c cx (.read room) l with
  | replayed hcall htake hanswer hcore =>
    cases hcall
    obtain ⟨hroom, hsome⟩ := Replay.take_length htake
    exact ⟨_, hanswer, Replay.take_flatten htake, hroom, hsome, hcore⟩
  | passed hempty => exact absurd (hempty rfl) hheld

theorem gathers_stacked (c : Channel ε σ) (l : Layers σ n) :
    (c.stacked n).gathers l = c.gathers l.core := by
  induction n with
  | zero => rfl
  | succ n ih => exact ih (Layer.inner l)

/-! ## What the stream inside sees -/

/-- The same layers around another stream. -/
def map {τ : Type} (f : σ → τ) : {n : Nat} → Layers σ n → Layers τ n
  | 0, st => f st
  | _ + 1, l => Layer.mk (Layer.pending l) (map f (Layer.inner l))

@[simp] theorem held_map {τ : Type} (f : σ → τ) (l : Layers σ n) : (l.map f).held = l.held := by
  induction n with
  | zero => rfl
  | succ n ih => exact congrArg (Layer.pending l :: ·) (ih (Layer.inner l))

@[simp] theorem core_map {τ : Type} (f : σ → τ) (l : Layers σ n) : (l.map f).core = f l.core := by
  induction n with
  | zero => rfl
  | succ n ih => exact ih (Layer.inner l)

/-- What the stream inside is asked by a run of calls to the layers, and answers. -/
def seen (c : Channel ε σ) (calls : List (ε × Call)) (l : Layers σ n) : List (Polled ε) :=
  ((c.recorded.stacked n).run calls (l.map (·, []))).2.core.2

theorem map_fst_recorded (l : Layers σ n) (record : List (Polled ε)) :
    (l.map (·, record)).map Prod.fst = l := by
  induction n with
  | zero => rfl
  | succ n ih => exact congrArg (Layer.mk (Layer.pending l)) (ih (Layer.inner l))

theorem maps_stacked {τ : Type} {f : σ → τ} {d : Channel ε τ} (h : c.Maps f d) (n : Nat) :
    (c.stacked n).Maps (map f) (d.stacked n) := by
  induction n with
  | zero => exact h
  | succ n ih => exact ih.replaying

/-- The record changes no answer. -/
theorem maps_recorded (c : Channel ε σ) (n : Nat) :
    (c.recorded.stacked n).Maps (map Prod.fst) (c.stacked n) :=
  maps_stacked (c := c.recorded) (fun _ _ _ => rfl) n

theorem run_recorded_stacked (c : Channel ε σ) (calls : List (ε × Call)) (l : Layers σ n) :
    (c.stacked n).run calls l =
      (((c.recorded.stacked n).run calls (l.map (·, []))).1,
        ((c.recorded.stacked n).run calls (l.map (·, []))).2.map Prod.fst) := by
  have hmaps := (maps_recorded c n).run calls (l.map (·, []))
  rwa [map_fst_recorded] at hmaps

/-- What the stream inside saw: it was left as those calls leave it, and between what it gave and
the bytes put back there is all that was read. -/
theorem run_seen (c : Channel ε σ) (calls : List (ε × Call)) (l : Layers σ n) :
    c.run ((l.seen c calls).map Polled.asked) l.core =
        (l.seen c calls, ((c.stacked n).run calls l).2.core) ∧
      bytesOf ((c.stacked n).run calls l).1 ++ ((c.stacked n).run calls l).2.held.flatten =
        l.held.flatten ++ bytesOf (l.seen c calls) ∧
      writesOf (l.seen c calls) = writesOf ((c.stacked n).run calls l).1 := by
  obtain ⟨seen', hrun, hbytes, hwritten⟩ := runs_stacked c.recorded calls (l.map (·, []))
  rw [core_map, Channel.run_recorded, List.nil_append] at hrun
  obtain ⟨hanswers, hcore⟩ := Prod.ext_iff.1 hrun
  have hseen : l.seen c calls = seen' := (congrArg Prod.snd hcore).symm.trans hanswers
  rw [hseen, run_recorded_stacked]
  rw [held_map] at hbytes
  exact ⟨Prod.ext hanswers (by rw [core_map]; exact congrArg Prod.fst hcore),
    by rw [held_map]; exact hbytes, hwritten⟩

/-- A call that finds no bytes put back in its way is the next that the stream inside sees. -/
theorem seen_reached (c : Channel ε σ) (calls : List (ε × Call)) (l : Layers σ n) (cx : ε)
    {call : Call}
    (hopen : call.isRead = true → ((c.stacked n).run calls l).2.held.flatten = []) :
    l.seen c (calls ++ [(cx, call)]) = l.seen c calls ++
      [⟨cx, call, ((c.stacked n).poll cx call ((c.stacked n).run calls l).2).1⟩] := by
  have hanswer := maps_recorded c n cx call ((c.recorded.stacked n).run calls (l.map (·, []))).2
  rw [run_recorded_stacked] at hopen ⊢
  rw [held_map] at hopen
  have hpasses := (polls_stacked c.recorded cx call _).passes hopen
  rw [hanswer, ← congrArg Prod.fst hpasses, seen, seen, Channel.run_append]
  exact (congrArg (·.2.2) hpasses).symm

/-- **What layers around a stream make of a run of calls**, as one stream would: they answer
`polled` and are left as `after`. -/
structure ActsAsOne (c : Channel ε σ) (calls : List (ε × Call)) (before after : Layers σ n)
    (polled : List (Polled ε)) : Prop where
  asked : polled.map Polled.asked = calls
  gathers : (c.stacked n).gathers after = c.gathers after.core
  /-- What was read and what is still put back are the bytes that were put back, and behind them
  what the stream inside gave. -/
  bytes : bytesOf polled ++ after.held.flatten = before.held.flatten ++ bytesOf (before.seen c calls)
  /-- So it is with all that the stream inside still delivers. -/
  delivered : ∀ left : σ → Bytes, c.Delivers left →
    bytesOf polled ++ after.held.flatten ++ left after.core = before.held.flatten ++ left before.core
  /-- Any other call than a read reaches the stream inside, and so do reads once no bytes are put
  back. The answer is the one from there. -/
  reached : ∀ cx call, (call.isRead = true → after.held.flatten = []) →
    before.seen c (calls ++ [(cx, call)]) =
      before.seen c calls ++ [⟨cx, call, ((c.stacked n).poll cx call after).1⟩]
  /-- While there are bytes put back, a read takes from those, and nothing is asked of the stream
  inside. It comes to no bytes only if it has no room. -/
  unread : after.held.flatten ≠ [] → ∀ cx room,
    before.seen c (calls ++ [(cx, .read room)]) = before.seen c calls ∧
      ∃ data, ((c.stacked n).poll cx (.read room) after).1 = .data data ∧
        data ++ ((c.stacked n).poll cx (.read room) after).2.held.flatten = after.held.flatten ∧
        data.length ≤ room ∧ (0 < room → data ≠ [])
  /-- The stream inside is left as the calls that it saw leave it, and answered them as it does. -/
  inside : c.run ((before.seen c calls).map Polled.asked) before.core =
    (before.seen c calls, after.core)
  /-- All but the reads reach the stream inside as they were made, and are answered as it answered
  them. -/
  written : writesOf (before.seen c calls) = writesOf polled
  /-- They come to the same without the reads. -/
  apart : ∀ {ω : Type} (side : σ → ω), c.Apart side →
    writesOf polled = (c.run (calls.filter (!·.2.isRead)) before.core).1

/-- Layers around any stream behave as one stream. -/
theorem actsAsOne (c : Channel ε σ) (calls : List (ε × Call)) (before : Layers σ n) :
    ActsAsOne c calls before ((c.stacked n).run calls before).2
      ((c.stacked n).run calls before).1 := by
  have hasked := (c.stacked n).asked_run calls before
  obtain ⟨hinside, hbytes, hwritten⟩ := run_seen c calls before
  refine ⟨hasked, gathers_stacked c _, hbytes, fun left hleft => ?_,
    fun cx call hopen => seen_reached c calls before cx hopen, fun hheld cx room => ⟨?_, ?_⟩,
    hinside, hwritten, fun side hside => ?_⟩
  · have hleft := hleft.run ((before.seen c calls).map Polled.asked) before.core
    rw [hinside] at hleft
    rw [hbytes, List.append_assoc, hleft]
  · rw [run_recorded_stacked, held_map] at hheld
    obtain ⟨_, _, _, _, _, hcore⟩ := read_stacked c.recorded cx room hheld
    rw [seen, Channel.run_append]
    exact congrArg Prod.snd hcore
  · obtain ⟨data, hanswer, hfront, hroom, hsome, _⟩ := read_stacked c cx room hheld
    exact ⟨data, hanswer, hfront, hroom, hsome⟩
  · have hcalls : ((before.seen c calls).map Polled.asked).filter (!·.2.isRead) =
        calls.filter (!·.2.isRead) := by
      rw [Channel.filter_asked, hwritten, ← Channel.filter_asked, hasked]
    rw [← hwritten, ← hcalls, ← hside.run _ rfl, hinside]

end Layers

/-! ## Connections -/

namespace Replay

theorem readBy_putBack_nil (deadline now room : Nat) (r : Replay) :
    (r.putBack []).readBy deadline now room =
      (r.readBy deadline now room).map fun d => ⟨d.time, d.delivery, d.rest.putBack []⟩ := by
  have hread : (r.putBack []).read now room =
      (r.read now room).map fun d => ⟨d.time, d.delivery, d.rest.putBack []⟩ := by
    rw [read, read, putBack, take]
    cases take room r.held with
    | some taken => rfl
    | none =>
      simp only [Option.map_none, Option.map_map]
      rfl
  rw [readBy, readBy, hread]
  cases r.read now room with
  | none => rfl
  | some d => by_cases htime : d.time ≤ max now deadline <;> simp [Option.filter, htime]

theorem readBy_putBack_cons (deadline now room : Nat) (b : UInt8) (bs : Bytes) (r : Replay) :
    (r.putBack (b :: bs)).readBy deadline now room =
      some ⟨now, .bytes ((b :: bs).take room), r.putBack ((b :: bs).drop room)⟩ :=
  Option.filter_some_pos (decide_eq_true (Nat.le_max_left now deadline))

end Replay

namespace Duplex

/-- What is no read is answered by the sending side, and leaves what is to be read as it is. -/
theorem poll_other (cx : Nat × Nat) {call : Call} (h : call.isRead = false) (input : Replay)
    (d : Duplex) :
    channel.poll cx call { d with input := input } =
      ((channel.poll cx call d).1, { (channel.poll cx call d).2 with input := input }) := by
  have hwrite (offer : Bytes) : write offer { d with input := input } =
      ((d.write offer).1, { (d.write offer).2 with input := input }) := by
    simp only [write]
    cases (d.sink.write offer).1 <;> rfl
  cases call with
  | read room => cases h
  | write offer => exact congrArg (fun w => (answerTaken w.1, w.2)) (hwrite offer)
  | writeVectored offers => exact congrArg (fun w => (answerTaken w.1, w.2)) (hwrite offers.flatten)
  | flush => rfl
  | shutdown =>
    simp only [channel, close]
    cases d.sink.closes <;> rfl

theorem input_of_other (cx : Nat × Nat) {call : Call} (h : call.isRead = false) (d : Duplex) :
    (channel.poll cx call d).2.input = d.input :=
  congrArg (·.2.input) (poll_other cx h d.input d)

/-- Bytes put back in front of a connection are a layer around it. -/
theorem maps_putBack : channel.replaying.Maps (fun l => l.inner.putBack l.pending) channel := by
  intro cx call l
  obtain ⟨pending, d⟩ := l
  cases hread : call.isRead with
  | false =>
    have hinput := input_of_other cx hread d
    rw [channel.replaying_through cx d (by simp [hread])]
    refine (poll_other cx hread _ d).trans ?_
    rw [← hinput]
    rfl
  | true =>
    obtain ⟨room, rfl⟩ := Call.eq_read hread
    cases pending with
    | nil =>
      rw [channel.replaying_through cx d fun _ => rfl]
      simp only [channel, read, putBack, Replay.readBy_putBack_nil, Option.map_map]
      cases d.input.readBy cx.1 cx.2 room <;> rfl
    | cons b bs =>
      simp only [channel, Channel.replaying, read, putBack, Replay.readBy_putBack_cons]
      rfl

/-- A connection delivers the bytes that are still to come. -/
theorem delivers : channel.Delivers (·.input.bytes) := by
  intro cx call d
  cases hread : call.isRead with
  | false =>
    rw [Polled.bytes_other hread, List.nil_append]
    exact congrArg Replay.bytes (input_of_other cx hread d)
  | true =>
    obtain ⟨room, rfl⟩ := Call.eq_read hread
    simp only [channel, read]
    cases hread : d.input.readBy cx.1 cx.2 room with
    | none => rfl
    | some r =>
      have hbytes := Replay.bytes_of_read (Replay.read_of_readBy hread)
      obtain ⟨time, delivery, rest⟩ := r
      cases delivery <;> exact hbytes

/-- The sending side of a connection. -/
def sending (d : Duplex) : Sink × Bytes × Bool := (d.sink, d.written, d.closed)

/-- What a connection takes does not depend on what is read off it. -/
theorem apart : channel.Apart sending where
  read cx room d := by
    simp only [channel, read]
    cases d.input.readBy cx.1 cx.2 room <;> rfl
  other cx call d d' hcall hside := by
    have hd : d = { d' with input := d.input } := by
      obtain ⟨input, sink, written, closed⟩ := d
      cases hside
      rfl
    rw [hd, poll_other cx hcall]
    exact ⟨rfl, rfl⟩

end Duplex

namespace Layers

theorem maps_flat (n : Nat) : (Duplex.channel.stacked n).Maps flat Duplex.channel := by
  induction n with
  | zero => exact fun _ _ _ => rfl
  | succ n ih => exact ih.replaying.comp Duplex.maps_putBack

/-- A connection in layers answers as the connection does with all their bytes put back in front of
it. -/
theorem run_flat (calls : List ((Nat × Nat) × Call)) (l : Layers Duplex n) :
    Duplex.channel.run calls l.flat =
      (((Duplex.channel.stacked n).run calls l).1,
        ((Duplex.channel.stacked n).run calls l).2.flat) :=
  (maps_flat n).run calls l

end Layers

/-- **Layers behave as one stream**, however many there are around any stream, with any bytes put
back and after any calls. A connection is such a stream: it delivers what is still to come, what it
takes does not depend on what is read off it, and in layers it does as it does with all their bytes
put back in front of it. -/
theorem layers_act_as_one :
    (∀ {ε σ : Type} (c : Channel ε σ) (n : Nat) (calls : List (ε × Call)) (before : Layers σ n),
      Layers.ActsAsOne c calls before ((c.stacked n).run calls before).2
        ((c.stacked n).run calls before).1) ∧
      Duplex.channel.Delivers (·.input.bytes) ∧ Duplex.channel.Apart Duplex.sending ∧
      ∀ (n : Nat) (calls : List ((Nat × Nat) × Call)) (before : Layers Duplex n),
        Duplex.channel.run calls before.flat =
          (((Duplex.channel.stacked n).run calls before).1,
            ((Duplex.channel.stacked n).run calls before).2.flat) :=
  ⟨fun c _ calls before => Layers.actsAsOne c calls before, Duplex.delivers, Duplex.apart,
    fun _ calls before => Layers.run_flat calls before⟩

/-- Three layers, the one in the middle empty, around a connection on which one more byte comes. -/
def threeLayers : Layers Duplex 3 :=
  Layer.mk [1, 1] (Layer.mk [] (Layer.mk [2]
    (Duplex.ofSource { events := [{ what := .data [3] }] } { most := some 4 })))

/-- Reads with and without room, and offers between them. -/
def threeLayersCalls : List ((Nat × Nat) × Call) :=
  [.read 0, .read 1, .write [7, 7, 7, 7, 7], .read 9, .read 0, .read 9, .flush, .read 9,
    .writeVectored [[8], [9]], .shutdown, .read 9].map ((1, 0), ·)

theorem layers_act_as_one_three :
    ((Duplex.channel.stacked 3).run threeLayersCalls threeLayers).1.map (·.answer) =
        [.data [], .data [1], .took 4, .data [1], .data [], .data [2], .done, .data [3], .took 2,
          .done, .data []] ∧
      (threeLayers.seen Duplex.channel threeLayersCalls).map (·.call) =
        [.write [7, 7, 7, 7, 7], .flush, .read 9, .writeVectored [[8], [9]], .shutdown, .read 9] ∧
      Layers.ActsAsOne Duplex.channel threeLayersCalls threeLayers
        ((Duplex.channel.stacked 3).run threeLayersCalls threeLayers).2
        ((Duplex.channel.stacked 3).run threeLayersCalls threeLayers).1 :=
  ⟨by decide, by decide, layers_act_as_one.1 Duplex.channel 3 threeLayersCalls threeLayers⟩

end Intercept
