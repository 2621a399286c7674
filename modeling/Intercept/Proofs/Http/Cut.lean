import Intercept.Http.Exchange

/-!
# Where messages end

What a framing makes of a byte string, with no stream, buffer, sink or clock in between. This is
what the copying of `Http/Copying` and the exchange of `Http/Exchange` are measured against.

* `Cut` is a construct at the front of a byte string: there in full with the bytes behind it, or
  only in part, when the bytes end inside it or go wrong.
* `Cut.take`, `Cut.line`, `Cut.trailers` and `Cut.chunks` cut a counted piece, a line, trailer lines
  and a chunked body. A chunk's data is followed by one line, whatever that line holds.
* `Framing.cut` cuts a body, `Cut.answer` the answer to one request: interim heads up to a switch of
  protocols, or up to one final head and its body.

Results:
* `chunks_eq`, `answer_eq`: a chunked body and an answer, read as one construct behind the other.
* `Framing.cut_at`, `answer_at`: what was cut lies at the front of the bytes, and what is behind it
  follows at once.
-/

namespace Intercept.Http

/-- A construct at the front of a byte string. -/
inductive Cut (α : Type)
  /-- It is there in full: its value, its bytes and the bytes behind it. -/
  | whole (value : α) (front rest : Bytes)
  /-- The bytes end inside it or go wrong; no more than `front` belongs to it. -/
  | part (front : Bytes)
deriving DecidableEq, Repr

namespace Cut

variable {α β : Type}

/-- The bytes that belong to the construct. -/
def front : Cut α → Bytes
  | whole _ front _ => front
  | part front => front

/-- The construct with bytes in front of it that belong to it too. -/
def behind (bytes : Bytes) : Cut α → Cut α
  | whole a front rest => whole a (bytes ++ front) rest
  | part front => part (bytes ++ front)

/-- What was cut, with another value. -/
def map (f : α → β) : Cut α → Cut β
  | whole a front rest => whole (f a) front rest
  | part front => part front

/-- One construct and, when it is there in full, another one behind it. -/
def andThen (s : Cut α) (f : α → Bytes → Cut β) : Cut β :=
  match s with
  | whole a front rest => (f a rest).behind front
  | part front => part front

/-- The construct lies at the front of `b`. -/
def At (b : Bytes) : Cut α → Prop
  | whole _ front rest => front ++ rest = b
  | part front => front <+: b

@[simp] theorem front_whole (a : α) (front rest : Bytes) : (whole a front rest).front = front := rfl

@[simp] theorem front_part (front : Bytes) : (part front : Cut α).front = front := rfl

@[simp] theorem front_behind (bytes : Bytes) (s : Cut α) :
    (s.behind bytes).front = bytes ++ s.front := by cases s <;> rfl

@[simp] theorem front_map (f : α → β) (s : Cut α) : (s.map f).front = s.front := by cases s <;> rfl

theorem behind_nil (s : Cut α) : s.behind [] = s := by cases s <;> rfl

theorem behind_behind (a b : Bytes) (s : Cut α) : (s.behind b).behind a = s.behind (a ++ b) := by
  cases s <;> simp [behind]

/-- A construct that is there in full behind other bytes is there in full. -/
theorem of_behind_whole {s : Cut α} {bytes front rest : Bytes} {a : α}
    (h : s.behind bytes = whole a front rest) :
    ∃ front', s = whole a front' rest ∧ front = bytes ++ front' := by
  cases s with
  | whole a' front' rest' =>
    cases h
    exact ⟨front', rfl, rfl⟩
  | part front' => cases h

theorem front_isPrefix_andThen (s : Cut α) (f : α → Bytes → Cut β) :
    s.front <+: (s.andThen f).front := by
  cases s with
  | whole a front rest => exact ⟨(f a rest).front, (front_behind _ _).symm⟩
  | part front => exact List.prefix_refl front

namespace At

theorem front_isPrefix {b : Bytes} {s : Cut α} (h : s.At b) : s.front <+: b := by
  cases s with
  | whole a front rest => exact ⟨rest, h⟩
  | part front => exact h

theorem behind {a b : Bytes} {s : Cut α} (h : s.At b) : (s.behind a).At (a ++ b) := by
  cases s with
  | whole v front rest =>
    show a ++ front ++ rest = a ++ b
    rw [List.append_assoc, show front ++ rest = b from h]
  | part front => exact (List.prefix_append_right_inj a).2 h

theorem map {b : Bytes} {s : Cut α} {f : α → β} (h : s.At b) : (s.map f).At b := by
  cases s <;> exact h

theorem andThen {b : Bytes} {s : Cut α} {f : α → Bytes → Cut β} (h : s.At b)
    (hf : ∀ a front rest, s = whole a front rest → (f a rest).At rest) : (s.andThen f).At b := by
  cases s with
  | whole a front rest =>
    have hb : front ++ rest = b := h
    rw [← hb]
    exact (hf a front rest rfl).behind
  | part front => exact h

end At

/-! ## Lines and counted pieces -/

/-- A piece of `n` bytes. -/
def take (n : Nat) (b : Bytes) : Cut Unit :=
  if n ≤ b.length then whole () (b.take n) (b.drop n) else part b

/-- A line, its line feed included; the line is the value too. -/
def line (b : Bytes) : Cut Bytes :=
  match cutFirst lf b with
  | some (before, rest) => whole (before ++ [lf]) (before ++ [lf]) rest
  | none => part b

theorem take_at (n : Nat) (b : Bytes) : (take n b).At b := by
  unfold take
  split
  · exact List.take_append_drop n b
  · exact List.prefix_refl b

theorem line_at (b : Bytes) : (line b).At b := by
  unfold line
  split
  · rename_i before rest h
    show before ++ [lf] ++ rest = b
    rw [(cutFirst_eq_some.1 h).1, List.append_assoc]
    rfl
  · exact List.prefix_refl b

theorem line_length {b l front rest : Bytes} (h : line b = whole l front rest) :
    rest.length < b.length := by
  have hb := line_at b
  unfold line at h
  split at h
  · rename_i before rest' hc
    rw [(cutFirst_eq_some.1 hc).1]
    cases h
    rw [List.length_append, List.length_cons]
    omega
  · cases h

theorem take_length {n : Nat} {b front rest : Bytes} (h : take n b = whole () front rest) :
    rest.length ≤ b.length := by
  unfold take at h
  split at h
  · cases h
    rw [List.length_drop]
    omega
  · cases h

/-! ## Chunked bodies -/

/-- Trailer lines up to and with the empty one. -/
def trailers (b : Bytes) : Cut Unit :=
  match _h : line b with
  | .part front => part front
  | .whole l _ rest =>
    if l = [cr, lf] ∨ l = [lf] then whole () l rest else (trailers rest).behind l
termination_by b.length
decreasing_by exact line_length _h

/-- A chunked body. Each chunk is a line that gives its size, so many bytes and one more line; the
chunk of size zero is followed by the trailer lines instead. A line that gives no size belongs to
the body, and nothing behind it does. -/
def chunks (b : Bytes) : Cut Unit :=
  match _h1 : line b with
  | .part front => part front
  | .whole l _ rest =>
    match chunkSize? l with
    | none => part l
    | some 0 => (trailers rest).behind l
    | some n =>
      match _h2 : take n rest with
      | .part data => part (l ++ data)
      | .whole _ data rest =>
        match _h3 : line rest with
        | .part ending => part (l ++ data ++ ending)
        | .whole ending _ rest => (chunks rest).behind (l ++ data ++ ending)
termination_by b.length
decreasing_by
  have h1 := line_length _h1
  have h2 := take_length _h2
  have h3 := line_length _h3
  omega

/-- A line is its own value. -/
theorem line_value {b l front rest : Bytes} (h : line b = whole l front rest) : front = l := by
  unfold line at h
  split at h <;> cases h
  rfl

/-- Trailers are a line, and more of them unless it is empty. -/
theorem trailers_eq (b : Bytes) :
    trailers b = (line b).andThen fun l rest =>
      if l = [cr, lf] ∨ l = [lf] then whole () [] rest else trailers rest := by
  rw [trailers]
  split
  · rename_i front h
    rw [h]
    rfl
  · rename_i l front rest h
    rw [h, andThen, line_value h]
    split
    · rw [behind, List.append_nil]
    · rfl

/-- A chunked body is the line with the first size, and then the trailers, or the data, a line and
the chunks that follow. -/
theorem chunks_eq (b : Bytes) :
    chunks b = (line b).andThen fun l rest =>
      match chunkSize? l with
      | none => part []
      | some n =>
        if n = 0 then trailers rest
        else (take n rest).andThen fun _ rest => (line rest).andThen fun _ rest => chunks rest := by
  rw [chunks]
  split
  · rename_i front h
    rw [h]
    rfl
  · rename_i l front rest h
    rw [h, andThen, line_value h]
    split
    · rename_i hs
      rw [hs, behind, List.append_nil]
    · rename_i hs
      rw [hs]
      rfl
    · rename_i n hn hs
      rw [hs]
      simp only
      rw [if_neg (fun h0 => hn h0)]
      split
      · rename_i data hd
        rw [hd]
        rfl
      · rename_i data rest' hd
        rw [hd, andThen, behind_behind]
        split
        · rename_i ending he
          rw [he]
          rfl
        · rename_i ending front' rest'' he
          rw [he, andThen, behind_behind, line_value he]

theorem trailers_at (b : Bytes) : (trailers b).At b := by
  rw [trailers_eq]
  refine (line_at b).andThen fun l _ rest h => ?_
  have := line_length h
  split
  · exact List.nil_append rest
  · exact trailers_at rest
termination_by b.length

theorem chunks_at (b : Bytes) : (chunks b).At b := by
  rw [chunks_eq]
  refine (line_at b).andThen fun l _ rest h1 => ?_
  have := line_length h1
  split
  · exact List.nil_prefix
  split
  · exact trailers_at rest
  · refine (take_at _ rest).andThen fun _ _ rest h2 => ?_
    have := take_length h2
    refine (line_at rest).andThen fun _ _ rest h3 => ?_
    have := line_length h3
    exact chunks_at rest
termination_by b.length

end Cut

/-! ## Bodies and answers -/

/-- A body of the given framing. One that runs to the end of the stream is all there is. -/
def Framing.cut : Framing → Bytes → Cut Unit
  | .empty, b => .whole () [] b
  | .length n, b => Cut.take n b
  | .chunked, b => Cut.chunks b
  | .untilClose, b => .whole () b []

theorem Framing.cut_at (framing : Framing) (b : Bytes) : (framing.cut b).At b := by
  cases framing with
  | empty => exact List.nil_append b
  | length n => exact Cut.take_at n b
  | chunked => exact Cut.chunks_at b
  | untilClose => exact List.append_nil b

namespace Cut

/-- A response head; nothing of one that is refused belongs to an answer. -/
def response (headRequest : Bool) (b : Bytes) : Cut Response :=
  match headEnd? b with
  | none => part []
  | some n =>
    match Response.ofRaw? headRequest (b.take n) with
    | none => part []
    | some r => whole r (b.take n) (b.drop n)

theorem response_at (headRequest : Bool) (b : Bytes) : (response headRequest b).At b := by
  unfold response
  split
  · exact List.nil_prefix
  · split
    · exact List.nil_prefix
    · exact List.take_append_drop _ b

theorem response_length {headRequest : Bool} {b front rest : Bytes} {r : Response}
    (h : response headRequest b = whole r front rest) : rest.length < b.length := by
  unfold response at h
  split at h
  · cases h
  · rename_i n hn
    have := headEnd?_bounds hn
    split at h
    · cases h
    · cases h
      rw [List.length_drop]
      omega

/-- The answer to one request: interim heads, and then a switch of protocols or a final head with
its body. -/
def answer (headRequest : Bool) (b : Bytes) : Cut Ending :=
  match _h : response headRequest b with
  | .part front => part front
  | .whole r head rest =>
    if r.status = switching then whole .upgraded head rest
    else if Response.isInterim r.status then (answer headRequest rest).behind head
    else ((r.framing.cut rest).map fun _ => Ending.complete).behind head
termination_by b.length
decreasing_by exact response_length _h

/-- An answer is a response head and what its status calls for: nothing more, another answer, or a
body. -/
theorem answer_eq (headRequest : Bool) (b : Bytes) :
    answer headRequest b = (response headRequest b).andThen fun r rest =>
      if r.status = switching then whole .upgraded [] rest
      else if Response.isInterim r.status then answer headRequest rest
      else (r.framing.cut rest).map fun _ => .complete := by
  rw [answer]
  split
  · rename_i front h
    rw [h]
    rfl
  · rename_i r head rest h
    rw [h, andThen]
    split
    · rw [behind, List.append_nil]
    · split <;> rfl

theorem answer_at (headRequest : Bool) (b : Bytes) : (answer headRequest b).At b := by
  rw [answer_eq]
  refine (response_at headRequest b).andThen fun r _ rest h => ?_
  have := response_length h
  split
  · exact List.nil_append rest
  · split
    · exact answer_at headRequest rest
    · exact (r.framing.cut_at rest).map
termination_by b.length

end Cut
end Intercept.Http
