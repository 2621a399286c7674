import Intercept.Proofs.Http.Cut
import Intercept.Proofs.Http.HeadEnd

/-!
# Copying follows the framing

Whatever arrives when, whatever the sink takes and however a copying step ends: what it passes on is
a front piece of what its framing cuts off the bytes of its reader, and all of it when it finishes.

* `Taken.Ordered`: pieces in the order of their times, the last first.
* `Copying.Passes c bytes c'`: between `c` and `c'` the sink took `bytes`.
* `Copied.Follows c out cut`: a step from `c` passed on a front piece of `cut`, and when it
  finished, just that piece, with the bytes behind it left to the reader.

Results:
* `Copied.Follows.andThen`: steps one behind the other follow constructs one behind the other.
* `body_follows`: copying a body follows `Framing.cut`.
* `respond_follows`: passing on the answer to a request follows `Cut.answer`.
-/

namespace Intercept

/-! ## Pieces in the order of their times -/

/-- Pieces in the order of their times, the last first, none taken after `now`. -/
structure Taken.Ordered (now : Nat) (l : List Taken) : Prop where
  sorted : l.Pairwise fun late early => early.time ≤ late.time
  past : ∀ t ∈ l, t.time ≤ now

namespace Taken.Ordered

theorem nil (now : Nat) : Taken.Ordered now [] := ⟨List.Pairwise.nil, by simp⟩

theorem mono {now later : Nat} {l : List Taken} (h : Taken.Ordered now l) (hn : now ≤ later) :
    Taken.Ordered later l := ⟨h.sorted, fun t ht => Nat.le_trans (h.past t ht) hn⟩

theorem cons {now : Nat} {l : List Taken} (h : Taken.Ordered now l) (bytes : Bytes) :
    Taken.Ordered now (⟨now, bytes⟩ :: l) := by
  refine ⟨List.Pairwise.cons h.past h.sorted, fun t ht => ?_⟩
  rcases List.mem_cons.1 ht with rfl | ht
  · exact Nat.le_refl now
  · exact h.past t ht

/-- What was taken up to some moment is a front piece of all that was taken. -/
theorem filter_isPrefix {now : Nat} {l : List Taken} (h : Taken.Ordered now l) {p : Taken → Bool}
    (hp : ∀ late early : Taken, early.time ≤ late.time → p late = true → p early = true) :
    Taken.all (l.filter p).reverse <+: Taken.all l.reverse := by
  apply Taken.all_isPrefix
  obtain ⟨sorted, -⟩ := h
  induction sorted with
  | nil => exact List.prefix_refl _
  | @cons late l hle _ ih =>
    by_cases hl : p late = true
    · have hall : ∀ t ∈ late :: l, p t = true := by
        intro t ht
        rcases List.mem_cons.1 ht with rfl | ht
        · exact hl
        · exact hp late t (hle t ht) hl
      simp only [List.filter_eq_self.2 hall, List.prefix_refl]
    · rw [List.filter_cons_of_neg hl, List.reverse_cons]
      exact ih.trans (List.prefix_append _ _)

end Taken.Ordered

namespace Http

/-! ## Steps of copying -/

/-- Between `c` and `c'` the sink took `bytes`, and the order of times was kept. -/
structure Copying.Passes (c : Copying) (bytes : Bytes) (c' : Copying) : Prop where
  written : c'.written = c.written ++ bytes
  ordered : Taken.Ordered c.reader.now c.taken → Taken.Ordered c'.reader.now c'.taken

/-- The step `out` from `c` passed on a front piece of `cut`, and all of it when it finished. -/
def Copied.Follows {α : Type} (c : Copying) (out : Copied α) (cut : Cut α) : Prop :=
  ∃ passed, c.Passes passed out.state ∧ passed <+: cut.front ∧
    ∀ a, out.result = .ok a → cut = .whole a passed out.state.reader.bytes

namespace Copying

variable {c : Copying}

namespace Passes

theorem refl (c : Copying) : c.Passes [] c := ⟨(List.append_nil _).symm, id⟩

theorem trans {c' c'' : Copying} {a b : Bytes} (h1 : c.Passes a c') (h2 : c'.Passes b c'') :
    c.Passes (a ++ b) c'' :=
  ⟨by rw [h2.written, h1.written, List.append_assoc], fun h => h2.ordered (h1.ordered h)⟩

/-- Only the reader moves on. -/
theorem resume {c' : Copying} {a : Bytes} (h : c.Passes a c') {r : Reader}
    (hr : c'.reader.now ≤ r.now) : c.Passes a (c'.resume r) :=
  ⟨h.written, fun ho => (h.ordered ho).mono hr⟩

/-- Reading ahead passes nothing on, whatever comes of it. -/
theorem fill {c' : Copying} {a : Bytes} (h : c.Passes a c') {r : Reader} {limit : Nat}
    {filled : Reader.Filled} (hf : r.fill limit = filled) (hr : c'.reader.now = r.now) :
    c.Passes a (c'.resume filled.reader) :=
  h.resume (hf ▸ hr ▸ Reader.le_now_fill limit r)

end Passes

/-- What the sink takes of an offer is a front piece of it, and all of it when nothing failed. -/
theorem put_passes (bytes : Bytes) (c : Copying) :
    ∃ passed, c.Passes passed (c.put bytes).state ∧ passed <+: bytes ∧
      ∀ u, (c.put bytes).result = .ok u → passed = bytes := by
  obtain ⟨rest, htaken, hall⟩ := c.sink.writeAll_eq bytes
  refine ⟨(c.sink.writeAll bytes).taken, ⟨?_, fun ho => ?_⟩, ⟨rest, htaken⟩, fun u hu => ?_⟩
  · unfold put written
    simp only
    split
    · rename_i he
      rw [List.isEmpty_iff.1 he, List.append_nil]
    · rw [List.reverse_cons, Taken.all_append, Taken.all_singleton]
  · unfold put
    simp only
    split
    · exact ho
    · exact ho.cons _
  · have hf : (c.sink.writeAll bytes).fault = none := by
      unfold put at hu
      simp only at hu
      split at hu
      · assumption
      · cases hu
    have := hall hf
    rwa [this, List.append_nil] at htaken

/-- An offer that did not fail was taken in full. -/
theorem put_ok {bytes : Bytes} {c : Copying} {u : Unit} (h : (c.put bytes).result = .ok u) :
    c.Passes bytes (c.put bytes).state := by
  obtain ⟨passed, hp, -, hall⟩ := c.put_passes bytes
  rwa [hall u h] at hp

end Copying

namespace Copied.Follows

open Copying

variable {α β : Type} {c c' : Copying} {cut : Cut α}

/-- A step that stops has passed on a front piece. -/
theorem stop {bytes : Bytes} (h : c.Passes bytes c') (hb : bytes <+: cut.front) (s : Stop Error) :
    Follows c (⟨.error s, c'⟩ : Copied α) cut :=
  ⟨bytes, h, hb, fun _ ha => by cases ha⟩

/-- A step that finishes has passed on all that it was to pass on. -/
theorem finish {bytes : Bytes} (h : c.Passes bytes c') (a : α) :
    Follows c ⟨.ok a, c'⟩ (.whole a bytes c'.reader.bytes) :=
  ⟨bytes, h, List.prefix_refl bytes, fun _ ha => by cases ha; rfl⟩

/-- Bytes passed on before a step belong in front of what the step follows. -/
theorem behind {bytes : Bytes} {out : Copied α} (h : c.Passes bytes c') (ho : Follows c' out cut) :
    Follows c out (cut.behind bytes) := by
  obtain ⟨passed, hp, hfront, hok⟩ := ho
  refine ⟨bytes ++ passed, h.trans hp, ?_, fun a ha => ?_⟩
  · rw [Cut.front_behind]
    exact (List.prefix_append_right_inj bytes).2 hfront
  · rw [hok a ha]
    rfl

theorem map {out : Copied α} (h : Follows c out cut) (f : α → β) :
    Follows c (⟨out.result.map f, out.state⟩ : Copied β) (cut.map f) := by
  obtain ⟨passed, hp, hfront, hok⟩ := h
  refine ⟨passed, hp, by rwa [Cut.front_map], fun b hb => ?_⟩
  cases hr : out.result with
  | error s => rw [hr] at hb; cases hb
  | ok a =>
    rw [hr] at hb
    cases hb
    rw [hok a hr]
    rfl

/-- A first step that finished and a second one follow one construct behind the other. -/
theorem andThen {first : Copied α} {second : Copied β} {f : α → Bytes → Cut β} {a : α}
    (h : Follows c first cut) (ha : first.result = .ok a)
    (hs : Follows first.state second (f a first.state.reader.bytes)) :
    Follows c second (cut.andThen f) := by
  obtain ⟨passed, hp, -, hok⟩ := h
  rw [hok a ha]
  exact hs.behind hp

/-- A first step that stopped follows the first construct, whatever stands behind it. -/
theorem andThen_stop {first : Copied α} {f : α → Bytes → Cut β} {s : Stop Error}
    (h : Follows c first cut) : Follows c (⟨.error s, first.state⟩ : Copied β) (cut.andThen f) := by
  obtain ⟨passed, hp, hfront, -⟩ := h
  exact stop hp (hfront.trans (cut.front_isPrefix_andThen f)) s

end Copied.Follows

namespace Copying

/-! ## Counted pieces and lines -/

theorem take_isPrefix_cut (n : Nat) (b : Bytes) : b.take n <+: (Cut.take n b).front := by
  unfold Cut.take
  split
  · exact List.prefix_refl _
  · exact List.take_prefix n b

theorem cut_take_append {n : Nat} {a : Bytes} (b : Bytes) (h : a.length ≤ n) :
    Cut.take n (a ++ b) = (Cut.take (n - a.length) b).behind a := by
  unfold Cut.take
  rw [List.length_append]
  by_cases hn : n ≤ a.length + b.length
  · rw [if_pos hn, if_pos (by omega), List.take_append, List.drop_append,
      List.take_of_length_le h, List.drop_eq_nil_of_le h]
    rfl
  · rw [if_neg hn, if_neg (by omega)]
    rfl

/-- A counted piece that is longer than what was read ahead. -/
theorem cut_exact {n : Nat} {r : Reader} (h : n - r.buffer.length ≠ 0) :
    Cut.take n r.bytes =
      (Cut.take (n - r.buffer.length) (r.skip n).bytes).behind (r.buffer.take n) := by
  have hle : r.buffer.length ≤ n := by omega
  rw [Reader.bytes, cut_take_append _ hle, List.take_of_length_le hle, Reader.bytes, Reader.skip,
    List.drop_eq_nil_of_le hle, List.nil_append]

/-- Copying a counted piece follows the piece. -/
theorem exact_follows (limit n : Nat) (c : Copying) :
    Copied.Follows c (c.exact limit n) (Cut.take n c.reader.bytes) := by
  fun_induction exact limit n c with
  | case1 n c done s hs =>
    obtain ⟨passed, hp, hfront, -⟩ := c.put_passes (c.reader.buffer.take n)
    refine .stop hp (hfront.trans (.trans ?_ (take_isPrefix_cut n _))) s
    rw [Reader.bytes, List.take_append]
    exact List.prefix_append _ _
  | case2 n c done _ hu left reader hl =>
    have hle : n ≤ c.reader.buffer.length := by omega
    have hcut : Cut.take n c.reader.bytes =
        .whole () (c.reader.buffer.take n) (done.state.resume reader).reader.bytes := by
      rw [Cut.take, Reader.bytes, if_pos (by rw [List.length_append]; omega),
        List.take_append_of_le_length hle, List.drop_append_of_le_length hle]
      rfl
    rw [hcut]
    exact .finish ((put_ok hu).resume (r := reader) (Nat.le_refl c.reader.now)) ()
  | case3 n c done _ hu left reader hl r hr ih =>
    have hb : r.bytes = (c.reader.skip n).bytes := Reader.bytes_of_fill hr
    rw [cut_exact hl, ← hb]
    exact .behind ((put_ok hu).fill hr rfl) ih
  | case4 n c done _ hu left reader hl r hr =>
    rw [cut_exact hl]
    refine .stop ((put_ok hu).fill hr rfl) ?_ _
    rw [Cut.front_behind]
    exact List.prefix_append _ _
  | case5 n c done _ hu left reader hl s r hr =>
    rw [cut_exact hl]
    refine .stop ((put_ok hu).fill hr rfl) ?_ s
    rw [Cut.front_behind]
    exact List.prefix_append _ _

/-- A line that was read ahead is the line that the bytes start with. -/
theorem cut_line_buffer {r : Reader} {before rest : Bytes}
    (h : cutFirst lf r.buffer = some (before, rest)) :
    Cut.line r.bytes =
      .whole (before ++ [lf]) (before ++ [lf]) (r.skip (before ++ [lf]).length).bytes := by
  obtain ⟨hb, hn⟩ := cutFirst_eq_some.1 h
  have hcut : cutFirst lf r.bytes = some (before, rest ++ r.stream.bytes) :=
    cutFirst_eq_some.2 ⟨by rw [Reader.bytes, hb, List.append_assoc]; rfl, hn⟩
  have hskip : r.buffer.drop (before ++ [lf]).length = rest := by
    rw [show r.buffer = before ++ [lf] ++ rest by rw [hb, List.append_assoc]; rfl, List.drop_left]
  rw [Cut.line, hcut, Reader.bytes, Reader.skip, hskip]
  rfl

/-- Copying a line follows the line. -/
theorem line_follows (limit : Nat) (c : Copying) :
    Copied.Follows c (c.line limit) (Cut.line c.reader.bytes) := by
  fun_induction line limit c with
  | case1 c before rest h line done =>
    rw [cut_line_buffer h]
    obtain ⟨passed, hp, hfront, hall⟩ :=
      (c.resume (c.reader.skip line.length)).put_passes line
    have hc : c.Passes passed done.state :=
      ((Passes.refl c).resume (r := c.reader.skip line.length) (Nat.le_refl c.reader.now)).trans hp
    refine ⟨passed, hc, hfront, fun l hl => ?_⟩
    cases hr : done.result with
    | error s => rw [hr] at hl; cases hl
    | ok u =>
      rw [hr] at hl
      cases hl
      rw [hall u hr]
      rfl
  | case2 c h hl => exact .stop (Passes.refl c) List.nil_prefix _
  | case3 c h hl r hr ih =>
    have hb : r.bytes = c.reader.bytes := Reader.bytes_of_fill hr
    rw [← hb, ← Cut.behind_nil (Cut.line r.bytes)]
    exact .behind ((Passes.refl c).fill hr rfl) ih
  | case4 c h hl r hr => exact .stop ((Passes.refl c).fill hr rfl) List.nil_prefix _
  | case5 c h hl s r hr => exact .stop ((Passes.refl c).fill hr rfl) List.nil_prefix s

/-! ## Bodies -/

theorem trailers_follows (limit : Nat) (c : Copying) :
    Copied.Follows c (c.trailers limit) (Cut.trailers c.reader.bytes) := by
  fun_induction trailers limit c with
  | case1 c s h =>
    rw [Cut.trailers_eq]
    exact (line_follows limit c).andThen_stop
  | case2 c l h hl =>
    rw [Cut.trailers_eq]
    refine (line_follows limit c).andThen h ?_
    rw [if_pos hl]
    exact .finish (Passes.refl _) ()
  | case3 c l h hl ih =>
    rw [Cut.trailers_eq]
    refine (line_follows limit c).andThen h ?_
    rw [if_neg hl]
    exact ih

theorem chunked_follows (limit : Nat) (c : Copying) :
    Copied.Follows c (c.chunked limit) (Cut.chunks c.reader.bytes) := by
  fun_induction chunked limit c with
  | case1 c sizeLine s h =>
    rw [Cut.chunks_eq]
    exact (line_follows limit c).andThen_stop
  | case2 c sizeLine l h hsize =>
    rw [Cut.chunks_eq]
    refine (line_follows limit c).andThen h ?_
    simp only [hsize]
    exact .stop (Passes.refl _) List.nil_prefix _
  | case3 c sizeLine l h hsize =>
    rw [Cut.chunks_eq]
    refine (line_follows limit c).andThen h ?_
    simp only [hsize, if_true]
    exact trailers_follows limit _
  | case4 c sizeLine l h n hn hsize data s hdata =>
    rw [Cut.chunks_eq]
    refine (line_follows limit c).andThen h ?_
    simp only [hsize]
    rw [if_neg hn]
    exact (exact_follows limit n _).andThen_stop
  | case5 c sizeLine l h n hn hsize data u hdata ending s he =>
    rw [Cut.chunks_eq]
    refine (line_follows limit c).andThen h ?_
    simp only [hsize]
    rw [if_neg hn]
    refine (exact_follows limit n _).andThen hdata ?_
    exact (line_follows limit _).andThen_stop
  | case6 c sizeLine l h n hn hsize data u hdata ending l' he ih =>
    rw [Cut.chunks_eq]
    refine (line_follows limit c).andThen h ?_
    simp only [hsize]
    rw [if_neg hn]
    refine (exact_follows limit n _).andThen hdata ?_
    exact (line_follows limit _).andThen he ih

/-- What was read ahead is the front of all there is. -/
theorem cut_toEnd (r : Reader) :
    Cut.whole () r.bytes [] =
      (Cut.whole () (r.skip r.buffer.length).bytes []).behind r.buffer := by
  rw [Cut.behind, Reader.bytes, Reader.bytes, Reader.skip, List.drop_length, List.nil_append]

theorem toEnd_follows (limit : Nat) (c : Copying) :
    Copied.Follows c (c.toEnd limit) (.whole () c.reader.bytes []) := by
  fun_induction toEnd limit c with
  | case1 c done s hs =>
    obtain ⟨passed, hp, hfront, -⟩ := c.put_passes c.reader.buffer
    exact .stop hp (hfront.trans (List.prefix_append _ _)) s
  | case2 c done u hu r hr ih =>
    have hb : r.bytes = (c.reader.skip c.reader.buffer.length).bytes := Reader.bytes_of_fill hr
    rw [cut_toEnd, ← hb]
    exact .behind ((put_ok hu).fill hr rfl) ih
  | case3 c done u hu r hr =>
    have hend := Reader.bytes_of_fill_ended hr
    have hb : r.bytes = (c.reader.skip c.reader.buffer.length).bytes := Reader.bytes_of_fill hr
    -- the stream ended, so nothing is left and the buffer was all there was
    have hnil : r.bytes = [] := by rw [hend, Reader.skip, List.drop_length]
    have hall : c.reader.bytes = c.reader.buffer := by
      have hs : (c.reader.skip c.reader.buffer.length).bytes = [] := hb.symm.trans hnil
      rw [Reader.bytes, Reader.skip, List.drop_length, List.nil_append] at hs
      rw [Reader.bytes, show c.reader.stream.bytes = [] from hs, List.append_nil]
    rw [hall, ← hnil]
    exact .finish ((put_ok hu).fill hr rfl) ()
  | case4 c done u hu s r hr =>
    exact .stop ((put_ok hu).fill hr rfl) (List.prefix_append _ _) s

/-- **Copying a body follows its framing**: however it ends, no byte behind the body is passed on,
and when it finishes the whole body was. -/
theorem body_follows (limit : Nat) (framing : Framing) (c : Copying) :
    Copied.Follows c (c.body limit framing) (framing.cut c.reader.bytes) := by
  cases framing with
  | empty => exact .finish (Passes.refl c) ()
  | length n => exact exact_follows limit n c
  | chunked => exact chunked_follows limit c
  | untilClose => exact toEnd_follows limit c

/-! ## Answers -/

/-- A response head that was read is the one that the bytes start with. -/
theorem readResponse_cut {headRequest : Bool} {limit : Nat} {r : Reader} {a : Response}
    (h : (r.readResponse headRequest limit).result = .ok a) :
    Cut.response headRequest r.bytes =
      .whole a a.raw (r.readResponse headRequest limit).reader.bytes := by
  unfold Reader.readResponse at h ⊢
  simp only at h ⊢
  split at h
  · simp at h
  · rename_i raw hraw
    obtain ⟨hb, -⟩ := Reader.readHead_bytes hraw
    have ha : Response.ofRaw? headRequest raw = some a := by
      cases hr : Response.ofRaw? headRequest raw with
      | none => simp [hr] at h
      | some a' => simp_all
    rw [Cut.response, Reader.readHead_headEnd hraw, ← hb]
    simp only [List.take_left, List.drop_left, ha, Response.raw_of_ofRaw? ha]

theorem le_now_readResponse (headRequest : Bool) (limit : Nat) (r : Reader) :
    r.now ≤ (r.readResponse headRequest limit).reader.now := by
  unfold Reader.readResponse
  simp only
  split <;> exact r.le_now_readHead _ limit

/-- **Passing an answer on follows the answer**: interim heads as they come and one final head with
its body, or a switch of protocols, and nothing behind that. -/
theorem respond_follows (limit : Nat) (headRequest : Bool) (c : Copying) :
    Copied.Follows c (c.respond limit headRequest) (Cut.answer headRequest c.reader.bytes) := by
  fun_induction respond limit headRequest c with
  | case1 c head s h =>
    have hc := (Passes.refl c).resume (le_now_readResponse headRequest limit c.reader)
    exact .stop hc List.nil_prefix s
  | case2 c head r h passed s hs =>
    have hc := (Passes.refl c).resume (le_now_readResponse headRequest limit c.reader)
    obtain ⟨bytes, hp, hfront, -⟩ := (c.resume head.reader).put_passes r.raw
    rw [Cut.answer_eq, readResponse_cut h]
    exact .stop (hc.trans hp) (hfront.trans (Cut.front_isPrefix_andThen (.whole r r.raw _) _)) s
  | case3 c head r h passed u hu hstatus =>
    have hc := (Passes.refl c).resume (le_now_readResponse headRequest limit c.reader)
    rw [Cut.answer_eq, readResponse_cut h, Cut.andThen, if_pos hstatus]
    exact .behind (hc.trans (put_ok hu)) (.finish (Passes.refl _) _)
  | case4 c head r h passed u hu hstatus hinterim ih =>
    have hc := (Passes.refl c).resume (le_now_readResponse headRequest limit c.reader)
    rw [Cut.answer_eq, readResponse_cut h, Cut.andThen, if_neg hstatus, if_pos hinterim]
    exact .behind (hc.trans (put_ok hu)) ih
  | case5 c head r h passed u hu hstatus hinterim body =>
    have hc := (Passes.refl c).resume (le_now_readResponse headRequest limit c.reader)
    rw [Cut.answer_eq, readResponse_cut h, Cut.andThen, if_neg hstatus, if_neg hinterim]
    exact .behind (hc.trans (put_ok hu)) ((body_follows limit r.framing _).map _)

end Copying
end Http
end Intercept
