import Intercept.Http.Reader
import Intercept.Proofs.Http.Grammar

/-!
# Where heads end

The first line feed with an empty line behind it, looked at line by line, and what a reader and a
request make of the head that ends there.

* `startsBlank`: whether an empty line stands at the front.

Results:
* `headEnd?_append`, `headEnd?_of_append`: what comes behind the end of a head does not move it.
* `headEnd?_line`: a line moves the end of the head behind it by its own length, and is the last
  one when an empty line follows.
* `Headed.headEnd?_eq`, `Headed.headEnd?_of_two`: a head ends where the grammar ends it, unless two
  empty lines stand in front of it.
* `Request.ofRaw?_of_scan`, `Request.ofRaw?_of_head`: a request head is refused for its framing
  fields only.
* `readHead_of_buffer`, `readHead_eq`: one step of cutting a head off.
* `readHead_headEnd`: a reader cuts a head where its bytes say that the head ends, however they
  came.
* `readHead_held`: a head in bytes that were put back is cut at once.
-/

namespace Intercept.Http

/-- Whether an empty line stands at the front: LF or CR LF. -/
def startsBlank : Bytes → Bool
  | [] => false
  | c :: r => c = lf || (c = cr && r.head? = some lf)

theorem headEndFrom_cons (seen : Nat) (c : UInt8) (r : Bytes) :
    headEndFrom seen (c :: r) =
      if c = lf ∧ r.head? = some lf then some (seen + 2)
      else if c = lf ∧ startsBlank r then some (seen + 3)
      else headEndFrom (seen + 1) r := by
  conv => lhs; unfold headEndFrom
  by_cases hc : c = lf
  · cases r with
    | nil => simp [hc, startsBlank, headEndFrom]
    | cons d r =>
      by_cases hd : d = lf
      · simp [hc, hd]
      · simp [hc, hd, startsBlank]
  · simp [hc]

theorem headEndFrom_eq (seen : Nat) (b : Bytes) :
    headEndFrom seen b = (headEnd? b).map (· + seen) := by
  unfold headEnd?
  induction b generalizing seen with
  | nil => rfl
  | cons c r ih =>
    rw [headEndFrom_cons, headEndFrom_cons, ih (seen + 1), ih (0 + 1)]
    split
    · rw [Option.map_some, Nat.zero_add, Nat.add_comm]
    · split
      · rw [Option.map_some, Nat.zero_add, Nat.add_comm]
      · rw [Option.map_map]
        congr 1
        funext n
        simp only [Function.comp]
        omega

theorem startsBlank_append {r more : Bytes} (h : startsBlank r) : startsBlank (r ++ more) := by
  rcases r with _ | ⟨c, _ | ⟨d, r⟩⟩
  · cases h
  · simp_all [startsBlank]
  · simpa [startsBlank] using h

theorem headEndFrom_append {b more : Bytes} {seen n : Nat} (h : headEndFrom seen b = some n) :
    headEndFrom seen (b ++ more) = some n := by
  induction b generalizing seen with
  | nil => simp [headEndFrom] at h
  | cons c r ih =>
    rw [List.cons_append, headEndFrom_cons]
    rw [headEndFrom_cons] at h
    split at h
    · rename_i h1
      rw [if_pos ⟨h1.1, by simp [h1.2]⟩]
      exact h
    · rename_i h1
      split at h
      · rename_i h2
        have hr : (r ++ more).head? = r.head? := by cases r <;> simp_all [startsBlank]
        rw [hr, if_neg h1, if_pos ⟨h2.1, startsBlank_append h2.2⟩]
        exact h
      · rename_i h2
        -- the end lies behind two more bytes, so what comes next is seen without `more`
        have hb := headEndFrom_bounds h
        rcases r with _ | ⟨d, _ | ⟨e, r⟩⟩
        · simp only [List.length_nil] at hb
          omega
        · simp only [List.length_cons, List.length_nil] at hb
          omega
        · rw [if_neg (by simpa using h1), if_neg (by simpa [startsBlank] using h2)]
          exact ih h

/-- What comes behind the end of a head does not move it. -/
theorem headEnd?_append {b more : Bytes} {n : Nat} (h : headEnd? b = some n) :
    headEnd? (b ++ more) = some n := headEndFrom_append h

theorem headEndFrom_of_append {b more : Bytes} {seen n : Nat}
    (h : headEndFrom seen (b ++ more) = some n) (hn : n ≤ seen + b.length) :
    headEndFrom seen b = some n := by
  induction b generalizing seen with
  | nil =>
    have hb := headEndFrom_bounds h
    rw [List.length_nil] at hn
    omega
  | cons c r ih =>
    rw [List.cons_append, headEndFrom_cons] at h
    rw [headEndFrom_cons]
    -- a head ends behind two bytes at least, so `r` shows what comes next
    rcases r with _ | ⟨d, r⟩
    · rw [List.length_singleton] at hn
      split at h
      · cases h
        omega
      · split at h
        · cases h
          omega
        · have hb := headEndFrom_bounds h
          omega
    · rw [List.cons_append, List.head?_cons] at h
      rw [List.head?_cons]
      split at h
      · rename_i h1
        rw [if_pos h1]
        exact h
      · rename_i h1
        rw [if_neg h1]
        split at h
        · rename_i h2
          rcases r with _ | ⟨e, r⟩
          · cases h
            simp only [List.length_cons, List.length_nil] at hn
            omega
          · rw [if_pos ⟨h2.1, by simpa [startsBlank] using h2.2⟩]
            exact h
        · rename_i h2
          rw [if_neg fun h3 => h2 ⟨h3.1, startsBlank_append h3.2⟩]
          exact ih h (by simp only [List.length_cons] at hn ⊢; omega)

/-- A head that ends inside some bytes is seen without what comes behind them. -/
theorem headEnd?_of_append {b more : Bytes} {n : Nat} (h : headEnd? (b ++ more) = some n)
    (hn : n ≤ b.length) : headEnd? b = some n := headEndFrom_of_append h (by omega)

/-- A line is the last one of its head when an empty line follows, and moves the end of the head
behind it by its own length otherwise. -/
theorem headEnd?_line {line r : Bytes} (hl : lf ∉ line) :
    headEnd? (line ++ lf :: r) =
      if r.head? = some lf then some (line.length + 2)
      else if startsBlank r then some (line.length + 3)
      else (headEnd? r).map (· + (line.length + 1)) := by
  induction line with
  | nil =>
    rw [List.nil_append, headEnd?, headEndFrom_cons, headEndFrom_eq]
    simp
  | cons c line ih =>
    rw [List.mem_cons, not_or] at hl
    have hc : c ≠ lf := Ne.symm hl.1
    rw [List.cons_append, headEnd?, headEndFrom_cons, if_neg (fun h => hc h.1),
      if_neg (fun h => hc h.1), headEndFrom_eq, ih hl.2]
    split
    · simp
    · split
      · simp
      · rw [Option.map_map]
        congr 1

/-! ## The ends of well-formed heads -/

theorem not_startsBlank {r : Bytes} (h : OpensLine r) : startsBlank r = false := by
  obtain ⟨c, r, rfl, hlf, hcr⟩ := h
  simp [startsBlank, hlf, hcr]

/-- A line before another line moves the end of the head behind it by its length. -/
theorem headEnd?_lineEnd {line eol r : Bytes} (hl : lf ∉ line) (he : LineEnd eol)
    (hr : OpensLine r) :
    headEnd? (line ++ eol ++ r) = (headEnd? r).map (· + (line ++ eol).length) := by
  have hblank := not_startsBlank hr
  have hhead : r.head? ≠ some lf := by
    obtain ⟨c, r, rfl, hlf, -⟩ := hr
    simpa using hlf
  cases he with
  | bare =>
    rw [List.append_assoc, List.singleton_append, headEnd?_line hl, if_neg hhead,
      if_neg (by simp [hblank]), List.length_append, List.length_singleton]
  | pair =>
    have hl' : lf ∉ line ++ [cr] := by
      rw [List.mem_append, not_or]
      exact ⟨hl, by decide⟩
    rw [show line ++ [cr, lf] ++ r = (line ++ [cr]) ++ lf :: r by simp, headEnd?_line hl',
      if_neg hhead, if_neg (by simp [hblank])]
    simp

/-- A line before an empty line is the last of its head. -/
theorem headEnd?_last {line eol eol' : Bytes} (hl : lf ∉ line) (he : LineEnd eol)
    (he' : LineEnd eol') (r : Bytes) :
    headEnd? (line ++ eol ++ (eol' ++ r)) = some (line ++ eol ++ eol').length := by
  have hl' : lf ∉ line ++ [cr] := by
    rw [List.mem_append, not_or]
    exact ⟨hl, by decide⟩
  cases he with
  | bare =>
    rw [List.append_assoc, List.singleton_append, headEnd?_line hl]
    cases he' <;> simp [startsBlank, show cr ≠ lf by decide]
  | pair =>
    rw [show line ++ [cr, lf] ++ (eol' ++ r) = (line ++ [cr]) ++ lf :: (eol' ++ r) by simp,
      headEnd?_line hl']
    cases he' <;> simp [startsBlank, show cr ≠ lf by decide]

/-- A line and the field lines behind it end where the field lines do. -/
theorem FieldLines.headEnd? {fs : List Field} {fields : Bytes} (h : FieldLines fs fields)
    {line eol : Bytes} (hl : lf ∉ line) (he : LineEnd eol) (rest : Bytes) :
    headEnd? (line ++ eol ++ (fields ++ rest)) = some (line ++ eol ++ fields).length := by
  induction h generalizing line eol with
  | nil he' => exact headEnd?_last hl he he' rest
  | @cons f fs line' eol' b hline he' _ ih =>
    rw [show line' ++ eol' ++ b ++ rest = line' ++ eol' ++ (b ++ rest) by simp,
      headEnd?_lineEnd hl he (by rw [List.append_assoc]; exact hline.opensLine _),
      ih hline.lf_not_mem he', Option.map_some]
    simp only [List.length_append, Option.some.injEq]
    omega

theorem EmptyLines.one {b : Bytes} (h : EmptyLines 1 b) : LineEnd b := by
  cases h with
  | more he hb =>
    cases hb
    rw [List.append_nil]
    exact he

namespace Headed

variable {fs : List Field} {n : Nat} {head : Bytes}

/-- With at most one empty line in front, the first empty line behind a line ends a head. -/
theorem headEnd?_eq (h : Headed fs n head) (hn : n ≤ 1) (rest : Bytes) :
    headEnd? (head ++ rest) = some head.length := by
  obtain ⟨hfront, hopens, hlf, he, hfs⟩ := h
  rename_i front line eol fields
  have hlower := hfs.headEnd? hlf he rest
  cases hfront with
  | none => simpa using hlower
  | @more n eol' b he' hb =>
    obtain rfl : n = 0 := by omega
    cases hb
    have hopens : OpensLine (line ++ eol ++ (fields ++ rest)) := by
      rw [List.append_assoc]
      exact hopens _
    have := @headEnd?_lineEnd [] eol' _ (by simp) he' hopens
    rw [hlower] at this
    simpa [Nat.add_comm, Nat.add_left_comm] using this

/-- With two empty lines in front, these are what the reader takes for the head. -/
theorem headEnd?_of_two (h : Headed fs n head) (hn : 2 ≤ n) (rest : Bytes) :
    ∃ blank, EmptyLines 2 blank ∧ blank.length < head.length ∧
      Http.headEnd? (head ++ rest) = some blank.length ∧
      (head ++ rest).take blank.length = blank := by
  obtain ⟨hfront, hopens, hlf, he, hfs⟩ := h
  rename_i front line eol fields
  obtain ⟨c, r, hopens, -, -⟩ := hopens []
  have hpos : 0 < line.length := by
    rw [List.append_nil] at hopens
    rw [hopens]
    exact Nat.succ_pos _
  cases hfront with
  | none => omega
  | more he1 hmore =>
    rename_i m eol1 b
    cases hmore with
    | none => omega
    | more he2 hmore =>
      rename_i m eol2 b
      have := @headEnd?_last [] eol1 eol2 (by simp) he1 he2 (b ++ (line ++ eol ++ fields) ++ rest)
      refine ⟨eol1 ++ eol2, ?_, ?_, ?_, ?_⟩
      · have := EmptyLines.more he1 (.more he2 .none)
        rwa [List.append_nil] at this
      · simp only [List.length_append]
        omega
      · simpa using this
      · rw [show eol1 ++ (eol2 ++ b) ++ (line ++ eol ++ fields) ++ rest =
          eol1 ++ eol2 ++ (b ++ (line ++ eol ++ fields) ++ rest) by simp]
        exact List.take_left

/-- No head is cut behind its end. -/
theorem cut_le {k : Nat} {rest : Bytes} (h : Headed fs n head)
    (hcut : headEnd? (head ++ rest) = some k) : k ≤ head.length := by
  by_cases hn : n ≤ 1
  · rw [h.headEnd?_eq hn rest] at hcut
    exact Nat.le_of_eq (Option.some.inj hcut).symm
  · obtain ⟨blank, -, hlt, hend, -⟩ := h.headEnd?_of_two (by omega) rest
    rw [hend] at hcut
    cases hcut
    exact Nat.le_of_lt hlt

end Headed

theorem RequestHead.headEnd?_eq {lines : RequestLines} {n : Nat} {head : Bytes}
    (h : RequestHead lines n head) (hn : n ≤ 1) (rest : Bytes) :
    headEnd? (head ++ rest) = some head.length := h.headed.headEnd?_eq hn rest

theorem RequestHead.headEnd?_of_two {lines : RequestLines} {n : Nat} {head : Bytes}
    (h : RequestHead lines n head) (hn : 2 ≤ n) (rest : Bytes) :
    ∃ blank, EmptyLines 2 blank ∧ blank.length < head.length ∧
      Http.headEnd? (head ++ rest) = some blank.length ∧
      (head ++ rest).take blank.length = blank := h.headed.headEnd?_of_two hn rest

/-! ## What is made of a head -/

namespace Request

/-- A head that the scanner accepts is a request as soon as its framing fields make sense. -/
theorem ofRaw?_of_scan {lines : RequestLines} {raw rest : Bytes}
    (h : scanRequest (fieldSlots raw) raw = .done lines rest) :
    ∃ method target, ofRaw? raw = (framing? lines.fields).map fun framing =>
      ⟨raw, method, target, hostOf target lines.fields, framing⟩ := by
  obtain ⟨n, head, hhead, -, -⟩ := scanRequest_eq_done.1 h
  obtain ⟨hm, ht⟩ := hhead.text
  obtain ⟨method, hm⟩ := Option.isSome_iff_exists.1 hm
  obtain ⟨target, ht⟩ := Option.isSome_iff_exists.1 ht
  refine ⟨method, target, ?_⟩
  unfold ofRaw?
  rw [h]
  cases hf : framing? lines.fields <;> simp [hm, ht, hf]

/-- So is a well-formed head. -/
theorem ofRaw?_of_head {lines : RequestLines} {n : Nat} {head : Bytes}
    (h : RequestHead lines n head) :
    ∃ method target, ofRaw? head = (framing? lines.fields).map fun framing =>
      ⟨head, method, target, hostOf target lines.fields, framing⟩ :=
  ofRaw?_of_scan
    (scanRequest_eq_done.2 ⟨n, head, h, (List.append_nil head).symm, h.length_le_slots⟩)

/-- Empty lines are no request. -/
theorem ofRaw?_of_emptyLines {n : Nat} {b : Bytes} (h : EmptyLines n b) : ofRaw? b = none := by
  unfold ofRaw? scanRequest
  rw [← List.append_nil b, skipEmptyLines_append h]
  rfl

end Request

namespace Reader

/-! ## Cutting a head off -/

/-- A head among the bytes that were read ahead is cut off at once. -/
theorem readHead_of_buffer {n : Nat} {r : Reader} (incomplete : Error) (limit : Nat)
    (h : headEnd? r.buffer = some n) :
    r.readHead incomplete limit = ⟨.ok (r.buffer.take n), r.skip n⟩ := by
  rw [readHead, h]
  rfl

/-- Cutting a head off goes on with what reading ahead brings. -/
theorem readHead_eq {limit : Nat} (incomplete : Error) (r : Reader)
    (hnone : headEnd? r.buffer = none) (hfits : ¬mostInHead < r.buffer.length) :
    r.readHead incomplete limit =
      match r.fill limit with
      | .more r => r.readHead incomplete limit
      | .ended r => ⟨.error (.failed incomplete), r⟩
      | .stopped s r => ⟨.error s, r⟩ := by
  rw [readHead, hnone]
  simp only [if_neg hfits]
  split <;> rename_i heq <;> rw [heq]

theorem readHead_of_fill {limit : Nat} {r r' : Reader} (incomplete : Error)
    (hnone : headEnd? r.buffer = none) (hfits : ¬mostInHead < r.buffer.length)
    (hr : r.fill limit = .more r') :
    r.readHead incomplete limit = r'.readHead incomplete limit := by
  rw [readHead_eq incomplete r hnone hfits, hr]

/-- As long as no end of the head was read, it has more bytes than were read. -/
theorem length_buffer_lt {n : Nat} {r : Reader} (hend : headEnd? r.bytes = some n)
    (hnone : headEnd? r.buffer = none) : r.buffer.length < n := by
  refine Nat.lt_of_not_le fun hle => ?_
  cases hnone.symm.trans (headEnd?_of_append hend hle)

/-- A reader cuts a head where its bytes say that the head ends. -/
theorem readHead_headEnd {incomplete : Error} {limit : Nat} {r : Reader} {raw : Bytes}
    (h : (r.readHead incomplete limit).result = .ok raw) :
    headEnd? r.bytes = some raw.length := by
  fun_induction readHead incomplete limit r with
  | case1 r n hn =>
    have hb := headEnd?_bounds hn
    cases h
    rw [List.length_take, Nat.min_eq_left hb.2]
    exact headEnd?_append hn
  | case2 => simp at h
  | case3 r _ _ r' hr ih =>
    have hb : r'.bytes = r.bytes := bytes_of_fill hr
    rw [← hb]
    exact ih h
  | case4 => simp at h
  | case5 => simp at h

/-- Bytes that were put back are there at once, as many as the reader asks for. -/
theorem fill_held {limit : Nat} {r : Reader} {left : Bytes} {more : List Bytes}
    (hheld : r.stream.held = left :: more) (hleft : left ≠ []) :
    r.fill limit = .more { r with
      buffer := r.buffer ++ left.take readAhead
      stream := { r.stream with held := left.drop readAhead :: more } } := by
  obtain ⟨buffer, ⟨held, source⟩, patience, now⟩ := r
  obtain rfl : held = left :: more := hheld
  cases left with
  | nil => exact absurd rfl hleft
  | cons b bs =>
    unfold fill Replay.readBy Replay.read
    simp only [Replay.take, Option.filter, Nat.le_max_left, decide_true, if_true]
    rfl

/-- A head in bytes that were put back is cut without waiting, unless they are too many to be read
before the reader gives up. -/
theorem readHead_held {incomplete : Error} {limit n : Nat} {r : Reader} {left : Bytes}
    {more : List Bytes} (hheld : r.stream.held = left :: more)
    (hread : left = [] ∨ readAhead ∣ r.buffer.length)
    (hmost : (r.buffer ++ left).length ≤ mostInHead + readAhead)
    (hend : headEnd? (r.buffer ++ left) = some n) :
    (r.readHead incomplete limit).result = .ok ((r.buffer ++ left).take n) := by
  -- Until there is a head, some of the bytes are left to be read.
  have hsome (r : Reader) (left : Bytes) (hend : headEnd? (r.buffer ++ left) = some n)
      (hnone : headEnd? r.buffer = none) : left ≠ [] := by
    rintro rfl
    rw [List.append_nil, hnone] at hend
    cases hend
  fun_induction readHead incomplete limit r generalizing left with
  | case1 r m hm =>
    have happ := @headEnd?_append r.buffer left m hm
    obtain rfl : m = n := by simpa [happ] using hend
    rw [List.take_append_of_le_length (headEnd?_bounds hm).2]
  | case2 r hnone hlarge =>
    have hleft := hsome r left hend hnone
    have := List.length_pos_iff.2 hleft
    obtain ⟨k, hk⟩ := hread.resolve_left hleft
    simp only [List.length_append, mostInHead, readAhead] at hmost hlarge hk
    omega
  | case3 r hnone hlarge r' hr ih =>
    have hleft := hsome r left hend hnone
    obtain ⟨k, hk⟩ := hread.resolve_left hleft
    rw [fill_held hheld hleft] at hr
    cases hr
    have hall : r.buffer ++ left.take readAhead ++ left.drop readAhead = r.buffer ++ left := by
      rw [List.append_assoc, List.take_append_drop]
    have := @ih (left.drop readAhead) rfl ?_ (by rwa [hall]) (by rwa [hall])
    · rwa [hall] at this
    · by_cases hl : left.length ≤ readAhead
      · exact .inl (List.drop_eq_nil_of_le hl)
      · refine .inr ⟨k + 1, ?_⟩
        rw [List.length_append, List.length_take, hk]
        simp only [readAhead] at hl ⊢
        omega
  | case4 r hnone hlarge r' hr =>
    rw [fill_held hheld (hsome r left hend hnone)] at hr
    cases hr
  | case5 r hnone hlarge s r' hr =>
    rw [fill_held hheld (hsome r left hend hnone)] at hr
    cases hr

end Reader
end Intercept.Http
