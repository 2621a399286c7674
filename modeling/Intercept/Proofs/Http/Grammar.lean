import Intercept.Http.Grammar

/-!
# What the scanner accepts

The heads that scanning accepts, written down as a grammar, and each scan equal to its piece of it:
a scan is done exactly when a construct stands at the front, and gives what stands behind.

* `LineEnd`, `EmptyLines`, `FieldLine`, `FieldLines`, `RequestLine` and `StatusLine` are the pieces.
* `RequestHead` and `ResponseHead` are heads with the empty lines in front of them, and `Headed` is
  what they have in common.

Results:
* `scanLineEnd_eq_done`, `scanRun_eq_done`, `scanField_eq_done`, …: one piece each.
* `scanRequest_eq_done`, `scanResponse_eq_done`: scanning a head is done exactly when a head stands
  at the front and its fields fit the slots.
* `FieldLines.length_lt_count`: a head has fewer fields than lines, so there are always slots enough
  for the fields of a head that is there in full.
-/

namespace Intercept.Http

namespace Scan

variable {α β : Type} {s : Scan α} {f : α → Bytes → Scan β} {b : β} {rest : Bytes}

theorem andThen_eq_done :
    s.andThen f = .done b rest ↔ ∃ a mid, s = .done a mid ∧ f a mid = .done b rest := by
  cases s with
  | done a mid =>
    constructor
    · exact fun h => ⟨a, mid, rfl, h⟩
    · rintro ⟨_, _, h, hf⟩
      cases h
      exact hf
  | more => simp [andThen]
  | flawed e => simp [andThen]

theorem map_eq_done {g : α → β} : s.map g = .done b rest ↔ ∃ a, s = .done a rest ∧ g a = b := by
  rw [map, andThen_eq_done]
  constructor
  · rintro ⟨a, mid, h, hg⟩
    cases hg
    exact ⟨a, h, rfl⟩
  · rintro ⟨a, h, rfl⟩
    exact ⟨a, rest, h, rfl⟩

end Scan

/-! ## Lines -/

/-- The end of a line: LF or CR LF. -/
inductive LineEnd : Bytes → Prop
  | bare : LineEnd [lf]
  | pair : LineEnd [cr, lf]

/-- So many empty lines. -/
inductive EmptyLines : Nat → Bytes → Prop
  | none : EmptyLines 0 []
  | more {n : Nat} {eol b : Bytes} : LineEnd eol → EmptyLines n b → EmptyLines (n + 1) (eol ++ b)

/-- Whether something other than an empty line stands at the front. -/
def OpensLine (b : Bytes) : Prop := ∃ c r, b = c :: r ∧ c ≠ lf ∧ c ≠ cr

theorem scanLineEnd_eq_done {flaw : Flaw} {b rest : Bytes} :
    scanLineEnd flaw b = .done () rest ↔ ∃ eol, LineEnd eol ∧ b = eol ++ rest := by
  constructor
  · intro h
    unfold scanLineEnd at h
    split at h
    · cases h
    · rename_i c r
      split at h
      · rename_i hc
        cases h
        exact ⟨[lf], .bare, by rw [hc]; rfl⟩
      · split at h
        · rename_i hc
          split at h
          · cases h
          · split at h
            · rename_i hd
              cases h
              exact ⟨[cr, lf], .pair, by rw [hc, hd]; rfl⟩
            · cases h
        · cases h
  · rintro ⟨eol, he, rfl⟩
    cases he <;> rfl

/-- Empty lines in front change nothing. -/
theorem skipEmptyLines_append {n : Nat} {front : Bytes} (h : EmptyLines n front) (rest : Bytes) :
    skipEmptyLines (front ++ rest) = skipEmptyLines rest := by
  induction h with
  | none => rfl
  | more he _ ih =>
    rw [List.append_assoc, ← ih]
    cases he with
    | bare =>
      conv => lhs; unfold skipEmptyLines
      rfl
    | pair =>
      conv => lhs; unfold skipEmptyLines
      rfl

theorem skipEmptyLines_eq_done {b rest : Bytes} :
    skipEmptyLines b = .done () rest ↔
      ∃ n front, EmptyLines n front ∧ b = front ++ rest ∧ OpensLine rest := by
  constructor
  · intro h
    fun_induction skipEmptyLines b with
    | case1 => cases h
    | case2 r ih =>
      obtain ⟨n, front, hf, rfl, ho⟩ := ih h
      exact ⟨n + 1, [lf] ++ front, .more .bare hf, rfl, ho⟩
    | case3 => cases h
    | case4 r hne ih =>
      obtain ⟨n, front, hf, rfl, ho⟩ := ih h
      exact ⟨n + 1, [cr, lf] ++ front, .more .pair hf, rfl, ho⟩
    | case5 => cases h
    | case6 c r hlf hcr =>
      cases h
      exact ⟨0, [], .none, rfl, c, r, rfl, hlf, hcr⟩
  · rintro ⟨n, front, hf, rfl, c, r, rfl, hlf, hcr⟩
    rw [skipEmptyLines_append hf]
    unfold skipEmptyLines
    simp only [if_neg hlf, if_neg hcr]

/-! ## Words -/

theorem scanRun_eq_done {p : UInt8 → Bool} {stop : UInt8} {flaw : Flaw} {b x rest : Bytes} :
    scanRun p stop flaw b = .done x rest ↔
      b = x ++ stop :: rest ∧ x ≠ [] ∧ (∀ c ∈ x, p c) ∧ p stop = false := by
  constructor
  · intro h
    unfold scanRun at h
    have hb := List.takeWhile_append_dropWhile (p := p) (l := b)
    split at h
    · cases h
    · rename_i c r hd
      split at h
      · rename_i hc
        cases h
        have hnot := List.head?_dropWhile_not p b
        rw [hd] at hnot hb
        refine ⟨by rw [hc.1] at hb; exact hb.symm, hc.2, ?_, by simpa [hc.1] using hnot⟩
        exact List.all_eq_true.1 List.all_takeWhile
      · cases h
  · rintro ⟨rfl, hne, hx, hstop⟩
    have hs : ¬ p stop = true := by simp [hstop]
    unfold scanRun
    rw [List.dropWhile_append_of_pos hx, List.dropWhile_cons_of_neg hs,
      List.takeWhile_append_of_pos hx, List.takeWhile_cons_of_neg hs, List.append_nil]
    simp [hne]

theorem scanTarget_eq_done {b x rest : Bytes} :
    scanTarget b = .done x rest ↔
      b = x ++ sp :: rest ∧ x ≠ [] ∧ (∀ c ∈ x, isTarget c) ∧ (Utf8.decode? x).isSome := by
  rw [scanTarget, Scan.andThen_eq_done]
  constructor
  · rintro ⟨y, mid, hs, hy⟩
    obtain ⟨rfl, hne, hall, -⟩ := scanRun_eq_done.1 hs
    split at hy
    · rename_i hd
      cases hy
      exact ⟨rfl, hne, hall, hd⟩
    · cases hy
  · rintro ⟨rfl, hne, hall, hd⟩
    exact ⟨x, rest, scanRun_eq_done.2 ⟨rfl, hne, hall, by decide⟩, by rw [if_pos hd]⟩

/-- The words of the two versions. -/
inductive Version : Nat → Bytes → Prop
  | zero : Version 0 (ascii "HTTP/1.0")
  | one : Version 1 (ascii "HTTP/1.1")

theorem Version.lf_not_mem {minor : Nat} {word : Bytes} (h : Version minor word) : lf ∉ word := by
  cases h <;> decide

theorem scanVersion_eq_done {b rest : Bytes} {minor : Nat} :
    scanVersion b = .done minor rest ↔ ∃ word, Version minor word ∧ b = word ++ rest := by
  have hb := List.take_append_drop 8 b
  constructor
  · intro h
    unfold scanVersion at h
    simp only at h
    split at h
    · split at h <;> cases h
    · split at h
      · rename_i hw
        cases h
        exact ⟨_, .zero, by rw [← hw]; exact hb.symm⟩
      · split at h
        · rename_i hw
          cases h
          exact ⟨_, .one, by rw [← hw]; exact hb.symm⟩
        · cases h
  · rintro ⟨word, hw, rfl⟩
    cases hw <;> rfl

/-! ## Fields -/

/-- A value without the spaces around it. -/
def trimSpaces (b : Bytes) : Bytes := ((b.dropWhile isSpace).reverse.dropWhile isSpace).reverse

/-- A field line without its end. -/
inductive FieldLine : Field → Bytes → Prop
  | mk {name value : Bytes} : name ≠ [] → (∀ c ∈ name, isToken c) → (∀ c ∈ value, isValue c) →
      FieldLine ⟨name, trimSpaces value⟩ (name ++ 58 :: value)

/-- Field lines and the empty line that ends them. -/
inductive FieldLines : List Field → Bytes → Prop
  | nil {eol : Bytes} : LineEnd eol → FieldLines [] eol
  | cons {f : Field} {fs : List Field} {line eol b : Bytes} : FieldLine f line → LineEnd eol →
      FieldLines fs b → FieldLines (f :: fs) (line ++ eol ++ b)

/-- A field has bytes of values only. -/
theorem FieldLines.isValue {fs : List Field} {b : Bytes} (h : FieldLines fs b) :
    ∀ f ∈ fs, ∀ c ∈ f.value, isValue c := by
  induction h with
  | nil => simp
  | @cons f fs line eol b hline _ _ ih =>
    refine List.forall_mem_cons.2 ⟨fun c hc => ?_, ih⟩
    obtain ⟨-, -, hvalue⟩ := hline
    have hc := (List.dropWhile_sublist _).subset (List.mem_reverse.1 hc)
    exact hvalue c ((List.dropWhile_sublist _).subset (List.mem_reverse.1 hc))

theorem isValue_of_isSpace {c : UInt8} (h : isSpace c) : isValue c := by
  unfold isSpace at h
  unfold isValue
  simp only [Bool.or_eq_true, decide_eq_true_eq] at h
  rcases h with rfl | rfl <;> decide

/-- No end of a line starts with a byte of a value. -/
theorem LineEnd.opens {eol : Bytes} (h : LineEnd eol) (rest : Bytes) :
    ∃ c r, eol ++ rest = c :: r ∧ isValue c = false ∧ isSpace c = false := by
  cases h with
  | bare => exact ⟨lf, rest, rfl, by decide, by decide⟩
  | pair => exact ⟨cr, lf :: rest, rfl, by decide, by decide⟩

/-- A run of leading spaces ends at the latest before a byte that is none. -/
theorem dropWhile_append_stop {p : UInt8 → Bool} {c : UInt8} (b r : Bytes) (hc : p c = false) :
    (b ++ c :: r).dropWhile p = b.dropWhile p ++ c :: r := by
  rw [List.dropWhile_append, List.dropWhile_cons_of_neg (by simp [hc])]
  split
  · rename_i he
    rw [List.isEmpty_iff.1 he, List.nil_append]
  · rfl

theorem takeWhile_append_stop {p : UInt8 → Bool} {c : UInt8} {b r : Bytes} (hb : ∀ x ∈ b, p x)
    (hc : p c = false) : (b ++ c :: r).takeWhile p = b := by
  rw [List.takeWhile_append_of_pos hb, List.takeWhile_cons_of_neg (by simp [hc]), List.append_nil]

/-- Taking bytes behind the leading spaces brings no leading spaces back. -/
theorem dropWhile_takeWhile_dropWhile (p q : UInt8 → Bool) (b : Bytes) :
    ((b.dropWhile p).takeWhile q).dropWhile p = (b.dropWhile p).takeWhile q := by
  have hnot := List.head?_dropWhile_not p b
  cases hd : b.dropWhile p with
  | nil => rfl
  | cons c r =>
    rw [hd] at hnot
    rw [List.takeWhile_cons]
    split
    · exact List.dropWhile_cons_of_neg (by simpa using hnot)
    · rfl

theorem scanValue_eq_done {b v rest : Bytes} :
    scanValue b = .done v rest ↔
      ∃ value eol, b = value ++ eol ++ rest ∧ (∀ c ∈ value, isValue c) ∧ LineEnd eol ∧
        v = trimSpaces value := by
  unfold scanValue
  simp only
  rw [Scan.map_eq_done]
  constructor
  · rintro ⟨_, hs, rfl⟩
    obtain ⟨eol, he, heol⟩ := scanLineEnd_eq_done.1 hs
    have hspaces : ∀ c ∈ b.takeWhile isSpace, isSpace c := List.all_eq_true.1 List.all_takeWhile
    have hvalue : ∀ c ∈ (b.dropWhile isSpace).takeWhile isValue, isValue c :=
      List.all_eq_true.1 List.all_takeWhile
    have hb :
        b.takeWhile isSpace ++ (b.dropWhile isSpace).takeWhile isValue ++ eol ++ rest = b := by
      rw [List.append_assoc, ← heol, List.append_assoc, List.takeWhile_append_dropWhile,
        List.takeWhile_append_dropWhile]
    refine ⟨_, eol, hb.symm, fun c hc => ?_, he, ?_⟩
    · rcases List.mem_append.1 hc with hc | hc
      · exact isValue_of_isSpace (hspaces c hc)
      · exact hvalue c hc
    · rw [trimSpaces, List.dropWhile_append_of_pos hspaces, dropWhile_takeWhile_dropWhile]
  · rintro ⟨value, eol, rfl, hvalue, he, rfl⟩
    obtain ⟨c, r, hc, hv, hs⟩ := he.opens rest
    have hleft : ∀ x ∈ value.dropWhile isSpace, isValue x :=
      fun x hx => hvalue x (List.dropWhile_sublist _ |>.subset hx)
    refine ⟨(), ?_, ?_⟩
    · rw [List.append_assoc, hc, dropWhile_append_stop _ _ hs, List.dropWhile_append_of_pos hleft,
        List.dropWhile_cons_of_neg (by simp [hv]), ← hc]
      exact scanLineEnd_eq_done.2 ⟨eol, he, rfl⟩
    · rw [List.append_assoc, hc, dropWhile_append_stop _ _ hs, takeWhile_append_stop hleft hv]
      rfl

theorem scanField_eq_done {b rest : Bytes} {f : Field} :
    scanField b = .done f rest ↔
      ∃ line eol, b = line ++ eol ++ rest ∧ FieldLine f line ∧ LineEnd eol := by
  rw [scanField, Scan.andThen_eq_done]
  constructor
  · rintro ⟨name, mid, hs, hv⟩
    obtain ⟨rfl, hne, hall, -⟩ := scanRun_eq_done.1 hs
    obtain ⟨v, hscan, rfl⟩ := Scan.map_eq_done.1 hv
    obtain ⟨value, eol, rfl, hvalue, he, rfl⟩ := scanValue_eq_done.1 hscan
    exact ⟨name ++ 58 :: value, eol, by simp, .mk hne hall hvalue, he⟩
  · rintro ⟨line, eol, rfl, hline, he⟩
    obtain ⟨hne, hall, hvalue⟩ := hline
    rename_i name value
    refine ⟨name, value ++ eol ++ rest, ?_, ?_⟩
    · exact scanRun_eq_done.2 ⟨by simp, hne, hall, by decide⟩
    · exact Scan.map_eq_done.2 ⟨_, scanValue_eq_done.2 ⟨value, eol, rfl, hvalue, he, rfl⟩, rfl⟩

/-- A field line does not look like an empty line. -/
theorem FieldLine.opensLine {f : Field} {line : Bytes} (h : FieldLine f line) (more : Bytes) :
    OpensLine (line ++ more) := by
  obtain ⟨hne, hall, -⟩ := h
  rename_i name value
  cases name with
  | nil => exact absurd rfl hne
  | cons c r =>
    have hc := hall c List.mem_cons_self
    refine ⟨c, _, rfl, ?_, ?_⟩ <;> rintro rfl <;> exact absurd hc (by decide)

/-- The end of a line starts with LF or CR. -/
theorem LineEnd.opens_lf_or_cr {eol : Bytes} (h : LineEnd eol) (rest : Bytes) :
    ∃ c r, eol ++ rest = c :: r ∧ (c = lf ∨ c = cr) := by
  cases h with
  | bare => exact ⟨lf, rest, rfl, .inl rfl⟩
  | pair => exact ⟨cr, lf :: rest, rfl, .inr rfl⟩

theorem scanFields_eq_done {slots : Nat} {done fs : List Field} {b rest : Bytes} :
    scanFields slots done b = .done fs rest ↔
      ∃ fs' front, b = front ++ rest ∧ FieldLines fs' front ∧ fs = done.reverse ++ fs' ∧
        fs'.length ≤ slots := by
  constructor
  · intro h
    fun_induction scanFields slots done b with
    | case1 => cases h
    | case2 slots done c r hc =>
      obtain ⟨_, hs, rfl⟩ := Scan.map_eq_done.1 h
      obtain ⟨eol, he, hb⟩ := scanLineEnd_eq_done.1 hs
      exact ⟨[], eol, hb, .nil he, (List.append_nil _).symm, Nat.zero_le _⟩
    | case3 => cases h
    | case4 done c r hc slots f r' hf ih =>
      obtain ⟨line, eol, hb, hline, he⟩ := scanField_eq_done.1 hf
      obtain ⟨fs', front, rfl, hfs, rfl, hlen⟩ := ih h
      refine ⟨f :: fs', line ++ eol ++ front, by simp [hb], .cons hline he hfs, by simp, ?_⟩
      exact Nat.succ_le_succ hlen
    | case5 => cases h
    | case6 => cases h
  · rintro ⟨fs', front, rfl, hfs, rfl, hlen⟩
    induction hfs generalizing slots done with
    | nil he =>
      rename_i eol
      obtain ⟨c, r, hb, hc⟩ := he.opens_lf_or_cr rest
      rw [hb]
      unfold scanFields
      simp only [if_pos hc]
      rw [← hb, List.append_nil]
      exact Scan.map_eq_done.2 ⟨(), scanLineEnd_eq_done.2 ⟨eol, he, rfl⟩, rfl⟩
    | @cons f fs line eol b hline he _ ih =>
      obtain ⟨c, r, hb, hlf, hcr⟩ := hline.opensLine (eol ++ (b ++ rest))
      have hscan : scanField (c :: r) = .done f (b ++ rest) :=
        scanField_eq_done.2 ⟨line, eol, by rw [← hb]; simp, hline, he⟩
      cases slots with
      | zero => cases hlen
      | succ slots =>
        rw [show line ++ eol ++ b ++ rest = c :: r by rw [← hb]; simp]
        unfold scanFields
        simp only [if_neg (not_or.2 ⟨hlf, hcr⟩), hscan]
        rw [ih (Nat.le_of_succ_le_succ hlen)]
        simp

theorem lf_not_mem_of_all {p : UInt8 → Bool} {b : Bytes} (hb : ∀ c ∈ b, p c)
    (hp : p lf = false) : lf ∉ b := fun hm => by simpa [hp] using hb lf hm

/-- A field line is one line. -/
theorem FieldLine.lf_not_mem {f : Field} {line : Bytes} (h : FieldLine f line) : lf ∉ line := by
  obtain ⟨-, hname, hvalue⟩ := h
  rw [List.mem_append, List.mem_cons, not_or, not_or]
  exact ⟨lf_not_mem_of_all hname (by decide), by decide, lf_not_mem_of_all hvalue (by decide)⟩

/-- A head has fewer fields than lines. -/
theorem FieldLines.length_lt_count {fs : List Field} {b : Bytes} (h : FieldLines fs b) :
    fs.length < b.count lf := by
  have hend {eol : Bytes} (he : LineEnd eol) : 0 < eol.count lf := by cases he <;> decide
  induction h with
  | nil he => exact hend he
  | cons _ he _ ih =>
    have := hend he
    simp only [List.length_cons, List.count_append]
    omega

/-! ## Requests -/

/-- The first line of a request, without its end: method, target and version. -/
inductive RequestLine : Bytes → Bytes → Nat → Bytes → Prop
  | mk {method target word : Bytes} {minor : Nat} :
      method ≠ [] → (∀ c ∈ method, isToken c) → target ≠ [] → (∀ c ∈ target, isTarget c) →
      (Utf8.decode? target).isSome → Version minor word →
      RequestLine method target minor (method ++ sp :: (target ++ sp :: word))

/-- A request head with so many empty lines in front of it. -/
inductive RequestHead (lines : RequestLines) (n : Nat) : Bytes → Prop
  | mk {front line eol fields : Bytes} : EmptyLines n front →
      RequestLine lines.method lines.target lines.minor line → LineEnd eol →
      FieldLines lines.fields fields → RequestHead lines n (front ++ (line ++ eol ++ fields))

/-- Methods and field names are ASCII. -/
theorem lt_of_isToken {c : UInt8} (h : isToken c) : c < 0x80 := by
  have hmarks : ∀ x ∈ ascii "!#$%&'*+-.^_`|~", x < 0x80 := by decide +kernel
  unfold isToken isLetter isDigit at h
  simp only [Bool.or_eq_true, Bool.and_eq_true, decide_eq_true_eq, List.contains_iff_mem] at h
  rcases h with ((⟨-, h⟩ | ⟨-, h⟩) | ⟨-, h⟩) | h
  · exact UInt8.lt_of_le_of_lt h (by decide)
  · exact UInt8.lt_of_le_of_lt h (by decide)
  · exact UInt8.lt_of_le_of_lt h (by decide)
  · exact hmarks c h

/-- A request line does not look like an empty line. -/
theorem RequestLine.opensLine {method target line : Bytes} {minor : Nat}
    (h : RequestLine method target minor line) (more : Bytes) : OpensLine (line ++ more) := by
  obtain ⟨hne, hall, -, -, -, -⟩ := h
  cases method with
  | nil => exact absurd rfl hne
  | cons c r =>
    have hc := hall c List.mem_cons_self
    refine ⟨c, _, rfl, ?_, ?_⟩ <;> rintro rfl <;> exact absurd hc (by decide)

/-- A request line is one line. -/
theorem RequestLine.lf_not_mem {method target line : Bytes} {minor : Nat}
    (h : RequestLine method target minor line) : lf ∉ line := by
  obtain ⟨-, hmethod, -, htarget, -, hword⟩ := h
  rw [List.mem_append, List.mem_cons, List.mem_append, List.mem_cons]
  rintro (hm | hm | hm | hm | hm)
  · exact lf_not_mem_of_all hmethod (by decide) hm
  · exact absurd hm (by decide)
  · exact lf_not_mem_of_all htarget (by decide) hm
  · exact absurd hm (by decide)
  · exact hword.lf_not_mem hm

/-- The method and the target of a request are text. -/
theorem RequestHead.text {lines : RequestLines} {n : Nat} {head : Bytes}
    (h : RequestHead lines n head) :
    (Utf8.decode? lines.method).isSome ∧ (Utf8.decode? lines.target).isSome := by
  obtain ⟨-, hline, -, -⟩ := h
  obtain ⟨-, hmethod, -, -, htext, -⟩ := hline
  exact ⟨Utf8.decode?_isSome_of_ascii fun c hc => lt_of_isToken (hmethod c hc), htext⟩

/-- **Scanning a request** is done exactly when a request head stands at the front whose fields fit
the slots, and gives what stands behind it. -/
theorem scanRequest_eq_done {slots : Nat} {b rest : Bytes} {lines : RequestLines} :
    scanRequest slots b = .done lines rest ↔
      ∃ n head, RequestHead lines n head ∧ b = head ++ rest ∧ lines.fields.length ≤ slots := by
  unfold scanRequest
  simp only [Scan.andThen_eq_done, Scan.map_eq_done]
  constructor
  · rintro ⟨_, b1, h1, method, b2, h2, target, b3, h3, minor, b4, h4, _, b5, h5, fields, h6, rfl⟩
    obtain ⟨n, front, hfront, rfl, -⟩ := skipEmptyLines_eq_done.1 h1
    obtain ⟨rfl, hm, hmall, -⟩ := scanRun_eq_done.1 h2
    obtain ⟨rfl, ht, htall, htext⟩ := scanTarget_eq_done.1 h3
    obtain ⟨word, hword, rfl⟩ := scanVersion_eq_done.1 h4
    obtain ⟨eol, heol, rfl⟩ := scanLineEnd_eq_done.1 h5
    obtain ⟨fs, lower, rfl, hfs, rfl, hlen⟩ := scanFields_eq_done.1 h6
    refine ⟨n, _, .mk hfront (.mk hm hmall ht htall htext hword) heol hfs, by simp, hlen⟩
  · rintro ⟨n, head, ⟨hfront, hline, heol, hfs⟩, rfl, hlen⟩
    rename_i front line eol fields
    obtain ⟨method, target, minor, fs⟩ := lines
    have hopens := hline.opensLine (eol ++ fields ++ rest)
    obtain ⟨hm, hmall, ht, htall, htext, hword⟩ := hline
    rename_i word
    refine ⟨(), _, skipEmptyLines_eq_done.2 ⟨n, front, hfront, by simp, hopens⟩, method,
      target ++ sp :: (word ++ (eol ++ (fields ++ rest))),
      scanRun_eq_done.2 ⟨by simp, hm, hmall, by decide⟩, target, _,
      scanTarget_eq_done.2 ⟨rfl, ht, htall, htext⟩, minor, _,
      scanVersion_eq_done.2 ⟨word, hword, rfl⟩, (), _,
      scanLineEnd_eq_done.2 ⟨eol, heol, rfl⟩, fs, ?_, rfl⟩
    exact scanFields_eq_done.2 ⟨fs, fields, rfl, hfs, rfl, hlen⟩

/-! ## Responses -/

theorem scanByte_eq_done {x : UInt8} {flaw : Flaw} {b rest : Bytes} :
    scanByte x flaw b = .done () rest ↔ b = x :: rest := by
  cases b with
  | nil => simp [scanByte]
  | cons c r => by_cases hc : c = x <;> simp [scanByte, hc]

theorem scanDigit_eq_done {b rest : Bytes} {n : Nat} :
    scanDigit b = .done n rest ↔ ∃ c, isDigit c ∧ n = c.toNat - 48 ∧ b = c :: rest := by
  cases b with
  | nil => simp [scanDigit]
  | cons c r =>
    unfold scanDigit
    simp only
    by_cases hc : isDigit c
    · rw [if_pos hc]
      constructor
      · intro h
        cases h
        exact ⟨c, hc, rfl, rfl⟩
      · rintro ⟨d, -, rfl, hd⟩
        cases hd
        rfl
    · rw [if_neg hc]
      constructor
      · intro h
        cases h
      · rintro ⟨d, hd, -, hcd⟩
        cases hcd
        exact absurd hd hc

/-- The three digits of a status. -/
inductive StatusDigits : Nat → Bytes → Prop
  | mk {h t o : UInt8} : isDigit h → isDigit t → isDigit o →
      StatusDigits ((h.toNat - 48) * 100 + (t.toNat - 48) * 10 + (o.toNat - 48)) [h, t, o]

theorem scanStatus_eq_done {b rest : Bytes} {status : Nat} :
    scanStatus b = .done status rest ↔ ∃ word, StatusDigits status word ∧ b = word ++ rest := by
  unfold scanStatus
  simp only [Scan.andThen_eq_done, Scan.map_eq_done]
  constructor
  · rintro ⟨_, b1, h1, _, b2, h2, _, h3, rfl⟩
    obtain ⟨h, hh, rfl, rfl⟩ := scanDigit_eq_done.1 h1
    obtain ⟨t, ht, rfl, rfl⟩ := scanDigit_eq_done.1 h2
    obtain ⟨o, ho, rfl, rfl⟩ := scanDigit_eq_done.1 h3
    exact ⟨[h, t, o], .mk hh ht ho, rfl⟩
  · rintro ⟨word, ⟨hh, ht, ho⟩, rfl⟩
    exact ⟨_, _, scanDigit_eq_done.2 ⟨_, hh, rfl, rfl⟩, _, _, scanDigit_eq_done.2 ⟨_, ht, rfl, rfl⟩,
      _, scanDigit_eq_done.2 ⟨_, ho, rfl, rfl⟩, rfl⟩

/-- What stands between a status and the end of its line: nothing, or a space and a phrase. -/
inductive Reason : Bytes → Prop
  | none : Reason []
  | phrase {text : Bytes} : (∀ c ∈ text, isValue c) → Reason (sp :: text)

theorem Reason.lf_not_mem {reason : Bytes} (h : Reason reason) : lf ∉ reason := by
  cases h with
  | none => simp
  | phrase htext =>
    rw [List.mem_cons, not_or]
    exact ⟨by decide, lf_not_mem_of_all htext (by decide)⟩

theorem scanReason_eq_done {b rest : Bytes} :
    scanReason b = .done () rest ↔
      ∃ reason eol, b = reason ++ eol ++ rest ∧ Reason reason ∧ LineEnd eol := by
  constructor
  · intro h
    unfold scanReason at h
    split at h
    · cases h
    · rename_i c r
      split at h
      · rename_i hc
        obtain ⟨eol, he, heol⟩ := scanLineEnd_eq_done.1 h
        refine ⟨sp :: r.takeWhile isValue, eol, ?_,
          .phrase (List.all_eq_true.1 List.all_takeWhile), he⟩
        rw [hc, List.append_assoc, ← heol, List.cons_append, List.takeWhile_append_dropWhile]
      · obtain ⟨eol, he, heol⟩ := scanLineEnd_eq_done.1 h
        exact ⟨[], eol, heol, .none, he⟩
  · rintro ⟨reason, eol, rfl, hreason, he⟩
    cases hreason with
    | none => cases he <;> rfl
    | @phrase text htext =>
      obtain ⟨c, r, hc, hv, -⟩ := he.opens rest
      have hdrop : (text ++ (eol ++ rest)).dropWhile isValue = eol ++ rest := by
        rw [List.dropWhile_append_of_pos htext, hc, List.dropWhile_cons_of_neg (by simp [hv])]
      rw [List.append_assoc, List.cons_append]
      unfold scanReason
      simp only
      rw [if_pos trivial, hdrop]
      exact scanLineEnd_eq_done.2 ⟨eol, he, rfl⟩

/-- The first line of a response, without its end: version, status and reason. -/
inductive StatusLine : Nat → Nat → Bytes → Prop
  | mk {word digits reason : Bytes} {minor status : Nat} :
      Version minor word → StatusDigits status digits → Reason reason →
      StatusLine minor status (word ++ sp :: (digits ++ reason))

/-- A response head with so many empty lines in front of it. -/
inductive ResponseHead (lines : ResponseLines) (n : Nat) : Bytes → Prop
  | mk {front line eol fields : Bytes} : EmptyLines n front →
      StatusLine lines.minor lines.status line → LineEnd eol → FieldLines lines.fields fields →
      ResponseHead lines n (front ++ (line ++ eol ++ fields))

/-- A status line does not look like an empty line. -/
theorem StatusLine.opensLine {minor status : Nat} {line : Bytes} (h : StatusLine minor status line)
    (more : Bytes) : OpensLine (line ++ more) := by
  obtain ⟨hword, -, -⟩ := h
  cases hword <;> exact ⟨72, _, rfl, by decide, by decide⟩

/-- A status line is one line. -/
theorem StatusLine.lf_not_mem {minor status : Nat} {line : Bytes}
    (h : StatusLine minor status line) : lf ∉ line := by
  obtain ⟨hword, ⟨hh, ht, ho⟩, hreason⟩ := h
  have hdigits := lf_not_mem_of_all (List.forall_mem_cons.2 ⟨hh, List.forall_mem_cons.2
    ⟨ht, List.forall_mem_singleton.2 ho⟩⟩) (p := isDigit) (by decide)
  rw [List.mem_append, List.mem_cons, List.mem_append]
  rintro (hm | hm | hm | hm)
  · exact hword.lf_not_mem hm
  · exact absurd hm (by decide)
  · exact hdigits hm
  · exact hreason.lf_not_mem hm

/-- **Scanning a response** is done exactly when a response head stands at the front whose fields
fit the slots, and gives what stands behind it. -/
theorem scanResponse_eq_done {slots : Nat} {b rest : Bytes} {lines : ResponseLines} :
    scanResponse slots b = .done lines rest ↔
      ∃ n head, ResponseHead lines n head ∧ b = head ++ rest ∧ lines.fields.length ≤ slots := by
  unfold scanResponse
  simp only [Scan.andThen_eq_done, Scan.map_eq_done]
  constructor
  · rintro ⟨_, b1, h1, minor, b2, h2, _, b3, h3, status, b4, h4, _, b5, h5, fields, h6, rfl⟩
    obtain ⟨n, front, hfront, rfl, -⟩ := skipEmptyLines_eq_done.1 h1
    obtain ⟨word, hword, rfl⟩ := scanVersion_eq_done.1 h2
    obtain rfl := scanByte_eq_done.1 h3
    obtain ⟨digits, hdigits, rfl⟩ := scanStatus_eq_done.1 h4
    obtain ⟨reason, eol, rfl, hreason, heol⟩ := scanReason_eq_done.1 h5
    obtain ⟨fs, lower, rfl, hfs, rfl, hlen⟩ := scanFields_eq_done.1 h6
    exact ⟨n, _, .mk hfront (.mk hword hdigits hreason) heol hfs, by simp, hlen⟩
  · rintro ⟨n, head, ⟨hfront, hline, heol, hfs⟩, rfl, hlen⟩
    rename_i front line eol fields
    obtain ⟨minor, status, fs⟩ := lines
    have hopens := hline.opensLine (eol ++ fields ++ rest)
    obtain ⟨hword, hdigits, hreason⟩ := hline
    rename_i word digits reason
    refine ⟨(), _, skipEmptyLines_eq_done.2 ⟨n, front, hfront, by simp, hopens⟩, minor,
      sp :: (digits ++ (reason ++ eol ++ (fields ++ rest))),
      scanVersion_eq_done.2 ⟨word, hword, by simp⟩, (), _, scanByte_eq_done.2 rfl, status, _,
      scanStatus_eq_done.2 ⟨digits, hdigits, rfl⟩, (), _,
      scanReason_eq_done.2 ⟨reason, eol, rfl, hreason, heol⟩, fs, ?_, rfl⟩
    exact scanFields_eq_done.2 ⟨fs, fields, rfl, hfs, rfl, hlen⟩

/-! ## Heads of either kind -/

/-- What the heads of requests and of responses have in common: so many empty lines, a first line
and field lines. -/
inductive Headed (fs : List Field) (n : Nat) : Bytes → Prop
  | mk {front line eol fields : Bytes} : EmptyLines n front → (∀ more, OpensLine (line ++ more)) →
      lf ∉ line → LineEnd eol → FieldLines fs fields → Headed fs n (front ++ (line ++ eol ++ fields))

theorem RequestHead.headed {lines : RequestLines} {n : Nat} {head : Bytes}
    (h : RequestHead lines n head) : Headed lines.fields n head := by
  obtain ⟨hfront, hline, he, hfs⟩ := h
  exact .mk hfront hline.opensLine hline.lf_not_mem he hfs

theorem ResponseHead.headed {lines : ResponseLines} {n : Nat} {head : Bytes}
    (h : ResponseHead lines n head) : Headed lines.fields n head := by
  obtain ⟨hfront, hline, he, hfs⟩ := h
  exact .mk hfront hline.opensLine hline.lf_not_mem he hfs

/-- There are slots enough for the fields of a head that is there in full. -/
theorem Headed.length_le_slots {fs : List Field} {n : Nat} {head : Bytes} (h : Headed fs n head) :
    fs.length ≤ fieldSlots head := by
  obtain ⟨-, -, -, -, hfs⟩ := h
  have := hfs.length_lt_count
  simp only [fieldSlots, List.count_append]
  omega

theorem RequestHead.length_le_slots {lines : RequestLines} {n : Nat} {head : Bytes}
    (h : RequestHead lines n head) : lines.fields.length ≤ fieldSlots head :=
  h.headed.length_le_slots

end Intercept.Http
