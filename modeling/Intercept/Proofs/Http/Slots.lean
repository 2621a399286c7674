import Intercept.Proofs.Http.Grammar

/-!
# Room for fields

A scan has slots for so many fields and refuses a buffer with more of them. Each field stands on a
line of its own and none on the first line of a head, so slots for as many fields as the buffer has
line feeds never run out, wherever the buffer ends.

* `Takes n scan`: a scan takes at least `n` line feeds off the buffer and does not run out of slots.
* `scanRequestLine`, `scanStatusLine`: what comes before the fields of a head.

Results:
* `Takes.andThen`, `Takes.map`: scans one behind the other.
* `scanFields_slots`, `scanFields_roomy`: with more slots than line feeds, more slots change nothing
  and none is missing.
* `Takes.fields`: the same for what starts with a line of its own, whichever line that is.
* `slots_never_run_out`: so it is for requests and for responses.
-/

namespace Intercept.Http

variable {α β : Type}

/-! ## Scans that need no slots -/

/-- A scan that takes at least so many line feeds off the buffer when it is done, and does not run
out of slots. -/
structure Takes (n : Nat) (scan : Bytes → Scan α) : Prop where
  lines : ∀ b a rest, scan b = .done a rest → rest.count lf + n ≤ b.count lf
  roomy : ∀ b, scan b ≠ .flawed .tooManyFields

theorem Scan.andThen_ne_flawed {s : Scan α} {f : α → Bytes → Scan β} {e : Flaw}
    (hs : s ≠ .flawed e) (hf : ∀ a rest, s = .done a rest → f a rest ≠ .flawed e) :
    s.andThen f ≠ .flawed e := by
  cases s with
  | done a rest => exact hf a rest rfl
  | more => nofun
  | flawed d =>
    rintro ⟨⟩
    exact hs rfl

theorem Scan.andThen_congr {s : Scan α} {f g : α → Bytes → Scan β}
    (h : ∀ a rest, s = .done a rest → f a rest = g a rest) : s.andThen f = s.andThen g := by
  cases s with
  | done a rest => exact h a rest rfl
  | more => rfl
  | flawed e => rfl

theorem Scan.andThen_assoc {γ : Type} (s : Scan α) (f : α → Bytes → Scan β)
    (g : β → Bytes → Scan γ) :
    (s.andThen f).andThen g = s.andThen fun a rest => (f a rest).andThen g := by
  cases s <;> rfl

namespace Takes

variable {m n : Nat} {f : Bytes → Scan α} {g : α → Bytes → Scan β}

theorem andThen (hf : Takes m f) (hg : ∀ a, Takes n (g a)) :
    Takes (m + n) fun b => (f b).andThen g where
  lines b a rest h := by
    obtain ⟨a', mid, hfirst, hsecond⟩ := Scan.andThen_eq_done.1 h
    have hm := hf.lines b a' mid hfirst
    have hn := (hg a').lines mid a rest hsecond
    omega
  roomy b := Scan.andThen_ne_flawed (hf.roomy b) fun a mid _ => (hg a).roomy mid

theorem done (a : α) : Takes 0 (Scan.done a) where
  lines b _ rest h := by
    cases h
    exact Nat.le_refl _
  roomy b := nofun

theorem map (hf : Takes n f) (k : α → β) : Takes n fun b => (f b).map k :=
  hf.andThen fun a => done (k a)

end Takes

theorem LineEnd.count_pos {eol : Bytes} (h : LineEnd eol) : 0 < eol.count lf := by
  cases h <;> decide

theorem takes_scanLineEnd {flaw : Flaw} (hflaw : flaw ≠ .tooManyFields) :
    Takes 1 (scanLineEnd flaw) where
  lines b _ rest h := by
    obtain ⟨eol, he, rfl⟩ := scanLineEnd_eq_done.1 h
    have hpos := he.count_pos
    rw [List.count_append]
    omega
  roomy b := by
    unfold scanLineEnd
    grind

theorem takes_skipEmptyLines : Takes 0 skipEmptyLines where
  lines b _ rest h := by
    obtain ⟨-, front, -, rfl, -⟩ := skipEmptyLines_eq_done.1 h
    rw [List.count_append]
    omega
  roomy b := by
    fun_induction skipEmptyLines b with grind

theorem takes_scanRun {p : UInt8 → Bool} {stop : UInt8} {flaw : Flaw}
    (hflaw : flaw ≠ .tooManyFields) : Takes 0 (scanRun p stop flaw) where
  lines b x rest h := by
    obtain ⟨rfl, -⟩ := scanRun_eq_done.1 h
    rw [List.count_append, List.count_cons]
    omega
  roomy b := by
    unfold scanRun
    grind

theorem takes_scanTarget : Takes 0 scanTarget where
  lines b x rest h := by
    obtain ⟨rfl, -⟩ := scanTarget_eq_done.1 h
    rw [List.count_append, List.count_cons]
    omega
  roomy b := by
    refine Scan.andThen_ne_flawed ((takes_scanRun (by decide)).roomy b) fun target rest _ => ?_
    split <;> nofun

theorem takes_scanVersion : Takes 0 scanVersion where
  lines b minor rest h := by
    obtain ⟨word, -, rfl⟩ := scanVersion_eq_done.1 h
    rw [List.count_append]
    omega
  roomy b := by
    unfold scanVersion
    grind

theorem takes_scanByte {x : UInt8} {flaw : Flaw} (hflaw : flaw ≠ .tooManyFields) :
    Takes 0 (scanByte x flaw) where
  lines b _ rest h := by
    obtain rfl := scanByte_eq_done.1 h
    rw [List.count_cons]
    omega
  roomy b := by
    unfold scanByte
    grind

theorem takes_scanStatus : Takes 0 scanStatus := by
  have hdigit : Takes 0 scanDigit :=
    { lines := fun b n rest h => by
        obtain ⟨c, -, -, rfl⟩ := scanDigit_eq_done.1 h
        rw [List.count_cons]
        omega
      roomy := fun b => by
        unfold scanDigit
        grind }
  exact hdigit.andThen fun _ => hdigit.andThen fun _ => hdigit.map _

theorem takes_scanReason : Takes 1 scanReason where
  lines b _ rest h := by
    obtain ⟨reason, eol, rfl, -, he⟩ := scanReason_eq_done.1 h
    have hpos := he.count_pos
    rw [List.count_append, List.count_append]
    omega
  roomy b := by
    have hend : ∀ b, scanLineEnd .status b ≠ .flawed .tooManyFields :=
      (takes_scanLineEnd (by decide)).roomy
    unfold scanReason
    grind

/-! ## Fields -/

theorem takes_scanField : Takes 1 scanField where
  lines b f rest h := by
    obtain ⟨line, eol, rfl, -, he⟩ := scanField_eq_done.1 h
    have hpos := he.count_pos
    rw [List.count_append, List.count_append]
    omega
  roomy b :=
    Scan.andThen_ne_flawed ((takes_scanRun (by decide)).roomy b) fun _ _ _ =>
      Scan.andThen_ne_flawed (Scan.andThen_ne_flawed
        ((takes_scanLineEnd (by decide)).roomy _) fun _ _ _ => nofun) fun _ _ _ => nofun

theorem scanFields_line {c : UInt8} (hc : c = lf ∨ c = cr) (slots : Nat) (done : List Field)
    (r : Bytes) :
    scanFields slots done (c :: r) = (scanLineEnd .newLine (c :: r)).map fun _ => done.reverse := by
  unfold scanFields
  exact if_pos hc

theorem scanFields_succ {c : UInt8} (hc : ¬ (c = lf ∨ c = cr)) (slots : Nat) (done : List Field)
    (r : Bytes) :
    scanFields (slots + 1) done (c :: r) =
      (scanField (c :: r)).andThen fun f rest => scanFields slots (f :: done) rest := by
  conv => lhs; unfold scanFields
  simp only [if_neg hc]
  cases scanField (c :: r) <;> rfl

/-- With more slots than line feeds, more slots change nothing: every field takes a line of its
own. -/
theorem scanFields_slots {slots slots' : Nat} {done : List Field} {b : Bytes}
    (h : b.count lf < slots) (h' : b.count lf < slots') :
    scanFields slots done b = scanFields slots' done b := by
  induction slots generalizing slots' done b with
  | zero => cases h
  | succ slots ih =>
    obtain ⟨slots', rfl⟩ := Nat.exists_eq_succ_of_ne_zero (Nat.ne_zero_of_lt h')
    cases b with
    | nil => rw [scanFields, scanFields]
    | cons c r =>
      by_cases hc : c = lf ∨ c = cr
      · rw [scanFields_line hc, scanFields_line hc]
      · rw [scanFields_succ hc, scanFields_succ hc]
        refine Scan.andThen_congr fun f rest hf => ?_
        have hline := takes_scanField.lines _ _ _ hf
        exact ih (by omega) (by omega)

/-- With more slots than line feeds none is missing, not even for a field that the buffer breaks off
in: that one has no line feed yet. -/
theorem scanFields_roomy {slots : Nat} {done : List Field} {b : Bytes} (h : b.count lf < slots) :
    scanFields slots done b ≠ .flawed .tooManyFields := by
  induction slots generalizing done b with
  | zero => cases h
  | succ slots ih =>
    cases b with
    | nil =>
      intro hflaw
      rw [scanFields] at hflaw
      cases hflaw
    | cons c r =>
      by_cases hc : c = lf ∨ c = cr
      · rw [scanFields_line hc]
        exact ((takes_scanLineEnd (by decide)).map _).roomy (c :: r)
      · rw [scanFields_succ hc]
        refine Scan.andThen_ne_flawed (takes_scanField.roomy (c :: r)) fun f rest hf => ?_
        have hline := takes_scanField.lines _ _ _ hf
        exact ih (by omega)

/-! ## Heads -/

/-- **Slots never run out** behind a line of its own. A buffer has a slot for each line feed; the
first line takes one and gives it to no field. -/
theorem Takes.fields {first : Bytes → Scan (List Field → α)} (hfirst : Takes 1 first) {slots : Nat}
    {b : Bytes} (h : fieldSlots b ≤ slots) :
    (((first b).andThen fun head r => (scanFields slots [] r).map head) =
        (first b).andThen fun head r => (scanFields (fieldSlots b) [] r).map head) ∧
      ((first b).andThen fun head r => (scanFields slots [] r).map head) ≠
        .flawed .tooManyFields := by
  have hroom (head : List Field → α) (r : Bytes) (hdone : first b = .done head r) :
      r.count lf < fieldSlots b := by
    have hline := hfirst.lines _ _ _ hdone
    unfold fieldSlots
    omega
  constructor
  · refine Scan.andThen_congr fun head r hdone => ?_
    have hless := hroom head r hdone
    rw [scanFields_slots (Nat.lt_of_lt_of_le hless h) hless]
  · refine Scan.andThen_ne_flawed (hfirst.roomy b) fun head r hdone => ?_
    exact Scan.andThen_ne_flawed (scanFields_roomy (Nat.lt_of_lt_of_le (hroom head r hdone) h))
      fun _ _ _ => nofun

/-- The first line of a request, behind empty lines: the head that it is with its fields. -/
def scanRequestLine (b : Bytes) : Scan (List Field → RequestLines) :=
  (skipEmptyLines b).andThen fun _ b =>
    (scanRun isToken sp .token b).andThen fun method b =>
      (scanTarget b).andThen fun target b =>
        (scanVersion b).andThen fun minor b =>
          (scanLineEnd .newLine b).map fun _ fields => ⟨method, target, minor, fields⟩

/-- The first line of a response, behind empty lines: the head that it is with its fields. -/
def scanStatusLine (b : Bytes) : Scan (List Field → ResponseLines) :=
  (skipEmptyLines b).andThen fun _ b =>
    (scanVersion b).andThen fun minor b =>
      (scanByte sp .version b).andThen fun _ b =>
        (scanStatus b).andThen fun status b =>
          (scanReason b).map fun _ fields => ⟨minor, status, fields⟩

theorem scanRequest_eq (slots : Nat) (b : Bytes) :
    scanRequest slots b =
      (scanRequestLine b).andThen fun head r => (scanFields slots [] r).map head := by
  simp only [scanRequest, scanRequestLine, Scan.map, Scan.andThen_assoc]
  rfl

theorem scanResponse_eq (slots : Nat) (b : Bytes) :
    scanResponse slots b =
      (scanStatusLine b).andThen fun head r => (scanFields slots [] r).map head := by
  simp only [scanResponse, scanStatusLine, Scan.map, Scan.andThen_assoc]
  rfl

theorem takes_scanRequestLine : Takes 1 scanRequestLine :=
  takes_skipEmptyLines.andThen fun _ => (takes_scanRun (by decide)).andThen fun _ =>
    takes_scanTarget.andThen fun _ => takes_scanVersion.andThen fun _ =>
      (takes_scanLineEnd (by decide)).map _

theorem takes_scanStatusLine : Takes 1 scanStatusLine :=
  takes_skipEmptyLines.andThen fun _ => takes_scanVersion.andThen fun _ =>
    (takes_scanByte (by decide)).andThen fun _ => takes_scanStatus.andThen fun _ =>
      takes_scanReason.map _

/-- More slots than those for a buffer change nothing. -/
theorem scanRequest_slots {slots : Nat} {b : Bytes} (h : fieldSlots b ≤ slots) :
    scanRequest slots b = scanRequest (fieldSlots b) b := by
  rw [scanRequest_eq, scanRequest_eq]
  exact (takes_scanRequestLine.fields h).1

theorem scanResponse_slots {slots : Nat} {b : Bytes} (h : fieldSlots b ≤ slots) :
    scanResponse slots b = scanResponse (fieldSlots b) b := by
  rw [scanResponse_eq, scanResponse_eq]
  exact (takes_scanStatusLine.fields h).1

/-- **The number of fields is never the reason for a refusal.** Of every buffer, wherever it ends,
scanning a request and scanning a response come to the same with the slots for that buffer, which
are those that sniffing and reading a head scan with, as with any more of them, and to no lack of
slots. -/
theorem slots_never_run_out (b : Bytes) (more : Nat) :
    (scanRequest (fieldSlots b + more) b = scanRequest (fieldSlots b) b ∧
      scanRequest (fieldSlots b) b ≠ .flawed .tooManyFields) ∧
    (scanResponse (fieldSlots b + more) b = scanResponse (fieldSlots b) b ∧
      scanResponse (fieldSlots b) b ≠ .flawed .tooManyFields) := by
  have hmore : fieldSlots b ≤ fieldSlots b + more := Nat.le_add_right _ _
  refine ⟨⟨scanRequest_slots hmore, ?_⟩, scanResponse_slots hmore, ?_⟩
  · rw [scanRequest_eq]
    exact (takes_scanRequestLine.fields (Nat.le_refl _)).2
  · rw [scanResponse_eq]
    exact (takes_scanStatusLine.fields (Nat.le_refl _)).2

end Intercept.Http
