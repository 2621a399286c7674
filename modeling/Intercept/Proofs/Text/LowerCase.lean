import Intercept.Proofs.Text.Numeral
import Intercept.Text.LowerCase

/-!
# Lower case of joined texts

Lower case looks at the characters around a capital sigma, so the lower-case form of a text is not
in general made up of those of its parts. It is where the parts meet at a mark: the marks that hosts
and patterns are written with belong to no word, and nor do digits.

* `Lowered`: text in which lower case changes nothing. `Ascii`: text without other characters.
  `Digits`: text of decimal digits.
* `SameLetters`: texts that differ in the case of their ASCII letters only.
* `marks`: the marks that hosts, ports and patterns are written with.

Results:
* `toLowerAfter_append`, `toLower_mark`: lower case of a text whose parts meet at a mark.
* `mem_toLower_mark`, `toLower_eq_mark`: lower case makes no mark and takes none away.
* `toLowerAfter_ascii`: ASCII text is mapped character by character, whatever stands around it.
* `SameLetters.toLower`: the case of ASCII letters makes no difference.
-/

namespace Intercept.Text

variable {t u before near : Text} {c m : Char}

/-- Text in which lower case changes nothing: ASCII without capital letters. -/
def Lowered (t : Text) : Prop := ∀ c ∈ t, c.toNat < 0x80 ∧ c.toLower = c

/-- Text of ASCII characters. -/
def Ascii (t : Text) : Prop := ∀ c ∈ t, c.toNat < 0x80

/-- Text of decimal digits. -/
def Digits (t : Text) : Prop := ∀ c ∈ t, ∃ d < 10, c = Nat.digitChar d

/-- The lower-case form of a character between two texts, the nearest character first in both. -/
def lowerBetween (before : Text) (c : Char) (after : Text) : Text :=
  if c = 'Σ' then (if isWordFinal before after then ['ς'] else ['σ']) else lower c

/-- Texts that differ in the case of their ASCII letters only. -/
def SameLetters (t u : Text) : Prop := t.map Char.toLower = u.map Char.toLower

instance : Decidable (Ascii t) := List.decidableBAll (fun c : Char => c.toNat < 0x80) t

instance : Decidable (Digits t) :=
  List.decidableBAll (fun c : Char => ∃ d < 10, c = Nat.digitChar d) t

instance : Decidable (SameLetters t u) :=
  inferInstanceAs (Decidable (t.map Char.toLower = u.map Char.toLower))

/-- The marks that hosts, ports and patterns are written with. -/
def marks : List Char := [':', '[', ']', '*', '.']

theorem mark_cases (hm : m ∈ marks) : m = ':' ∨ m = '[' ∨ m = ']' ∨ m = '*' ∨ m = '.' := by
  simpa [marks] using hm

theorem lowered_cons {c : Char} {t : Text} :
    Lowered (c :: t) ↔ (c.toNat < 0x80 ∧ c.toLower = c) ∧ Lowered t :=
  List.forall_mem_cons

theorem Lowered.ascii (h : Lowered t) : Ascii t := fun c hc => (h c hc).1

theorem lowered_digitChar {d : Nat} (hd : d < 16) :
    (Nat.digitChar d).toNat < 0x80 ∧ (Nat.digitChar d).toLower = Nat.digitChar d :=
  ⟨by interval_cases d <;> decide, Numeral.toLower_digitChar hd⟩

theorem digits_decimal (n : Nat) : Digits (Numeral.decimal n) :=
  fun _ hc => Numeral.mem_toDigits (by decide) hc

theorem Digits.lowered (h : Digits t) : Lowered t := by
  intro c hc
  obtain ⟨d, hd, rfl⟩ := h c hc
  exact lowered_digitChar (by omega)

theorem Digits.notMem (h : Digits t) (hc : ∀ d < 10, c ≠ Nat.digitChar d) : c ∉ t := by
  intro hmem
  obtain ⟨d, hd, rfl⟩ := h c hmem
  exact hc d hd rfl

/-! ## The tables at ASCII characters -/

theorem inRanges_eq (ranges : Array (Nat × Nat)) (n : Nat) :
    inRanges ranges n = ranges.toList.any fun (lo, hi) => lo ≤ n && n ≤ hi :=
  (Array.any_toList ..).symm

/-- A capital letter and its lower-case form lie in the same ranges. -/
theorem inRanges_letter : ∀ ranges ∈ [caseIgnorableRanges, casedRanges], ∀ n < 26,
    inRanges ranges (65 + n + 32) = inRanges ranges (65 + n) := by
  simp only [inRanges_eq]
  decide +kernel

/-- A mark is passed over or belongs to no word. -/
theorem ignorable_or_not_cased (hm : m ∈ marks) : isCaseIgnorable m = true ∨ isCased m = false := by
  simp only [isCaseIgnorable, isCased, inRanges_eq]
  rcases mark_cases hm with rfl | rfl | rfl | rfl | rfl <;> decide +kernel

theorem not_cased_digitChar :
    ∀ d < 10, isCaseIgnorable (Nat.digitChar d) = false ∧ isCased (Nat.digitChar d) = false := by
  simp only [isCaseIgnorable, isCased, inRanges_eq]
  decide +kernel

/-- What the table maps a character to that is not ASCII is no mark. -/
theorem shift_ge : ∀ run ∈ lowerRanges, run.last < 0x80 ∨ 0x61 ≤ (run.first : Int) + run.shift := by
  decide +kernel

/-! ## The characters around a sigma -/

theorem startsCased_cons (c : Char) (t : Text) :
    startsCased (c :: t) = if isCaseIgnorable c then startsCased t else isCased c := by
  unfold startsCased
  rw [List.dropWhile_cons]
  split_ifs <;> rfl

/-- A mark hides the word behind it, or what is behind it is none. -/
theorem startsCased_mark (hm : m ∈ marks) (ht : startsCased t = false) :
    startsCased (m :: t) = false := by
  rw [startsCased_cons]
  split_ifs with hignorable
  · exact ht
  · exact (ignorable_or_not_cased hm).resolve_left hignorable

theorem Digits.startsCased (h : Digits t) : startsCased t = false := by
  cases t with
  | nil => rfl
  | cons c t =>
    obtain ⟨d, hd, rfl⟩ := h c List.mem_cons_self
    obtain ⟨hignorable, hcased⟩ := not_cased_digitChar d hd
    rw [startsCased_cons, hignorable, hcased]
    rfl

/-- Where no word starts, a sigma does not look further. -/
theorem startsCased_append (hu : startsCased u = false) : startsCased (t ++ u) = startsCased t := by
  induction t with
  | nil => exact hu
  | cons c t ih => rw [List.cons_append, startsCased_cons, startsCased_cons, ih]

theorem toLowerAfter_cons (before : Text) (c : Char) (t : Text) :
    toLowerAfter before (c :: t) = lowerBetween before c t ++ toLowerAfter (c :: before) t := rfl

/-- The parts are mapped one by one when no word starts with the second one. -/
theorem toLowerAfter_append (hu : startsCased u = false) (before t : Text) :
    toLowerAfter before (t ++ u) = toLowerAfter before t ++ toLowerAfter (t.reverse ++ before) u := by
  induction t generalizing before with
  | nil => rfl
  | cons c t ih =>
    have hfinal : isWordFinal before (t ++ u) = isWordFinal before t := by
      rw [isWordFinal, isWordFinal, startsCased_append hu]
    have hhere : lowerBetween before c (t ++ u) = lowerBetween before c t := by
      rw [lowerBetween, lowerBetween, hfinal]
    rw [List.cons_append, toLowerAfter_cons, toLowerAfter_cons, hhere, ih, List.reverse_cons,
      List.append_assoc, List.append_assoc, List.singleton_append]

/-- What stands further ahead makes no difference when no word ends there. -/
theorem toLowerAfter_far (hbefore : startsCased before = false) (near t : Text) :
    toLowerAfter (near ++ before) t = toLowerAfter near t := by
  induction t generalizing near with
  | nil => rfl
  | cons c t ih =>
    have hfinal : isWordFinal (near ++ before) t = isWordFinal near t := by
      rw [isWordFinal, isWordFinal, startsCased_append hbefore]
    have hhere : lowerBetween (near ++ before) c t = lowerBetween near c t := by
      rw [lowerBetween, lowerBetween, hfinal]
    rw [toLowerAfter_cons, toLowerAfter_cons, hhere, ← List.cons_append, ih]

/-- The lower-case form of a text ends in one of its second part, if not always in the same one. -/
theorem exists_toLowerAfter_append (before t u : Text) :
    ∃ front, toLowerAfter before (t ++ u) = front ++ toLowerAfter (t.reverse ++ before) u := by
  induction t generalizing before with
  | nil => exact ⟨[], rfl⟩
  | cons c t ih =>
    obtain ⟨front, hfront⟩ := ih (c :: before)
    rw [List.cons_append, toLowerAfter_cons, hfront, List.reverse_cons, List.append_assoc,
      List.singleton_append]
    exact ⟨_, (List.append_assoc _ _ _).symm⟩

/-! ## ASCII -/

theorem ne_sigma (hc : c.toNat < 0x80) : c ≠ 'Σ' := by
  rintro rfl
  exact absurd hc (by decide)

/-- ASCII text is mapped character by character, whatever stands around it. -/
theorem toLowerAfter_ascii (ht : Ascii t) (before : Text) :
    toLowerAfter before t = t.map Char.toLower := by
  induction t generalizing before with
  | nil => rfl
  | cons c t ih =>
    obtain ⟨hc, ht⟩ := List.forall_mem_cons.1 ht
    rw [toLowerAfter_cons, lowerBetween, if_neg (ne_sigma hc), lower, if_pos hc, ih ht]
    rfl

theorem Lowered.toLowerAfter (h : Lowered t) (before : Text) :
    Text.toLowerAfter before t = t := by
  rw [toLowerAfter_ascii h.ascii, List.map_congr_left fun c hc => (h c hc).2, List.map_id']

theorem Lowered.toLower (h : Lowered t) : Text.toLower t = t := h.toLowerAfter []

/-- Text in which lower case changes nothing stays at the end of another one, as long as no word
starts with it. -/
theorem toLower_append_lowered (hu : startsCased u = false) (hlower : Lowered u) (t : Text) :
    Text.toLower (t ++ u) = Text.toLower t ++ u := by
  rw [Text.toLower, toLowerAfter_append hu, hlower.toLowerAfter]
  rfl

/-- A character is its own lower-case form, or it is a capital letter. -/
theorem toLower_self_or (c : Char) : c.toLower = c ∨
    (65 ≤ c.toNat ∧ c.toNat ≤ 90) ∧ c.toLower.toNat = c.toNat + 32 := by
  have hlower := Numeral.toNat_toLower c
  split_ifs at hlower with hcapital
  · exact .inr ⟨hcapital, hlower⟩
  · exact .inl (Char.toNat_inj.1 hlower)

theorem inRanges_toLower {ranges : Array (Nat × Nat)}
    (hranges : ranges ∈ [caseIgnorableRanges, casedRanges]) (c : Char) :
    inRanges ranges c.toLower.toNat = inRanges ranges c.toNat := by
  obtain hsame | ⟨hcapital, hlower⟩ := toLower_self_or c
  · rw [hsame]
  · obtain ⟨n, hn⟩ := Nat.exists_eq_add_of_le hcapital.1
    rw [hlower, hn]
    exact inRanges_letter ranges hranges n (by omega)

theorem startsCased_map (t : Text) : startsCased (t.map Char.toLower) = startsCased t := by
  induction t with
  | nil => rfl
  | cons c t ih =>
    rw [List.map_cons, startsCased_cons, startsCased_cons, ih, isCaseIgnorable, isCased,
      inRanges_toLower (by simp), inRanges_toLower (by simp)]
    rfl

theorem lower_toLower (c : Char) : lower c.toLower = lower c := by
  obtain hsame | ⟨hcapital, hlower⟩ := toLower_self_or c
  · rw [hsame]
  · have hagain : c.toLower.toLower = c.toLower := by
      rw [← Char.toNat_inj, Numeral.toNat_toLower, if_neg (by omega)]
    rw [lower, lower, if_pos (by omega), if_pos (by omega), hagain]

theorem toLower_eq_sigma : c.toLower = 'Σ' ↔ c = 'Σ' := by
  obtain hsame | ⟨hcapital, hlower⟩ := toLower_self_or c
  · rw [hsame]
  · have hc : c ≠ 'Σ' := ne_sigma (by omega)
    have hlow : c.toLower ≠ 'Σ' := ne_sigma (by omega)
    exact iff_of_false hlow hc

/-- Putting the ASCII letters in lower case first changes nothing. -/
theorem toLowerAfter_map (before t : Text) :
    toLowerAfter (before.map Char.toLower) (t.map Char.toLower) = toLowerAfter before t := by
  induction t generalizing before with
  | nil => rfl
  | cons c t ih =>
    have hfinal : isWordFinal (before.map Char.toLower) (t.map Char.toLower) =
        isWordFinal before t := by
      rw [isWordFinal, isWordFinal, startsCased_map, startsCased_map]
    have hhere : lowerBetween (before.map Char.toLower) c.toLower (t.map Char.toLower) =
        lowerBetween before c t := by
      simp only [lowerBetween, hfinal, toLower_eq_sigma, lower_toLower]
    rw [List.map_cons, toLowerAfter_cons, toLowerAfter_cons, hhere, ← List.map_cons, ih]

/-- **The case of ASCII letters makes no difference** to the lower-case form. -/
theorem SameLetters.toLower (h : SameLetters t u) : Text.toLower t = Text.toLower u := by
  have ht := toLowerAfter_map [] t
  have hu := toLowerAfter_map [] u
  rw [SameLetters] at h
  rw [h] at ht
  exact ht.symm.trans hu

/-! ## Marks -/

theorem mark_lt (hm : m ∈ marks) : 0 < m.toNat ∧ m.toNat < 0x61 ∧ m.toLower = m := by
  rcases mark_cases hm with rfl | rfl | rfl | rfl | rfl <;> decide

theorem lowered_mark (hm : m ∈ marks) (ht : Lowered t) : Lowered (m :: t) :=
  lowered_cons.2 ⟨⟨Nat.lt_trans (mark_lt hm).2.1 (by decide), (mark_lt hm).2.2⟩, ht⟩

theorem lower_mark (hm : m ∈ marks) : lower m = [m] := by
  obtain ⟨-, hlt, hsame⟩ := mark_lt hm
  rw [lower, if_pos (by omega), hsame]

theorem toNat_ofNat_or (n : Nat) : (Char.ofNat n).toNat = n ∨ (Char.ofNat n).toNat = 0 := by
  unfold Char.ofNat
  by_cases hvalid : n.isValidChar
  · rw [dif_pos hvalid]
    exact .inl rfl
  · rw [dif_neg hvalid]
    exact .inr rfl

/-- Only a mark itself is mapped to it. -/
theorem eq_of_mem_lower (hm : m ∈ marks) (h : m ∈ lower c) : c = m := by
  obtain ⟨hpos, hlt, -⟩ := mark_lt hm
  unfold lower at h
  split_ifs at h with hascii hdotted
  · rw [List.mem_singleton] at h
    obtain hsame | ⟨hcapital, hlower⟩ := toLower_self_or c
    · rw [h, hsame]
    · rw [← h] at hlower
      omega
  · simp only [List.mem_cons, List.not_mem_nil, or_false] at h
    rcases h with rfl | rfl <;> exact absurd hm (by decide)
  · split at h
    next run hrun =>
      rw [List.mem_singleton] at h
      have hholds := List.find?_some hrun
      have hbounds : run.first ≤ c.toNat ∧ c.toNat ≤ run.last := by
        simp only [CaseRun.holds, Bool.and_eq_true, decide_eq_true_eq] at hholds
        exact hholds.1
      have hshift := shift_ge run (List.mem_of_find?_eq_some hrun)
      rw [h] at hpos hlt
      rcases toNat_ofNat_or (c.toNat + run.shift).toNat with hn | hn <;> omega
    next => exact (List.mem_singleton.1 h).symm

theorem mem_lowerBetween (hm : m ∈ marks) (before after : Text) :
    m ∈ lowerBetween before c after ↔ m = c := by
  have hsigma : m ∉ ['ς'] ∧ m ∉ ['σ'] ∧ m ≠ 'Σ' := by
    rcases mark_cases hm with rfl | rfl | rfl | rfl | rfl <;> decide
  unfold lowerBetween
  split_ifs with hc hfinal
  · exact iff_of_false hsigma.1 (hc ▸ hsigma.2.2)
  · exact iff_of_false hsigma.2.1 (hc ▸ hsigma.2.2)
  · exact ⟨fun h => (eq_of_mem_lower hm h).symm, fun h => by simp [← h, lower_mark hm]⟩

theorem lowerBetween_ne_nil (before : Text) (c : Char) (after : Text) :
    lowerBetween before c after ≠ [] := by
  unfold lowerBetween lower
  split_ifs
  on_goal 5 => split
  all_goals exact List.cons_ne_nil _ _

theorem mem_toLowerAfter_mark (hm : m ∈ marks) (before t : Text) :
    m ∈ toLowerAfter before t ↔ m ∈ t := by
  induction t generalizing before with
  | nil => rfl
  | cons c t ih =>
    rw [toLowerAfter_cons, List.mem_append, List.mem_cons]
    exact or_congr (mem_lowerBetween hm before t) (ih (c :: before))

/-- Lower case makes no mark and takes none away. -/
theorem mem_toLower_mark (hm : m ∈ marks) : m ∈ toLower t ↔ m ∈ t := mem_toLowerAfter_mark hm [] t

/-- What stands behind a mark is mapped as if it stood alone. -/
theorem toLower_mark (hm : m ∈ marks) (t : Text) : toLower (m :: t) = m :: toLower t := by
  have hsigma : m ≠ 'Σ' := ne_sigma (Nat.lt_trans (mark_lt hm).2.1 (by decide))
  have halone : toLowerAfter [m] t = toLowerAfter [] t :=
    toLowerAfter_far (startsCased_mark hm rfl) [] t
  rw [toLower, toLowerAfter_cons, lowerBetween, if_neg hsigma, lower_mark hm, halone]
  rfl

/-- A lower-case form starts with a mark just when the text does. -/
theorem toLower_eq_mark (hm : m ∈ marks) :
    toLower t = m :: u ↔ ∃ s, t = m :: s ∧ toLower s = u := by
  constructor
  · intro h
    cases t with
    | nil => cases h
    | cons c s =>
      obtain ⟨x, here, hhere⟩ := List.exists_cons_of_ne_nil (lowerBetween_ne_nil [] c s)
      have hstart := h
      rw [toLower, toLowerAfter_cons, hhere, List.cons_append, List.cons.injEq] at hstart
      have hmem : m ∈ lowerBetween [] c s := by
        rw [hhere, hstart.1]
        exact List.mem_cons_self
      obtain rfl : m = c := (mem_lowerBetween hm [] s).1 hmem
      rw [toLower_mark hm, List.cons.injEq] at h
      exact ⟨s, rfl, h.2⟩
  · rintro ⟨s, rfl, rfl⟩
    exact toLower_mark hm s

end Intercept.Text
