import Intercept.Text.Blank
import Intercept.Text.Numeral
import Mathlib.Data.List.Forall2
import Mathlib.Data.Nat.Digits.Defs
import Mathlib.Tactic.IntervalCases

/-!
# What is read as a number

The digits that a text spells are those of `Nat.digitChar`, letters in either case, and the number
they denote is `Nat.ofDigits`. Reading a number with the blanks around it trimmed off is measured
against that.

* `Spells base t ds`: the text `t` spells the digits `ds`, the most significant first.
* `Denotes base t n`: `t` is a non-empty run of digits that denote `n`.
* `Framed base limit sign t n`: `t` is a sign and such a run with blanks around them, and `n` is
  below the limit.

Results:
* `digit?_eq_some`, `value?_eq_some`, `read?_eq_some`: what each step of reading accepts.
* `read?_trim`: a number is read off a text exactly when it is framed there, with no sign or with a
  plus sign.
* `Framed.not_plus`: no text is framed both ways.
* `denotes_toDigits`: a printed number denotes itself.
-/

namespace Intercept

/-- A list is mapped by a partial function to the values of its elements. -/
theorem mapM_eq_some_iff {α β : Type} {f : α → Option β} {l : List α} {m : List β} :
    l.mapM f = some m ↔ List.Forall₂ (fun a b => f a = some b) l m := by
  induction l generalizing m with
  | nil => simp [eq_comm]
  | cons a l ih =>
    rw [List.mapM_cons]
    simp only [Option.bind_eq_bind, Option.bind_eq_some_iff, Option.pure_def, Option.some.injEq]
    constructor
    · rintro ⟨b, hb, m', hm, rfl⟩
      exact .cons hb (ih.1 hm)
    · intro h
      cases h with
      | cons hb hm => exact ⟨_, hb, _, ih.2 hm, rfl⟩

/-- All elements of a list are mapped to one value. -/
theorem mapM_const_iff {α β : Type} {f : α → Option β} {l : List α} {b : β} :
    (∃ m, l.mapM f = some m ∧ ∀ x ∈ m, x = b) ↔ ∀ a ∈ l, f a = some b := by
  constructor
  · rintro ⟨m, hm, hall⟩
    have hread := mapM_eq_some_iff.1 hm
    clear hm
    induction hread with
    | nil => simp
    | cons ha _ ih =>
      rw [List.forall_mem_cons] at hall ⊢
      exact ⟨by rw [ha, hall.1], ih hall.2⟩
  · intro h
    have hread : List.Forall₂ (fun a x => f a = some x) l (l.map fun _ => b) :=
      List.forall₂_map_right_iff.2 (List.forall₂_same.2 h)
    exact ⟨_, mapM_eq_some_iff.2 hread, by simp⟩

namespace Numeral

open Text

/-! ## Digits -/

/-- The text `t` spells the digits `ds` of the base, the most significant first, with letters in
either case. -/
def Spells (base : Nat) (t : Text) (ds : List Nat) : Prop :=
  List.Forall₂ (fun c d => d < base ∧ c.toLower = Nat.digitChar d) t ds

/-- The text `t` is a non-empty run of digits that denote `n`. -/
def Denotes (base : Nat) (t : Text) (n : Nat) : Prop :=
  ∃ ds, ds ≠ [] ∧ Spells base t ds ∧ Nat.ofDigits base ds.reverse = n

theorem toNat_toLower (c : Char) :
    c.toLower.toNat = if 65 ≤ c.toNat ∧ c.toNat ≤ 90 then c.toNat + 32 else c.toNat := by
  have hiff : (c.val ≥ 'A'.val ∧ c.val ≤ 'Z'.val) ↔ 65 ≤ c.toNat ∧ c.toNat ≤ 90 := by
    rw [ge_iff_le, UInt32.le_iff_toNat_le, UInt32.le_iff_toNat_le]
    rfl
  unfold Char.toLower
  by_cases h : 65 ≤ c.toNat ∧ c.toNat ≤ 90
  · rw [dif_pos (hiff.2 h), if_pos h]
    show (c.val + ('a'.val - 'A'.val)).toNat = c.toNat + 32
    have hval : c.val.toNat = c.toNat := rfl
    have hstep : ('a'.val - 'A'.val).toNat = 32 := rfl
    rw [UInt32.toNat_add]
    omega
  · rw [dif_neg (fun hc => h (hiff.1 hc)), if_neg h]

/-- The characters that spell a digit, by their code points. -/
theorem toLower_eq_digitChar {c : Char} {d : Nat} (hd : d < 16) :
    c.toLower = Nat.digitChar d ↔
      d < 10 ∧ c.toNat = 48 + d ∨ 10 ≤ d ∧ (c.toNat = 87 + d ∨ c.toNat = 55 + d) := by
  have hchar : (Nat.digitChar d).toNat = if d < 10 then 48 + d else 87 + d := by
    interval_cases d <;> rfl
  rw [← Char.toNat_inj, toNat_toLower, hchar]
  split <;> split <;> omega

theorem digit?_eq_some {base d : Nat} {c : Char} (hbase : base ≤ 16) :
    digit? base c = some d ↔ d < base ∧ c.toLower = Nat.digitChar d := by
  have hle (a b : Char) : a ≤ b ↔ a.toNat ≤ b.toNat := by
    rw [Char.le_def, UInt32.le_iff_toNat_le]
    rfl
  by_cases hd : d < base
  · rw [toLower_eq_digitChar (by omega)]
    unfold digit?
    simp only [hle, Char.reduceToNat, Option.ite_none_right_eq_some, Option.some.injEq]
    split
    · omega
    · split
      · omega
      · split <;> omega
  · unfold digit?
    simp only [hd, false_and, iff_false, Option.ite_none_right_eq_some, Option.some.injEq]
    omega

/-- Digits are ASCII digits and the letters up to F. -/
theorem Denotes.digit {base n : Nat} {t : Text} (hbase : base ≤ 16) (h : Denotes base t n) :
    ∀ c ∈ t, 48 ≤ c.toNat ∧ c.toNat ≤ 57 ∨ 65 ≤ c.toNat ∧ c.toNat ≤ 70 ∨
      97 ≤ c.toNat ∧ c.toNat ≤ 102 := by
  obtain ⟨ds, -, hspell, -⟩ := h
  intro c hc
  induction hspell with
  | nil => cases hc
  | cons hd _ ih =>
    rcases List.mem_cons.1 hc with rfl | hc
    · have := (toLower_eq_digitChar (by omega)).1 hd.2
      omega
    · exact ih hc

theorem Denotes.not_isBlank {base n : Nat} {t : Text} (hbase : base ≤ 16) (h : Denotes base t n) :
    ∀ c ∈ t, isBlank c = false := by
  intro c hc
  have := h.digit hbase c hc
  exact isBlank_of_printable (by omega)

/-! ## Reading -/

theorem ofDigits_eq (base : Nat) (ds : List Nat) :
    ofDigits base ds = Nat.ofDigits base ds.reverse := by
  rw [ofDigits, Nat.ofDigits_eq_foldr, ← List.foldl_reverse, List.reverse_reverse]
  congr 1
  funext n d
  rw [Nat.cast_id]
  ring

theorem value?_eq_some {base n : Nat} {t : Text} (hbase : base ≤ 16) :
    value? base t = some n ↔ Denotes base t n := by
  have hspells {ds : List Nat} : t.mapM (digit? base) = some ds ↔ Spells base t ds := by
    rw [mapM_eq_some_iff]
    simp only [digit?_eq_some hbase, Spells]
  unfold value?
  by_cases ht : t = []
  · subst ht
    simp only [List.isEmpty_nil, if_true, reduceCtorEq, false_iff]
    rintro ⟨ds, hne, hspell, -⟩
    cases hspell
    exact hne rfl
  · rw [if_neg (by simpa using ht), Option.map_eq_some_iff]
    constructor
    · rintro ⟨ds, hds, rfl⟩
      have hspell := hspells.1 hds
      refine ⟨ds, ?_, hspell, (ofDigits_eq base ds).symm⟩
      rintro rfl
      cases hspell
      exact ht rfl
    · rintro ⟨ds, -, hspell, rfl⟩
      exact ⟨ds, hspells.2 hspell, ofDigits_eq base ds⟩

/-- A run of digits denotes one number. -/
theorem Denotes.unique {base m n : Nat} {t : Text} (hbase : base ≤ 16) (hm : Denotes base t m)
    (hn : Denotes base t n) : m = n :=
  Option.some.inj (((value?_eq_some hbase).2 hm).symm.trans ((value?_eq_some hbase).2 hn))

/-- A plus sign is no digit. -/
theorem not_denotes_plus {base n : Nat} {t : Text} (hbase : base ≤ 16) :
    ¬ Denotes base ('+' :: t) n := by
  intro h
  have := h.digit hbase '+' List.mem_cons_self
  simp only [Char.reduceToNat] at this
  omega

theorem read?_eq_some {base limit n : Nat} {t : Text} (hbase : base ≤ 16) :
    read? base limit t = some n ↔
      (Denotes base t n ∨ ∃ r, t = '+' :: r ∧ Denotes base r n) ∧ n < limit := by
  unfold read?
  simp only [Option.filter_eq_some_iff, decide_eq_true_eq, and_congr_left_iff]
  intro _
  split
  · rename_i r
    rw [value?_eq_some hbase]
    simp [not_denotes_plus hbase]
  · rename_i hne
    rw [value?_eq_some hbase]
    refine (or_iff_left ?_).symm
    rintro ⟨r, rfl, -⟩
    exact hne r rfl

/-- A number below the limit as it stands in a text: a sign and digits, with blanks around them. -/
structure Framed (base limit : Nat) (sign t : Text) (n : Nat) : Prop where
  parts : ∃ before digits after, t = before ++ (sign ++ digits) ++ after ∧
    (∀ c ∈ before, isBlank c) ∧ (∀ c ∈ after, isBlank c) ∧ Denotes base digits n
  lt : n < limit

namespace Framed

variable {base limit m n : Nat} {t : Text}

/-- What is left of a framed number when the blanks are trimmed off. -/
theorem trim {sign : Text} (hbase : base ≤ 16) (hsign : ∀ c ∈ sign, isBlank c = false)
    (h : Framed base limit sign t n) :
    ∃ digits, Text.trim t = sign ++ digits ∧ Denotes base digits n := by
  obtain ⟨before, digits, after, rfl, hb, ha, hd⟩ := h.parts
  refine ⟨digits, trimEnds_between hb (fun c hc => ?_) ha, hd⟩
  rcases List.mem_append.1 hc with hc | hc
  · exact hsign c hc
  · exact hd.not_isBlank hbase c hc

theorem of_trim {sign digits : Text} (ht : Text.trim t = sign ++ digits)
    (hd : Denotes base digits n) (hn : n < limit) : Framed base limit sign t n := by
  obtain ⟨before, after, hparts, hb, ha⟩ := trimEnds_parts isBlank t
  rw [show trimEnds isBlank t = sign ++ digits from ht] at hparts
  exact ⟨⟨before, digits, after, hparts, hb, ha, hd⟩, hn⟩

end Framed

theorem plus_not_isBlank : ∀ c ∈ ['+'], isBlank c = false := by
  simp only [List.mem_singleton, forall_eq]
  decide

/-- **What is read with the blanks trimmed off** is a framed number, with no sign or a plus sign. -/
theorem read?_trim {base limit n : Nat} {t : Text} (hbase : base ≤ 16) :
    read? base limit (Text.trim t) = some n ↔
      Framed base limit [] t n ∨ Framed base limit ['+'] t n := by
  rw [read?_eq_some hbase]
  constructor
  · rintro ⟨hd | ⟨r, hr, hd⟩, hn⟩
    · exact .inl (.of_trim rfl hd hn)
    · exact .inr (.of_trim hr hd hn)
  · rintro (h | h)
    · obtain ⟨digits, ht, hd⟩ := h.trim hbase (by simp)
      rw [ht]
      exact ⟨.inl hd, h.lt⟩
    · obtain ⟨digits, ht, hd⟩ := h.trim hbase plus_not_isBlank
      rw [ht]
      exact ⟨.inr ⟨digits, rfl, hd⟩, h.lt⟩

/-- No text is framed both with a plus sign and without. -/
theorem Framed.not_plus {base limit m n : Nat} {t : Text} (hbase : base ≤ 16)
    (h : Framed base limit [] t m) : ¬ Framed base limit ['+'] t n := by
  intro hp
  obtain ⟨digits, ht, hd⟩ := h.trim hbase (by simp)
  obtain ⟨digits', ht', -⟩ := hp.trim hbase plus_not_isBlank
  rw [ht] at ht'
  rw [show digits = '+' :: digits' from ht'] at hd
  exact not_denotes_plus hbase hd

/-! ## Printing -/

/-- Every digit is printed as `Nat.digitChar` has it. -/
theorem mem_toDigits {base n : Nat} {c : Char} (hbase : 1 < base)
    (hc : c ∈ Nat.toDigits base n) : ∃ d < base, c = Nat.digitChar d := by
  induction n using Nat.strongRecOn with
  | ind n ih =>
    rw [Nat.toDigits_eq_if hbase] at hc
    split at hc
    · rename_i hn
      exact ⟨n, hn, List.mem_singleton.1 hc⟩
    · rename_i hn
      rcases List.mem_append.1 hc with hc | hc
      · exact ih (n / base) (Nat.div_lt_self (by omega) hbase) hc
      · exact ⟨n % base, Nat.mod_lt n (by omega), List.mem_singleton.1 hc⟩

theorem toLower_digitChar {d : Nat} (hd : d < 16) : (Nat.digitChar d).toLower = Nat.digitChar d := by
  interval_cases d <;> rfl

/-- Digits with one more behind them. -/
theorem Denotes.snoc {base n d : Nat} {t : Text} (hbase : base ≤ 16) (h : Denotes base t n)
    (hd : d < base) : Denotes base (t ++ [Nat.digitChar d]) (n * base + d) := by
  obtain ⟨ds, hne, hspell, hvalue⟩ := h
  refine ⟨ds ++ [d], by simp, ?_, ?_⟩
  · exact List.rel_append hspell (.cons ⟨hd, toLower_digitChar (by omega)⟩ .nil)
  · rw [List.reverse_append, List.reverse_singleton, List.singleton_append, Nat.ofDigits_cons,
      hvalue, Nat.mul_comm, Nat.add_comm]

/-- A printed number denotes itself. -/
theorem denotes_toDigits {base : Nat} (hbase : 1 < base) (hle : base ≤ 16) (n : Nat) :
    Denotes base (Nat.toDigits base n) n := by
  induction n using Nat.strongRecOn with
  | ind n ih =>
    rw [Nat.toDigits_eq_if hbase]
    split
    · rename_i hn
      exact ⟨[n], by simp, .cons ⟨hn, toLower_digitChar (by omega)⟩ .nil, by simp⟩
    · rename_i hn
      have hfront := ih (n / base) (Nat.div_lt_self (by omega) hbase)
      have h := hfront.snoc hle (Nat.mod_lt n (by omega))
      rwa [Nat.div_add_mod'] at h

/-- Only zero is printed with a zero in front. -/
theorem toDigits_of_zero {base n : Nat} (hbase : 1 < base) (hle : base ≤ 16)
    (h : (Nat.toDigits base n).head? = some '0') : n = 0 := by
  induction n using Nat.strongRecOn with
  | ind n ih =>
    rw [Nat.toDigits_eq_if hbase] at h
    split at h
    · rename_i hn
      have hchar : Nat.digitChar n = '0' := Option.some.inj h
      have : ∀ d < 16, Nat.digitChar d = '0' → d = 0 := by decide
      exact this n (by omega) hchar
    · rename_i hn
      have hhead : (Nat.toDigits base (n / base)).head? = some '0' := by
        rwa [List.head?_append_of_ne_nil _ Nat.toDigits_ne_nil] at h
      have := ih (n / base) (Nat.div_lt_self (by omega) hbase) hhead
      have := Nat.div_pos (Nat.le_of_not_lt hn) (by omega)
      omega

end Numeral
end Intercept
