import Intercept.Admission.Bucket
import Mathlib.Tactic.SplitIfs

/-!
# What a bucket lets through

A bucket is spent up to some time, and every unit that it lets through moves this time on by one
interval. Since it is never spent further ahead of the clock than a burst takes, what it lets
through is bounded by the time that passes.

* `Bucket.spent`: the time up to which a bucket is spent. Time that has passed counts as spent.
* `Bucket.Within`: no further ahead than a burst takes.
* `Bucket.debt`: how far ahead.

Results:
* `ask_eq`: a request is let through when the bucket stays within its burst, and then costs just its
  weight.
* `spent_ask`: a request moves the time on by the weight that is let through.
* `Within.ask`, `Within.mono`: a bucket stays within its burst.
* `ask_congr`, `spent_congr`: only the time up to which a bucket is spent matters, so a bucket
  without debt is like a new one.
-/

namespace Intercept.Bucket

variable {q : Quota} {now later weight : Nat} {b b' : Bucket}

/-- The time up to which a bucket is spent. -/
def spent (now : Nat) (b : Bucket) : Nat := max now (b.due.getD now)

/-- The bucket is spent no further ahead than a burst takes. -/
def Within (q : Quota) (now : Nat) (b : Bucket) : Prop := b.spent now ≤ now + q.tolerance

/-- How far ahead of the clock a bucket is spent. -/
def debt (now : Nat) (b : Bucket) : Nat := b.spent now - now

/-- The weight of a request that was answered with `answer`. -/
def granted (answer : Bool) (weight : Nat) : Nat := if answer then weight else 0

theorem spent_new : spent now {} = now := Nat.max_self now

theorem le_spent (now : Nat) (b : Bucket) : now ≤ b.spent now := Nat.le_max_left _ _

theorem spent_eq (now : Nat) (b : Bucket) : b.spent now = now + b.debt now :=
  (Nat.add_sub_of_le (b.le_spent now)).symm

theorem debt_new : debt now {} = 0 := by rw [debt, spent_new, Nat.sub_self]

/-- Time that passes pays for what is spent, and no more. -/
theorem spent_later (h : now ≤ later) : b.spent later = max later (b.spent now) := by
  unfold spent
  cases b.due with
  | none => simp only [Option.getD_none]; omega
  | some due => simp only [Option.getD_some]; omega

theorem spent_mono (h : now ≤ later) : b.spent now ≤ b.spent later := by
  rw [spent_later h]
  exact Nat.le_max_right _ _

theorem spent_congr (hb : b.spent now = b'.spent now) (h : now ≤ later) :
    b.spent later = b'.spent later := by
  rw [spent_later h, spent_later h, hb]

theorem within_new : Within q now {} := by
  rw [Within, spent_new]
  exact Nat.le_add_right _ _

theorem Within.mono (hb : b.Within q now) (h : now ≤ later) : b.Within q later := by
  unfold Within at hb ⊢
  rw [spent_later h]
  omega

theorem Within.debt_le (hb : b.Within q now) : b.debt now ≤ q.tolerance :=
  Nat.sub_le_iff_le_add'.2 hb

/-- A request is let through when the bucket stays within its burst, and then costs its weight. -/
theorem ask_eq (hweight : weight ≠ 0) : b.ask q now weight =
    if now + q.tolerance < b.spent now + q.interval * weight then (false, b)
    else (true, ⟨some (b.spent now + q.interval * weight)⟩) := by
  have hspent : b.spent now = max now (b.due.getD now) := rfl
  simp only [ask, if_neg hweight, Nat.max_comm _ now, ← hspent]
  by_cases hcost : q.tolerance < q.interval * weight
  · rw [if_pos hcost, if_pos (by omega)]
  · have hroom : now + q.tolerance < b.due.getD now + q.interval * weight ↔
        now + q.tolerance < b.spent now + q.interval * weight := by omega
    simp only [if_neg hcost, hroom]

/-- A request moves the time up to which a bucket is spent on by the weight that is let through. -/
theorem spent_ask : (b.ask q now weight).2.spent now =
    b.spent now + q.interval * granted (b.ask q now weight).1 weight := by
  by_cases hweight : weight = 0
  · simp [hweight, ask_zero, granted]
  · have hnow := b.le_spent now
    rw [ask_eq hweight]
    split_ifs
    · simp [granted]
    · simp only [granted, if_true]
      rw [spent, Option.getD_some]
      omega

/-- A bucket stays within its burst. -/
theorem Within.ask (hb : b.Within q now) : (b.ask q now weight).2.Within q now := by
  by_cases hweight : weight = 0
  · rwa [hweight, ask_zero]
  · have hnow := b.le_spent now
    rw [ask_eq hweight]
    split_ifs with hearly
    · exact hb
    · rw [Within, spent, Option.getD_some]
      omega

/-- Two buckets that are spent up to the same time answer alike, and stay so. -/
theorem ask_congr (q : Quota) (weight : Nat) (h : b.spent now = b'.spent now) :
    (b.ask q now weight).1 = (b'.ask q now weight).1 ∧
      (b.ask q now weight).2.spent now = (b'.ask q now weight).2.spent now := by
  have hanswer : (b.ask q now weight).1 = (b'.ask q now weight).1 := by
    by_cases hweight : weight = 0
    · rw [hweight, ask_zero, ask_zero]
    · rw [ask_eq hweight, ask_eq hweight, h]
      split_ifs <;> rfl
  exact ⟨hanswer, by rw [spent_ask, spent_ask, h, hanswer]⟩

/-- A bucket lets a burst through at once exactly when it owes nothing. -/
theorem ask_burst (hburst : q.burst ≠ 0) :
    (b.ask q now q.burst).1 = true ↔ b.debt now = 0 := by
  have hspent := b.spent_eq now
  have hfull : q.interval * q.burst = q.tolerance := rfl
  rw [ask_eq hburst, hfull]
  split_ifs with hearly
  · simp only [false_iff]
    omega
  · simp only [true_iff]
    omega

/-- A new bucket lets one unit through. -/
theorem ask_new_one (hburst : q.burst ≠ 0) : (ask q now 1 {}).1 = true := by
  have hunit : q.interval ≤ q.tolerance := Nat.le_mul_of_pos_right _ (Nat.pos_of_ne_zero hburst)
  rw [ask_eq Nat.one_ne_zero, spent_new, if_neg (by omega)]

end Intercept.Bucket
