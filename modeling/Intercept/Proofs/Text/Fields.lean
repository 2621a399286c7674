import Intercept.Text.Blank
import Mathlib.Data.List.Infix

/-!
# Fields and lines

How a list falls into pieces is settled by one equation: at a separator the pieces of both sides
stand one behind the other.

* `Spaced p words line`: the line holds the words, with runs of separators between them and around
  them.
* `Stands p word line`: the word stands in the line between separators or the ends of the line.

Results:
* `pieces_append`, `fields_append`: the equation at a separator.
* `mem_fields_iff`: the fields are the separator-free words that stand in a line.
* `Spaced.fields_eq`, `spaced_fields`: the fields of a line are the words that it holds.
* `Spaced.flatMap_fields`: with more separators they are those of its words.
* `Spaced.infix_iff`: what has no separators in it stands within one word.
* `lines_append`: the lines of a text, one by one.
-/

namespace Intercept

section
variable {α : Type} {p q : α → Bool} {c : α} {w line : List α} {words : List (List α)}

theorem not_of_all (h : (w.all fun c => !p c) = true) : ∀ c ∈ w, p c = false := by
  intro c hc
  have hnot := List.all_eq_true.1 h c hc
  rwa [Bool.not_eq_true'] at hnot

/-! ## Pieces -/

theorem piecesFrom_append (hc : p c) (done : List (List α)) (run x y : List α) :
    piecesFrom p done run (x ++ c :: y) = piecesFrom p done run x ++ pieces p y := by
  have hdone (done : List (List α)) (run l : List α) :
      piecesFrom p done run l = done.reverse ++ piecesFrom p [] run l := by
    induction l generalizing done run with
    | nil => simp [piecesFrom]
    | cons d l ih =>
      unfold piecesFrom
      split
      · rw [ih, ih [run.reverse]]
        simp
      · exact ih done (d :: run)
  induction x generalizing done run with
  | nil =>
    simp only [List.nil_append, piecesFrom, hc, if_true]
    exact hdone _ [] y
  | cons d x ih =>
    simp only [List.cons_append, piecesFrom]
    split
    · exact ih _ _
    · exact ih _ _

/-- At a separator the pieces of both sides stand one behind the other. -/
theorem pieces_append (hc : p c) (x y : List α) :
    pieces p (x ++ c :: y) = pieces p x ++ pieces p y :=
  piecesFrom_append hc [] [] x y

/-- Without a separator there is one piece. -/
theorem pieces_of_none (h : ∀ c ∈ line, p c = false) : pieces p line = [line] := by
  have hrun (run : List α) : piecesFrom p [] run line = [run.reverse ++ line] := by
    induction line generalizing run with
    | nil => simp [piecesFrom]
    | cons d l ih =>
      rw [List.forall_mem_cons] at h
      simp only [piecesFrom, h.1, Bool.false_eq_true, if_false]
      rw [ih h.2]
      simp
  exact hrun []

/-- A list has no separator, or there is a first one. -/
theorem none_or_first (p : α → Bool) (line : List α) :
    (∀ c ∈ line, p c = false) ∨
      ∃ x c y, line = x ++ c :: y ∧ (∀ d ∈ x, p d = false) ∧ p c := by
  induction line with
  | nil => exact .inl nofun
  | cons d l ih =>
    by_cases hd : p d
    · exact .inr ⟨[], d, l, rfl, nofun, hd⟩
    · have hd : p d = false := by simpa using hd
      rcases ih with h | ⟨x, c, y, rfl, hx, hc⟩
      · exact .inl (List.forall_mem_cons.2 ⟨hd, h⟩)
      · exact .inr ⟨d :: x, c, y, rfl, List.forall_mem_cons.2 ⟨hd, hx⟩, hc⟩

/-- There is one more piece than there are separators. -/
theorem length_pieces (p : α → Bool) (line : List α) :
    (pieces p line).length = line.countP p + 1 := by
  induction hn : line.length using Nat.strongRecOn generalizing line with
  | ind n ih =>
    rcases none_or_first p line with h | ⟨x, c, y, rfl, hx, hc⟩
    · rw [pieces_of_none h, List.countP_eq_zero.2 fun c hm => by simp [h c hm]]
      rfl
    · have hy := ih y.length (by simp at hn; omega) y rfl
      have hnone : x.countP p = 0 := List.countP_eq_zero.2 fun c hm => by simp [hx c hm]
      rw [pieces_append hc, pieces_of_none hx, List.length_append, hy, List.countP_append,
        List.countP_cons_of_pos hc, hnone, List.length_singleton]
      omega

/-- Two pieces are two sides of one separator. -/
theorem pieces_eq_pair {a b : List α} :
    pieces p line = [a, b] ↔ ∃ c, p c ∧ line = a ++ c :: b ∧ (∀ d ∈ a, p d = false) ∧
      ∀ d ∈ b, p d = false := by
  constructor
  · intro h
    rcases none_or_first p line with hnone | ⟨x, c, y, rfl, hx, hc⟩
    · rw [pieces_of_none hnone] at h
      cases h
    · rw [pieces_append hc, pieces_of_none hx, List.singleton_append, List.cons.injEq] at h
      obtain ⟨rfl, h⟩ := h
      rcases none_or_first p y with hnone | ⟨x', c', y', rfl, hx', hc'⟩
      · rw [pieces_of_none hnone, List.singleton_inj] at h
        subst h
        exact ⟨c, hc, rfl, hx, hnone⟩
      · have hlength := congrArg List.length h
        rw [length_pieces, List.countP_append, List.countP_cons_of_pos hc'] at hlength
        simp only [List.length_singleton] at hlength
        omega
  · rintro ⟨c, hc, rfl, ha, hb⟩
    rw [pieces_append hc, pieces_of_none ha, pieces_of_none hb]
    rfl

/-! ## Fields -/

/-- At a separator the fields of both sides stand one behind the other. -/
theorem fields_append (hc : p c) (x y : List α) :
    fields p (x ++ c :: y) = fields p x ++ fields p y := by
  unfold fields
  rw [pieces_append hc, List.filter_append]

/-- Separators in front make no field. -/
theorem fields_gap {gap : List α} (hgap : ∀ c ∈ gap, p c) (l : List α) :
    fields p (gap ++ l) = fields p l := by
  induction gap with
  | nil => rfl
  | cons c gap ih =>
    rw [List.forall_mem_cons] at hgap
    have hcons := fields_append hgap.1 [] (gap ++ l)
    rw [List.cons_append, ← ih hgap.2]
    exact hcons

theorem fields_of_none (hw : w ≠ []) (h : ∀ c ∈ w, p c = false) : fields p w = [w] := by
  unfold fields
  rw [pieces_of_none h]
  simp [hw]

/-- The word stands in the line between separators or the ends of the line. -/
def Stands (p : α → Bool) (w line : List α) : Prop :=
  ∃ before after, line = before ++ w ++ after ∧ (∀ c ∈ before.getLast?, p c) ∧
    ∀ c ∈ after.head?, p c

/-- The fields are the words without separators that stand in the line. -/
theorem mem_fields_iff :
    w ∈ fields p line ↔ w ≠ [] ∧ (∀ c ∈ w, p c = false) ∧ Stands p w line := by
  constructor
  · intro h
    obtain ⟨hmem, hne⟩ := List.mem_filter.1 h
    refine ⟨by simpa using hne, ?_⟩
    clear h hne
    induction hn : line.length using Nat.strongRecOn generalizing line with
    | ind n ih =>
      rcases none_or_first p line with h | ⟨x, c, y, rfl, hx, hc⟩
      · rw [pieces_of_none h, List.mem_singleton] at hmem
        subst hmem
        exact ⟨h, [], [], by simp, nofun, nofun⟩
      · rw [pieces_append hc, pieces_of_none hx, List.singleton_append, List.mem_cons] at hmem
        rcases hmem with rfl | hmem
        · exact ⟨hx, [], c :: y, by simp, nofun, fun d hd => by cases hd; exact hc⟩
        · obtain ⟨hnone, before, after, rfl, hb, ha⟩ := ih y.length (by simp at hn; omega) hmem rfl
          refine ⟨hnone, x ++ c :: before, after, by simp, fun d hd => ?_, ha⟩
          cases hlast : before.getLast? with
          | none =>
            rw [List.getLast?_eq_none_iff] at hlast
            subst hlast
            rw [List.getLast?_append, List.getLast?_singleton] at hd
            cases hd
            exact hc
          | some e =>
            rw [List.getLast?_append, List.getLast?_cons, hlast] at hd
            cases hd
            exact hb _ hlast
  · rintro ⟨hne, hnone, before, after, rfl, hb, ha⟩
    have hafter : fields p (w ++ after) = w :: fields p after := by
      cases after with
      | nil =>
        rw [List.append_nil, fields_of_none hne hnone]
        rfl
      | cons c after =>
        have hc := ha c rfl
        rw [fields_append hc, fields_of_none hne hnone,
          show fields p (c :: after) = fields p after from fields_append hc [] after]
        rfl
    rw [List.append_assoc]
    rcases List.eq_nil_or_concat before with rfl | ⟨front, c, rfl⟩
    · rw [List.nil_append, hafter]
      exact List.mem_cons_self
    · have hc := hb c (by simp)
      rw [List.concat_eq_append, List.append_assoc, List.singleton_append, fields_append hc, hafter]
      simp

/-- A separator at the end makes no field. -/
theorem fields_concat (hc : p c) (line : List α) : fields p (line ++ [c]) = fields p line := by
  rw [fields_append hc]
  exact List.append_nil _

theorem stands_concat (hw : w ≠ []) (hnone : ∀ c ∈ w, p c = false) (hc : p c) :
    Stands p w (line ++ [c]) ↔ Stands p w line := by
  have hmem (l : List α) : Stands p w l ↔ w ∈ fields p l :=
    ⟨fun h => mem_fields_iff.2 ⟨hw, hnone, h⟩, fun h => (mem_fields_iff.1 h).2.2⟩
  rw [hmem, hmem, fields_concat hc]

/-- A separator at the end is trimmed off. -/
theorem trimEnds_concat (hc : p c) (line : List α) :
    trimEnds p (line ++ [c]) = trimEnds p line := by
  unfold trimEnds
  rw [List.dropWhile_append]
  split
  · rename_i hall
    rw [List.isEmpty_iff] at hall
    rw [List.dropWhile_cons_of_pos hc, hall]
    rfl
  · rw [List.reverse_append, List.reverse_singleton, List.singleton_append,
      List.dropWhile_cons_of_pos hc]

/-- The line holds the words, with runs of separators between them and around them. -/
inductive Spaced (p : α → Bool) : List (List α) → List α → Prop
  | nil {gap : List α} (hgap : ∀ c ∈ gap, p c) : Spaced p [] gap
  | cons {gap rest : List α} {words : List (List α)} (hgap : ∀ c ∈ gap, p c) (w : List α)
      (hrest : ∀ c ∈ rest.head?, p c) (more : Spaced p words rest) :
      Spaced p (w :: words) (gap ++ (w ++ rest))

/-- Among more separators a line falls into what its words fall into. -/
theorem Spaced.flatMap_fields (h : Spaced p words line) (hpq : ∀ c, p c → q c) :
    fields q line = words.flatMap (fields q) := by
  induction h with
  | nil hgap =>
    have hnil := fields_gap (fun c hc => hpq c (hgap c hc)) []
    rw [List.append_nil] at hnil
    rw [hnil]
    rfl
  | @cons gap rest words hgap w hrest more ih =>
    rw [fields_gap fun c hc => hpq c (hgap c hc), List.flatMap_cons, ← ih]
    cases rest with
    | nil =>
      rw [List.append_nil]
      exact (List.append_nil _).symm
    | cons c rest =>
      have hc := hpq c (hrest c rfl)
      rw [fields_append hc, show fields q (c :: rest) = fields q rest from fields_append hc [] rest]

/-- The fields of a line are the words that it holds. -/
theorem Spaced.fields_eq (h : Spaced p words line)
    (hwords : ∀ w ∈ words, w ≠ [] ∧ ∀ c ∈ w, p c = false) : fields p line = words := by
  rw [h.flatMap_fields fun _ hc => hc]
  clear h
  induction words with
  | nil => rfl
  | cons w words ih =>
    rw [List.forall_mem_cons] at hwords
    rw [List.flatMap_cons, fields_of_none hwords.1.1 hwords.1.2, ih hwords.2]
    rfl

/-- A separator can stand in front. -/
theorem Spaced.cons_gap (h : Spaced p words line) (hc : p c) : Spaced p words (c :: line) := by
  cases h with
  | nil hgap => exact .nil (List.forall_mem_cons.2 ⟨hc, hgap⟩)
  | cons hgap w hrest more => exact .cons (List.forall_mem_cons.2 ⟨hc, hgap⟩) w hrest more

/-- Every line holds its fields. -/
theorem spaced_fields (p : α → Bool) (line : List α) : Spaced p (fields p line) line := by
  induction hn : line.length using Nat.strongRecOn generalizing line with
  | ind n ih =>
    rcases none_or_first p line with h | ⟨x, c, y, rfl, hx, hc⟩
    · by_cases hline : line = []
      · subst hline
        exact .nil nofun
      · rw [fields_of_none hline h]
        have hword : Spaced p [line] ([] ++ (line ++ [])) := .cons nofun line nofun (.nil nofun)
        rwa [List.append_nil] at hword
    · have hmore := (ih y.length (by simp at hn; omega) y rfl).cons_gap hc
      rw [fields_append hc]
      by_cases hempty : x = []
      · subst hempty
        exact hmore
      · rw [fields_of_none hempty hx]
        have hword : Spaced p (x :: fields p y) ([] ++ (x ++ c :: y)) :=
          .cons nofun x (fun d hd => by cases hd; exact hc) hmore
        exact hword

/-- What has no separators in it stands on one side of a separator. -/
theorem infix_append_iff (hnone : ∀ c ∈ w, p c = false) (hc : p c) (x y : List α) :
    w <:+: x ++ c :: y ↔ w <:+: x ∨ w <:+: y := by
  have hfront (x : List α) (h : w <+: x ++ c :: y) : w <+: x := by
    by_contra hx
    have hlt : ¬ w.length ≤ x.length := fun hle =>
      hx (List.prefix_of_prefix_length_le h (List.prefix_append x _) hle)
    have hlonger : x ++ [c] <+: w := by
      refine List.prefix_of_prefix_length_le ?_ h (by simp; omega)
      exact ⟨y, by simp⟩
    have hmem : c ∈ w := hlonger.subset (by simp)
    rw [hnone c hmem] at hc
    cases hc
  constructor
  · intro h
    induction x with
    | nil =>
      rcases List.infix_cons_iff.1 h with h | h
      · exact .inl (hfront [] h).isInfix
      · exact .inr h
    | cons d x ih =>
      rcases List.infix_cons_iff.1 h with h | h
      · exact .inl (hfront (d :: x) h).isInfix
      · exact (ih h).imp_left fun hx => List.infix_cons hx
  · rintro (h | h)
    · exact h.trans (List.prefix_append x _).isInfix
    · exact h.trans ⟨x ++ [c], [], by simp⟩

theorem infix_cons_iff (hw : w ≠ []) (hnone : ∀ c ∈ w, p c = false) (hc : p c) (l : List α) :
    w <:+: c :: l ↔ w <:+: l := by
  have h := infix_append_iff hnone hc [] l
  rwa [List.infix_nil, or_iff_right hw] at h

/-- What has no separators in it stands within one word. -/
theorem Spaced.infix_iff (h : Spaced p words line) (hw : w ≠ [])
    (hnone : ∀ c ∈ w, p c = false) : w <:+: line ↔ ∃ word ∈ words, w <:+: word := by
  have hgap {gap : List α} (hgap : ∀ c ∈ gap, p c) (l : List α) : w <:+: gap ++ l ↔ w <:+: l := by
    induction gap with
    | nil => rfl
    | cons c gap ih =>
      rw [List.forall_mem_cons] at hgap
      exact (infix_cons_iff hw hnone hgap.1 _).trans (ih hgap.2)
  induction h with
  | @nil gap hall =>
    have hnil := hgap hall []
    rw [List.append_nil, List.infix_nil] at hnil
    simp [hnil, hw]
  | @cons gap rest words hall word hrest more ih =>
    have hsplit : w <:+: word ++ rest ↔ w <:+: word ∨ w <:+: rest := by
      cases rest with
      | nil => simp [hw]
      | cons c rest =>
        have hc := hrest c rfl
        rw [infix_append_iff hnone hc, infix_cons_iff hw hnone hc]
    rw [hgap hall, hsplit, List.exists_mem_cons_iff]
    exact or_congr_right ih

end

/-- Whether a piece stands somewhere. -/
theorem holds_iff {α : Type} [DecidableEq α] {piece l : List α} :
    holds piece l = true ↔ piece <:+: l := by
  induction l with
  | nil => simp [holds]
  | cons d l ih =>
    rw [holds, Bool.or_eq_true, ih, List.infix_cons_iff, Option.isSome_iff_exists]
    simp only [dropFront_eq_some]
    exact or_congr_left ⟨fun ⟨r, hr⟩ => ⟨r, hr.symm⟩, fun ⟨r, hr⟩ => ⟨r, hr.symm⟩⟩

/-! ## Lines -/

theorem not_newline {line : Text} (h : '\n' ∉ line) : ∀ c ∈ line, decide (c = '\n') = false := by
  intro c hc
  rw [decide_eq_false_iff_not]
  rintro rfl
  exact h hc

/-- A line ends at the first line feed, and the others come behind it. -/
theorem lines_append {line : Text} (hline : '\n' ∉ line) (t : Text) :
    lines (line ++ '\n' :: t) = dropReturn line :: lines t := by
  have hne : pieces (· = '\n') t ≠ [] := by
    intro h
    have := length_pieces (· = '\n') t
    rw [h] at this
    cases this
  obtain ⟨before, last, hpieces⟩ := List.eq_nil_or_concat (pieces (· = '\n') t) |>.resolve_left hne
  unfold lines
  rw [pieces_append (by simp), pieces_of_none (not_newline hline), hpieces, List.concat_eq_append]
  simp only [List.reverse_append, List.reverse_cons, List.reverse_nil, List.nil_append,
    List.cons_append, List.map_append, List.map_cons, List.map_nil]
  by_cases hlast : last.isEmpty
  · rw [if_pos hlast, if_pos hlast]
  · rw [if_neg hlast, if_neg hlast]

/-- The end of the last line is optional. -/
theorem lines_of_last {line : Text} (hline : '\n' ∉ line) :
    lines line = if line.isEmpty then [] else [line] := by
  unfold lines
  rw [pieces_of_none (not_newline hline)]
  rfl

end Intercept
