/-!
# Cutting lists at a mark

Names, addresses and dump lines are cut at single marks: a colon, a bracket, a blank. The
functions work on any list, since the program cuts text and bytes alike.

* `cutFirst` and `cutLast` drop the mark at which they cut.
* `dropFront` and `dropBack` take a fixed piece off one end.
* `fields` gives the non-empty runs between separators, `pieces` all of them.

Results:
* `cutFirst_eq_some`: the parts around the first mark join back, and the mark is not in the front.
* `cutLast_eq_some`: the same for the last mark, which is not in the back.
* `trimEnds_parts`, `trimEnds_append`, `trimEnds_between`: trimming takes off what it is to take
  off, and nothing else.
* `getLast?_pieces`: the last piece is what stands behind the last separator.
-/

namespace Intercept

/-- Text is a list of characters, so that it can be reasoned about by induction. -/
abbrev Text := List Char

/-- Everything that crosses a connection. -/
abbrev Bytes := List UInt8

variable {α : Type} [DecidableEq α]

/-- The parts before and after the first `c`; `none` when there is no `c`. -/
def cutFirst (c : α) : List α → Option (List α × List α)
  | [] => none
  | x :: r =>
    if x = c then some ([], r)
    else match cutFirst c r with
      | some (a, b) => some (x :: a, b)
      | none => none

/-- The parts before and after the last `c`; `none` when there is no `c`. -/
def cutLast (c : α) : List α → Option (List α × List α)
  | [] => none
  | x :: r =>
    match cutLast c r with
    | some (a, b) => some (x :: a, b)
    | none => if x = c then some ([], r) else none

/-- What follows `front` when the list starts with it. -/
def dropFront : (front : List α) → List α → Option (List α)
  | [], l => some l
  | _ :: _, [] => none
  | p :: ps, x :: r => if p = x then dropFront ps r else none

/-- What comes before `back` when the list ends with it. -/
def dropBack (back l : List α) : Option (List α) :=
  (dropFront back.reverse l.reverse).map List.reverse

/-- Whether `back` stands at the end of the list. -/
def endsWith (l back : List α) : Bool := (dropBack back l).isSome

/-- Whether `piece` stands somewhere in the list. -/
def holds (piece : List α) : List α → Bool
  | [] => piece.isEmpty
  | x :: r => (dropFront piece (x :: r)).isSome || holds piece r

/-- Without the elements at both ends that satisfy `p`. -/
def trimEnds (p : α → Bool) (l : List α) : List α :=
  ((l.dropWhile p).reverse.dropWhile p).reverse

/-- The runs between separators, empty ones included; `done` and `run` are kept in reverse. -/
def piecesFrom (p : α → Bool) (done : List (List α)) (run : List α) : List α → List (List α)
  | [] => (run.reverse :: done).reverse
  | x :: r => if p x then piecesFrom p (run.reverse :: done) [] r else piecesFrom p done (x :: run) r

/-- The runs between separators, empty ones included: one more than there are separators. -/
def pieces (p : α → Bool) (l : List α) : List (List α) := piecesFrom p [] [] l

/-- The non-empty runs between separators. -/
def fields (p : α → Bool) (l : List α) : List (List α) := (pieces p l).filter (!·.isEmpty)

/-- A line without the carriage return before its end. -/
def dropReturn (line : Text) : Text := (dropBack ['\r'] line).getD line

/-- The lines of a text; the end of the last line is optional. -/
def lines (t : Text) : List Text :=
  match (pieces (· = '\n') t).reverse with
  | [] => []
  | last :: before =>
    let ended := (before.map dropReturn).reverse
    if last.isEmpty then ended else ended ++ [last]

omit [DecidableEq α] in
/-- Only elements that satisfy the predicate are taken off the ends. -/
theorem trimEnds_parts (p : α → Bool) (l : List α) :
    ∃ before after, l = before ++ trimEnds p l ++ after ∧ (∀ c ∈ before, p c) ∧
      ∀ c ∈ after, p c := by
  have hback := List.takeWhile_append_dropWhile (p := p) (l := (l.dropWhile p).reverse)
  have hrest : trimEnds p l ++ ((l.dropWhile p).reverse.takeWhile p).reverse = l.dropWhile p := by
    rw [trimEnds, ← List.reverse_append, hback, List.reverse_reverse]
  refine ⟨l.takeWhile p, ((l.dropWhile p).reverse.takeWhile p).reverse, ?_, ?_, ?_⟩
  · rw [List.append_assoc, hrest, List.takeWhile_append_dropWhile]
  · exact List.all_eq_true.1 List.all_takeWhile
  · intro c hc
    exact List.all_eq_true.1 List.all_takeWhile c (List.mem_reverse.1 hc)

omit [DecidableEq α] in
/-- What stands between the elements to be taken off is what is left, as long as its own ends are to
stay. -/
theorem trimEnds_append {p : α → Bool} {before core after : List α} (hb : ∀ c ∈ before, p c)
    (hfirst : ∀ c ∈ core.head?, p c = false) (hlast : ∀ c ∈ core.getLast?, p c = false)
    (ha : ∀ c ∈ after, p c) : trimEnds p (before ++ core ++ after) = core := by
  have hafter : ∀ c ∈ after.reverse, p c := fun c h => ha c (List.mem_reverse.1 h)
  have hstop {l : List α} (hl : ∀ c ∈ l.head?, p c = false) : l.dropWhile p = l := by
    cases l with
    | nil => rfl
    | cons c l => exact List.dropWhile_cons_of_neg (by simp [hl c rfl])
  cases core with
  | nil =>
    have hall : ∀ c ∈ before ++ after, p c := by
      intro c h
      rcases List.mem_append.1 h with h | h
      · exact hb c h
      · exact ha c h
    have hnil : (before ++ after ++ []).dropWhile p = [].dropWhile p :=
      List.dropWhile_append_of_pos hall
    rw [List.append_nil] at hnil
    rw [trimEnds, List.append_nil, hnil]
    rfl
  | cons c core =>
    have hfront : (before ++ c :: core ++ after).dropWhile p = c :: core ++ after := by
      rw [List.append_assoc, List.dropWhile_append_of_pos hb, List.cons_append]
      exact hstop hfirst
    rw [trimEnds, hfront, List.reverse_append, List.dropWhile_append_of_pos hafter,
      hstop (by rwa [List.head?_reverse]), List.reverse_reverse]

omit [DecidableEq α] in
/-- Between the elements to be taken off stands none of them. -/
theorem trimEnds_between {p : α → Bool} {before core after : List α} (hb : ∀ c ∈ before, p c)
    (hcore : ∀ c ∈ core, p c = false) (ha : ∀ c ∈ after, p c) :
    trimEnds p (before ++ core ++ after) = core :=
  trimEnds_append hb (fun c hc => hcore c (List.mem_of_head? hc))
    (fun c hc => hcore c (List.mem_of_getLast? hc)) ha

omit [DecidableEq α] in
/-- The last of the pieces is what stands behind the last separator. -/
theorem getLast?_pieces {p : α → Bool} {front last : List α}
    (hfront : front = [] ∨ ∃ a c, p c ∧ front = a ++ [c]) (hlast : ∀ c ∈ last, p c = false) :
    (pieces p (front ++ last)).getLast? = some last := by
  have hrun (done : List (List α)) (run : List α) :
      piecesFrom p done run last = done.reverse ++ [run.reverse ++ last] := by
    induction last generalizing run with
    | nil => simp [piecesFrom]
    | cons x r ih =>
      simp only [piecesFrom]
      rw [if_neg (by simp [hlast x List.mem_cons_self]),
        ih (fun c hc => hlast c (List.mem_cons_of_mem x hc))]
      simp
  have hstop (done : List (List α)) (run a : List α) {c : α} (hc : p c) :
      (piecesFrom p done run (a ++ c :: last)).getLast? = some last := by
    induction a generalizing done run with
    | nil => simp [piecesFrom, hc, hrun]
    | cons x r ih =>
      simp only [List.cons_append, piecesFrom]
      split
      · exact ih _ _
      · exact ih _ _
  rcases hfront with rfl | ⟨a, c, hc, rfl⟩
  · rw [List.nil_append, pieces, hrun]
    rfl
  · rw [List.append_assoc, List.singleton_append]
    exact hstop [] [] a hc

theorem cutFirst_eq_some {c : α} {l a b : List α} :
    cutFirst c l = some (a, b) ↔ l = a ++ c :: b ∧ c ∉ a := by
  induction l generalizing a b with
  | nil => simp [cutFirst]
  | cons x r ih =>
    by_cases h : x = c
    · subst h
      cases a with
      | nil => simp [cutFirst]
      | cons y a => simp [cutFirst]; grind
    · cases a with
      | nil => cases hr : cutFirst c r <;> simp [cutFirst, h, hr]
      | cons y a =>
        have := @ih a b
        cases hr : cutFirst c r with
        | none => simp_all [cutFirst]
        | some p =>
          simp_all [cutFirst]
          grind

theorem cutLast_eq_none {c : α} {l : List α} : cutLast c l = none ↔ c ∉ l := by
  induction l with
  | nil => simp [cutLast]
  | cons x r ih => cases hr : cutLast c r <;> simp_all [cutLast, eq_comm]

theorem cutLast_eq_some {c : α} {l a b : List α} :
    cutLast c l = some (a, b) ↔ l = a ++ c :: b ∧ c ∉ b := by
  induction l generalizing a b with
  | nil => simp [cutLast]
  | cons x r ih =>
    cases hr : cutLast c r with
    | none =>
      have hc := cutLast_eq_none.1 hr
      cases a <;> simp [cutLast, hr] <;> grind
    | some p =>
      have hp := (@ih p.1 p.2).1 hr
      cases a with
      | nil => simp [cutLast, hr]; grind
      | cons y a =>
        have := @ih a b
        simp [cutLast, hr] at this ⊢
        grind

theorem dropFront_eq_some {p l r : List α} : dropFront p l = some r ↔ l = p ++ r := by
  induction p generalizing l with
  | nil => simp [dropFront]
  | cons x p ih => cases l <;> simp [dropFront]; grind

theorem dropBack_eq_some {p l r : List α} : dropBack p l = some r ↔ l = r ++ p := by
  simp only [dropBack, Option.map_eq_some_iff, dropFront_eq_some]
  constructor
  · rintro ⟨a, h, rfl⟩
    have := congrArg List.reverse h
    simpa using this
  · rintro rfl
    exact ⟨r.reverse, by simp, by simp⟩

theorem endsWith_iff {l back : List α} : endsWith l back = true ↔ ∃ r, l = r ++ back := by
  simp [endsWith, Option.isSome_iff_exists, dropBack_eq_some]

end Intercept
