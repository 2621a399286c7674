import Intercept.Proofs.Tls.Grammar
import Intercept.Tls.Cursor

/-!
# Reading by position

The two readers of server names say the same. So no access of the one with positions lies outside
of its region, no sum is too great for a machine word, and both of its loops get on.

* `window region pos stop`: the bytes from a position up to an end, which the other reader has.
* `Follows read stop pos`: what a turn has to come to for its loop to say what `read` says.
* `tailAt region pos`, `Lands`: the positions of a hello may run past its end for a while; what is
  left there is nothing, not even no bytes.

Results:
* `loop_eq`: a loop whose turns follow a reader comes to what the reader says.
* `nameOfExtension_eq`, `nameOfHello_eq`, `serverName?_eq`: the two readers of each part agree.
* `nameTurn_on`, `extensionTurn_on`: a turn that goes on goes forward.
* `serverName_within_bounds`: all of it together.
-/

namespace Intercept.Tls.Cursor

variable {α : Type} {region : Bytes} {pos stop n : Nat}

/-! ## Single accesses -/

theorem word_eq (h : n ≤ mostInWord) : word n = .ok n := if_pos h

theorem sum_eq {a b : Nat} (h : a + b ≤ mostInWord) : sum a b = .ok (a + b) := word_eq h

theorem byteAt_eq {b : UInt8} {r : Bytes} (h : region.drop pos = b :: r) :
    byteAt region pos = .ok b := by
  have hget : region[pos]? = some b := by
    rw [← Nat.add_zero pos, ← List.getElem?_drop, h]
    rfl
  rw [byteAt, hget]

theorem byteOrEnd_eq : byteOrEnd region pos =
    match byte? (region.drop pos) with
    | some (b, _) => .ok b
    | none => .error (.refused .truncated) := by
  have hget : region[pos]? = (region.drop pos)[0]? := by rw [List.getElem?_drop, Nat.add_zero]
  rw [byteOrEnd, hget]
  cases region.drop pos <;> rfl

/-- A slice from a position on is what is cut off the bytes that are left there. -/
theorem slice?_eq (h : pos ≤ region.length) :
    slice? region pos (pos + n) = (split? n (region.drop pos)).map Prod.fst := by
  unfold slice? split?
  rw [List.length_drop]
  by_cases hn : pos + n ≤ region.length
  · rw [if_pos ⟨Nat.le_add_right pos n, hn⟩, if_pos (by omega), Option.map_some,
      List.drop_take, Nat.add_sub_cancel_left]
  · rw [if_neg fun h => hn h.2, if_neg (by omega), Option.map_none]

theorem numberOrEnd_eq (h : pos + 2 ≤ mostInWord) : numberOrEnd region pos =
    match number? (region.drop pos) with
    | some (n, _) => .ok n
    | none => .error (.refused .truncated) := by
  unfold numberOrEnd
  rw [sum_eq h]
  by_cases hpos : pos ≤ region.length
  · simp only [bind, Except.bind, slice?_eq hpos]
    match region.drop pos with
    | [] => rfl
    | [_] => rfl
    | hi :: lo :: r => simp [split?, byteAt, number?, pure, Except.pure]
  · have hdrop : region.drop pos = [] := List.drop_eq_nil_of_le (by omega)
    have hnone : slice? region pos (pos + 2) = none := if_neg fun h => by omega
    simp only [bind, Except.bind, hnone, hdrop, number?]

/-! ## What is left up to an end -/

/-- The bytes from a position up to an end. -/
def window (region : Bytes) (pos stop : Nat) : Bytes := (region.take stop).drop pos

theorem length_window (pos : Nat) (h : stop ≤ region.length) :
    (window region pos stop).length = stop - pos := by
  rw [window, List.length_drop, List.length_take, Nat.min_eq_left h]

theorem drop_window : (window region pos stop).drop n = window region (pos + n) stop :=
  List.drop_drop

theorem window_behind (head : Bytes) {r : Bytes} (h : window region pos stop = head ++ r) :
    window region (pos + head.length) stop = r := by
  rw [← drop_window, h, List.drop_left]

theorem drop_eq_window_append (h : pos ≤ stop) (hstop : stop ≤ region.length) :
    region.drop pos = window region pos stop ++ region.drop stop := by
  have happ := congrArg (List.drop pos) (List.take_append_drop stop region)
  rwa [List.drop_append_of_le_length (by rw [List.length_take]; omega), eq_comm] at happ

theorem split?_window (h : pos ≤ stop) (hstop : stop ≤ region.length) :
    split? n (window region pos stop) =
      if stop < pos + n then none
      else some (window region pos (pos + n), window region (pos + n) stop) := by
  unfold split?
  rw [length_window _ hstop]
  by_cases hn : stop < pos + n
  · rw [if_pos hn, if_neg (by omega)]
  · rw [if_neg hn, if_pos (by omega), drop_window, window, window, window, List.take_drop,
      List.take_take, Nat.min_eq_left (by omega)]

theorem slice_eq (h : pos + n ≤ region.length) :
    slice region pos (pos + n) = .ok (window region pos (pos + n)) := by
  unfold slice slice?
  rw [if_pos ⟨Nat.le_add_right pos n, h⟩]
  rfl

theorem byteAt_window {b : UInt8} {r : Bytes} (h : window region pos stop = b :: r)
    (hpos : pos ≤ stop) (hstop : stop ≤ region.length) : byteAt region pos = .ok b :=
  byteAt_eq (r := r ++ region.drop stop) (by rw [drop_eq_window_append hpos hstop, h]; rfl)

theorem numberOrEnd_window {hi lo : UInt8} {r : Bytes} (h : window region pos stop = hi :: lo :: r)
    (hpos : pos ≤ stop) (hstop : stop ≤ region.length) (hword : pos + 2 ≤ mostInWord) :
    numberOrEnd region pos = .ok (number hi lo) := by
  rw [numberOrEnd_eq hword, drop_eq_window_append hpos hstop, h]
  rfl

/-! ## Loops -/

/-- A turn at a position comes to what a reader says there: to its answer or its refusal, or to a
later position, up to the end, where the reader says the same. -/
def Follows (read : Nat → Except Halt α) (stop pos : Nat) : Except Halt (Turn α) → Prop
  | .error h => read pos = .error h
  | .ok (.answer a) => read pos = .ok a
  | .ok (.on next) => (pos < next ∧ next ≤ stop) ∧ read pos = read next

/-- A loop whose turns follow a reader comes to what the reader says. -/
theorem loop_eq {read : Nat → Except Halt α} {turn : Nat → Except Halt (Turn α)}
    (h : ∀ pos, pos ≤ stop → Follows read stop pos (turn pos)) (hpos : pos ≤ stop) :
    loop turn stop pos = read pos := by
  fun_induction loop turn stop pos with
  | case1 pos halt hturn =>
    have hread := h pos hpos
    rw [hturn] at hread
    exact hread.symm
  | case2 pos a hturn =>
    have hread := h pos hpos
    rw [hturn] at hread
    exact hread.symm
  | case3 pos next hturn hnext ih =>
    have hread := h pos hpos
    rw [hturn] at hread
    rw [ih hnext.2, hread.2]
  | case4 pos next hturn hadrift =>
    have hread := h pos hpos
    rw [hturn] at hread
    exact absurd hread.1 hadrift

/-- What reading a list of names comes to. -/
def listed (names : Bytes) : Except Halt Text :=
  match (hostName? names).bind Utf8.decode? with
  | some name => .ok name
  | none => .error (.refused .invalidName)

theorem hostName?_eq_bind {type : UInt8} {r : Bytes} : hostName? (type :: r) =
    (vector16? r).bind fun (name, r) => if type = 0 then some name else hostName? r := by
  rw [hostName?]
  split
  · rename_i hnone
    rw [hnone, Option.bind_none]
  · rename_i hsome
    rw [hsome, Option.bind_some]

theorem listed_cons (type : UInt8) (r : Bytes) : listed (type :: r) =
    match vector16? r with
    | none => .error (.refused .invalidName)
    | some (name, r) =>
      if type = 0 then
        match Utf8.decode? name with
        | some name => .ok name
        | none => .error (.refused .invalidName)
      else listed r := by
  rw [listed, hostName?_eq_bind]
  cases vector16? r with
  | none => rfl
  | some field =>
    by_cases htype : type = 0
    · simp only [Option.bind_some, if_pos htype]
    · simp only [Option.bind_some, if_neg htype]
      rfl

/-- A turn takes one name off those up to the end of the list. Each sum in it is at most the end and
the header and longest name of one entry behind it. -/
theorem nameTurn_follows {ext : Bytes} (hstop : stop ≤ ext.length)
    (hword : stop + 65538 ≤ mostInWord) (pos : Nat) (hpos : pos ≤ stop) :
    Follows (fun pos => listed (window ext pos stop)) stop pos (nameTurn ext stop pos) := by
  have hlength := length_window pos hstop
  unfold nameTurn
  match hw : window ext pos stop with
  | [] | [_] | [_, _] =>
    rw [hw] at hlength
    simp only [List.length_nil, List.length_cons] at hlength
    rw [sum_eq (by omega)]
    simp only [bind, Except.bind]
    rw [if_neg (by omega), Follows, hw, listed, hostName?]
    rfl
  | type :: hi :: lo :: r =>
    rw [hw] at hlength
    simp only [List.length_cons] at hlength
    have hone : window ext (pos + 1) stop = hi :: lo :: r := window_behind [type] hw
    have hthree : window ext (pos + 3) stop = r := window_behind [type, hi, lo] hw
    have hn := number_lt hi lo
    have hsplit : vector16? (hi :: lo :: r) =
        split? (number hi lo) (window ext (pos + 3) stop) := by
      rw [hthree]
      rfl
    rw [split?_window (by omega) hstop] at hsplit
    have hread := listed_cons type (hi :: lo :: r)
    rw [hsplit, ← hw] at hread
    simp only [bind, Except.bind, sum_eq (show pos + 3 ≤ mostInWord by omega),
      sum_eq (show pos + 1 ≤ mostInWord by omega),
      sum_eq (show pos + 3 + number hi lo ≤ mostInWord by omega), byteAt_window hw hpos hstop,
      numberOrEnd_window hone (by omega) hstop (by omega)]
    rw [if_pos (by omega)]
    by_cases hpast : stop < pos + 3 + number hi lo
    · rw [if_pos hpast] at hread ⊢
      exact hread
    · rw [if_neg hpast] at hread ⊢
      by_cases htype : type = 0
      · simp only [if_pos htype] at hread ⊢
        rw [slice_eq (by omega)]
        simp only
        cases hname : Utf8.decode? (window ext (pos + 3) (pos + 3 + number hi lo)) with
        | none => rwa [hname] at hread
        | some name => rwa [hname] at hread
      · simp only [if_neg htype] at hread ⊢
        exact ⟨⟨by omega, by omega⟩, hread⟩

theorem nameOfExtension_eq (ext : Bytes) :
    nameOfExtension ext = (Tls.nameOfExtension ext).mapError .refused := by
  have hread : (Tls.nameOfExtension ext).mapError .refused =
      match vector16? ext with
      | none => .error (.refused .invalidName)
      | some (names, _) => listed names := by
    rw [Tls.nameOfExtension]
    cases vector16? ext with
    | none => rfl
    | some field =>
      simp only [Option.bind_some, listed]
      cases (hostName? field.1).bind Utf8.decode? <;> rfl
  rw [hread]
  match ext with
  | [] | [_] => rfl
  | hi :: lo :: r =>
    have hn := number_lt hi lo
    have hlength : numberOrEnd (hi :: lo :: r) 0 = .ok (number hi lo) := numberOrEnd_eq (by decide)
    have hfield : vector16? (hi :: lo :: r) = split? (number hi lo) r := rfl
    have hsum : sum (number hi lo) 2 = .ok (number hi lo + 2) :=
      sum_eq (by unfold mostInWord; omega)
    unfold nameOfExtension
    simp only [hfield, split?, hlength, asInvalidName, hsum, bind, Except.bind, List.length_cons]
    by_cases hshort : r.length < number hi lo
    · rw [if_pos (by omega), if_neg (by omega)]
    · rw [if_neg (by omega), if_pos (by omega)]
      refine loop_eq (nameTurn_follows ?_ ?_) (by omega)
      · simp only [List.length_cons]
        omega
      · unfold mostInWord
        omega

/-! ## Extensions -/

theorem nameOfExtensions_eq_split (t0 t1 l0 l1 : UInt8) (r : Bytes) :
    nameOfExtensions (t0 :: t1 :: l0 :: l1 :: r) =
      match split? (number l0 l1) r with
      | none => .error .truncated
      | some (ext, r) =>
        if number t0 t1 = 0 then (Tls.nameOfExtension ext).map some else nameOfExtensions r := by
  rw [nameOfExtensions]
  split
  · rename_i hnone
    rw [hnone]
  · rename_i hsome
    rw [hsome]

/-- A turn takes one extension off those up to the end of the block, wherever the hello ends. -/
theorem extensionTurn_follows {hello : Bytes} (hstop : stop ≤ hello.length)
    (hword : stop + 65539 ≤ mostInWord) (pos : Nat) (hpos : pos ≤ stop) :
    Follows (fun pos => (nameOfExtensions (window hello pos stop)).mapError .refused) stop pos
      (extensionTurn hello stop pos) := by
  have hlength := length_window pos hstop
  unfold extensionTurn
  match hw : window hello pos stop with
  | [] | [_] | [_, _] | [_, _, _] =>
    rw [hw] at hlength
    simp only [List.length_nil, List.length_cons] at hlength
    rw [sum_eq (by omega)]
    simp only [bind, Except.bind]
    rw [if_neg (by omega)]
    show Except.mapError _ (nameOfExtensions (window hello pos stop)) = .ok none
    rw [hw, nameOfExtensions]
    · rfl
    · rintro _ _ _ _ _ ⟨⟩
  | t0 :: t1 :: l0 :: l1 :: r =>
    rw [hw] at hlength
    simp only [List.length_cons] at hlength
    have htwo : window hello (pos + 2) stop = l0 :: l1 :: r := window_behind [t0, t1] hw
    have hfour : window hello (pos + 4) stop = r := window_behind [t0, t1, l0, l1] hw
    have hn := number_lt l0 l1
    have hread := congrArg (Except.mapError Halt.refused)
      (nameOfExtensions_eq_split t0 t1 l0 l1 r)
    rw [← hfour, split?_window (by omega) hstop, hfour, ← hw] at hread
    simp only [bind, Except.bind, sum_eq (show pos + 4 ≤ mostInWord by omega),
      sum_eq (show pos + 2 ≤ mostInWord by omega),
      sum_eq (show pos + 4 + number l0 l1 ≤ mostInWord by omega),
      numberOrEnd_window hw hpos hstop (by omega),
      numberOrEnd_window htwo (by omega) hstop (by omega)]
    rw [if_pos (by omega)]
    by_cases hpast : stop < pos + 4 + number l0 l1
    · rw [if_pos hpast] at hread ⊢
      exact hread
    · rw [if_neg hpast] at hread ⊢
      by_cases htype : number t0 t1 = 0
      · simp only [if_pos htype] at hread ⊢
        rw [slice_eq (by omega)]
        simp only [nameOfExtension_eq]
        cases hname : Tls.nameOfExtension (window hello (pos + 4) (pos + 4 + number l0 l1)) with
        | error e => rwa [hname] at hread
        | ok name => rwa [hname] at hread
      · simp only [if_neg htype] at hread ⊢
        exact ⟨⟨by omega, by omega⟩, hread⟩

/-! ## Positions that may lie behind the end -/

/-- The bytes from a position on, if it does not lie behind the end. -/
def tailAt (region : Bytes) (pos : Nat) : Option Bytes :=
  if pos ≤ region.length then some (region.drop pos) else none

/-- A skip comes to a position up to a bound, with `tail` from there on; or there is no tail, and
the bytes are truncated. -/
def Lands (region : Bytes) (bound : Nat) (tail : Option Bytes) : Except Halt Nat → Prop
  | .error h => h = .refused .truncated ∧ tail = none
  | .ok next => next ≤ bound ∧ tailAt region next = tail

/-- A reader that finds nothing in no bytes finds the same wherever the position lies. -/
theorem tailAt_bind {f : Bytes → Option α} (h : f [] = none) :
    (tailAt region pos).bind f = f (region.drop pos) := by
  unfold tailAt
  split
  · rfl
  · rw [List.drop_eq_nil_of_le (by omega), h, Option.bind_none]

theorem tailAt_drop (head : Bytes) {r : Bytes} (h : region.drop pos = head ++ r)
    (hhead : head ≠ []) :
    tailAt region (pos + head.length + n) = (split? n r).map Prod.snd := by
  have hlength := congrArg List.length h
  have := List.length_pos_iff.2 hhead
  simp only [List.length_drop, List.length_append] at hlength
  have hdrop : region.drop (pos + head.length + n) = r.drop n := by
    rw [← List.drop_drop, ← List.drop_drop, h, List.drop_left]
  unfold tailAt split?
  by_cases hn : n ≤ r.length
  · rw [if_pos (by omega), if_pos hn, Option.map_some, hdrop]
  · rw [if_neg (by omega), if_neg hn, Option.map_none]

/-- A skip lands behind its field. Where the field is longer than what is left, that is behind the
end, and there is no tail. -/
theorem past8_lands (hword : pos + 256 ≤ mostInWord) :
    Lands region (pos + 256) ((tailAt region pos).bind fun r => (vector8? r).map Prod.snd)
      (past8 region pos) := by
  rw [tailAt_bind rfl, past8, byteOrEnd_eq]
  match hr : region.drop pos with
  | [] => exact ⟨rfl, rfl⟩
  | b :: r =>
    have hb := b.toNat_lt
    simp only [byte?, bind, Except.bind, sum_eq (show 1 + b.toNat ≤ mostInWord by omega),
      sum_eq (show pos + (1 + b.toNat) ≤ mostInWord by omega)]
    refine ⟨by omega, ?_⟩
    rw [← Nat.add_assoc]
    exact tailAt_drop [b] hr (List.cons_ne_nil b [])

theorem past16_lands (hword : pos + 65537 ≤ mostInWord) :
    Lands region (pos + 65537) ((tailAt region pos).bind fun r => (vector16? r).map Prod.snd)
      (past16 region pos) := by
  rw [tailAt_bind rfl, past16, numberOrEnd_eq (by omega)]
  match hr : region.drop pos with
  | [] | [_] => exact ⟨rfl, rfl⟩
  | hi :: lo :: r =>
    have hn := number_lt hi lo
    simp only [number?, bind, Except.bind, sum_eq (show 2 + number hi lo ≤ mostInWord by omega),
      sum_eq (show pos + (2 + number hi lo) ≤ mostInWord by omega)]
    refine ⟨by omega, ?_⟩
    rw [← Nat.add_assoc]
    exact tailAt_drop [hi, lo] hr (List.cons_ne_nil hi [lo])

/-- A skip from where another one landed. -/
theorem Lands.bind {skip : Nat → Except Halt Nat} {step : Bytes → Option Bytes} {bound more : Nat}
    {tail : Option Bytes} {landed : Except Halt Nat} (h : Lands region bound tail landed)
    (hskip : ∀ pos, pos ≤ bound →
      Lands region (pos + more) ((tailAt region pos).bind step) (skip pos)) :
    Lands region (bound + more) (tail.bind step) (landed >>= skip) := by
  match landed with
  | .error halt =>
    obtain ⟨rfl, rfl⟩ := h
    exact ⟨rfl, rfl⟩
  | .ok pos =>
    obtain ⟨hpos, rfl⟩ := h
    have hnext := hskip pos hpos
    show Lands region _ _ (skip pos)
    match hs : skip pos with
    | .error halt => rwa [hs] at hnext
    | .ok next =>
      rw [hs] at hnext
      exact ⟨by have := hnext.1; omega, hnext.2⟩

/-! ## Hellos -/

theorem helloTail?_eq_bind (hello : Bytes) : helloTail? hello =
    (((tailAt hello 34).bind fun r => (vector8? r).map Prod.snd).bind
      fun r => (vector16? r).map Prod.snd).bind fun r => (vector8? r).map Prod.snd := by
  have hfront : tailAt hello 34 = (split? 34 hello).map Prod.snd := by
    unfold tailAt split?
    split <;> rfl
  rw [hfront]
  simp only [helloTail?, Option.bind_eq_bind, Option.map_eq_bind, Option.bind_assoc,
    Option.pure_def]
  rfl

/-- The position behind the compression methods of a hello. -/
theorem skips_land (hello : Bytes) : Lands hello (34 + 256 + 65537 + 256) (helloTail? hello)
    (sum 2 32 >>= past8 hello >>= past16 hello >>= past8 hello) := by
  have hfront : Lands hello 34 (tailAt hello 34) (sum 2 32) := ⟨by decide, rfl⟩
  have hword : 34 + 256 + 65537 + 256 ≤ mostInWord := by decide
  rw [helloTail?_eq_bind]
  exact ((hfront.bind fun pos h => past8_lands (by omega)).bind fun pos h =>
    past16_lands (by omega)).bind fun pos h => past8_lands (by omega)

theorem nameOfHello_eq_bind (hello : Bytes) : nameOfHello hello =
    (sum 2 32 >>= past8 hello >>= past16 hello >>= past8 hello) >>= nameFrom hello := by
  simp only [nameOfHello, bind_assoc]

/-- The bound leaves room for the length of the block, the longest block, and the header and longest
extension behind it that a turn may look for. -/
theorem nameFrom_eq {hello : Bytes} (hword : pos + 131076 ≤ mostInWord) :
    nameFrom hello pos =
      match tailAt hello pos with
      | none => .error (.refused .truncated)
      | some [] => .ok none
      | some r =>
        match vector16? r with
        | none => .error (.refused .truncated)
        | some (block, _) => (nameOfExtensions block).mapError .refused := by
  unfold nameFrom tailAt
  by_cases hend : pos = hello.length
  · rw [if_pos hend, if_pos (by omega), List.drop_eq_nil_of_le (by omega)]
  rw [if_neg hend, numberOrEnd_eq (by omega)]
  by_cases hpos : pos ≤ hello.length
  · rw [if_pos hpos]
    match hr : hello.drop pos with
    | [] =>
      have := List.drop_eq_nil_iff.1 hr
      omega
    | [b] => rfl
    | hi :: lo :: r =>
      have hn := number_lt hi lo
      have hlength := congrArg List.length hr
      simp only [List.length_drop, List.length_cons] at hlength
      have hfield : vector16? (hi :: lo :: r) = split? (number hi lo) r := rfl
      have hwindow : window hello (pos + 2) (pos + 2 + number hi lo) = r.take (number hi lo) := by
        rw [window, List.drop_take, ← List.drop_drop, hr, Nat.add_sub_cancel_left]
        rfl
      simp only [hfield, split?, number?, bind, Except.bind,
        sum_eq (show pos + 2 ≤ mostInWord by omega),
        sum_eq (show pos + 2 + number hi lo ≤ mostInWord by omega)]
      by_cases hshort : r.length < number hi lo
      · rw [if_pos (by omega), if_neg (by omega)]
      · rw [if_neg (by omega), if_pos (by omega)]
        simp only [← hwindow]
        exact loop_eq (extensionTurn_follows (by omega) (by omega)) (by omega)
  · rw [if_neg hpos, List.drop_eq_nil_of_le (by omega)]
    rfl

theorem nameOfHello_eq (hello : Bytes) :
    nameOfHello hello = (Tls.nameOfHello hello).mapError .refused := by
  have hlands := skips_land hello
  rw [nameOfHello_eq_bind, Tls.nameOfHello_eq]
  match hs : (sum 2 32 >>= past8 hello >>= past16 hello >>= past8 hello) with
  | .error halt =>
    rw [hs] at hlands
    obtain ⟨rfl, hnone⟩ := hlands
    rw [hnone]
    rfl
  | .ok pos =>
    rw [hs] at hlands
    obtain ⟨hpos, htail⟩ := hlands
    have hword : pos + 131076 ≤ mostInWord := by unfold mostInWord; omega
    show nameFrom hello pos = _
    rw [nameFrom_eq hword, htail]
    match helloTail? hello with
    | none | some [] => rfl
    | some (b :: r) =>
      simp only
      cases vector16? (b :: r) <;> rfl

/-! ## Records -/

theorem length_of_bytes (a b c : UInt8) :
    a.toNat <<< 16 ||| b.toNat <<< 8 ||| c.toNat = a.toNat * 65536 + number b c := by
  have hb := b.toNat_lt
  have hc := c.toNat_lt
  rw [Nat.or_assoc, ← Nat.shiftLeft_add_eq_or_of_lt hc, ← Nat.shiftLeft_add_eq_or_of_lt,
    Nat.shiftLeft_eq, Nat.shiftLeft_eq, number]
  rw [Nat.shiftLeft_eq]
  omega

/-- What stands behind a head is cut off with a slice. -/
theorem slice_behind (head : Bytes) {r : Bytes} (h : n ≤ r.length) :
    slice (head ++ r) head.length (head.length + n) = .ok (r.take n) := by
  rw [slice_eq (by rw [List.length_append]; omega), window, List.take_length_add_append,
    List.drop_left]

theorem nameOfHandshake_eq (body : Bytes) :
    nameOfHandshake body = (Tls.nameOfHandshake body).mapError .refused := by
  match body with
  | [] | [_] | [_, _] | [_, _, _] => rfl
  | type :: a :: b :: c :: r =>
    have ha := a.toNat_lt
    have hb := b.toNat_lt
    have hn := number_lt b c
    have hhigh : shifted a.toNat 16 = .ok (a.toNat <<< 16) :=
      word_eq (by rw [Nat.shiftLeft_eq]; unfold mostInWord; omega)
    have hmiddle : shifted b.toNat 8 = .ok (b.toNat <<< 8) :=
      word_eq (by rw [Nat.shiftLeft_eq]; unfold mostInWord; omega)
    have hsum : sum 4 (a.toNat * 65536 + number b c) = .ok (4 + (a.toNat * 65536 + number b c)) :=
      sum_eq (by unfold mostInWord; omega)
    have hlength : (type :: a :: b :: c :: r).length = 4 + r.length := by
      simp only [List.length_cons]
      omega
    have h0 : byteAt (type :: a :: b :: c :: r) 0 = .ok type := rfl
    have h1 : byteAt (type :: a :: b :: c :: r) 1 = .ok a := rfl
    have h2 : byteAt (type :: a :: b :: c :: r) 2 = .ok b := rfl
    have h3 : byteAt (type :: a :: b :: c :: r) 3 = .ok c := rfl
    unfold nameOfHandshake Tls.nameOfHandshake
    rw [hlength, if_neg (by omega)]
    simp only [h0, h1, h2, h3, bind, Except.bind, hhigh, hmiddle, length_of_bytes, hsum]
    by_cases htype : type = clientHelloType
    · simp only [htype, ne_eq, not_true_eq_false, if_false, split?]
      by_cases hshort : r.length < a.toNat * 65536 + number b c
      · rw [if_pos (by omega), if_neg (by omega), difference, if_pos (by omega)]
        rfl
      · have hslice := slice_behind [clientHelloType, a, b, c] (Nat.le_of_not_lt hshort)
        rw [if_neg (by omega), if_pos (by omega)]
        exact (congrArg (· >>= nameOfHello) hslice).trans (nameOfHello_eq _)
    · simp only [ne_eq, htype, not_false_eq_true, if_true]
      rfl

theorem serverName?_eq (record : Bytes) :
    serverName? record = (Tls.serverName? record).mapError .refused := by
  match record with
  | [] | [_] | [_, _] | [_, _, _] | [_, _, _, _] => rfl
  | type :: v0 :: v1 :: hi :: lo :: r =>
    have hn := number_lt hi lo
    have hsum : sum headerLength (number hi lo) = .ok (headerLength + number hi lo) :=
      sum_eq (by unfold mostInWord headerLength; omega)
    have hlength : (type :: v0 :: v1 :: hi :: lo :: r).length = headerLength + r.length := by
      simp only [List.length_cons, headerLength]
      omega
    have h0 : byteAt (type :: v0 :: v1 :: hi :: lo :: r) 0 = .ok type := rfl
    have h3 : byteAt (type :: v0 :: v1 :: hi :: lo :: r) 3 = .ok hi := rfl
    have h4 : byteAt (type :: v0 :: v1 :: hi :: lo :: r) 4 = .ok lo := rfl
    unfold serverName? Tls.serverName?
    rw [hlength, if_neg (by omega)]
    simp only [h0, h3, h4, bind, Except.bind, hsum]
    by_cases htype : type = handshakeType
    · simp only [htype, ne_eq, not_true_eq_false, if_false, split?]
      by_cases hshort : r.length < number hi lo
      · rw [if_pos (by omega), if_neg (by omega)]
        rfl
      · have hslice := slice_behind [handshakeType, v0, v1, hi, lo] (Nat.le_of_not_lt hshort)
        rw [if_neg (by omega), if_pos (by omega)]
        exact (congrArg (· >>= nameOfHandshake) hslice).trans (nameOfHandshake_eq _)
    · simp only [ne_eq, htype, not_false_eq_true, if_true]
      rfl

/-! ## Progress -/

theorem bind_eq_ok {β : Type} {x : Except Halt α} {f : α → Except Halt β} {b : β} :
    x >>= f = .ok b ↔ ∃ a, x = .ok a ∧ f a = .ok b := by
  cases x with
  | error h => simp [bind, Except.bind]
  | ok a => simp [bind, Except.bind]

theorem sum_eq_ok {a b : Nat} (h : sum a b = .ok n) : n = a + b := by
  unfold sum word at h
  split at h
  · exact (Except.ok.inj h).symm
  · cases h

/-- What both loops do with an entry behind its header of `header` bytes: they answer, or go on
behind it. -/
theorem on_of_entry {header length next : Nat} {found : Prop} [Decidable found] {halt : Halt}
    {answer : Nat → Nat → Except Halt (Turn α)} (hheader : 0 < header)
    (hanswer : ∀ first past, answer first past ≠ .ok (.on next))
    (h : (do
      let first ← sum pos header
      let past ← sum first length
      if stop < past then .error halt
      else if found then answer first past
      else return .on past) = .ok (.on next)) :
    pos < next ∧ next ≤ stop := by
  obtain ⟨first, hfirst, h⟩ := bind_eq_ok.1 h
  obtain ⟨past, hpast, h⟩ := bind_eq_ok.1 h
  have hfirst := sum_eq_ok hfirst
  have hpast := sum_eq_ok hpast
  split at h
  · cases h
  · split at h
    · exact absurd h (hanswer first past)
    · cases h
      omega

theorem nameTurn_on {ext : Bytes} {next : Nat} (h : nameTurn ext stop pos = .ok (.on next)) :
    pos < next ∧ next ≤ stop := by
  unfold nameTurn at h
  obtain ⟨_, -, h⟩ := bind_eq_ok.1 h
  split at h
  · obtain ⟨type, -, h⟩ := bind_eq_ok.1 h
    obtain ⟨_, -, h⟩ := bind_eq_ok.1 h
    obtain ⟨length, -, h⟩ := bind_eq_ok.1 h
    refine on_of_entry (by decide) (fun first past hon => ?_) h
    obtain ⟨_, -, hon⟩ := bind_eq_ok.1 hon
    split at hon <;> cases hon
  · cases h

theorem extensionTurn_on {hello : Bytes} {next : Nat}
    (h : extensionTurn hello stop pos = .ok (.on next)) : pos < next ∧ next ≤ stop := by
  unfold extensionTurn at h
  obtain ⟨_, -, h⟩ := bind_eq_ok.1 h
  split at h
  · obtain ⟨type, -, h⟩ := bind_eq_ok.1 h
    obtain ⟨_, -, h⟩ := bind_eq_ok.1 h
    obtain ⟨length, -, h⟩ := bind_eq_ok.1 h
    refine on_of_entry (by decide) (fun first past hon => ?_) h
    obtain ⟨_, -, hon⟩ := bind_eq_ok.1 hon
    obtain ⟨_, -, hon⟩ := bind_eq_ok.1 hon
    cases hon
  · cases h

theorem nameOfExtension_ne_truncated (ext : Bytes) :
    nameOfExtension ext ≠ .error (.refused .truncated) := by
  rw [nameOfExtension_eq, Tls.nameOfExtension]
  split <;> simp [Except.mapError]

/-- **Reading by position stays within bounds.** Whatever the bytes are, reading them by position
comes to what reading them by what is left comes to: to a name, to none or to a refusal, and never
to an access outside of a region, to a number that no machine word holds or to a loop that is
adrift. The same goes for a server name extension by itself, which is never refused as truncated:
behind the first check of its list, no number in it lies behind the end. A turn of either loop that
goes on moves the position forward, and not past the end. -/
theorem serverName_within_bounds :
    (∀ record, serverName? record = (Tls.serverName? record).mapError .refused) ∧
    (∀ ext, nameOfExtension ext = (Tls.nameOfExtension ext).mapError .refused ∧
      nameOfExtension ext ≠ .error (.refused .truncated)) ∧
    (∀ hello stop pos next, extensionTurn hello stop pos = .ok (.on next) →
      pos < next ∧ next ≤ stop) ∧
    ∀ ext stop pos next, nameTurn ext stop pos = .ok (.on next) → pos < next ∧ next ≤ stop :=
  ⟨serverName?_eq, fun ext => ⟨nameOfExtension_eq ext, nameOfExtension_ne_truncated ext⟩,
    fun _ _ _ _ => extensionTurn_on, fun _ _ _ _ => nameTurn_on⟩

/-- A record whose session announces more bytes than there are: the position runs past the end. -/
def overrunningRecord : Bytes :=
  [0x16, 3, 1, 0, 39, 1, 0, 0, 35, 3, 3] ++ List.replicate 32 0x42 ++ [200]

/-- A position past the end is refused, and a name of another type is passed over. -/
theorem serverName_within_bounds_overrun :
    serverName? overrunningRecord = .error (.refused .truncated) ∧
    nameTurn [0, 4, 1, 0, 1, 0x78] 6 2 = .ok (.on 6) ∧ 2 < 6 ∧ 6 ≤ 6 := by
  have hrefused : Tls.serverName? overrunningRecord = .error .truncated := by
    simp [overrunningRecord, Tls.serverName?, number, split?, handshakeType, clientHelloType,
      Tls.nameOfHandshake, Tls.nameOfHello, vector8?, byte?]
  have hturn : nameTurn [0, 4, 1, 0, 1, 0x78] 6 2 = .ok (.on 6) := by
    simp [nameTurn, sum, word, mostInWord, byteAt, numberOrEnd, slice?, number, bind, Except.bind,
      pure, Except.pure]
  refine ⟨?_, hturn, serverName_within_bounds.2.2.2 _ _ _ _ hturn⟩
  rw [serverName_within_bounds.1, hrefused]
  rfl

end Intercept.Tls.Cursor
