import Intercept.Net.Ip
import Intercept.Proofs.Text.Numeral

/-!
# Printed addresses are read back

An address is read off the front of a text, so the text behind it matters: the digits, colons and
dots that a printed address could go on with must not follow it.

* `Stops base rest`: no digit of the base follows.
* `Ip.Ends rest`: nothing follows that an address could go on with.

Results:
* `Numeral.take?_append`: digits are taken off up to the first character that is none.
* `Ipv4.read_render`: a dotted address is read back.
* `Ipv6.longestZeros_spec`: what is left out for `::` are zeros.
* `Ipv6.readGroups_joined`: groups with colons between them are read back.
* `Ipv6.read_render`, `Ip.read_render`: so are IPv6 addresses and addresses of either family.
* `Ip.mem_render`, `Ipv6.render_colons`: the characters of a printed address.
-/

namespace Intercept

namespace Numeral

/-- No digit of the base stands at the front. -/
def Stops (base : Nat) (rest : Text) : Prop := ∀ c ∈ rest.head?, digit? base c = none

variable {base limit n : Nat} {t rest : Text} {ds : List Nat}

theorem Spells.filterMap_digit? (hbase : base ≤ 16) (h : Spells base t ds) :
    t.filterMap (digit? base) = ds := by
  induction h with
  | nil => rfl
  | cons hd _ ih => rw [List.filterMap_cons_some ((digit?_eq_some hbase).2 hd), ih]

theorem Spells.isSome_digit? (hbase : base ≤ 16) (h : Spells base t ds) :
    ∀ c ∈ t, (digit? base c).isSome := by
  induction h with
  | nil => nofun
  | cons hd _ ih =>
    rw [List.forall_mem_cons, (digit?_eq_some hbase).2 hd]
    exact ⟨rfl, ih⟩

/-- The digits of a number are taken off up to the first character that is none. -/
theorem take?_append {width : Option Nat} {zeros : Bool} (hbase : base ≤ 16)
    (ht : Denotes base t n) (hn : n < limit) (hwidth : ∀ w ∈ width, t.length ≤ w)
    (hzeros : zeros = false → t.head? = some '0' → t.length ≤ 1) (hrest : Stops base rest) :
    take? base limit width zeros (t ++ rest) = some (n, rest) := by
  obtain ⟨ds, hds, hspell, hvalue⟩ := ht
  have hne : t ≠ [] := by
    rintro rfl
    cases hspell
    exact hds rfl
  have hfront : ((t ++ rest).takeWhile fun c => (digit? base c).isSome) = t := by
    rw [List.takeWhile_append_of_pos (hspell.isSome_digit? hbase)]
    cases rest with
    | nil => rw [List.takeWhile_nil, List.append_nil]
    | cons c rest =>
      rw [List.takeWhile_cons_of_neg (by simp [hrest c rfl]), List.append_nil]
  have hwide : ¬ (t.isEmpty || width.any (· < t.length)) = true := by
    simp only [Bool.or_eq_true, List.isEmpty_iff, Option.any_eq_true, decide_eq_true_eq, not_or]
    exact ⟨hne, fun ⟨w, hw, hlt⟩ => absurd (hwidth w hw) (by omega)⟩
  have hplain : ¬ (!zeros && t.head? = some '0' && 1 < t.length) = true := by
    simp only [Bool.and_eq_true, Bool.not_eq_true', decide_eq_true_eq]
    rintro ⟨⟨hz, hzero⟩, hlt⟩
    exact absurd (hzeros hz hzero) (by omega)
  unfold take?
  simp only [hfront, hspell.filterMap_digit? hbase, ofDigits_eq, hvalue]
  rw [if_neg hwide, if_neg hplain, if_pos hn, List.drop_left]

/-- A number that is printed in decimal is taken off in full. -/
theorem take?_decimal {width : Nat} (hn : n < limit) (hlimit : limit ≤ 10 ^ width)
    (hwidth : 0 < width) (hrest : Stops 10 rest) (zeros : Bool) :
    take? 10 limit (some width) zeros (decimal n ++ rest) = some (n, rest) := by
  refine take?_append (by decide) (denotes_toDigits (by decide) (by decide) n) hn ?_ ?_ hrest
  · rintro w ⟨⟩
    exact (Nat.length_toDigits_le_iff (by decide) hwidth).2 (by omega)
  · intro _ hzero
    rw [toDigits_of_zero (by decide) (by decide) hzero]
    decide

/-- A number that is printed in hexadecimal is taken off in full. -/
theorem take?_hex {width : Nat} (hn : n < limit) (hlimit : limit ≤ 16 ^ width)
    (hwidth : 0 < width) (hrest : Stops 16 rest) (zeros : Bool) :
    take? 16 limit (some width) zeros (hex n ++ rest) = some (n, rest) := by
  refine take?_append (by decide) (denotes_toDigits (by decide) (by decide) n) hn ?_ ?_ hrest
  · rintro w ⟨⟩
    exact (Nat.length_toDigits_le_iff (by decide) hwidth).2 (by omega)
  · intro _ hzero
    rw [toDigits_of_zero (by decide) (by decide) hzero]
    decide

/-- What is taken off are digits. -/
theorem take?_parts {width : Option Nat} {zeros : Bool}
    (h : take? base limit width zeros t = some (n, rest)) :
    ∃ digits, digits ++ rest = t ∧ ∀ c ∈ digits, (digit? base c).isSome := by
  unfold take? at h
  simp only [Option.ite_none_left_eq_some, Option.ite_none_right_eq_some, Option.some.injEq,
    Prod.mk.injEq] at h
  obtain ⟨-, -, -, -, rfl⟩ := h
  refine ⟨t.takeWhile fun c => (digit? base c).isSome, ?_, List.all_eq_true.1 List.all_takeWhile⟩
  have hfront := List.prefix_iff_eq_take.1 (List.takeWhile_prefix (l := t) fun c =>
    (digit? base c).isSome)
  conv_lhs =>
    arg 1
    rw [hfront]
  exact List.take_append_drop _ t

/-- Without a digit at the front nothing is taken off. -/
theorem take?_of_stops {width : Option Nat} {zeros : Bool} (h : Stops base t) :
    take? base limit width zeros t = none := by
  have hnil : (t.takeWhile fun c => (digit? base c).isSome) = [] := by
    cases t with
    | nil => rfl
    | cons c t => exact List.takeWhile_cons_of_neg (by simp [h c rfl])
  unfold take?
  simp only [hnil]
  rfl

end Numeral

open Numeral

/-! ## IPv4 -/

namespace Ipv4

variable {rest : Text}

theorem render_eq (q : Ipv4) : q.render = decimal q.a.toNat ++ '.' :: (decimal q.b.toNat ++
    '.' :: (decimal q.c.toNat ++ '.' :: decimal q.d.toNat)) := by
  simp [render, octets, List.intercalate, List.intersperse]

theorem octet?_decimal (o : UInt8) (hrest : Stops 10 rest) :
    octet? (decimal o.toNat ++ rest) = some (o, rest) := by
  unfold octet?
  rw [take?_decimal (UInt8.toNat_lt o) (by decide) (by decide) hrest, Option.map_some]
  show some (UInt8.ofNat o.toNat, rest) = some (o, rest)
  rw [UInt8.ofNat_toNat]

/-- A dotted address is read back. -/
theorem read_render (q : Ipv4) (hrest : Stops 10 rest) :
    read (q.render ++ rest) = some (q, rest) := by
  have hdot (r : Text) : Stops 10 ('.' :: r) := by
    rintro c ⟨⟩
    decide
  unfold read
  simp [render_eq, octet?_decimal, hdot, hrest, takeChar?]

/-- Where no dot stands behind the first digits, there is no dotted address. -/
theorem read_eq_none {front : Text} (hfront : '.' ∉ front) (hstops : Stops 10 rest)
    (hdot : rest.head? ≠ some '.') : read (front ++ rest) = none := by
  cases ho : octet? (front ++ rest) with
  | none =>
    unfold read
    rw [ho]
    rfl
  | some found =>
    obtain ⟨o, r⟩ := found
    have hr : takeChar? '.' r = none := by
      cases r with
      | nil => rfl
      | cons c r =>
        refine if_neg ?_
        rintro rfl
        obtain ⟨⟨n, r'⟩, hn, hor⟩ := Option.map_eq_some_iff.1 ho
        cases hor
        obtain ⟨digits, hparts, hdigits⟩ := take?_parts hn
        rcases List.append_eq_append_iff.1 hparts with ⟨more, hf, hr⟩ | ⟨more, hd, hr⟩
        · cases more with
          | nil =>
            rw [List.nil_append] at hr
            exact hdot (by rw [← hr]; rfl)
          | cons c more =>
            cases hr
            exact hfront (by rw [hf]; simp)
        · cases more with
          | nil => exact hdot (by rw [hr]; rfl)
          | cons c more =>
            have hc := hdigits c (by rw [hd]; simp)
            rw [hstops c (by rw [hr]; rfl)] at hc
            cases hc
    unfold read
    rw [ho]
    simp [hr]

theorem mem_render {q : Ipv4} {c : Char} (h : c ∈ q.render) :
    (∃ d < 10, c = Nat.digitChar d) ∨ c = '.' := by
  have hdigit {n : Nat} (h : c ∈ decimal n) : ∃ d < 10, c = Nat.digitChar d :=
    mem_toDigits (by decide) h
  rw [render_eq] at h
  simp only [List.mem_append, List.mem_cons] at h
  rcases h with h | h | h | h | h | h | h
  · exact .inl (hdigit h)
  · exact .inr h
  · exact .inl (hdigit h)
  · exact .inr h
  · exact .inl (hdigit h)
  · exact .inr h
  · exact .inl (hdigit h)

end Ipv4

/-! ## IPv6 -/

namespace Ipv6

variable {gs : List UInt16} {rest : Text} {first : Bool} {room : Nat}

/-- Groups with a colon before each. -/
def joined (gs : List UInt16) : Text := gs.flatMap fun g => ':' :: hex g.toNat

theorem renderGroups_cons (g : UInt16) (gs : List UInt16) :
    renderGroups (g :: gs) = hex g.toNat ++ joined gs := by
  unfold renderGroups joined
  induction gs generalizing g with
  | nil => simp [List.intercalate]
  | cons g' gs ih =>
    have hmore := ih g'
    rw [List.map_cons] at hmore
    rw [List.map_cons, List.map_cons, List.intercalate_cons_cons, hmore, List.flatMap_cons]
    simp

/-- What follows is neither a group with its colon nor a dot; it can be two colons. -/
structure Over (rest : Text) : Prop where
  digit : Stops 16 rest
  dot : rest.head? ≠ some '.'
  group : ∀ r, rest = ':' :: r → Stops 16 r

theorem stops_ten (h : Stops 16 rest) : Stops 10 rest := by
  intro c hc
  cases hd : digit? 10 c with
  | none => rfl
  | some d =>
    obtain ⟨hlt, hchar⟩ := (digit?_eq_some (by decide)).1 hd
    have h16 : digit? 16 c = some d := (digit?_eq_some (by decide)).2 ⟨by omega, hchar⟩
    rw [h c hc] at h16
    cases h16

/-- Where no group follows, none is read. -/
theorem readGroups_of_stops (h : ∀ t ∈ afterColon first rest, Stops 16 t) :
    readGroups first rest room = ([], false, rest) := by
  cases room with
  | zero => rfl
  | succ room =>
    have hnone {α : Type} (read : Text → Option α) (hread : ∀ t, Stops 16 t → read t = none) :
        (afterColon first rest).bind read = none := by
      cases ht : afterColon first rest with
      | none => rfl
      | some t => exact hread t (h t ht)
    have hdotted : (afterColon first rest).bind Ipv4.read = none := by
      refine hnone _ fun t ht => ?_
      unfold Ipv4.read Ipv4.octet?
      rw [take?_of_stops (stops_ten ht)]
      rfl
    have hgroup := hnone (take? 16 65536 (some 4) true) fun t ht => take?_of_stops ht
    unfold readGroups
    simp only [hdotted, hgroup, ite_self]

/-- A printed group is read, and reading goes on behind it. -/
theorem readGroups_cons (first : Bool) (room : Nat) (g : UInt16) (hstops : Stops 16 rest)
    (hdot : rest.head? ≠ some '.') :
    readGroups first ((if first then [] else [':']) ++ (hex g.toNat ++ rest)) (room + 1) =
      let (gs, dotted, r) := readGroups false rest room
      (g :: gs, dotted, r) := by
  have hafter : afterColon first ((if first then [] else [':']) ++ (hex g.toNat ++ rest)) =
      some (hex g.toNat ++ rest) := by
    cases first <;> rfl
  have hdotted : Ipv4.read (hex g.toNat ++ rest) = none := by
    refine Ipv4.read_eq_none (fun hmem => ?_) (stops_ten hstops) hdot
    obtain ⟨d, hd, hchar⟩ := mem_toDigits (by decide) hmem
    have hall : ∀ d < 16, '.' ≠ Nat.digitChar d := by decide
    exact hall d hd hchar
  have hgroup : take? 16 65536 (some 4) true (hex g.toNat ++ rest) = some (g.toNat, rest) :=
    take?_hex (UInt16.toNat_lt g) (by decide) (by decide) hstops true
  rw [readGroups]
  simp only [hafter, Option.bind_some, hdotted, hgroup, ite_self, UInt16.ofNat_toNat]

theorem stops_colon (base : Nat) (r : Text) : Stops base (':' :: r) := by
  rintro c ⟨⟩
  unfold digit?
  simp

theorem Over.behind_joined (h : Over rest) (gs : List UInt16) :
    Stops 16 (joined gs ++ rest) ∧ (joined gs ++ rest).head? ≠ some '.' := by
  cases gs with
  | nil => exact ⟨h.digit, h.dot⟩
  | cons g gs => exact ⟨stops_colon 16 _, by simp [joined]⟩

/-- Groups with a colon before each are read back. -/
theorem readGroups_joined (hroom : gs.length ≤ room) (hrest : Over rest) :
    readGroups false (joined gs ++ rest) room = (gs, false, rest) := by
  induction gs generalizing room with
  | nil =>
    refine readGroups_of_stops fun t ht => hrest.group t ?_
    cases hr : rest with
    | nil => simp [hr, joined, afterColon, takeChar?] at ht
    | cons c r =>
      simp [hr, joined, afterColon, takeChar?] at ht
      rw [ht.1, ht.2]
  | cons g gs ih =>
    cases room with
    | zero => cases hroom
    | succ room =>
      have hbehind := hrest.behind_joined gs
      have hg := readGroups_cons false room g hbehind.1 hbehind.2
      rw [ih (Nat.le_of_succ_le_succ hroom)] at hg
      simpa [joined] using hg

/-- Groups with colons between them are read back. -/
theorem readGroups_renderGroups (hroom : gs.length ≤ room) (hrest : Over rest) :
    readGroups true (renderGroups gs ++ rest) room = (gs, false, rest) := by
  cases gs with
  | nil =>
    refine readGroups_of_stops fun t ht => ?_
    cases ht
    exact hrest.digit
  | cons g gs =>
    cases room with
    | zero => cases hroom
    | succ room =>
      have hbehind := hrest.behind_joined gs
      have hg := readGroups_cons true room g hbehind.1 hbehind.2
      rw [readGroups_joined (Nat.le_of_succ_le_succ hroom) hrest] at hg
      simpa [renderGroups_cons] using hg

/-! ### The zeros that are left out -/

/-- From the given place on so many groups are zeros. -/
def ZerosAt (gs : List UInt16) (zeros : Nat × Nat) : Prop :=
  ∃ before after, gs = before ++ List.replicate zeros.2 0 ++ after ∧ before.length = zeros.1

/-- While the groups are gone through: `best` are zeros, and `run` are the last zeros so far. -/
theorem longestZeros_spec {front : List UInt16} {best run : Nat × Nat}
    (hbest : ZerosAt (front ++ gs) best)
    (hrun : ∃ before, front = before ++ List.replicate run.2 0 ∧
      (run.2 ≠ 0 → before.length = run.1)) :
    ZerosAt (front ++ gs) (longestZeros front.length best run gs) := by
  induction gs generalizing front best run with
  | nil => exact hbest
  | cons g gs ih =>
    have hnext : front ++ g :: gs = (front ++ [g]) ++ gs := by simp
    have hlength : front.length + 1 = (front ++ [g]).length := by simp
    rw [hnext] at hbest
    unfold longestZeros
    rw [hnext, hlength]
    by_cases hzero : g = 0
    · subst hzero
      obtain ⟨before, hfront, hbefore⟩ := hrun
      -- the run goes on, or a new one starts with this group
      have hmore : ∃ before, front ++ [0] = before ++
          List.replicate (if run.2 = 0 then (front.length, 1) else (run.1, run.2 + 1)).2 0 ∧
          before.length = (if run.2 = 0 then (front.length, 1) else (run.1, run.2 + 1)).1 := by
        split
        · exact ⟨front, rfl, rfl⟩
        · rename_i hne
          refine ⟨before, ?_, hbefore hne⟩
          conv_lhs => rw [hfront]
          rw [List.append_assoc, List.replicate_succ']
      rw [if_pos rfl]
      generalize (if run.2 = 0 then (front.length, 1) else (run.1, run.2 + 1)) = run at hmore ⊢
      obtain ⟨before, hfront, hbefore⟩ := hmore
      refine ih ?_ ⟨before, hfront, fun _ => hbefore⟩
      split
      · exact ⟨before, gs, by rw [hfront], hbefore⟩
      · exact hbest
    · rw [if_neg hzero]
      exact ih hbest ⟨front ++ [g], by simp, fun h => absurd rfl h⟩

theorem render_of_mapped {addr : Ipv6} {q : Ipv4} (h : addr.mapped? = some q) :
    addr.render = "::ffff:".toList ++ q.render := by
  unfold render
  rw [h]

/-- A printed address: groups with colons between them, or two colons for zeros left out. -/
theorem render_cases (addr : Ipv6) (hmapped : addr.mapped? = none) :
    addr.render = renderGroups addr.groups ∨
      ∃ front back zeros, 1 < zeros ∧ addr.groups = front ++ List.replicate zeros 0 ++ back ∧
        addr.render = renderGroups front ++ ':' :: ':' :: renderGroups back := by
  have hzeros : ZerosAt ([] ++ addr.groups) (longestZeros 0 (0, 0) (0, 0) addr.groups) :=
    longestZeros_spec ⟨[], _, rfl, rfl⟩ ⟨[], rfl, fun h => absurd rfl h⟩
  unfold render
  rw [hmapped]
  generalize longestZeros 0 (0, 0) (0, 0) addr.groups = zeros at hzeros ⊢
  obtain ⟨start, len⟩ := zeros
  simp only
  by_cases hlen : 1 < len
  · rw [if_pos hlen]
    obtain ⟨front, back, hgroups, rfl⟩ := hzeros
    simp only [List.nil_append] at hgroups
    refine .inr ⟨front, back, len, hlen, hgroups, ?_⟩
    have htake : addr.groups.take front.length = front := by
      rw [hgroups, List.append_assoc, List.take_left]
    have hdrop : addr.groups.drop (front.length + len) = back := by
      rw [hgroups, List.drop_left' (by simp)]
    rw [htake, hdrop]
    simp
  · rw [if_neg hlen]
    exact .inl rfl

theorem join_octets (g : UInt16) :
    join (UInt8.ofNat (g.toNat / 256)) (UInt8.ofNat g.toNat) = g := by
  have hg := UInt16.toNat_lt g
  apply UInt16.toNat_inj.1
  simp only [join, UInt16.toNat_ofNat', UInt8.toNat_ofNat']
  omega

/-- An address that stands for an IPv4 address is made of it. -/
theorem eq_of_mapped? {addr : Ipv6} {q : Ipv4} (h : addr.mapped? = some q) : addr = ofIpv4 q := by
  unfold mapped? at h
  split at h
  · rename_i hg
    cases h
    obtain ⟨g0, g1, g2, g3, g4, g5, g6, g7⟩ := addr
    simp only at hg ⊢
    obtain ⟨rfl, rfl, rfl, rfl, rfl, rfl⟩ := hg
    simp only [ofIpv4, join_octets]
  · cases h

theorem octets_join (hi lo : UInt8) :
    UInt8.ofNat ((join hi lo).toNat / 256) = hi ∧ UInt8.ofNat (join hi lo).toNat = lo := by
  have hh := UInt8.toNat_lt hi
  have hl := UInt8.toNat_lt lo
  refine ⟨UInt8.toNat_inj.1 ?_, UInt8.toNat_inj.1 ?_⟩ <;>
    simp only [join, UInt16.toNat_ofNat', UInt8.toNat_ofNat'] <;> omega

/-- The address made of an IPv4 address stands for it. -/
@[simp] theorem mapped?_ofIpv4 (q : Ipv4) : (ofIpv4 q).mapped? = some q := by
  unfold mapped? ofIpv4
  rw [if_pos ⟨rfl, rfl, rfl, rfl, rfl, rfl⟩]
  simp only [octets_join]

theorem over_colons (r : Text) : Over (':' :: ':' :: r) where
  digit := stops_colon 16 _
  dot := by simp
  group := by
    rintro r' ⟨⟩
    exact stops_colon 16 r

/-- A dotted address behind a colon is read as two groups. -/
theorem readGroups_dotted (q : Ipv4) (hrest : Stops 10 rest) :
    readGroups false (':' :: (q.render ++ rest)) (room + 2) =
      ([join q.a q.b, join q.c q.d], true, rest) := by
  have hafter : (afterColon false (':' :: (q.render ++ rest))).bind Ipv4.read = some (q, rest) := by
    show Ipv4.read (q.render ++ rest) = _
    exact Ipv4.read_render q hrest
  rw [readGroups]
  simp only [hafter, Nat.add_eq_zero_iff, one_ne_zero, and_false, if_false]

theorem read_mapped (q : Ipv4) (hrest : Stops 10 rest) :
    read ("::ffff:".toList ++ q.render ++ rest) = some (ofIpv4 q, rest) := by
  have htext : "::ffff:".toList ++ q.render ++ rest =
      ':' :: ':' :: (hex (0xFFFF : UInt16).toNat ++ ':' :: (q.render ++ rest)) := by
    rw [List.append_assoc]
    rfl
  have hhead (t : Text) : readGroups true (':' :: t) 8 = ([], false, ':' :: t) := by
    refine readGroups_of_stops fun t' ht => ?_
    cases ht
    exact stops_colon 16 t
  have htail := readGroups_cons true 6 0xFFFF (stops_colon 16 (q.render ++ rest)) (by simp)
  rw [readGroups_dotted q hrest] at htail
  simp only [if_true, List.nil_append] at htail
  rw [htext]
  unfold read
  simp only [hhead, List.length_nil, List.nil_append, htail]
  rfl

end Ipv6

namespace Ip

/-- Nothing follows that a printed address could go on with. -/
def Ends (rest : Text) : Prop := ∀ c ∈ rest.head?, digit? 16 c = none ∧ c ≠ ':' ∧ c ≠ '.'

theorem Ends.over {rest : Text} (h : Ends rest) : Ipv6.Over rest where
  digit c hc := (h c hc).1
  dot hd := (h _ hd).2.2 rfl
  group r hr := absurd rfl (h ':' (by rw [hr]; rfl)).2.1

end Ip

namespace Ipv6

variable {rest : Text}

/-- A printed IPv6 address is read back. -/
theorem read_render (addr : Ipv6) (hrest : Ip.Ends rest) :
    read (addr.render ++ rest) = some (addr, rest) := by
  cases hmapped : addr.mapped? with
  | some q =>
    rw [render_of_mapped hmapped, read_mapped q (stops_ten hrest.over.digit), ← eq_of_mapped? hmapped]
  | none =>
    have hlength : addr.groups.length = 8 := rfl
    rcases addr.render_cases hmapped with hrender | ⟨front, back, zeros, hzeros, hgroups, hrender⟩
    · rw [hrender]
      unfold read
      rw [readGroups_renderGroups (Nat.le_of_eq hlength) hrest.over]
      rfl
    · rw [hgroups] at hlength
      simp only [List.length_append, List.length_replicate] at hlength
      rw [hrender, List.append_assoc]
      unfold read
      rw [List.cons_append, List.cons_append,
        readGroups_renderGroups (by omega) (over_colons _)]
      simp only
      rw [if_neg (by omega), if_neg Bool.false_ne_true, readGroups_renderGroups (by omega) hrest.over]
      simp only
      rw [show 8 - front.length - back.length = zeros by omega, ← hgroups]
      rfl

/-! ### The characters of a printed address -/

theorem mem_hex {n : Nat} {c : Char} (h : c ∈ hex n) : ∃ d < 16, c = Nat.digitChar d :=
  mem_toDigits (by decide) h

theorem mem_renderGroups {gs : List UInt16} {c : Char} (h : c ∈ renderGroups gs) :
    (∃ d < 16, c = Nat.digitChar d) ∨ c = ':' := by
  cases gs with
  | nil => cases h
  | cons g gs =>
    rw [renderGroups_cons] at h
    rcases List.mem_append.1 h with h | h
    · exact .inl (mem_hex h)
    · obtain ⟨g', -, h⟩ := List.mem_flatMap.1 h
      rcases List.mem_cons.1 h with h | h
      · exact .inr h
      · exact .inl (mem_hex h)

theorem dot_notMem_renderGroups (gs : List UInt16) : '.' ∉ renderGroups gs := by
  intro h
  rcases mem_renderGroups h with ⟨d, hd, hc⟩ | hc
  · have hall : ∀ d < 16, '.' ≠ Nat.digitChar d := by decide
    exact hall d hd hc
  · cases hc

/-- A printed IPv6 address has two colons, and no dot in front of the first of them. -/
theorem render_colons (addr : Ipv6) :
    ∃ front middle back, addr.render = front ++ ':' :: (middle ++ ':' :: back) ∧ '.' ∉ front := by
  cases hmapped : addr.mapped? with
  | some q =>
    exact ⟨[], [], "ffff:".toList ++ q.render, render_of_mapped hmapped, by simp⟩
  | none =>
    rcases addr.render_cases hmapped with hrender | ⟨front, back, zeros, -, -, hrender⟩
    · refine ⟨renderGroups [addr.g0], hex addr.g1.toNat, hex addr.g2.toNat ++
        joined [addr.g3, addr.g4, addr.g5, addr.g6, addr.g7], ?_, dot_notMem_renderGroups _⟩
      rw [hrender]
      simp [groups, renderGroups_cons, joined]
    · exact ⟨renderGroups front, [], renderGroups back, hrender, dot_notMem_renderGroups front⟩

end Ipv6

namespace Ip

variable {rest : Text}

/-- The characters of a printed address are digits, small letters up to F, dots and colons. -/
theorem mem_render {addr : Ip} {c : Char} (h : c ∈ addr.render) :
    (∃ d < 16, c = Nat.digitChar d) ∨ c = '.' ∨ c = ':' := by
  have hdotted {q : Ipv4} (h : c ∈ q.render) : (∃ d < 16, c = Nat.digitChar d) ∨ c = '.' := by
    rcases Ipv4.mem_render h with ⟨d, hd, hc⟩ | hc
    · exact .inl ⟨d, by omega, hc⟩
    · exact .inr hc
  cases addr with
  | v4 q => exact (hdotted h).imp_right .inl
  | v6 s =>
    replace h : c ∈ s.render := h
    cases hmapped : s.mapped? with
    | some q =>
      rw [Ipv6.render_of_mapped hmapped] at h
      rcases List.mem_append.1 h with h | h
      · have hfront : c = ':' ∨ c = 'f' := by
          rw [show "::ffff:".toList = [':', ':', 'f', 'f', 'f', 'f', ':'] from rfl] at h
          simp only [List.mem_cons, List.not_mem_nil, or_false] at h
          tauto
        rcases hfront with rfl | rfl
        · exact .inr (.inr rfl)
        · exact .inl ⟨15, by decide, rfl⟩
      · exact (hdotted h).imp_right .inl
    | none =>
      rcases s.render_cases hmapped with hrender | ⟨front, back, zeros, -, -, hrender⟩
      · rw [hrender] at h
        exact (Ipv6.mem_renderGroups h).imp_right .inr
      · rw [hrender] at h
        rcases List.mem_append.1 h with h | h
        · exact (Ipv6.mem_renderGroups h).imp_right .inr
        · rcases List.mem_cons.1 h with h | h
          · exact .inr (.inr h)
          · rcases List.mem_cons.1 h with h | h
            · exact .inr (.inr h)
            · exact (Ipv6.mem_renderGroups h).imp_right .inr

theorem notMem_render {addr : Ip} {c : Char}
    (hdigit : ∀ d < 16, c ≠ Nat.digitChar d) (hdot : c ≠ '.') (hcolon : c ≠ ':') :
    c ∉ addr.render := by
  intro h
  rcases mem_render h with ⟨d, hd, hc⟩ | hc | hc
  · exact hdigit d hd hc
  · exact hdot hc
  · exact hcolon hc

/-- **A printed address is read back.** -/
theorem read_render (addr : Ip) (hrest : Ends rest) :
    read (addr.render ++ rest) = some (addr, rest) := by
  unfold read
  cases addr with
  | v4 q =>
    have hq := Ipv4.read_render q (Ipv6.stops_ten hrest.over.digit)
    simp only [render, hq]
  | v6 s =>
    -- no dotted address ends at a colon
    have hnone : Ipv4.read (s.render ++ rest) = none := by
      obtain ⟨front, middle, back, hrender, hfront⟩ := s.render_colons
      rw [hrender, List.append_assoc]
      exact Ipv4.read_eq_none hfront (Ipv6.stops_colon 10 _) (by simp)
    simp only [render, hnone, Ipv6.read_render s hrest, Option.map_some]

theorem parse?_render (addr : Ip) : parse? addr.render = some addr := by
  have hread := addr.read_render (show Ends [] from nofun)
  rw [List.append_nil] at hread
  unfold parse?
  rw [hread]

/-- Of two equally long runs of zeros the first one is left out, and the reader puts it back. -/
example : parse? "2606:4700::1:0:0:1111".toList =
    some (.v6 ⟨0x2606, 0x4700, 0, 0, 1, 0, 0, 0x1111⟩) ∧
    (v6 ⟨0x2606, 0x4700, 0, 0, 1, 0, 0, 0x1111⟩).render = "2606:4700::1:0:0:1111".toList := by
  decide

end Ip
end Intercept
