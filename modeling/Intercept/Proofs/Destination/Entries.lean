import Intercept.Proofs.Destination.Lookup
import Intercept.Proofs.Net.Ip

/-!
# Looking up listed entries

A table lists entries, one on a line, among other lines. What is printed for an address and a port
is never a part of another such tuple, of a tag or of a state, so a lookup finds the first
established entry of the client. It reads the destination in the form of the client's family.

* `Entry.Plain`: the words of an entry are words.
* `Row`, `Lists`: the lines of a table and what they list, and how the table is written.
* `Entry.Serves`: an established entry of the client.

Results:
* `targetV4?_tuple`, `targetV6?_tuple`: a printed tuple is read back in its own form only.
* `Entry.Plain.words_eq`, `Entry.Plain.stands_iff`: the words of an entry's line, and the tuples
  that stand in it.
* `destinationOn_entry`: what an entry's line says about a client.
* `findSome?_lines`: a table is gone through row by row.
* `lookup_listed`: what a lookup over a table of entries finds.
-/

namespace Intercept

namespace Ip

/-- Whether the address is an IPv4 address. -/
def isV4 : Ip → Bool
  | v4 _ => true
  | v6 _ => false

end Ip

namespace StateTable

open Text Numeral

variable {addr addr' : Ip} {port port' : UInt16} {c : Char}

/-! ## Tuples -/

theorem mem_decimal {n : Nat} (h : c ∈ decimal n) : ∃ d < 16, c = Nat.digitChar d := by
  obtain ⟨d, hd, hc⟩ := mem_toDigits (by decide) h
  exact ⟨d, by omega, hc⟩

/-- The characters of a tuple. -/
theorem mem_tuples (h : c ∈ tupleV4 addr port ∨ c ∈ tupleV6 addr port) :
    (∃ d < 16, c = Nat.digitChar d) ∨ c = '.' ∨ c = ':' ∨ c = '[' ∨ c = ']' := by
  have haddr (h : c ∈ addr.render) :
      (∃ d < 16, c = Nat.digitChar d) ∨ c = '.' ∨ c = ':' ∨ c = '[' ∨ c = ']' :=
    (Ip.mem_render h).imp_right fun h => h.imp_right .inl
  unfold tupleV4 tupleV6 at h
  simp only [List.append_assoc, List.cons_append, List.mem_append, List.mem_cons, List.not_mem_nil,
    or_false] at h
  rcases h with (h | h | h) | (h | h | h | h)
  · exact haddr h
  · exact .inr (.inr (.inl h))
  · exact .inl (mem_decimal h)
  · exact haddr h
  · exact .inr (.inr (.inr (.inl h)))
  · exact .inl (mem_decimal h)
  · exact .inr (.inr (.inr (.inr h)))

theorem mem_tuple (h : c ∈ tuple addr port) : c ∈ tupleV4 addr port ∨ c ∈ tupleV6 addr port := by
  cases addr with
  | v4 q => exact .inl h
  | v6 s => exact .inr h

/-- No letter of a state is in a tuple. -/
theorem ne_of_mem_tuples (h : c ∈ tupleV4 addr port ∨ c ∈ tupleV6 addr port) : c ≠ 'T' := by
  rcases mem_tuples h with ⟨d, hd, rfl⟩ | rfl | rfl | rfl | rfl
  · have hall : ∀ d < 16, Nat.digitChar d ≠ 'T' := by decide
    exact hall d hd
  all_goals decide

/-- No edge is in a tuple. -/
theorem not_isEdge_of_mem_tuples (h : c ∈ tupleV4 addr port ∨ c ∈ tupleV6 addr port) :
    isEdge c = false := by
  rcases mem_tuples h with ⟨d, hd, rfl⟩ | rfl | rfl | rfl | rfl
  · have hall : ∀ d < 16, isEdge (Nat.digitChar d) = false := by decide
    exact hall d hd
  all_goals decide

theorem spellsPort_decimal (port : UInt16) : SpellsPort (decimal port.toNat) port :=
  ⟨port.toNat, UInt16.toNat_lt port,
    .inl (denotes_toDigits (by decide) (by decide) port.toNat), UInt16.ofNat_toNat.symm⟩

theorem bracket_notMem_render (addr : Ip) : '[' ∉ addr.render :=
  Ip.notMem_render (by decide) (by decide) (by decide)

theorem bracket_notMem_tupleV4 (addr : Ip) (port : UInt16) : '[' ∉ tupleV4 addr port := by
  unfold tupleV4
  rw [List.mem_append, List.mem_cons]
  rintro (h | h | h)
  · exact bracket_notMem_render addr h
  · cases h
  · obtain ⟨d, hd, hc⟩ := mem_decimal h
    have hall : ∀ d < 16, '[' ≠ Nat.digitChar d := by decide
    exact hall d hd hc

/-- A tuple is read back in the form in which it is printed. -/
theorem targetV6?_tupleV6 (addr : Ip) (port : UInt16) :
    targetV6? (tupleV6 addr port) = some ⟨addr, port, 0⟩ :=
  targetV6?_eq_some.2 ⟨addr.render, decimal port.toNat, rfl, bracket_notMem_render addr,
    addr.parse?_render, spellsPort_decimal port, rfl⟩

theorem targetV4?_tupleV4 (q : Ipv4) (port : UInt16) :
    targetV4? (tupleV4 (.v4 q) port) = some ⟨.v4 q, port, 0⟩ := by
  have hdecimal : ':' ∉ decimal port.toNat := by
    intro h
    obtain ⟨d, hd, hc⟩ := mem_decimal h
    have hall : ∀ d < 16, ':' ≠ Nat.digitChar d := by decide
    exact hall d hd hc
  have hrender : ':' ∉ q.render := by
    intro h
    rcases Ipv4.mem_render h with ⟨d, hd, hc⟩ | hc
    · have hall : ∀ d < 10, ':' ≠ Nat.digitChar d := by decide
      exact hall d hd hc
    · cases hc
  exact targetV4?_eq_some.2 ⟨q.render, decimal port.toNat, rfl, hrender, hdecimal,
    (Ip.v4 q).parse?_render, spellsPort_decimal port, rfl⟩

/-- What is printed for an IPv6 address has more than one colon. -/
theorem targetV4?_of_v6 (s : Ipv6) (rest : Text) : targetV4? (s.render ++ rest) = none := by
  cases h : targetV4? (s.render ++ rest) with
  | none => rfl
  | some dst =>
    obtain ⟨host, port, hfield, hhost, hport, -⟩ := targetV4?_eq_some.1 h
    obtain ⟨front, middle, back, hrender, -⟩ := s.render_colons
    have hcount := congrArg (List.count ':') hfield
    rw [hrender] at hcount
    simp only [List.count_append, List.count_cons_self, List.count_eq_zero_of_not_mem hhost,
      List.count_eq_zero_of_not_mem hport] at hcount
    omega

/-- What has no bracket is not read in the form with brackets. -/
theorem targetV6?_of_notMem {field : Text} (h : '[' ∉ field) : targetV6? field = none := by
  cases hread : targetV6? field with
  | none => rfl
  | some dst =>
    obtain ⟨host, port, hfield, -⟩ := targetV6?_eq_some.1 hread
    exact absurd (by rw [hfield]; simp) h

/-- The form without brackets reads what is printed for IPv4 addresses. -/
theorem targetV4?_tuple (addr : Ip) (port : UInt16) :
    targetV4? (tuple addr port) = if addr.isV4 then some ⟨addr, port, 0⟩ else none := by
  cases addr with
  | v4 q => exact targetV4?_tupleV4 q port
  | v6 s =>
    rw [show tuple (.v6 s) port = s.render ++ ('[' :: decimal port.toNat ++ [']']) by
      simp [tuple, tupleV6, Ip.render]]
    exact targetV4?_of_v6 s _

/-- The form with brackets reads what is printed for IPv6 addresses. -/
theorem targetV6?_tuple (addr : Ip) (port : UInt16) :
    targetV6? (tuple addr port) = if addr.isV4 then none else some ⟨addr, port, 0⟩ := by
  cases addr with
  | v4 q => exact targetV6?_of_notMem (bracket_notMem_tupleV4 (.v4 q) port)
  | v6 s => exact targetV6?_tupleV6 (.v6 s) port

theorem bracket_mem_tupleV6 (addr : Ip) (port : UInt16) : '[' ∈ tupleV6 addr port := by
  simp [tupleV6]

/-- The form without brackets is printed for an IPv4 address only, and for no other. -/
theorem tupleV4_eq_tuple_iff :
    tupleV4 addr port = tuple addr' port' ↔ addr.isV4 ∧ addr' = addr ∧ port' = port := by
  constructor
  · intro h
    cases addr' with
    | v6 s =>
      have hbracket := bracket_mem_tupleV6 (.v6 s) port'
      rw [show tupleV6 (.v6 s) port' = _ from h.symm] at hbracket
      exact absurd hbracket (bracket_notMem_tupleV4 addr port)
    | v4 q =>
      have hread := targetV4?_tupleV4 q port'
      rw [show tupleV4 (.v4 q) port' = _ from h.symm] at hread
      cases addr with
      | v4 q' =>
        rw [targetV4?_tupleV4] at hread
        cases hread
        exact ⟨rfl, rfl, rfl⟩
      | v6 s =>
        rw [show tupleV4 (.v6 s) port = s.render ++ _ from rfl, targetV4?_of_v6] at hread
        cases hread
  · rintro ⟨hv4, rfl, rfl⟩
    cases addr' with
    | v4 q => rfl
    | v6 s => cases hv4

/-- The form with brackets is printed for an IPv6 address only, and for no other. -/
theorem tupleV6_eq_tuple_iff :
    tupleV6 addr port = tuple addr' port' ↔ addr.isV4 = false ∧ addr' = addr ∧ port' = port := by
  constructor
  · intro h
    cases addr' with
    | v4 q =>
      have hbracket := bracket_mem_tupleV6 addr port
      rw [h] at hbracket
      exact absurd hbracket (bracket_notMem_tupleV4 (.v4 q) port')
    | v6 s =>
      have hread := targetV6?_tupleV6 (.v6 s) port'
      rw [show tupleV6 (.v6 s) port' = _ from h.symm, targetV6?_tupleV6] at hread
      cases hread
      exact ⟨rfl, rfl, rfl⟩
  · rintro ⟨hv6, rfl, rfl⟩
    cases addr' with
    | v4 q => cases hv6
    | v6 s => rfl

/-! ## Entries -/

/-- A word of the table: a name or a number, without blanks, parentheses, colons and brackets. -/
def IsWord (w : Text) : Prop := w ≠ [] ∧ ∀ c ∈ w, isEdge c = false ∧ c ≠ ':' ∧ c ≠ '['

instance (w : Text) : Decidable (IsWord w) :=
  @instDecidableAnd _ _ _ (List.decidableBAll _ w)

/-- The tag of the entry is a word, and its state is a pair of words. -/
structure Entry.Plain (e : Entry) : Prop where
  tag : IsWord e.tag
  state : ∃ near far, e.state = near ++ ':' :: far ∧ IsWord near ∧ IsWord far

/-- The entry is established, and it is the client's. -/
def Entry.Serves (addr : Ip) (port : UInt16) (e : Entry) : Prop :=
  established <:+: e.state ∧ e.sourceAddr = addr ∧ e.sourcePort = port

/-- What the entry says about its client: its destination, if that is of the client's family. -/
def Entry.answer (e : Entry) (line : Text) : Except ResolveError Socket :=
  if e.sourceAddr.isV4 = e.targetAddr.isV4 then .ok ⟨e.targetAddr, e.targetPort, 0⟩
  else .error (.malformed (trim line))

variable {e : Entry} {line : Text}

theorem not_isBlank_of_not_isEdge (h : isEdge c = false) : isBlank c = false := by
  unfold isEdge at h
  rw [Bool.or_eq_false_iff, Bool.or_eq_false_iff] at h
  exact h.1.1

/-- A tuple is a field of its own, with parentheses around it or without. -/
theorem fields_tuple (addr : Ip) (port : UInt16) :
    fields isEdge (tuple addr port) = [tuple addr port] ∧
      fields isEdge ('(' :: tuple addr port ++ [')']) = [tuple addr port] := by
  have hne : tuple addr port ≠ [] := by
    cases addr with
    | v4 q => exact tupleV4_ne_nil (.v4 q) port
    | v6 s => exact tupleV6_ne_nil (.v6 s) port
  have hnone : ∀ c ∈ tuple addr port, isEdge c = false := fun c hc =>
    not_isEdge_of_mem_tuples (mem_tuple hc)
  have hbare := fields_of_none hne hnone
  refine ⟨hbare, ?_⟩
  rw [fields_append (p := isEdge) (by decide) ('(' :: tuple addr port) [],
    show fields isEdge ('(' :: tuple addr port) = _ from fields_append (by decide) [] _, hbare]
  rfl

namespace Entry.Plain

theorem state_word (h : e.Plain) : e.state ≠ [] ∧ ∀ c ∈ e.state, isEdge c = false := by
  obtain ⟨near, far, hstate, hnear, hfar⟩ := h.state
  rw [hstate]
  refine ⟨by simp, fun c hc => ?_⟩
  rcases List.mem_append.1 hc with hc | hc
  · exact (hnear.2 c hc).1
  · rcases List.mem_cons.1 hc with rfl | hc
    · decide
    · exact (hfar.2 c hc).1

/-- Among edges an entry's line falls into the words and tuples that were printed. -/
theorem fields_isEdge (h : e.Plain) (hline : Spaced isBlank e.fields line) :
    Intercept.fields isEdge line = ["ALL".toList, e.tag, tuple e.sourceAddr e.sourcePort, "->".toList,
      tuple e.targetAddr e.targetPort, e.state] := by
  have hedge (c : Char) (hc : isBlank c = true) : isEdge c = true := by
    unfold isEdge
    rw [hc]
    rfl
  have htag := fields_of_none h.tag.1 fun c hc => (h.tag.2 c hc).1
  have hstate := fields_of_none h.state_word.1 h.state_word.2
  obtain ⟨hbare, hwrapped⟩ := fields_tuple e.sourceAddr e.sourcePort
  have hsource : Intercept.fields isEdge
      (if e.wrapped then '(' :: tuple e.sourceAddr e.sourcePort ++ [')']
        else tuple e.sourceAddr e.sourcePort) = [tuple e.sourceAddr e.sourcePort] := by
    split
    · exact hwrapped
    · exact hbare
  have hall : Intercept.fields isEdge "ALL".toList = ["ALL".toList] := by decide
  have harrow : Intercept.fields isEdge "->".toList = ["->".toList] := by decide
  rw [hline.flatMap_fields hedge]
  simp only [Entry.fields, List.flatMap_cons, List.flatMap_nil, htag, hstate, hsource, hall, harrow,
    (fields_tuple e.targetAddr e.targetPort).1, List.singleton_append, List.append_nil]

theorem words_eq (h : e.Plain) (hline : Spaced isBlank e.fields line) : words line = e.fields := by
  have htuple (addr : Ip) (port : UInt16) :
      tuple addr port ≠ [] ∧ ∀ c ∈ tuple addr port, isBlank c = false := by
    obtain ⟨hne, hnone, -⟩ := mem_fields_iff.1 (by
      rw [(fields_tuple addr port).1]
      exact List.mem_singleton.2 rfl)
    exact ⟨hne, fun c hc => not_isBlank_of_not_isEdge (hnone c hc)⟩
  refine hline.fields_eq fun w hw => ?_
  simp only [Entry.fields, List.mem_cons, List.not_mem_nil, or_false] at hw
  rcases hw with rfl | rfl | rfl | rfl | rfl | rfl
  · exact ⟨by decide, not_of_all (by decide)⟩
  · exact ⟨h.tag.1, fun c hc => not_isBlank_of_not_isEdge (h.tag.2 c hc).1⟩
  · obtain ⟨hne, hnone⟩ := htuple e.sourceAddr e.sourcePort
    split
    · refine ⟨by simp, fun c hc => ?_⟩
      simp only [List.cons_append, List.mem_cons, List.mem_append, List.not_mem_nil, or_false] at hc
      rcases hc with rfl | hc | rfl
      · decide
      · exact hnone c hc
      · decide
    · exact ⟨hne, hnone⟩
  · exact ⟨by decide, not_of_all (by decide)⟩
  · exact htuple e.targetAddr e.targetPort
  · exact ⟨h.state_word.1, fun c hc => not_isBlank_of_not_isEdge (h.state_word.2 c hc)⟩

/-- Only the state of an entry can make its line an established one. -/
theorem established_iff (h : e.Plain) (hline : Spaced isBlank e.fields line) :
    established <:+: line ↔ established <:+: e.state := by
  have hletter (addr : Ip) (port : UInt16) : 'T' ∉ tuple addr port := fun hc =>
    ne_of_mem_tuples (mem_tuple hc) rfl
  have hnot {w : Text} {c : Char} (hc : c ∈ established) (hw : c ∉ w) : ¬ established <:+: w :=
    fun hi => hw (hi.subset hc)
  have hsource : ¬ established <:+: if e.wrapped then '(' :: tuple e.sourceAddr e.sourcePort ++ [')']
      else tuple e.sourceAddr e.sourcePort := by
    refine hnot (c := 'T') (by decide) ?_
    split
    · simp [hletter]
    · exact hletter _ _
  have htag := hnot (c := ':') (by decide) fun hc => (h.tag.2 ':' hc).2.1 rfl
  have htarget := hnot (c := 'T') (by decide) (hletter e.targetAddr e.targetPort)
  have hall := hnot (c := 'T') (by decide) (by decide : 'T' ∉ "ALL".toList)
  have harrow := hnot (c := 'T') (by decide) (by decide : 'T' ∉ "->".toList)
  rw [hline.infix_iff (by decide) (not_of_all (by decide))]
  simp only [Entry.fields, List.exists_mem_cons_iff, List.not_mem_nil, false_and, exists_false,
    hsource, htag, htarget, hall, harrow, false_or, or_false]

/-- A tuple that stands in an established entry's line is one of its two. -/
theorem stands_iff (h : e.Plain) (hline : Spaced isBlank e.fields line)
    (hup : established <:+: e.state) {t : Text}
    (ht : t = tupleV4 addr port ∨ t = tupleV6 addr port) :
    Stands isEdge t line ↔
      t = tuple e.sourceAddr e.sourcePort ∨ t = tuple e.targetAddr e.targetPort := by
  have hchars {c : Char} (hc : c ∈ t) : c ∈ tupleV4 addr port ∨ c ∈ tupleV6 addr port := by
    rcases ht with rfl | rfl
    · exact .inl hc
    · exact .inr hc
  have hmark : ':' ∈ t ∨ '[' ∈ t := by
    rcases ht with rfl | rfl
    · exact .inl (by simp [tupleV4])
    · exact .inr (bracket_mem_tupleV6 addr port)
  have hmem : Stands isEdge t line ↔ t ∈ Intercept.fields isEdge line := by
    rw [mem_fields_iff]
    have hne : t ≠ [] := by
      rintro rfl
      simp at hmark
    exact ⟨fun hs => ⟨hne, fun c hc => not_isEdge_of_mem_tuples (hchars hc), hs⟩, fun hf => hf.2.2⟩
  have hword {w : Text} (hw : ':' ∉ w ∧ '[' ∉ w) : t ≠ w := by
    rintro rfl
    exact hmark.elim hw.1 hw.2
  have htag : t ≠ e.tag :=
    hword ⟨fun hc => (h.tag.2 _ hc).2.1 rfl, fun hc => (h.tag.2 _ hc).2.2 rfl⟩
  have hstate : t ≠ e.state := by
    rintro rfl
    exact ne_of_mem_tuples (hchars (hup.subset (by decide : 'T' ∈ established))) rfl
  have hall : t ≠ "ALL".toList := hword (by decide)
  have harrow : t ≠ "->".toList := hword (by decide)
  rw [hmem, h.fields_isEdge hline]
  simp only [List.mem_cons, List.not_mem_nil, hall, htag, harrow, hstate, false_or, or_false]

end Entry.Plain

instance (addr : Ip) (port : UInt16) (e : Entry) : Decidable (e.Serves addr port) :=
  inferInstanceAs (Decidable (_ ∧ _ ∧ _))

/-- What an entry's line says about a client that is not its destination. -/
theorem destinationOn_entry (h : e.Plain) (hline : Spaced isBlank e.fields line)
    (hclient : established <:+: e.state → ¬ (e.targetAddr = addr ∧ e.targetPort = port)) :
    destinationOn addr port line = if e.Serves addr port then some (e.answer line) else none := by
  by_cases hup : established <:+: e.state
  · have hholds : holds established line = true := holds_iff.2 ((h.established_iff hline).2 hup)
    have h4 : mentions (tupleV4 addr port) line = true ↔
        addr.isV4 ∧ e.sourceAddr = addr ∧ e.sourcePort = port := by
      rw [mentions_iff (tupleV4_ne_nil addr port), h.stands_iff hline hup (.inl rfl),
        tupleV4_eq_tuple_iff, tupleV4_eq_tuple_iff]
      exact or_iff_left fun ht => hclient hup ht.2
    have h6 : mentions (tupleV6 addr port) line = true ↔
        addr.isV4 = false ∧ e.sourceAddr = addr ∧ e.sourcePort = port := by
      rw [mentions_iff (tupleV6_ne_nil addr port), h.stands_iff hline hup (.inr rfl),
        tupleV6_eq_tuple_iff, tupleV6_eq_tuple_iff]
      exact or_iff_left fun ht => hclient hup ht.2
    have hfield : targetField line = some (tuple e.targetAddr e.targetPort) := by
      unfold targetField
      rw [h.words_eq hline]
      rfl
    by_cases hsource : e.sourceAddr = addr ∧ e.sourcePort = port
    · rw [if_pos ⟨hup, hsource⟩]
      unfold destinationOn Entry.answer
      obtain ⟨rfl, rfl⟩ := hsource
      cases hsourceV4 : e.sourceAddr.isV4 with
      | true =>
        have hmentions := h4.2 ⟨hsourceV4, rfl, rfl⟩
        simp only [hholds, hmentions, hfield, Option.bind_some, targetV4?_tuple]
        cases e.targetAddr.isV4 <;> simp
      | false =>
        have hnot : mentions (tupleV4 e.sourceAddr e.sourcePort) line = false := by
          rw [Bool.eq_false_iff, ne_eq, h4, hsourceV4]
          exact fun hs => Bool.false_ne_true hs.1
        have hmentions := h6.2 ⟨hsourceV4, rfl, rfl⟩
        simp only [hholds, hnot, hmentions, hfield, Option.bind_some, targetV6?_tuple]
        cases e.targetAddr.isV4 <;> simp
    · rw [if_neg fun hs => hsource hs.2]
      unfold destinationOn
      simp [hholds, h4, h6, hsource]
  · rw [if_neg fun hs => hup hs.1, ← Option.not_isSome_iff_eq_none, isSome_destinationOn,
      h.established_iff hline]
    exact fun hs => hup hs.1

/-! ## Tables -/

/-- A blank at the end of a line changes nothing. -/
theorem destinationOn_concat (hc : isBlank c) (line : Text) :
    destinationOn addr port (line ++ [c]) = destinationOn addr port line := by
  have hedge : isEdge c := by
    unfold isEdge
    rw [hc]
    rfl
  have hholds : holds established (line ++ [c]) = holds established line := by
    rw [Bool.eq_iff_iff, holds_iff, holds_iff, infix_append_iff (not_of_all (by decide)) hc]
    exact or_iff_left (by decide)
  have hmentions {t : Text} (ht : t = tupleV4 addr port ∨ t = tupleV6 addr port) (hne : t ≠ []) :
      mentions t (line ++ [c]) = mentions t line := by
    have hnone : ∀ c ∈ t, isEdge c = false := by
      intro c hc
      rcases ht with rfl | rfl
      · exact not_isEdge_of_mem_tuples (.inl hc)
      · exact not_isEdge_of_mem_tuples (.inr hc)
    rw [Bool.eq_iff_iff, mentions_iff hne, mentions_iff hne, stands_concat hne hnone hedge]
  have hfield : targetField (line ++ [c]) = targetField line := by
    unfold targetField words
    rw [fields_concat hc]
  unfold destinationOn trim
  rw [hholds, hmentions (.inl rfl) (tupleV4_ne_nil addr port),
    hmentions (.inr rfl) (tupleV6_ne_nil addr port), hfield, trimEnds_concat hc]

/-- A line of a table, and the entry that it lists, if it lists one. -/
structure Row where
  line : Text
  entry : Option Entry

/-- The line of an entry holds its fields with blanks between them; any other line is not that of an
established entry. -/
structure Row.Valid (r : Row) : Prop where
  line : '\n' ∉ r.line
  entry : ∀ e ∈ r.entry, e.Plain ∧ Spaced isBlank e.fields r.line
  other : r.entry = none → ¬ established <:+: r.line

/-- A line whose words are an entry's fields is a row of the table. -/
theorem Row.valid_entry {r : Row} (hentry : r.entry = some e) (hline : '\n' ∉ r.line)
    (hplain : e.Plain) (hwords : words r.line = e.fields) : r.Valid where
  line := hline
  entry e' he := by
    rw [hentry] at he
    cases he
    exact ⟨hplain, hwords ▸ spaced_fields isBlank r.line⟩
  other hnone := by
    rw [hentry] at hnone
    cases hnone

/-- So is a line that is not an established one. -/
theorem Row.valid_other {r : Row} (hentry : r.entry = none) (hline : '\n' ∉ r.line)
    (hnot : ¬ established <:+: r.line) : r.Valid where
  line := hline
  entry e he := by
    rw [hentry] at he
    cases he
  other _ := hnot

/-- The table lists the rows one behind the other. A line ends with a line feed or with a carriage
return and a line feed; the end of the last line is optional. -/
inductive Lists : List Row → Text → Prop
  | nil : Lists [] []
  | last (r : Row) (valid : r.Valid) : Lists [r] r.line
  | cons (r : Row) (valid : r.Valid) (ending : Text)
      (ends : ending = ['\n'] ∨ ending = ['\r', '\n']) {rows : List Row} {table : Text}
      (more : Lists rows table) : Lists (r :: rows) (r.line ++ (ending ++ table))

theorem Lists.valid {rows : List Row} {table : Text} (h : Lists rows table) :
    ∀ r ∈ rows, r.Valid := by
  induction h with
  | nil => nofun
  | last r valid => exact List.forall_mem_singleton.2 valid
  | cons r valid ending ends more ih => exact List.forall_mem_cons.2 ⟨valid, ih⟩

/-- A table is gone through row by row. -/
theorem findSome?_lines {α : Type} {f : Text → Option α} (hnil : f [] = none)
    (hreturn : ∀ line, f (line ++ ['\r']) = f line) {rows : List Row} {table : Text}
    (h : Lists rows table) : (lines table).findSome? f = rows.findSome? (f ·.line) := by
  have hdrop (line : Text) : f (dropReturn line) = f line := by
    unfold dropReturn
    cases hback : dropBack ['\r'] line with
    | none => rfl
    | some front =>
      rw [dropBack_eq_some.1 hback, hreturn]
      rfl
  induction h with
  | nil => rfl
  | last r valid =>
    rw [lines_of_last valid.line]
    split
    · rename_i hempty
      rw [List.isEmpty_iff] at hempty
      simp [hempty, hnil]
    · rfl
  | @cons r valid ending ends rows table more ih =>
    have hfirst : ∃ line, lines (r.line ++ (ending ++ table)) = dropReturn line :: lines table ∧
        f line = f r.line := by
      rcases ends with rfl | rfl
      · exact ⟨r.line, lines_append valid.line table, rfl⟩
      · refine ⟨r.line ++ ['\r'], ?_, hreturn r.line⟩
        rw [← lines_append (by simp [valid.line])]
        simp
    obtain ⟨line, hlines, hline⟩ := hfirst
    rw [hlines, List.findSome?_cons, List.findSome?_cons, hdrop, hline, ih]

/-- What a row says about a client. -/
theorem Row.Valid.destinationOn_line {r : Row} (valid : r.Valid)
    (hclient : ∀ e ∈ r.entry, established <:+: e.state →
      ¬ (e.targetAddr = addr ∧ e.targetPort = port)) :
    destinationOn addr port r.line =
      (r.entry.filter (·.Serves addr port)).map (·.answer r.line) := by
  cases hentry : r.entry with
  | none =>
    show _ = none
    rw [← Option.not_isSome_iff_eq_none, isSome_destinationOn]
    exact fun hs => valid.other hentry hs.1
  | some e =>
    obtain ⟨hplain, hline⟩ := valid.entry e hentry
    rw [destinationOn_entry hplain hline (hclient e hentry)]
    by_cases hserves : e.Serves addr port <;> simp [hserves]

/-- **A lookup finds the listed destination.** In a table that lists entries among other lines, a
client that is not the destination of an established entry is looked up in the first established
entry whose source it is. The answer is the entry's destination if it is of the client's family; a
destination of the other family is not read. Without such an entry the lookup says so. -/
theorem lookup_listed {rows : List Row} {table : Text} (h : Lists rows table)
    (hclient : ∀ r ∈ rows, ∀ e ∈ r.entry, established <:+: e.state →
      ¬ (e.targetAddr = addr ∧ e.targetPort = port)) :
    (∀ before r after e, rows = before ++ r :: after → r.entry = some e → e.Serves addr port →
      (∀ earlier ∈ before, ∀ e ∈ earlier.entry, ¬ e.Serves addr port) →
      lookup table addr port =
        if e.sourceAddr.isV4 = e.targetAddr.isV4 then .ok ⟨e.targetAddr, e.targetPort, 0⟩
        else .error (.malformed (trim r.line))) ∧
      ((∀ r ∈ rows, ∀ e ∈ r.entry, ¬ e.Serves addr port) →
        lookup table addr port = .error (.noMatch ⟨addr, port, 0⟩)) := by
  have hfound : (lines table).findSome? (destinationOn addr port) =
      rows.findSome? fun r => destinationOn addr port r.line := by
    refine findSome?_lines ?_ (fun line => destinationOn_concat (by decide) line) h
    rw [← Option.not_isSome_iff_eq_none, isSome_destinationOn]
    exact fun hs => absurd hs.1 (by decide)
  have hrow (r : Row) (hr : r ∈ rows) := (h.valid r hr).destinationOn_line (hclient r hr)
  have hsilent (r : Row) (hr : r ∈ rows) (hno : ∀ e ∈ r.entry, ¬ e.Serves addr port) :
      destinationOn addr port r.line = none := by
    rw [hrow r hr, Option.map_eq_none_iff, Option.filter_eq_none_iff]
    exact fun e he => by simpa using hno e he
  unfold lookup
  rw [hfound]
  refine ⟨fun before r after e hrows hentry hserves hbefore => ?_, fun hnone => ?_⟩
  · have hfirst : destinationOn addr port r.line = some (e.answer r.line) := by
      rw [hrow r (by rw [hrows]; simp), hentry]
      simp [hserves]
    have hearlier : (before.findSome? fun r => destinationOn addr port r.line) = none :=
      List.findSome?_eq_none_iff.2 fun earlier he =>
        hsilent earlier (by rw [hrows]; simp [he]) (hbefore earlier he)
    rw [hrows, List.findSome?_append, hearlier, List.findSome?_cons, hfirst]
    rfl
  · rw [List.findSome?_eq_none_iff.2 fun r hr => hsilent r hr (hnone r hr)]
    rfl

/-- The entry of the client's connection. -/
def entryFrom : Entry where
  tag := "tcp".toList
  sourceAddr := client
  sourcePort := 1000
  wrapped := true
  targetAddr := .v4 ⟨203, 0, 113, 5⟩
  targetPort := 443
  state := established

/-- A line about something else. -/
def rowRemark : Row := ⟨"No ALTQ support in kernel".toList, none⟩

/-- An entry of a connection of the client that is over. -/
def entryOver : Entry :=
  { entryFrom with targetAddr := .v4 ⟨203, 0, 113, 4⟩, state := "FIN_WAIT_2:FIN_WAIT_2".toList }

/-- Its line. -/
def rowOver : Row where
  line := "ALL tcp (10.0.0.1:1000) -> 203.0.113.4:443 FIN_WAIT_2:FIN_WAIT_2".toList
  entry := some entryOver

/-- The line of the client's connection. -/
def rowUp : Row where
  line := " ALL  tcp (10.0.0.1:1000) -> \t203.0.113.5:443   ESTABLISHED:ESTABLISHED".toList
  entry := some entryFrom

/-- An IPv6 client. -/
def clientV6 : Ip := .v6 ⟨0x2001, 0xDB8, 0, 0, 0, 0, 0, 1⟩

/-- A server with two equally long runs of zeros in its address. -/
def serverV6 : Ip := .v6 ⟨0x2606, 0x4700, 0, 0, 1, 0, 0, 0x1111⟩

/-- The entry of that client's connection. -/
def entryV6 : Entry :=
  { entryFrom with sourceAddr := clientV6, wrapped := false, targetAddr := serverV6 }

/-- Its line. -/
def rowV6 : Row where
  line := "ALL tcp 2001:db8::1[1000] -> 2606:4700::1:0:0:1111[443] ESTABLISHED:ESTABLISHED".toList
  entry := some entryV6

/-- The rows of a table. -/
def listing : List Row := [rowRemark, rowOver, rowUp, rowV6]

/-- A table with these rows; its last line has no end. -/
def listed : Text :=
  rowRemark.line ++ (['\n'] ++ (rowOver.line ++ (['\n'] ++
    (rowUp.line ++ (['\r', '\n'] ++ rowV6.line)))))

/-- An entry with the pair of an established connection is plain if its tag is. -/
theorem plain_of_established (htag : IsWord e.tag) (hstate : e.state = established) : e.Plain where
  tag := htag
  state := ⟨"ESTABLISHED".toList, "ESTABLISHED".toList, hstate, by decide, by decide⟩

theorem isWord_tag : IsWord entryFrom.tag := by decide

theorem plain_entryOver : entryOver.Plain where
  tag := isWord_tag
  state := ⟨"FIN_WAIT_2".toList, "FIN_WAIT_2".toList, rfl, by decide, by decide⟩

theorem lists_listed : Lists listing listed :=
  .cons _ (Row.valid_other rfl (by decide) (by decide +kernel)) _ (.inl rfl)
    (.cons _ (Row.valid_entry (e := entryOver) rfl (by decide) plain_entryOver (by decide +kernel))
      _ (.inl rfl)
      (.cons _ (Row.valid_entry (e := entryFrom) rfl (by decide)
          (plain_of_established isWord_tag rfl) (by decide +kernel)) _ (.inr rfl)
        (.last _ (Row.valid_entry (e := entryV6) rfl (by decide)
          (plain_of_established isWord_tag rfl) (by decide +kernel)))))

/-- Each client of that table is found, in whatever form its entry is printed, and no other. -/
theorem lookup_listed_listed :
    lookup listed client 1000 = .ok ⟨.v4 ⟨203, 0, 113, 5⟩, 443, 0⟩ ∧
      lookup listed clientV6 1000 = .ok ⟨serverV6, 443, 0⟩ ∧
      lookup listed client 100 = .error (.noMatch ⟨client, 100, 0⟩) := by
  refine ⟨?_, ?_, ?_⟩
  · exact (lookup_listed lists_listed (by decide +kernel)).1 [rowRemark, rowOver] rowUp [rowV6]
      entryFrom rfl rfl (by decide +kernel) (by decide +kernel)
  · exact (lookup_listed lists_listed (by decide +kernel)).1 [rowRemark, rowOver, rowUp] rowV6 []
      entryV6 rfl rfl (by decide +kernel) (by decide +kernel)
  · exact (lookup_listed lists_listed (by decide +kernel)).2 (by decide +kernel)

/-- The entry of a connection from an IPv4 client to an IPv6 server. -/
def entryMixed : Entry := { entryFrom with wrapped := false, targetAddr := serverV6 }

/-- Its line. -/
def rowMixed : Row where
  line := "ALL tcp 10.0.0.1:1000 -> 2606:4700::1:0:0:1111[443] ESTABLISHED:ESTABLISHED".toList
  entry := some entryMixed

/-- The destination of such a connection is listed, but it is not found. -/
theorem lookup_mixed :
    Lists [rowMixed] rowMixed.line ∧ entryMixed.Serves client 1000 ∧
      ¬ (entryMixed.targetAddr = client ∧ entryMixed.targetPort = 1000) ∧
      lookup rowMixed.line client 1000 ≠ .ok ⟨entryMixed.targetAddr, entryMixed.targetPort, 0⟩ ∧
      lookup rowMixed.line client 1000 = .error (.malformed rowMixed.line) := by
  refine ⟨.last _ (Row.valid_entry (e := entryMixed) rfl (by decide)
    (plain_of_established isWord_tag rfl) (by decide +kernel)), by decide +kernel, by decide +kernel,
    by decide +kernel, by decide +kernel⟩

end StateTable
end Intercept
