import Intercept.Destination.StateTable
import Intercept.Proofs.Text.Fields
import Intercept.Proofs.Text.Numeral

/-!
# What a lookup answers from

A lookup goes by whole lines: it takes the first established line in which the client stands
anywhere, and takes that line's fifth field for the destination. The client is the line's source
only if it stands in the third field.

* `Mentioned addr port line`: the client stands in the line between edges.
* `IsSource addr port line`: the third field of the line is the client, bare or in parentheses.
* `Names field dst`: the field spells the address and port in one of the two forms.

Results:
* `mentions_iff`: what `mentions` looks for.
* `targetV4?_eq_some`, `targetV6?_eq_some`: what each form of a destination is read as.
* `isSome_destinationOn`, `names_of_destinationOn`: what a line says about a client.
* `lookup_ok`: the line that an answer comes from.
-/

namespace Intercept.StateTable

open Text

/-! ## Where a client stands -/

theorem startsAtEdge_iff {t : Text} : startsAtEdge t = true ↔ ∀ c ∈ t.head?, isEdge c := by
  cases t <;> simp [startsAtEdge]

/-- The tuple stands in the rest of a line; `atEdge` says whether an edge comes before the rest. -/
theorem mentionsFrom_iff {tuple line : Text} {atEdge : Bool} (ht : tuple ≠ []) :
    mentionsFrom tuple atEdge line = true ↔
      ∃ before after, line = before ++ tuple ++ after ∧
        before.getLast?.elim atEdge isEdge = true ∧ ∀ c ∈ after.head?, isEdge c := by
  induction line generalizing atEdge with
  | nil => simp [mentionsFrom, ht]
  | cons c r ih =>
    rw [mentionsFrom, Bool.or_eq_true, Bool.and_eq_true, ih, Option.any_eq_true]
    simp only [dropFront_eq_some, startsAtEdge_iff]
    constructor
    · rintro (⟨hedge, after, hparts, hafter⟩ | ⟨before, after, rfl, hbefore, hafter⟩)
      · exact ⟨[], after, hparts, hedge, hafter⟩
      · refine ⟨c :: before, after, rfl, ?_, hafter⟩
        cases before with
        | nil => exact hbefore
        | cons d before => rwa [List.getLast?_cons_cons]
    · rintro ⟨before, after, hparts, hbefore, hafter⟩
      cases before with
      | nil => exact .inl ⟨hbefore, after, hparts, hafter⟩
      | cons d before =>
        obtain ⟨rfl, rfl⟩ := List.cons.inj hparts
        refine .inr ⟨before, after, rfl, ?_, hafter⟩
        cases before with
        | nil => exact hbefore
        | cons d before => rwa [List.getLast?_cons_cons] at hbefore

theorem mentions_iff {tuple line : Text} (ht : tuple ≠ []) :
    mentions tuple line = true ↔ Stands isEdge tuple line := by
  have hedge (before : Text) : before.getLast?.elim true isEdge = true ↔
      ∀ c ∈ before.getLast?, isEdge c := by
    cases before.getLast? <;> simp
  rw [mentions, mentionsFrom_iff ht]
  simp only [hedge]
  rfl

theorem tupleV4_ne_nil (addr : Ip) (port : UInt16) : tupleV4 addr port ≠ [] := by
  simp [tupleV4]

theorem tupleV6_ne_nil (addr : Ip) (port : UInt16) : tupleV6 addr port ≠ [] := by
  simp [tupleV6]

/-- The client stands in the line, between edges or the ends of the line. -/
def Mentioned (addr : Ip) (port : UInt16) (line : Text) : Prop :=
  Stands isEdge (tupleV4 addr port) line ∨ Stands isEdge (tupleV6 addr port) line

/-- The third field of the line is the client, bare or in parentheses. -/
def IsSource (addr : Ip) (port : UInt16) (line : Text) : Prop :=
  ∃ tuple ∈ [tupleV4 addr port, tupleV6 addr port],
    (words line)[2]? = some tuple ∨ (words line)[2]? = some ('(' :: tuple ++ [')'])

instance (addr : Ip) (port : UInt16) (line : Text) : Decidable (IsSource addr port line) :=
  inferInstanceAs (Decidable (∃ tuple ∈ [tupleV4 addr port, tupleV6 addr port], _))

/-- A field that is a word, bare or in parentheses, has it between edges. -/
theorem stands_of_field {tuple line : Text}
    (h : tuple ∈ words line ∨ '(' :: tuple ++ [')'] ∈ words line) : Stands isEdge tuple line := by
  have hedge {c : Char} (hc : isBlank c = true) : isEdge c = true := by
    unfold isEdge
    rw [hc]
    rfl
  rcases h with h | h
  · obtain ⟨-, -, before, after, hline, hb, ha⟩ := mem_fields_iff.1 h
    exact ⟨before, after, hline, fun c hc => hedge (hb c hc), fun c hc => hedge (ha c hc)⟩
  · obtain ⟨-, -, before, after, hline, -, -⟩ := mem_fields_iff.1 h
    refine ⟨before ++ ['('], ')' :: after, by simp [hline], ?_, ?_⟩
    · intro c hc
      rw [List.getLast?_concat] at hc
      cases hc
      decide
    · rintro c ⟨⟩
      decide

/-- A client that is the source stands in the line. -/
theorem IsSource.mentioned {addr : Ip} {port : UInt16} {line : Text} (h : IsSource addr port line) :
    Mentioned addr port line := by
  obtain ⟨tuple, ht, h⟩ := h
  have hstands : Stands isEdge tuple line :=
    stands_of_field (h.imp List.mem_of_getElem? List.mem_of_getElem?)
  simp only [List.mem_cons, List.not_mem_nil, or_false] at ht
  rcases ht with rfl | rfl
  · exact .inl hstands
  · exact .inr hstands

/-! ## Destinations -/

/-- The text spells the port number, perhaps with a plus sign in front. -/
def SpellsPort (t : Text) (port : UInt16) : Prop :=
  ∃ n < 65536, (Numeral.Denotes 10 t n ∨ ∃ r, t = '+' :: r ∧ Numeral.Denotes 10 r n) ∧
    port = UInt16.ofNat n

theorem port?_eq_some {t : Text} {port : UInt16} : port? t = some port ↔ SpellsPort t port := by
  unfold port? SpellsPort
  rw [Option.map_eq_some_iff]
  constructor
  · rintro ⟨n, hn, rfl⟩
    obtain ⟨hspell, hlt⟩ := (Numeral.read?_eq_some (by decide)).1 hn
    exact ⟨n, hlt, hspell, rfl⟩
  · rintro ⟨n, hlt, hspell, rfl⟩
    exact ⟨n, (Numeral.read?_eq_some (by decide)).2 ⟨hspell, hlt⟩, rfl⟩

/-- The field spells the address, a colon and the port. -/
def NamesV4 (field : Text) (dst : Socket) : Prop :=
  ∃ host port, field = host ++ ':' :: port ∧ ':' ∉ host ∧ ':' ∉ port ∧
    Ip.parse? host = some dst.ip ∧ SpellsPort port dst.port ∧ dst.scope = 0

/-- The field spells the address and the port in brackets. -/
def NamesV6 (field : Text) (dst : Socket) : Prop :=
  ∃ host port, field = host ++ '[' :: port ++ [']'] ∧ '[' ∉ host ∧
    Ip.parse? host = some dst.ip ∧ SpellsPort port dst.port ∧ dst.scope = 0

/-- The field spells the address and port in one of the two forms. -/
def Names (field : Text) (dst : Socket) : Prop := NamesV4 field dst ∨ NamesV6 field dst

theorem targetV4?_eq_some {field : Text} {dst : Socket} :
    targetV4? field = some dst ↔ NamesV4 field dst := by
  have hpair {host port : Text} : pieces (· = ':') field = [host, port] ↔
      field = host ++ ':' :: port ∧ ':' ∉ host ∧ ':' ∉ port := by
    have hnone (t : Text) : (∀ c ∈ t, decide (c = ':') = false) ↔ ':' ∉ t := by
      simp only [decide_eq_false_iff_not]
      exact ⟨fun h hm => h ':' hm rfl, fun h c hc he => h (he ▸ hc)⟩
    rw [pieces_eq_pair, hnone, hnone]
    simp
  unfold targetV4? NamesV4
  constructor
  · intro h
    split at h
    · rename_i host port hp
      obtain ⟨hfield, hhost, hport⟩ := hpair.1 hp
      simp only [Option.bind_eq_bind, Option.bind_eq_some_iff, Option.pure_def,
        Option.some.injEq] at h
      obtain ⟨ip, hip, n, hn, rfl⟩ := h
      exact ⟨host, port, hfield, hhost, hport, hip, port?_eq_some.1 hn, rfl⟩
    · cases h
  · rintro ⟨host, port, hfield, hhost, hport, hip, hn, hscope⟩
    obtain ⟨ip, number, scope⟩ := dst
    cases hscope
    rw [hpair.2 ⟨hfield, hhost, hport⟩]
    simp only [hip, port?_eq_some.2 hn]
    rfl

theorem targetV6?_eq_some {field : Text} {dst : Socket} :
    targetV6? field = some dst ↔ NamesV6 field dst := by
  unfold targetV6? NamesV6
  simp only [Option.bind_eq_bind, Option.bind_eq_some_iff, Option.pure_def, Option.some.injEq,
    Prod.exists, cutFirst_eq_some, dropBack_eq_some, port?_eq_some]
  constructor
  · rintro ⟨host, rest, ⟨rfl, hhost⟩, ip, hip, port, rfl, number, hn, rfl⟩
    exact ⟨host, port, by simp, hhost, hip, hn, rfl⟩
  · rintro ⟨host, port, rfl, hhost, hip, hn, hscope⟩
    obtain ⟨ip, number, scope⟩ := dst
    cases hscope
    exact ⟨host, port ++ [']'], ⟨by simp, hhost⟩, ip, hip, port, rfl, number, hn, rfl⟩

/-! ## Lines -/

variable {addr : Ip} {port : UInt16} {line table : Text} {dst : Socket}

/-- A line says something about a client when it is established and the client stands in it. -/
theorem isSome_destinationOn :
    (destinationOn addr port line).isSome ↔ established <:+: line ∧ Mentioned addr port line := by
  unfold destinationOn Mentioned
  rw [← holds_iff, ← mentions_iff (tupleV4_ne_nil addr port),
    ← mentions_iff (tupleV6_ne_nil addr port), Option.isSome_map]
  by_cases hup : holds established line
  · by_cases h4 : mentions (tupleV4 addr port) line
    · simp [hup, h4]
    · by_cases h6 : mentions (tupleV6 addr port) line
      · simp [hup, h4, h6]
      · simp [hup, h4, h6]
  · simp [hup]

/-- A destination that a line names is its fifth field. -/
theorem names_of_destinationOn (h : destinationOn addr port line = some (.ok dst)) :
    ∃ field, (words line)[4]? = some field ∧ Names field dst := by
  unfold destinationOn at h
  obtain ⟨found, hfound, hdst⟩ := Option.map_eq_some_iff.1 h
  cases found with
  | none => cases hdst
  | some s =>
    cases hdst
    split at hfound
    · cases hfound
    · split at hfound
      · obtain ⟨field, hfield, hread⟩ := Option.bind_eq_some_iff.1 (Option.some.inj hfound)
        exact ⟨field, hfield, .inl (targetV4?_eq_some.1 hread)⟩
      · split at hfound
        · obtain ⟨field, hfield, hread⟩ := Option.bind_eq_some_iff.1 (Option.some.inj hfound)
          exact ⟨field, hfield, .inr (targetV6?_eq_some.1 hread)⟩
        · cases hfound

/-- The destination is the client's: it is named by an established line that has the client as its
source, and no established line before it has. -/
def ComesFromSource (table : Text) (addr : Ip) (port : UInt16) (dst : Socket) : Prop :=
  ∃ before line after, lines table = before ++ line :: after ∧ established <:+: line ∧
    IsSource addr port line ∧ (∃ field, (words line)[4]? = some field ∧ Names field dst) ∧
    ∀ earlier ∈ before, established <:+: earlier → ¬ IsSource addr port earlier

/-- **What an answer comes from.** An answer is the fifth field of the first established line in
which the client stands, so no established line before it has the client as its source. If the
client stands there as the source, the answer is the client's destination. -/
theorem lookup_ok (h : lookup table addr port = .ok dst) :
    ∃ before line after, lines table = before ++ line :: after ∧
      established <:+: line ∧ Mentioned addr port line ∧
      (∃ field, (words line)[4]? = some field ∧ Names field dst) ∧
      (∀ earlier ∈ before, established <:+: earlier →
        ¬ Mentioned addr port earlier ∧ ¬ IsSource addr port earlier) ∧
      (IsSource addr port line → ComesFromSource table addr port dst) := by
  unfold lookup at h
  cases hfound : (lines table).findSome? (destinationOn addr port) with
  | none =>
    rw [hfound] at h
    cases h
  | some answer =>
    rw [hfound] at h
    cases h
    obtain ⟨before, line, after, hlines, hline, hbefore⟩ := List.findSome?_eq_some_iff.1 hfound
    obtain ⟨hup, hmentioned⟩ := isSome_destinationOn.1 (by rw [hline]; rfl)
    have hnames := names_of_destinationOn hline
    have hno : ∀ earlier ∈ before, established <:+: earlier →
        ¬ Mentioned addr port earlier ∧ ¬ IsSource addr port earlier := by
      intro earlier hearlier hupEarlier
      have hnot : ¬ Mentioned addr port earlier := fun hm => by
        have hsome := isSome_destinationOn.2 ⟨hupEarlier, hm⟩
        rw [hbefore earlier hearlier] at hsome
        cases hsome
      exact ⟨hnot, fun hs => hnot hs.mentioned⟩
    exact ⟨before, line, after, hlines, hup, hmentioned, hnames, hno, fun hsource =>
      ⟨before, line, after, hlines, hup, hsource, hnames, fun earlier he hu => (hno earlier he hu).2⟩⟩

/-- A client. -/
def client : Ip := .v4 ⟨10, 0, 0, 1⟩

/-- The line of a connection from the client. -/
def lineFrom : Text := "ALL tcp 10.0.0.1:1000 -> 203.0.113.5:443 ESTABLISHED:ESTABLISHED".toList

/-- The line of a connection to the client. -/
def lineTo : Text := "ALL tcp 192.0.2.1:99 -> 10.0.0.1:1000 ESTABLISHED:ESTABLISHED".toList

/-- From a table with one connection from the client its destination comes. -/
theorem lookup_ok_lineFrom :
    lookup lineFrom client 1000 = .ok ⟨.v4 ⟨203, 0, 113, 5⟩, 443, 0⟩ ∧
      ComesFromSource lineFrom client 1000 ⟨.v4 ⟨203, 0, 113, 5⟩, 443, 0⟩ := by
  have h : lookup lineFrom client 1000 = .ok ⟨.v4 ⟨203, 0, 113, 5⟩, 443, 0⟩ := by decide +kernel
  obtain ⟨before, line, after, hlines, -, -, -, -, hsource⟩ := lookup_ok h
  have hline : line = lineFrom := by
    have hmem : line ∈ lines lineFrom := by rw [hlines]; simp
    have hall : ∀ l ∈ lines lineFrom, l = lineFrom := by decide +kernel
    exact hall line hmem
  refine ⟨h, hsource ?_⟩
  rw [hline]
  decide +kernel

/-- Where a connection to the client is listed before the one from it, the client's own address is
taken for its destination. -/
theorem lookup_shadowed :
    lookup (lineTo ++ '\n' :: lineFrom) client 1000 = .ok ⟨client, 1000, 0⟩ ∧
      ¬ ComesFromSource (lineTo ++ '\n' :: lineFrom) client 1000 ⟨client, 1000, 0⟩ := by
  refine ⟨by decide +kernel, ?_⟩
  rintro ⟨before, line, after, hlines, -, hsource, ⟨field, hfield, hnames⟩, -⟩
  have hmem : line ∈ lines (lineTo ++ '\n' :: lineFrom) := by rw [hlines]; simp
  have hall : ∀ l ∈ lines (lineTo ++ '\n' :: lineFrom), IsSource client 1000 l →
      (words l)[4]? = some "203.0.113.5:443".toList := by decide +kernel
  have hother := hall line hmem hsource
  rw [hfield] at hother
  cases hother
  rcases hnames with h | h
  · have hread := targetV4?_eq_some.2 h
    revert hread
    decide +kernel
  · have hread := targetV6?_eq_some.2 h
    revert hread
    decide +kernel

end Intercept.StateTable
