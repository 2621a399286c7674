import Intercept.Admission.Gate
import Intercept.Proofs.Net.Target

/-!
# What patterns name

A destination is a host and a port, and a pattern is compared with both of them and with the host.
So what a pattern names can be told from the text of the host, and an IPv4 address that is written
in two ways is two hosts.

* `BypassList.Spelled`, `BypassList.Ending`: the patterns that name a host as a whole, and those
  that name it by its end.
* `BypassList.Agrees`: a list says the same of both forms of an IPv4 destination.

Results:
* `hostMatches_iff`, `covers_join`, `covers_render`: what the patterns name.
* `covers_respelled`: when both forms of an IPv4 destination are named alike.
* `checkDestination_respelled`: and when the gate answers alike.
-/

namespace Intercept

/-! ## What the patterns name -/

theorem endsWith_iff_suffix {t back : Text} : endsWith t back = true ↔ back <:+ t := by
  rw [endsWith_iff]
  exact exists_congr fun r => eq_comm

/-- **A pattern names a host** that it spells out, alone or behind `*.`, and all hosts with the end
that it has behind `*`. -/
theorem hostMatches_iff {host p : Text} : hostMatches host p = true ↔
    p = host ∨ p = '*' :: '.' :: host ∨ ∃ s, s <:+ host ∧ p = '*' :: s := by
  unfold hostMatches
  split_ifs with heq
  · exact iff_of_true rfl (.inl heq)
  · split
    next domain =>
      simp only [Bool.or_eq_true, endsWith_iff_suffix, decide_eq_true_eq, List.cons.injEq, true_and,
        heq, false_or, exists_eq_right', @eq_comm _ host]
      exact or_comm
    next suffix hdot =>
      have hdomain : suffix ≠ '.' :: host := hdot host
      simp only [endsWith_iff_suffix, List.cons.injEq, true_and, heq, hdomain, false_or,
        exists_eq_right']
    next hdomain hsuffix =>
      refine iff_of_false nofun ?_
      rintro (h | h | ⟨s, -, h⟩)
      · exact heq h
      · exact hdomain host h
      · exact hsuffix s h

namespace BypassList

variable {host front p : Text} {port : Nat} {list : BypassList}

/-- The patterns that spell a destination out: with its port, without it, and as the top of its
domain. -/
inductive Spelled (host : Text) (port : Nat) : Text → Prop
  | target : Spelled host port (Target.join host port)
  | host : Spelled host port host
  | domain : Spelled host port ('*' :: '.' :: host)

/-- The patterns for the ends of a host. -/
inductive Ending (host : Text) : Text → Prop
  | star {s : Text} (suffix : s <:+ host) : Ending host ('*' :: s)

/-- **A list covers a destination** if it has a pattern that spells it out, or one for an end of its
host, in lower case. -/
theorem covers_join (hopen : '[' ∉ host) (hclose : ']' ∉ host) (port : Nat) :
    list.covers (Target.join host port) = true ↔
      ∃ p ∈ list.patterns, Spelled (Text.toLower host) port p ∨ Ending (Text.toLower host) p := by
  have hopenLower : '[' ∉ Text.toLower host := mt (Text.mem_toLower_mark (by decide)).1 hopen
  have hcloseLower : ']' ∉ Text.toLower host := mt (Text.mem_toLower_mark (by decide)).1 hclose
  unfold covers
  rw [Target.toLower_join]
  simp only [Target.host_join hopenLower hcloseLower port, List.any_eq_true, Bool.or_eq_true,
    decide_eq_true_eq, hostMatches_iff]
  refine exists_congr fun p => and_congr_right fun _ => ?_
  constructor
  · rintro (rfl | rfl | rfl | ⟨s, hs, rfl⟩)
    · exact .inl .target
    · exact .inl .host
    · exact .inl .domain
    · exact .inr (.star hs)
  · rintro (h | h)
    · cases h with
      | target => exact .inl rfl
      | host => exact .inr (.inl rfl)
      | domain => exact .inr (.inr (.inl rfl))
    · cases h with
      | star hs => exact .inr (.inr (.inr ⟨_, hs, rfl⟩))

/-- A list covers a socket address if it has a pattern that spells it out, or one for an end of the
IP address. -/
theorem covers_render {s : Socket} (hscope : s.scope = 0) : list.covers s.render = true ↔
    ∃ p ∈ list.patterns, Spelled s.ip.render s.port.toNat p ∨ Ending s.ip.render p := by
  have hopen : '[' ∉ s.ip.render := Ip.notMem_render (by decide) (by decide) (by decide)
  have hclose : ']' ∉ s.ip.render := Ip.notMem_render (by decide) (by decide) (by decide)
  rw [s.render_eq_join hscope, covers_join hopen hclose, s.ip.lowered_render.toLower]

/-- The ends of a longer host are those of the shorter one, and those that go beyond it. -/
theorem ending_append : Ending (front ++ host) p ↔
    Ending host p ∨ ∃ s, s ≠ [] ∧ s <:+ front ∧ p = '*' :: (s ++ host) := by
  constructor
  · intro h
    cases h with
    | @star t ht =>
      obtain ⟨before, ht⟩ := ht
      obtain ⟨s, hfront, rfl⟩ | ⟨s, -, hhost⟩ := List.append_eq_append_iff.1 ht
      · by_cases hs : s = []
        · subst hs
          exact .inl (.star (List.suffix_refl host))
        · exact .inr ⟨s, hs, ⟨before, hfront.symm⟩, rfl⟩
      · exact .inl (.star ⟨s, hhost.symm⟩)
  · rintro (h | ⟨s, -, ⟨before, rfl⟩, rfl⟩)
    · cases h with
      | star hs => exact .star (List.suffix_append_of_suffix hs)
    · exact .star ⟨before, (List.append_assoc _ _ _).symm⟩

/-! ## An IPv4 destination in its two forms -/

/-- What stands before the address in an IPv4-mapped address. -/
def mappedFront : Text := "::ffff:".toList

/-- A list says the same of both forms of an IPv4 destination: it has a pattern for an end of the
address, or it spells out both forms or none. The mapped form is also spelled out by the ends that
go beyond the address. -/
def Agrees (list : BypassList) (q : Ipv4) (port : UInt16) : Prop :=
  (∃ p ∈ list.patterns, Ending q.render p) ∨
    ((∃ p ∈ list.patterns, Spelled q.render port.toNat p) ↔
      ∃ p ∈ list.patterns, Spelled (mappedFront ++ q.render) port.toNat p ∨
        ∃ s, s ≠ [] ∧ s <:+ mappedFront ∧ p = '*' :: (s ++ q.render))

/-- The mapped form of an address is the address behind a fixed front. -/
theorem render_mapped (q : Ipv4) : (Ip.v6 (.ofIpv4 q)).render = mappedFront ++ q.render :=
  Ipv6.render_of_mapped (Ipv6.mapped?_ofIpv4 q)

/-- **Both forms of an IPv4 destination are covered alike** exactly when the list agrees on them. -/
theorem covers_respelled (list : BypassList) (q : Ipv4) (port : UInt16) :
    list.covers (Socket.render ⟨.v6 (.ofIpv4 q), port, 0⟩) =
        list.covers (Socket.render ⟨.v4 q, port, 0⟩) ↔ list.Agrees q port := by
  have hplain : list.covers (Socket.render ⟨.v4 q, port, 0⟩) = true ↔
      ∃ p ∈ list.patterns, Spelled q.render port.toNat p ∨ Ending q.render p := covers_render rfl
  have hmapped : list.covers (Socket.render ⟨.v6 (.ofIpv4 q), port, 0⟩) = true ↔
      ∃ p ∈ list.patterns, Spelled (mappedFront ++ q.render) port.toNat p ∨
        Ending (mappedFront ++ q.render) p := by
    rw [← render_mapped]
    exact covers_render rfl
  rw [Bool.eq_iff_iff, hplain, hmapped, Agrees]
  simp only [ending_append, and_or_left, exists_or]
  by_cases hend : ∃ p ∈ list.patterns, Ending q.render p
  · simp only [hend, or_true, true_or]
  · simp only [hend, or_false, false_or]
    exact Iff.comm

end BypassList

/-- **The gate answers alike** exactly when its list, if it has one, agrees on both forms. -/
theorem Gate.checkDestination_respelled (gate : Gate) (q : Ipv4) (port : UInt16) :
    gate.checkDestination (Socket.render ⟨.v6 (.ofIpv4 q), port, 0⟩) =
        gate.checkDestination (Socket.render ⟨.v4 q, port, 0⟩) ↔
      ∀ list, gate.bypass = some list → list.Agrees q port := by
  have hanswer (list : BypassList) (t t' : Text) :
      ((if list.contains t then Admission.bypassed else .allow) =
        if list.contains t' then .bypassed else .allow) ↔ list.covers t = list.covers t' := by
    unfold BypassList.contains
    cases list.covers t <;> cases list.covers t' <;> cases list.whitelist <;> decide
  unfold checkDestination
  cases gate.bypass with
  | none => exact iff_of_true rfl nofun
  | some list =>
    simp only [Option.some.injEq, forall_eq', hanswer, list.covers_respelled q port]

end Intercept
