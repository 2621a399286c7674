import Intercept.Proofs.Admission.Matching

/-!
# Hosts as requests name them

A request names a host, alone, with a port, or with a colon and no port. The target of the first two
is the host on the port, 80 if there is none, and bypass patterns for the host apply to it. With an
empty port the colon is taken for a part of the host: `a:` becomes the IPv6 host `a:`, and behind
the brackets of an IPv6 host the closing one becomes a part of the port.

* `HostValue`: a host with the port that it is named with, if any.
* `spelled`, `target`: how a request spells it, and what is to be dialed for it.
* `parts`: the host and the port that its target is for.

Results:
* `ofHost_spelled`, `split?_ofHost`: the target is for the parts.
* `parts_eq_iff`, `parts_fst_eq_iff`: they are the host and its port unless the port is empty.
* `covers_ofHost`: what the patterns say of a target.
* `target_of_host`: the target is the one that is to be dialed unless the port is empty.
-/

namespace Intercept

/-- A host with the port that a request names it with; the port may be empty. -/
structure HostValue where
  host : Text
  port : Option Text
  noOpening : '[' ∉ host
  noClosing : ']' ∉ host
  digits : ∀ p ∈ port, p.Digits

namespace HostValue

open Text Target

/-- The host and the port as a request spells them, an IPv6 host in brackets. -/
def spelled (v : HostValue) : Text := bracketed v.host ++ v.port.elim [] (':' :: ·)

/-- The port, 80 if there is none or an empty one. -/
def dialed (v : HostValue) : Text :=
  if v.port.getD [] = [] then Numeral.decimal httpPort else v.port.getD []

/-- What is to be dialed: the host on the port. -/
def target (v : HostValue) : Text := bracketed v.host ++ ':' :: v.dialed

/-- The host and the port that the target is for. -/
def parts (v : HostValue) : Text × Text :=
  if v.port = some [] then
    if ':' ∈ v.host then (v.host, ']' :: ':' :: Numeral.decimal httpPort)
    else (v.host ++ [':'], Numeral.decimal httpPort)
  else (v.host, v.dialed)

/-! ## The target of a host as it is named -/

variable {host : Text} (v : HostValue)

theorem apart_dialed : Apart v.host v.dialed := by
  unfold dialed
  split_ifs with hnone
  · exact apart_decimal v.noOpening v.noClosing httpPort
  · obtain ⟨p, hport, hp⟩ : ∃ p, v.port = some p ∧ p ≠ [] := by
      cases hport : v.port with
      | none => rw [hport] at hnone; exact absurd rfl hnone
      | some p => rw [hport] at hnone; exact ⟨p, rfl, hnone⟩
    rw [hport]
    exact .of_digits v.noOpening v.noClosing hp (v.digits p hport)

theorem apart_parts : Apart v.parts.1 v.parts.2 := by
  have hport := digits_decimal httpPort
  have hopen := v.noOpening
  have hclose := v.noClosing
  unfold parts
  split_ifs with hempty hcolon
  · exact ⟨hopen, hclose, List.cons_ne_nil _ _, absurd hcolon,
      startsCased_mark (by decide) (startsCased_mark (by decide) hport.startsCased),
      lowered_mark (by decide) (lowered_mark (by decide) hport.lowered)⟩
  · exact apart_decimal (by simp [hopen]) (by simp [hclose]) httpPort
  · exact v.apart_dialed

/-- **The target of a host** is put together from the parts. -/
theorem ofHost_spelled : ofHost v.spelled = bracketed v.parts.1 ++ ':' :: v.parts.2 := by
  by_cases hempty : v.port = some []
  · have hspelled : v.spelled = bracketed v.host ++ [':'] := by rw [spelled, hempty]; rfl
    rw [hspelled, ofHost_colon v.noOpening v.noClosing, parts, if_pos hempty]
    split_ifs
    · rfl
    · rfl
  · rw [parts, if_neg hempty]
    cases hport : v.port with
    | none =>
      have hspelled : v.spelled = bracketed v.host := by rw [spelled, hport]; exact List.append_nil _
      have hdialed : v.dialed = Numeral.decimal httpPort := by rw [dialed, hport]; rfl
      rw [hspelled, hdialed, ofHost_of_unsplit (split?_alone v.noOpening v.noClosing),
        host_alone v.noOpening v.noClosing, join_eq]
    | some p =>
      have hp : p ≠ [] := fun h => hempty (h ▸ hport)
      have hdialed : v.dialed = p := by rw [dialed, hport]; exact if_neg hp
      have hspelled : v.spelled = bracketed v.host ++ ':' :: v.dialed := by
        rw [hdialed, spelled, hport]
        rfl
      rw [hspelled, ofHost_of_split v.apart_dialed.split?_eq]

theorem split?_ofHost : split? (ofHost v.spelled) = some v.parts := by
  rw [ofHost_spelled, v.apart_parts.split?_eq]

theorem parts_eq_iff : v.parts = (v.host, v.dialed) ↔ v.port ≠ some [] := by
  unfold parts
  split_ifs with hport hcolon
  · have hdialed : v.dialed = Numeral.decimal httpPort := by rw [dialed, hport]; rfl
    refine iff_of_false ?_ (not_not_intro hport)
    rw [Prod.mk.injEq, hdialed]
    exact fun h => absurd h.2 (by decide)
  · refine iff_of_false ?_ (not_not_intro hport)
    rw [Prod.mk.injEq]
    exact fun h => absurd h.1 (by simp)
  · exact iff_of_true rfl hport

theorem parts_fst_eq_iff : v.parts.1 = v.host ↔ v.port ≠ some [] ∨ ':' ∈ v.host := by
  unfold parts
  split_ifs with hport hcolon
  · exact iff_of_true rfl (.inr hcolon)
  · exact iff_of_false (by simp) (by simp [hport, hcolon])
  · exact iff_of_true rfl (.inl hport)

/-! ## Bypass patterns -/

/-- The host that patterns are compared with is the first part in lower case. -/
theorem host_toLower : Target.host (toLower (ofHost v.spelled)) = toLower v.parts.1 := by
  rw [ofHost_spelled, v.apart_parts.toLower_eq, Target.host, v.apart_parts.toLower.split?_eq]

theorem covers_ofHost (list : BypassList) : list.covers (ofHost v.spelled) = true ↔
    ∃ p ∈ list.patterns, p = toLower (ofHost v.spelled) ∨ hostMatches (toLower v.parts.1) p = true := by
  unfold BypassList.covers
  simp only [host_toLower, List.any_eq_true, Bool.or_eq_true, decide_eq_true_eq]

/-- A pattern without a colon does not name a host that ends in one, unless it names all of them. -/
theorem hostMatches_colon {p : Text} (hcolon : ':' ∉ p) :
    hostMatches (host ++ [':']) p = true ↔ p = ['*'] := by
  have hend : ':' ∈ host ++ [':'] := by simp
  rw [hostMatches_iff]
  constructor
  · rintro (rfl | rfl | ⟨s, hs, rfl⟩)
    · exact absurd hend hcolon
    · exact absurd (List.mem_cons_of_mem _ (List.mem_cons_of_mem _ hend)) hcolon
    · obtain rfl | ⟨t, rfl, -⟩ := List.suffix_concat_iff.1 hs
      · rfl
      · exact absurd (by simp) hcolon
  · rintro rfl
    exact .inr (.inr ⟨[], List.nil_suffix, rfl⟩)

/-- A pattern for the host applies when the first part is the host. -/
theorem contains_of_named (hfst : v.parts.1 = v.host) {patterns : List Text} {p : Text}
    (hp : p ∈ patterns) (h : hostMatches (toLower v.host) (toLower p) = true) (whitelist : Bool) :
    (BypassList.ofPatterns patterns whitelist).contains (ofHost v.spelled) ≠ whitelist := by
  refine BypassList.contains_ne_iff.2 ((v.covers_ofHost _).2 ?_)
  exact ⟨toLower p, List.mem_map_of_mem hp, .inr (hfst ▸ h)⟩

/-- Behind a host without colons an empty port keeps all patterns without colons from applying,
except the one for all hosts. -/
theorem covers_of_longer (hempty : v.port = some []) (hhost : ':' ∉ v.host) {list : BypassList}
    (hcolon : ∀ p ∈ list.patterns, ':' ∉ p) :
    list.covers (ofHost v.spelled) = true ↔ ['*'] ∈ list.patterns := by
  have hparts : v.parts.1 = v.host ++ [':'] := by rw [parts, if_pos hempty, if_neg hhost]
  have hlower : toLower (v.host ++ [':']) = toLower v.host ++ [':'] :=
    toLower_port rfl (List.forall_mem_nil _) v.host
  have htarget : ':' ∈ toLower (ofHost v.spelled) := by
    rw [mem_toLower_mark (by decide), ofHost_spelled]
    simp
  rw [covers_ofHost, hparts, hlower]
  constructor
  · rintro ⟨p, hp, rfl | hmatches⟩
    · exact absurd htarget (hcolon _ hp)
    · exact (hostMatches_colon (hcolon p hp)).1 hmatches ▸ hp
  · intro hstar
    exact ⟨['*'], hstar, .inr ((hostMatches_colon (by decide)).2 rfl)⟩

/-- **The target of a host is the one that is to be dialed** exactly when the request does not name
it with an empty port; then, and only then, it is taken apart into the host and the port. A bypass
pattern for the host applies exactly then too, except that it always does to an IPv6 host. -/
theorem target_of_host :
    (ofHost v.spelled = v.target ↔ v.port ≠ some []) ∧
      (split? (ofHost v.spelled) = some (v.host, v.dialed) ↔ v.port ≠ some []) ∧
      ((∀ patterns whitelist, ∀ p ∈ patterns, hostMatches (toLower v.host) (toLower p) = true →
          (BypassList.ofPatterns patterns whitelist).contains (ofHost v.spelled) ≠ whitelist) ↔
        v.port ≠ some [] ∨ ':' ∈ v.host) := by
  have hsplit : split? (ofHost v.spelled) = some (v.host, v.dialed) ↔ v.port ≠ some [] := by
    rw [split?_ofHost, Option.some.injEq, parts_eq_iff]
  refine ⟨⟨fun htarget => ?_, fun hport => ?_⟩, hsplit, ?_, ?_⟩
  · rw [← hsplit, htarget, target, v.apart_dialed.split?_eq]
  · rw [ofHost_spelled, v.parts_eq_iff.2 hport, target]
  · intro hnamed
    by_contra hneither
    obtain ⟨hempty, hcolon⟩ := not_or.1 hneither
    have hlower : toLower ('*' :: '.' :: v.host) = '*' :: '.' :: toLower v.host := by
      rw [BypassList.toLower_star, BypassList.toLower_dot]
    have hdomain : hostMatches (toLower v.host) (toLower ('*' :: '.' :: v.host)) = true :=
      hlower ▸ hostMatches_iff.2 (.inr (.inl rfl))
    have hfree : ∀ p ∈ (BypassList.ofPatterns ['*' :: '.' :: v.host] false).patterns, ':' ∉ p := by
      intro p hp
      rw [List.mem_singleton.1 hp, hlower]
      simpa using mt (mem_toLower_mark (by decide)).1 hcolon
    have hcovers := BypassList.contains_ne_iff.1 (hnamed [_] false _ List.mem_cons_self hdomain)
    rw [v.covers_of_longer (not_not.1 hempty) hcolon hfree] at hcovers
    have hstar : ['*'] = '*' :: '.' :: toLower v.host := hlower ▸ List.mem_singleton.1 hcovers
    cases hstar
  · intro hfst patterns whitelist p hp h
    exact v.contains_of_named (v.parts_fst_eq_iff.2 hfst) hp h whitelist

/-- An IPv6 host without a port is dialed on port 80, and a pattern for it applies. -/
theorem target_of_host_loopback :
    let v : HostValue := ⟨[':', ':', '1'], none, by decide, by decide, nofun⟩
    v.spelled = ['[', ':', ':', '1', ']'] ∧
      ofHost v.spelled = ['[', ':', ':', '1', ']', ':', '8', '0'] ∧
      split? (ofHost v.spelled) = some ([':', ':', '1'], ['8', '0']) ∧
      (BypassList.ofPatterns [['a'], [':', ':', '1']] false).contains (ofHost v.spelled) ≠ false := by
  intro v
  obtain ⟨htarget, hsplit, hnamed⟩ := v.target_of_host
  exact ⟨by decide, htarget.2 nofun, hsplit.2 nofun,
    hnamed.2 (.inl nofun) [['a'], [':', ':', '1']] false [':', ':', '1'] (by simp)
      (by decide +kernel)⟩

/-- `a.b:` is dialed as an IPv6 host, and the pattern `a.b` does not apply to it. -/
theorem target_of_host_colon :
    let v : HostValue := ⟨['a', '.', 'b'], some [], by decide, by decide, by simp [Digits]⟩
    v.spelled = ['a', '.', 'b', ':'] ∧ v.target = ['a', '.', 'b', ':', '8', '0'] ∧
      ofHost v.spelled = ['[', 'a', '.', 'b', ':', ']', ':', '8', '0'] ∧
      split? (ofHost v.spelled) = some (['a', '.', 'b', ':'], ['8', '0']) ∧
      hostMatches (toLower v.host) (toLower v.host) = true ∧
      (BypassList.ofPatterns [v.host] false).contains (ofHost v.spelled) = false := by
  decide +kernel

end HostValue

end Intercept
