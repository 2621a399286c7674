import Intercept.Proofs.Admission.Pattern

/-!
# Bypass matching without regard to case

A bypass list compares lower-case forms. So what it says of a host and a port can be said pattern by
pattern on the texts as they were written, and it follows that letter case never matters, that the
port matters to patterns with a colon only, and that a domain is matched with everything below it.

* `BypassList.Means`: the patterns that mean a host and a port.

Results:
* `means_iff`, `covers_ofPatterns`: a pattern means a destination if its lower-case form names the
  lower-case host, and a list covers what its patterns mean.
* `ofPatterns_sameLetters`, `contains_sameLetters`: the case of ASCII letters makes no difference.
* `Means.of_port`: a pattern without a colon means a host on all ports.
* `hostMatches_below`: a domain is matched with everything below it.
* `contains_means`: what a list says of a destination, and what follows.
-/

namespace Intercept.BypassList

open Text

variable {host p : Text} {port : Nat} {patterns : List Text} {whitelist : Bool}

/-- The patterns that mean a host and a port, without regard to case: the destination itself, the
host itself, `*.d` for `d` and all that ends in `.d`, and `*s` for all that ends in `s`. -/
inductive Means (host : Text) (port : Nat) : Text → Prop
  | target {p : Text} (same : toLower p = toLower (Target.join host port)) : Means host port p
  | host {p : Text} (same : toLower p = toLower host) : Means host port p
  | domain {d : Text} (below : toLower host = toLower d ∨ '.' :: toLower d <:+ toLower host) :
      Means host port ('*' :: '.' :: d)
  | ending {s : Text} (plain : s.head? ≠ some '.') (suffix : toLower s <:+ toLower host) :
      Means host port ('*' :: s)

theorem toLower_star (s : Text) : toLower ('*' :: s) = '*' :: toLower s := toLower_mark (by decide) s

theorem toLower_dot (s : Text) : toLower ('.' :: s) = '.' :: toLower s := toLower_mark (by decide) s

/-- A pattern means a destination if its lower-case form names the host in lower case. -/
theorem means_iff : Means host port p ↔
    Spelled (toLower host) port (toLower p) ∨ Ending (toLower host) (toLower p) := by
  constructor
  · intro h
    cases h with
    | target same =>
      rw [same, Target.toLower_join]
      exact .inl .target
    | host same =>
      rw [same]
      exact .inl .host
    | domain below =>
      rw [toLower_star, toLower_dot]
      rcases below with hsame | hbelow
      · rw [← hsame]
        exact .inl .domain
      · exact .inr (.star hbelow)
    | ending plain suffix =>
      rw [toLower_star]
      exact .inr (.star suffix)
  · rintro (h | h)
    · generalize hp : toLower p = q at h
      cases h with
      | target => exact .target (hp.trans (Target.toLower_join host port).symm)
      | host => exact .host hp
      | domain =>
        obtain ⟨r, rfl, hr⟩ := (toLower_eq_mark (by decide)).1 hp
        obtain ⟨d, rfl, hd⟩ := (toLower_eq_mark (by decide)).1 hr
        exact .domain (.inl hd.symm)
    · generalize hp : toLower p = q at h
      cases h with
      | star suffix =>
        obtain ⟨s, rfl, rfl⟩ := (toLower_eq_mark (by decide)).1 hp
        -- A star before a dot stands for a domain, so `*.d` is no ending of the host.
        by_cases hdot : s.head? = some '.'
        · obtain ⟨d, rfl⟩ : ∃ d, s = '.' :: d := List.head?_eq_some_iff.1 hdot
          rw [toLower_dot] at suffix
          exact .domain (.inr suffix)
        · exact .ending hdot suffix

/-- A list covers a destination if one of its patterns means it. -/
theorem covers_ofPatterns (hopen : '[' ∉ host) (hclose : ']' ∉ host) :
    (ofPatterns patterns whitelist).covers (Target.join host port) = true ↔
      ∃ p ∈ patterns, Means host port p := by
  rw [covers_join hopen hclose]
  simp only [means_iff, ofPatterns, List.mem_map, exists_exists_and_eq_and]

/-- Whatever a list covers it drops, unless it is a whitelist, which drops all else. -/
theorem contains_ne_iff {list : BypassList} {destination : Text} :
    list.contains destination ≠ list.whitelist ↔ list.covers destination = true := by
  unfold contains
  cases list.covers destination <;> cases list.whitelist <;> decide

/-! ## Letter case, ports and domains -/

/-- Lists of patterns that differ in the case of their ASCII letters are the same list. -/
theorem ofPatterns_sameLetters {patterns' : List Text}
    (h : List.Forall₂ SameLetters patterns patterns') (whitelist : Bool) :
    ofPatterns patterns whitelist = ofPatterns patterns' whitelist := by
  have hlower : patterns.map toLower = patterns'.map toLower := by
    induction h with
    | nil => rfl
    | cons hp _ ih => rw [List.map_cons, List.map_cons, hp.toLower, ih]
  rw [ofPatterns, ofPatterns, hlower]

theorem contains_sameLetters {list : BypassList} {destination destination' : Text}
    (h : SameLetters destination destination') :
    list.contains destination = list.contains destination' := by
  simp only [contains, covers, h.toLower]

/-- A pattern without a colon means a host on all ports. -/
theorem Means.of_port (hcolon : ':' ∉ p) (h : Means host port p) (port' : Nat) :
    Means host port' p := by
  cases h with
  | target same =>
    have hjoined : ':' ∈ Target.join host port := by
      unfold Target.join
      split_ifs with hhost
      · simp
      · simp
    have hlower : ':' ∈ toLower p := by
      rw [same]
      exact (mem_toLower_mark (by decide)).2 hjoined
    exact absurd ((mem_toLower_mark (by decide)).1 hlower) hcolon
  | host same => exact .host same
  | domain below => exact .domain below
  | ending plain suffix => exact .ending plain suffix

theorem means_of_hostMatches (h : hostMatches (toLower host) (toLower p) = true) :
    Means host port p := by
  rw [means_iff]
  obtain hhost | hdomain | ⟨s, hs, hending⟩ := hostMatches_iff.1 h
  · rw [hhost]
    exact .inl .host
  · rw [hdomain]
    exact .inl .domain
  · rw [hending]
    exact .inr (.star hs)

/-- **A domain is matched with everything below it.** -/
theorem hostMatches_below {d : Text} (hascii : Ascii host)
    (h : hostMatches (toLower host) (toLower ('*' :: '.' :: d)) = true) (sub : Text) :
    hostMatches (toLower (sub ++ '.' :: host)) (toLower ('*' :: '.' :: d)) = true := by
  have hbelow : '.' :: toLower host <:+ toLower (sub ++ '.' :: host) := by
    obtain ⟨front, hfront⟩ := exists_toLowerAfter_append [] sub ('.' :: host)
    have hdot : Ascii ('.' :: host) := List.forall_mem_cons.2 ⟨by decide, hascii⟩
    rw [toLowerAfter_ascii hdot] at hfront
    have hhost : toLower host = host.map Char.toLower := toLowerAfter_ascii hascii []
    exact ⟨front, by rw [hhost]; exact hfront.symm⟩
  have hsuffix : '.' :: toLower d <:+ toLower (sub ++ '.' :: host) := by
    rw [toLower_star, toLower_dot] at h
    obtain hhost | hdomain | ⟨s, hs, hending⟩ := hostMatches_iff.1 h
    · -- The host is spelled like the pattern itself.
      rw [← hhost] at hbelow
      exact List.IsSuffix.trans ⟨['.', '*'], rfl⟩ hbelow
    · rw [List.cons.injEq, List.cons.injEq] at hdomain
      rw [hdomain.2.2]
      exact hbelow
    · rw [List.cons.injEq] at hending
      rw [hending.2]
      exact hs.trans (List.IsSuffix.trans (List.suffix_cons _ _) hbelow)
  rw [toLower_star, toLower_dot]
  exact hostMatches_iff.2 (.inr (.inr ⟨_, hsuffix, rfl⟩))

/-- **Bypass matching means what the patterns say.** A destination is dropped, or let through by a
whitelist, exactly when one of the patterns means its host and port. So the answer depends neither
on the case of ASCII letters nor, as long as no pattern has a colon, on the port; and a list with
`*.d` that matches an ASCII name in this way means everything below this name. -/
theorem contains_means (patterns : List Text) (whitelist : Bool) :
    (∀ host port, '[' ∉ host → ']' ∉ host →
      ((ofPatterns patterns whitelist).contains (Target.join host port) ≠ whitelist ↔
        ∃ p ∈ patterns, Means host port p)) ∧
    (∀ patterns' destination destination', List.Forall₂ SameLetters patterns patterns' →
      SameLetters destination destination' →
        (ofPatterns patterns' whitelist).contains destination' =
          (ofPatterns patterns whitelist).contains destination) ∧
    ((∀ p ∈ patterns, ':' ∉ p) → ∀ host port port', '[' ∉ host → ']' ∉ host →
      (ofPatterns patterns whitelist).contains (Target.join host port') =
        (ofPatterns patterns whitelist).contains (Target.join host port)) ∧
    ∀ d, '*' :: '.' :: d ∈ patterns → ∀ host, Ascii host → '[' ∉ host → ']' ∉ host →
      hostMatches (toLower host) (toLower ('*' :: '.' :: d)) = true →
        ∀ sub port, '[' ∉ sub → ']' ∉ sub →
          hostMatches (toLower (sub ++ '.' :: host)) (toLower ('*' :: '.' :: d)) = true ∧
          (ofPatterns patterns whitelist).contains (Target.join (sub ++ '.' :: host) port) ≠
            whitelist := by
  refine ⟨fun host port hopen hclose => contains_ne_iff.trans (covers_ofPatterns hopen hclose),
    ?_, ?_, ?_⟩
  · intro patterns' destination destination' hpatterns hdestination
    rw [ofPatterns_sameLetters hpatterns, contains_sameLetters hdestination]
  · intro hcolon host port port' hopen hclose
    have hcovers : (ofPatterns patterns whitelist).covers (Target.join host port') =
        (ofPatterns patterns whitelist).covers (Target.join host port) := by
      rw [Bool.eq_iff_iff, covers_ofPatterns hopen hclose, covers_ofPatterns hopen hclose]
      exact exists_congr fun p => and_congr_right fun hp =>
        ⟨fun h => h.of_port (hcolon p hp) port, fun h => h.of_port (hcolon p hp) port'⟩
    rw [contains, contains, hcovers]
  · intro d hd host hascii hopen hclose hmatches sub port hsubOpen hsubClose
    have hbelow := hostMatches_below hascii hmatches sub
    have hnone {m : Char} (hm : m ≠ '.') (hsub : m ∉ sub) (hhost : m ∉ host) :
        m ∉ sub ++ '.' :: host := by simp [hm, hsub, hhost]
    have hcovers : (ofPatterns patterns whitelist).covers (Target.join (sub ++ '.' :: host) port) =
        true :=
      (covers_ofPatterns (hnone (by decide) hsubOpen hopen) (hnone (by decide) hsubClose hclose)).2
        ⟨_, hd, means_of_hostMatches hbelow⟩
    exact ⟨hbelow, contains_ne_iff.2 hcovers⟩

/-- A Greek domain whose name ends in a sigma, and one in ASCII, on any port and in any letter case;
what is below the second one is matched too. -/
theorem contains_means_greek :
    let greek : Text := ['*', '.', 'Ο', 'Δ', 'Ο', 'Σ']
    let patterns : List Text := [greek, ['*', '.', 'A', 'b']]
    let host : Text := ['Ο', 'Δ', 'Ο', 'Σ']
    (ofPatterns patterns false).contains (Target.join host 443) ≠ false ∧
      (ofPatterns patterns false).contains (Target.join host 80) =
        (ofPatterns patterns false).contains (Target.join host 443) ∧
      (ofPatterns [greek, ['*', '.', 'a', 'B']] false).contains (Target.join ['A', 'b'] 443) =
        (ofPatterns patterns false).contains (Target.join ['a', 'b'] 443) ∧
      (ofPatterns patterns false).contains (Target.join ['x', '.', 'a', 'B'] 8080) ≠ false := by
  intro greek patterns host
  obtain ⟨hmeans, hletters, hport, hbelow⟩ := contains_means patterns false
  have hopen : '[' ∉ host := by decide
  have hclose : ']' ∉ host := by decide
  have hnamed : ∃ p ∈ patterns, Means host 443 p :=
    ⟨greek, List.mem_cons_self, .domain (.inl rfl)⟩
  have hrespelled : List.Forall₂ SameLetters patterns [greek, ['*', '.', 'a', 'B']] :=
    .cons rfl (.cons (by decide) .nil)
  have hdestination : SameLetters (Target.join ['a', 'b'] 443) (Target.join ['A', 'b'] 443) := by
    decide
  refine ⟨(hmeans host 443 hopen hclose).2 hnamed, hport (by decide) host 443 80 hopen hclose,
    hletters _ _ _ hrespelled hdestination, ?_⟩
  exact (hbelow ['A', 'b'] (by simp [patterns]) ['a', 'B'] (by decide) (by decide)
    (by decide) (by decide +kernel) ['x'] 8080 (by decide) (by decide)).2

end Intercept.BypassList
