import Intercept.Proofs.Net.Target

/-!
# Targets are taken apart as they were put together

Every target that is dialed is put together here: from a host and a port, from the host of a
request, from a socket address or from a server name. Each is taken apart into what it was made of.

* `Target.HasPort`: a name has a port of its own.
* `Target.serverPort`: the port on which a server name is dialed.

Results:
* `isSome_split?_iff`: a text without brackets is taken apart exactly when it has a port.
* `split?_ofHost`, `split?_ofHost_brackets`, `ofHost_ofHost`: the targets of hosts.
* `Socket.split?_render`: a printed socket address.
* `ofServerName_eq_join`: the target of a server name.
* `round_trips`: all of them.
-/

namespace Intercept

namespace Target

variable {host name : Text}

/-! ## Hosts -/

/-- One colon, and something behind it. -/
def HasPort (t : Text) : Prop :=
  ∃ host port, t = host ++ ':' :: port ∧ ':' ∉ host ∧ ':' ∉ port ∧ port ≠ []

theorem isSome_split?_iff {t : Text} (hopen : '[' ∉ t) : (split? t).isSome ↔ HasPort t := by
  rw [split?_of_ne fun h => hopen (List.mem_of_head? h)]
  constructor
  · intro h
    obtain ⟨parts, hparts⟩ := Option.isSome_iff_exists.1 h
    obtain ⟨⟨host, port⟩, hcut, hkeep⟩ := Option.bind_eq_some_iff.1 hparts
    obtain ⟨ht, hport⟩ := cutLast_eq_some.1 hcut
    obtain ⟨hcolon, hempty⟩ := not_or.1 (Option.ite_none_left_eq_some.1 hkeep).1
    exact ⟨host, port, ht, hcolon, hport, fun hnil => hempty (List.isEmpty_iff.2 hnil)⟩
  · rintro ⟨host, port, rfl, hhost, hport, hne⟩
    rw [cutLast_eq_some.2 ⟨rfl, hport⟩, Option.bind_some]
    simp [hhost, hne]

/-- A host that has no port is the host of its target, on the port for hosts without one. -/
theorem split?_ofHost (hopen : '[' ∉ host) (hclose : ']' ∉ host) :
    split? (ofHost host) = some ((split? host).getD (host, Numeral.decimal httpPort)) := by
  cases h : split? host with
  | none => rw [ofHost_of_unsplit h, host_plain hopen hclose h, split?_join hopen hclose]; rfl
  | some parts => rw [ofHost_of_split h, h]; rfl

theorem split?_ofHost_brackets (hopen : '[' ∉ host) (hclose : ']' ∉ host) :
    split? (ofHost ('[' :: host ++ [']'])) = some (host, Numeral.decimal httpPort) := by
  rw [ofHost_of_unsplit (split?_brackets hclose), host_brackets hopen hclose,
    split?_join hopen hclose]

/-- A target that is taken apart has its port, and gets no second one. -/
theorem ofHost_ofHost {t : Text} {parts : Text × Text} (h : split? (ofHost t) = some parts) :
    ofHost (ofHost t) = ofHost t := ofHost_of_split h

/-! ## Server names -/

/-- The port on which a server name is dialed: that of the place the connection was headed for. -/
def serverPort (dst : Option Socket) : Nat :=
  match dst with
  | some s => if s.port = 0 then tlsPort else s.port.toNat
  | none => tlsPort

theorem ofServerName_eq_join (hne : name ≠ []) (h : split? name = none) (dst : Option Socket) :
    ofServerName (some name) dst = some (join name (serverPort dst)) := by
  have hname : (some name).filter (!·.isEmpty) = some name := by simp [Option.filter, hne]
  have hport : ((dst.map (·.port.toNat)).filter (· ≠ 0)).getD tlsPort = serverPort dst := by
    cases dst with
    | none => rfl
    | some s =>
      have hzero : s.port.toNat = 0 ↔ s.port = 0 := UInt16.toNat_inj (b := 0)
      by_cases hport : s.port = 0 <;> simp [serverPort, Option.filter, hzero, hport]
  unfold ofServerName
  rw [hname]
  simp only [h, Option.isSome_none, Bool.false_eq_true, if_false, hport]

end Target

/-! ## Socket addresses -/

theorem Socket.bracket_notMem_zone (s : Socket) : '[' ∉ s.zone ∧ ']' ∉ s.zone := by
  have hdigits := Text.digits_decimal s.scope.toNat
  unfold zone
  split
  · simp
  · split_ifs
    · simp
    · have hopen : '[' ∉ Numeral.decimal s.scope.toNat := hdigits.notMem (by decide)
      have hclose : ']' ∉ Numeral.decimal s.scope.toNat := hdigits.notMem (by decide)
      simp [hopen, hclose]

/-- A printed socket address is taken apart into its IP address with its zone, and its port. -/
theorem Socket.split?_render (s : Socket) :
    Target.split? s.render = some (s.ip.render ++ s.zone, Numeral.decimal s.port.toNat) := by
  have hopen : '[' ∉ s.ip.render := Ip.notMem_render (by decide) (by decide) (by decide)
  have hclose : ']' ∉ s.ip.render := Ip.notMem_render (by decide) (by decide) (by decide)
  obtain ⟨hzopen, hzclose⟩ := s.bracket_notMem_zone
  rw [render_eq, (Target.apart_decimal (by simp [hopen, hzopen]) (by simp [hclose, hzclose])
    s.port.toNat).split?_eq]

namespace Target

/-- **Targets are taken apart as they were put together.** A host without brackets and a port come
back from their target. The target of such a host, alone or in brackets, is always taken apart: into
the host's own port if it has one, else into the host and port 80; and to make a target of it again
changes nothing. Every socket address comes back as its IP address with its zone, and its port.
Every server name without brackets or a port of its own comes back with the port of the place that
the connection was headed for, 443 if there is none. -/
theorem round_trips :
    (∀ (host : Text) (port : UInt16), '[' ∉ host → ']' ∉ host →
      split? (join host port.toNat) = some (host, Numeral.decimal port.toNat) ∧
      Target.host (join host port.toNat) = host) ∧
    (∀ host : Text, '[' ∉ host → ']' ∉ host →
      split? (ofHost host) = some ((split? host).getD (host, Numeral.decimal httpPort)) ∧
      ofHost (ofHost host) = ofHost host ∧
      split? (ofHost ('[' :: host ++ [']'])) = some (host, Numeral.decimal httpPort) ∧
      ofHost (ofHost ('[' :: host ++ [']'])) = ofHost ('[' :: host ++ [']'])) ∧
    (∀ s : Socket, split? s.render = some (s.ip.render ++ s.zone, Numeral.decimal s.port.toNat)) ∧
    ∀ (name : Text) (dst : Option Socket), name ≠ [] → '[' ∉ name → ']' ∉ name → ¬ HasPort name →
      ∃ target, ofServerName (some name) dst = some target ∧
        split? target = some (name, Numeral.decimal (serverPort dst)) := by
  refine ⟨fun host port hopen hclose => ?_, fun host hopen hclose => ?_, Socket.split?_render,
    fun name dst hne hopen hclose hport => ?_⟩
  · exact ⟨split?_join hopen hclose port.toNat, host_join hopen hclose port.toNat⟩
  · have hplain := split?_ofHost hopen hclose
    have hbrackets := split?_ofHost_brackets hopen hclose
    exact ⟨hplain, ofHost_ofHost hplain, hbrackets, ofHost_ofHost hbrackets⟩
  · have hsplit : split? name = none := by
      rwa [← isSome_split?_iff hopen, Option.not_isSome_iff_eq_none] at hport
    exact ⟨join name (serverPort dst), ofServerName_eq_join hne hsplit dst,
      split?_join hopen hclose _⟩

/-- An empty host, an IPv6 host in brackets, a mapped address with a zone, and a server name that
ends in a colon. -/
theorem round_trips_odd :
    split? (join [] (0 : UInt16).toNat) = some ([], ['0']) ∧
      split? (ofHost "[fe80::1%3]".toList) = some ("fe80::1%3".toList, ['8', '0']) ∧
      split? (Socket.render ⟨.v6 (.ofIpv4 ⟨10, 0, 0, 1⟩), 443, 7⟩) =
        some ("::ffff:10.0.0.1%7".toList, ['4', '4', '3']) ∧
      ∃ target, ofServerName (some ['a', ':']) (some ⟨.v4 ⟨10, 0, 0, 1⟩, 0, 0⟩) = some target ∧
        split? target = some (['a', ':'], ['4', '4', '3']) := by
  obtain ⟨hjoin, hhost, hsocket, hname⟩ := round_trips
  refine ⟨(hjoin [] 0 (by decide) (by decide)).1, ?_, hsocket _, ?_⟩
  · exact (hhost "fe80::1%3".toList (by decide) (by decide)).2.2.1
  · refine hname ['a', ':'] _ (by decide) (by decide) (by decide) ?_
    rintro ⟨host, port, hparts, hcolon, -, hport⟩
    obtain ⟨rfl, rfl⟩ : host = ['a'] ∧ port = [] := by
      have hcut : cutFirst ':' ['a', ':'] = some (host, port) := cutFirst_eq_some.2 ⟨hparts, hcolon⟩
      simpa [cutFirst, eq_comm] using hcut
    exact hport rfl

end Target

end Intercept
