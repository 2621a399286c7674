import Intercept.Net.Target
import Intercept.Proofs.Net.Ip
import Intercept.Proofs.Text.LowerCase

/-!
# Targets and their parts

A target is a host, in brackets if it has colons, a colon and a port. It is taken apart again where
it was put together; a host alone or with an empty port is not taken apart.

* `Target.bracketed`: the host as a target spells it.
* `Target.Apart`: a host and a port that a target keeps apart, in lower case too.

Results:
* `Apart.split?_eq`, `split?_join`, `host_join`: a target is taken apart where it was joined.
* `Apart.toLower_eq`, `toLower_join`: lower case of a target is that of its host.
* `host_alone`, `host_brackets`, `ofHost_colon`: what comes of a host without a port, or with an
  empty one.
* `Socket.render_eq`, `Socket.render_eq_join`: a socket address is printed as a target.
-/

namespace Intercept

namespace Target

variable {host port : Text}

/-- A host as a target spells it, in brackets if it has colons. -/
def bracketed (host : Text) : Text := if ':' ∈ host then '[' :: host ++ [']'] else host

theorem join_eq (host : Text) (port : Nat) :
    join host port = bracketed host ++ ':' :: Numeral.decimal port := by
  unfold join bracketed
  split_ifs
  · simp
  · rfl

theorem split?_cons (t : Text) : split? ('[' :: t) = (cutFirst ']' t).bind fun (host, tail) =>
    (dropFront [':'] tail).bind fun port => if port.isEmpty then none else some (host, port) := rfl

theorem split?_of_ne {t : Text} (ht : t.head? ≠ some '[') :
    split? t = (cutLast ':' t).bind fun (host, port) =>
      if ':' ∈ host ∨ port.isEmpty then none else some (host, port) := by
  unfold split?
  split
  next => exact absurd rfl ht
  next => rfl

/-- A host and a port that a target keeps apart, in lower case too. -/
structure Apart (host port : Text) : Prop where
  noOpening : '[' ∉ host
  noClosing : ']' ∉ host
  nonempty : port ≠ []
  colon : ':' ∉ host → ':' ∉ port
  noWord : port.startsCased = false
  lowered : port.Lowered

theorem Apart.of_digits (hopen : '[' ∉ host) (hclose : ']' ∉ host) (hport : port ≠ [])
    (hdigits : port.Digits) : Apart host port :=
  ⟨hopen, hclose, hport, fun _ => hdigits.notMem (by decide), hdigits.startsCased, hdigits.lowered⟩

/-- **A host and a port are taken apart where they were joined.** -/
theorem Apart.split?_eq (h : Apart host port) :
    split? (bracketed host ++ ':' :: port) = some (host, port) := by
  unfold bracketed
  split_ifs with hhost
  · have hcut : cutFirst ']' (host ++ [']'] ++ ':' :: port) = some (host, ':' :: port) :=
      cutFirst_eq_some.2 ⟨by simp, h.noClosing⟩
    rw [List.cons_append, List.cons_append, split?_cons, hcut]
    simp [dropFront, h.nonempty]
  · have hstart : (host ++ ':' :: port).head? ≠ some '[' := by
      cases host with
      | nil => simp
      | cons c host =>
        rintro ⟨⟩
        exact h.noOpening List.mem_cons_self
    have hcut : cutLast ':' (host ++ ':' :: port) = some (host, port) :=
      cutLast_eq_some.2 ⟨rfl, h.colon hhost⟩
    rw [split?_of_ne hstart, hcut]
    simp [hhost, h.nonempty]

/-- Lower case leaves a port as it is, and the colon keeps it from what stands in front. -/
theorem toLower_port (hstart : port.startsCased = false) (hport : port.Lowered) (t : Text) :
    Text.toLower (t ++ ':' :: port) = Text.toLower t ++ ':' :: port :=
  Text.toLower_append_lowered (Text.startsCased_mark (by decide) hstart)
    (Text.lowered_mark (by decide) hport) t

theorem toLower_bracketed (host : Text) :
    Text.toLower (bracketed host) = bracketed (Text.toLower host) := by
  have hcolon : ':' ∈ Text.toLower host ↔ ':' ∈ host := Text.mem_toLower_mark (by decide)
  have hclose (t : Text) : Text.toLower (t ++ [']']) = Text.toLower t ++ [']'] :=
    Text.toLower_append_lowered (Text.startsCased_mark (by decide) rfl)
      (Text.lowered_mark (by decide) (List.forall_mem_nil _)) t
  unfold bracketed
  simp only [hcolon]
  split_ifs
  · rw [List.cons_append, Text.toLower_mark (by decide), hclose, List.cons_append]
  · rfl

theorem Apart.toLower (h : Apart host port) : Apart (Text.toLower host) port where
  noOpening := mt (Text.mem_toLower_mark (by decide)).1 h.noOpening
  noClosing := mt (Text.mem_toLower_mark (by decide)).1 h.noClosing
  nonempty := h.nonempty
  colon := fun hhost => h.colon (mt (Text.mem_toLower_mark (by decide)).2 hhost)
  noWord := h.noWord
  lowered := h.lowered

theorem Apart.toLower_eq (h : Apart host port) :
    Text.toLower (bracketed host ++ ':' :: port) = bracketed (Text.toLower host) ++ ':' :: port := by
  rw [toLower_port h.noWord h.lowered, toLower_bracketed]

/-! ## Joined targets -/

theorem apart_decimal (hopen : '[' ∉ host) (hclose : ']' ∉ host) (port : Nat) :
    Apart host (Numeral.decimal port) :=
  .of_digits hopen hclose Nat.toDigits_ne_nil (Text.digits_decimal port)

theorem split?_join (hopen : '[' ∉ host) (hclose : ']' ∉ host) (port : Nat) :
    split? (join host port) = some (host, Numeral.decimal port) := by
  rw [join_eq, (apart_decimal hopen hclose port).split?_eq]

theorem host_join (hopen : '[' ∉ host) (hclose : ']' ∉ host) (port : Nat) :
    Target.host (join host port) = host := by
  rw [Target.host, split?_join hopen hclose port]

/-- **The lower-case form of a target** is the target of the host in lower case. -/
theorem toLower_join (host : Text) (port : Nat) :
    Text.toLower (join host port) = join (Text.toLower host) port := by
  have hdigits := Text.digits_decimal port
  rw [join_eq, join_eq, toLower_port hdigits.startsCased hdigits.lowered, toLower_bracketed]

/-! ## Hosts without a port -/

theorem host_of_unsplit {t : Text} (h : split? t = none) :
    Target.host t = ((t.dropWhile (· = '[')).reverse.dropWhile (· = ']')).reverse := by
  rw [Target.host, h]

theorem ofHost_of_split {t : Text} {parts : Text × Text} (h : split? t = some parts) :
    ofHost t = t := by
  rw [ofHost, h]
  rfl

theorem ofHost_of_unsplit {t : Text} (h : split? t = none) :
    ofHost t = join (Target.host t) httpPort := by
  rw [ofHost, h]
  rfl

theorem dropWhile_of_notMem {c : Char} {t : Text} (h : c ∉ t) : t.dropWhile (· = c) = t := by
  cases t with
  | nil => rfl
  | cons x t => exact List.dropWhile_cons_of_neg (by simpa using Ne.symm (List.ne_of_not_mem_cons h))

/-- Brackets without a port behind them are no target, whatever host is in them. -/
theorem split?_brackets (hclose : ']' ∉ host) : split? ('[' :: host ++ [']']) = none := by
  have hcut : cutFirst ']' (host ++ [']']) = some (host, []) := cutFirst_eq_some.2 ⟨rfl, hclose⟩
  rw [List.cons_append, split?_cons, hcut]
  rfl

theorem split?_alone (hopen : '[' ∉ host) (hclose : ']' ∉ host) : split? (bracketed host) = none := by
  unfold bracketed
  split_ifs with hcolon
  · exact split?_brackets hclose
  · rw [split?_of_ne (fun h => hopen (List.mem_of_head? h)), cutLast_eq_none.2 hcolon]
    rfl

theorem split?_colon (hopen : '[' ∉ host) (hclose : ']' ∉ host) :
    split? (bracketed host ++ [':']) = none := by
  unfold bracketed
  split_ifs with hcolon
  · have hcut : cutFirst ']' (host ++ [']'] ++ [':']) = some (host, [':']) :=
      cutFirst_eq_some.2 ⟨by simp, hclose⟩
    rw [List.cons_append, List.cons_append, split?_cons, hcut]
    rfl
  · have hstart : '[' ∉ host ++ [':'] := by simp [hopen]
    have hcut : cutLast ':' (host ++ [':']) = some (host, []) :=
      cutLast_eq_some.2 ⟨rfl, List.not_mem_nil⟩
    rw [split?_of_ne (fun h => hstart (List.mem_of_head? h)), hcut]
    simp

/-- Without a port the brackets are taken off. -/
theorem host_brackets (hopen : '[' ∉ host) (hclose : ']' ∉ host) :
    Target.host ('[' :: host ++ [']']) = host := by
  have hfront : '[' ∉ host ++ [']'] := by simp [hopen]
  have hback : ']' ∉ host.reverse := by simpa using hclose
  rw [host_of_unsplit (split?_brackets hclose), List.cons_append, List.dropWhile_cons_of_pos rfl,
    dropWhile_of_notMem hfront, List.reverse_concat, List.dropWhile_cons_of_pos rfl,
    dropWhile_of_notMem hback, List.reverse_reverse]

theorem host_plain {t : Text} (hopen : '[' ∉ t) (hclose : ']' ∉ t) (h : split? t = none) :
    Target.host t = t := by
  have hback : ']' ∉ t.reverse := by simpa using hclose
  rw [host_of_unsplit h, dropWhile_of_notMem hopen, dropWhile_of_notMem hback, List.reverse_reverse]

theorem host_alone (hopen : '[' ∉ host) (hclose : ']' ∉ host) :
    Target.host (bracketed host) = host := by
  have halone := split?_alone hopen hclose
  unfold bracketed at halone ⊢
  split_ifs at halone ⊢
  · exact host_brackets hopen hclose
  · exact host_plain hopen hclose halone

/-- With a colon in their place the closing one stays. -/
theorem host_colon (hopen : '[' ∉ host) (hclose : ']' ∉ host) :
    Target.host (bracketed host ++ [':']) =
      (if ':' ∈ host then host ++ [']'] else host) ++ [':'] := by
  have hkept (t : Text) :
      ((t ++ [':']).reverse.dropWhile (· = ']')).reverse = t ++ [':'] := by
    rw [List.reverse_concat, List.dropWhile_cons_of_neg (by decide), ← List.reverse_concat,
      List.reverse_reverse]
  rw [host_of_unsplit (split?_colon hopen hclose)]
  unfold bracketed
  split_ifs
  · have hfront : '[' ∉ host ++ [']'] ++ [':'] := by simp [hopen]
    rw [List.cons_append, List.cons_append, List.dropWhile_cons_of_pos rfl,
      dropWhile_of_notMem hfront, hkept]
  · have hfront : '[' ∉ host ++ [':'] := by simp [hopen]
    rw [dropWhile_of_notMem hfront, hkept]

/-- The target of a host with an empty port. The colon makes it an IPv6 host, with brackets. -/
theorem ofHost_colon (hopen : '[' ∉ host) (hclose : ']' ∉ host) :
    ofHost (bracketed host ++ [':']) =
      if ':' ∈ host then bracketed host ++ ':' :: ']' :: ':' :: Numeral.decimal httpPort
      else bracketed (host ++ [':']) ++ ':' :: Numeral.decimal httpPort := by
  rw [ofHost_of_unsplit (split?_colon hopen hclose), host_colon hopen hclose, join_eq]
  split_ifs with hcolon
  · have hlonger : ':' ∈ host ++ [']'] ++ [':'] := by simp
    simp [bracketed, hcolon]
  · rfl

end Target

theorem Ip.lowered_render (addr : Ip) : addr.render.Lowered := by
  intro c hc
  obtain ⟨d, hd, rfl⟩ | rfl | rfl := Ip.mem_render hc
  · exact Text.lowered_digitChar hd
  · decide
  · decide

theorem Ipv4.colon_notMem_render (q : Ipv4) : ':' ∉ q.render := by
  intro hc
  obtain ⟨d, hd, hcolon⟩ | hdot := Ipv4.mem_render hc
  · exact (by decide : ∀ d < 10, ':' ≠ Nat.digitChar d) d hd hcolon
  · exact absurd hdot (by decide)

namespace Socket

/-- The zone behind the IP address, if there is one. -/
def zone (s : Socket) : Text :=
  match s.ip with
  | .v4 _ => []
  | .v6 _ => if s.scope = 0 then [] else '%' :: Numeral.decimal s.scope.toNat

variable (s : Socket)

theorem renderHost_eq : s.renderHost = s.ip.render ++ s.zone := by
  obtain ⟨ip, port, scope⟩ := s
  cases ip with
  | v4 q => exact (List.append_nil _).symm
  | v6 addr =>
    simp only [renderHost, zone, Ip.render]
    split_ifs
    · exact (List.append_nil _).symm
    · rfl

/-- A socket address is printed as a target, with its IP address and zone for the host. -/
theorem render_eq : s.render =
    Target.bracketed (s.ip.render ++ s.zone) ++ ':' :: Numeral.decimal s.port.toNat := by
  rw [← renderHost_eq]
  obtain ⟨ip, port, scope⟩ := s
  cases ip with
  | v4 q =>
    have hhost : Target.bracketed (renderHost ⟨.v4 q, port, scope⟩) = q.render :=
      if_neg q.colon_notMem_render
    rw [hhost]
    rfl
  | v6 addr =>
    have hcolon : ':' ∈ renderHost ⟨.v6 addr, port, scope⟩ := by
      obtain ⟨front, middle, back, hrender, -⟩ := addr.render_colons
      rw [renderHost_eq]
      simp [Ip.render, hrender]
    rw [Target.bracketed, if_pos hcolon]
    rfl

theorem zone_of_unscoped {s : Socket} (hscope : s.scope = 0) : s.zone = [] := by
  unfold zone
  split
  · rfl
  · exact if_pos hscope

/-- A socket address is printed as its IP address and port are joined. -/
theorem render_eq_join (hscope : s.scope = 0) :
    s.render = Target.join s.ip.render s.port.toNat := by
  rw [render_eq, zone_of_unscoped hscope, List.append_nil, Target.join_eq]

end Socket

end Intercept
