import Intercept.Proofs.Http.Heads
import Intercept.Proofs.Http.Lengths

/-!
# The host of a request

A target in absolute form names the host, whatever the host fields say; for any other target the
first host field names it. The scheme may be spelled in capitals too, but only in small letters it
is looked for.

* `Authority rest host`: what stands behind `://` names that host.
* `AbsoluteForm target host`: the target is in absolute form and names that host.
* `SmallScheme target`: the scheme is spelled in small letters.
* `FieldHost fields host`: what the host fields name, if anything.
* `Hosted target fields host`: the host is the one that the request is for.

Results:
* `authority?_eq_some`: which targets are looked into, and what is found there.
* `AbsoluteForm.authority?_iff`: a host is found in an absolute form exactly when its scheme is in
  small letters.
* `hosted_iff`: when the host is the one that the request is for.
* `host_of_target`: the same for every request that is read.
-/

namespace Intercept.Http

variable {target rest host : Text} {fields : List Field}

/-! ## What a target names -/

/-- The marks that end an authority: a path, a query or a fragment begins. -/
def endsAuthority (c : Char) : Bool := c = '/' || c = '?' || c = '#'

/-- What stands behind `://` names a host: user information up to the last at sign if there is any,
the host, and what begins with a mark. -/
inductive Authority : Text → Text → Prop
  | mk {user host tail : Text} : (user = [] ∨ ∃ info, user = info ++ ['@']) → '@' ∉ host →
      host ≠ [] → (∀ c ∈ user ++ host, endsAuthority c = false) →
      (∀ c ∈ tail.head?, endsAuthority c) → Authority (user ++ host ++ tail) host

/-- A target in absolute form that names a host, with a scheme in letters of any case. -/
def AbsoluteForm (target host : Text) : Prop :=
  ∃ scheme rest, (isWord scheme "http" ∨ isWord scheme "https") ∧
    target = scheme ++ "://".toList ++ rest ∧ Authority rest host

/-- The scheme stands at the front in small letters. -/
def SmallScheme (target : Text) : Prop :=
  "http://".toList <+: target ∨ "https://".toList <+: target

/-- What stands behind the last mark, or all when there is none. -/
theorem getD_cutLast_iff {c : Char} {t x : Text} :
    ((cutLast c t).map (·.2)).getD t = x ↔
      ∃ front, t = front ++ x ∧ c ∉ x ∧ (front = [] ∨ ∃ a, front = a ++ [c]) := by
  constructor
  · rintro rfl
    cases h : cutLast c t with
    | none => exact ⟨[], rfl, cutLast_eq_none.1 h, .inl rfl⟩
    | some parts =>
      obtain ⟨ht, hx⟩ := cutLast_eq_some.1 h
      exact ⟨parts.1 ++ [c], by simpa using ht, hx, .inr ⟨parts.1, rfl⟩⟩
  · rintro ⟨front, rfl, hx, rfl | ⟨a, rfl⟩⟩
    · rw [List.nil_append, cutLast_eq_none.2 hx]
      rfl
    · have hcut : cutLast c (a ++ [c] ++ x) = some (a, x) := cutLast_eq_some.2 ⟨by simp, hx⟩
      rw [hcut]
      rfl

/-- The host behind a scheme, as it is looked for. -/
def hostBehind? (rest : Text) : Option Text :=
  let part := rest.takeWhile (!endsAuthority ·)
  let host := ((cutLast '@' part).map (·.2)).getD part
  if host.isEmpty then none else some host

/-- The host that is found is the one that is named. -/
theorem hostBehind?_eq_some : hostBehind? rest = some host ↔ Authority rest host := by
  unfold hostBehind?
  simp only [Option.ite_none_left_eq_some, Option.some.injEq, List.isEmpty_iff]
  constructor
  · rintro ⟨hne, hhost⟩
    obtain ⟨user, hpart, hat, huser⟩ := getD_cutLast_iff.1 hhost
    have hall := List.all_eq_true.1 (List.all_takeWhile (p := (!endsAuthority ·)) (l := rest))
    have hstop := List.head?_dropWhile_not (!endsAuthority ·) rest
    rw [← List.takeWhile_append_dropWhile (p := (!endsAuthority ·)) (l := rest), hpart]
    rw [hpart] at hall
    refine .mk huser hat (hhost ▸ hne) (fun c hc => by simpa using hall c hc) fun c hc => ?_
    rw [Option.mem_def] at hc
    simpa [hc] using hstop
  · rintro ⟨huser, hat, hne, hpart, htail⟩
    rename_i user tail
    have hfront : (user ++ host ++ tail).takeWhile (!endsAuthority ·) = user ++ host := by
      rw [List.takeWhile_append_of_pos fun c hc => by simp [hpart c hc]]
      cases tail with
      | nil => exact List.append_nil _
      | cons c tail =>
        rw [List.takeWhile_cons_of_neg (by simp [htail c rfl]), List.append_nil]
    rw [hfront, getD_cutLast_iff.2 ⟨user, rfl, hat, huser⟩]
    exact ⟨hne, rfl⟩

/-- A target is looked into when its scheme is spelled in small letters. -/
theorem authority?_eq_some : authority? target = some host ↔
    ∃ scheme rest, (scheme = "http".toList ∨ scheme = "https".toList) ∧
      target = scheme ++ "://".toList ++ rest ∧ Authority rest host := by
  have hmark : (fun c => c ≠ '/' && c ≠ '?' && c ≠ '#') = (!endsAuthority ·) := by
    funext c
    simp [endsAuthority]
  have hopens : authority? target = ((dropFront "http://".toList target).orElse
      fun _ => dropFront "https://".toList target).bind hostBehind? := by
    unfold authority?
    rw [hmark]
    rfl
  rw [hopens]
  simp only [Option.bind_eq_some_iff, hostBehind?_eq_some]
  constructor
  · rintro ⟨rest, hfront, hhost⟩
    cases hplain : dropFront "http://".toList target with
    | some plain =>
      rw [hplain] at hfront
      cases hfront
      exact ⟨_, rest, .inl rfl, dropFront_eq_some.1 hplain, hhost⟩
    | none =>
      rw [hplain] at hfront
      exact ⟨_, rest, .inr rfl, dropFront_eq_some.1 hfront, hhost⟩
  · rintro ⟨scheme, rest, rfl | rfl, rfl, hhost⟩
    · exact ⟨rest, rfl, hhost⟩
    · exact ⟨rest, rfl, hhost⟩

theorem colon_notMem_scheme {scheme : Text} (h : isWord scheme "http" ∨ isWord scheme "https") :
    ':' ∉ scheme := by
  intro hcolon
  have hmem : ':' ∈ scheme.map Char.toLower := List.mem_map.2 ⟨':', hcolon, by decide⟩
  rcases h with h | h
  · rw [of_decide_eq_true h] at hmem
    exact absurd hmem (by decide)
  · rw [of_decide_eq_true h] at hmem
    exact absurd hmem (by decide)

/-- A target has one scheme at the most. -/
theorem scheme_unique {scheme scheme' rest rest' : Text} (hscheme : ':' ∉ scheme)
    (hscheme' : ':' ∉ scheme')
    (h : scheme ++ "://".toList ++ rest = scheme' ++ "://".toList ++ rest') :
    scheme = scheme' ∧ rest = rest' := by
  have hcut {s r : Text} (hs : ':' ∉ s) :
      cutFirst ':' (s ++ "://".toList ++ r) = some (s, "//".toList ++ r) :=
    cutFirst_eq_some.2 ⟨by simp, hs⟩
  have hparts := hcut hscheme (r := rest)
  rw [h, hcut hscheme', Option.some.injEq, Prod.mk.injEq] at hparts
  exact ⟨hparts.1.symm, (List.append_cancel_left hparts.2).symm⟩

/-- What is found is named in absolute form. -/
theorem absoluteForm_of_authority? (h : authority? target = some host) :
    AbsoluteForm target host ∧ SmallScheme target := by
  obtain ⟨scheme, rest, rfl | rfl, rfl, hhost⟩ := authority?_eq_some.1 h
  · exact ⟨⟨_, rest, .inl (by decide), rfl, hhost⟩, .inl ⟨rest, rfl⟩⟩
  · exact ⟨⟨_, rest, .inr (by decide), rfl, hhost⟩, .inr ⟨rest, rfl⟩⟩

/-- The host of an absolute form is found exactly when the scheme is in small letters. -/
theorem AbsoluteForm.authority?_iff (h : AbsoluteForm target host) :
    authority? target = some host ↔ SmallScheme target := by
  refine ⟨fun hfound => (absoluteForm_of_authority? hfound).2, fun hsmall => ?_⟩
  obtain ⟨scheme, rest, hscheme, rfl, hhost⟩ := h
  rw [authority?_eq_some]
  have hcolon := colon_notMem_scheme hscheme
  rcases hsmall with ⟨rest', hfront⟩ | ⟨rest', hfront⟩
  · have hplain : ':' ∉ "http".toList := by decide
    obtain ⟨rfl, rfl⟩ := scheme_unique hplain hcolon hfront
    exact ⟨_, _, .inl rfl, rfl, hhost⟩
  · have hsecure : ':' ∉ "https".toList := by decide
    obtain ⟨rfl, rfl⟩ := scheme_unique hsecure hcolon hfront
    exact ⟨_, _, .inr rfl, rfl, hhost⟩

/-! ## What the fields name -/

/-- The host fields name what the first of them has for its value, without the blanks around it,
when that is text and not empty, and nothing otherwise. -/
def FieldHost (fields : List Field) (host : Option Text) : Prop :=
  ∀ t, host = some t ↔ ∃ v text, (fieldValues "host" fields).head? = some v ∧
    Utf8.decode? v = some text ∧ Text.trim text = t ∧ t ≠ []

theorem fieldHost_iff {host : Option Text} : FieldHost fields host ↔
    host = (fieldText? fields "host").filter (!·.isEmpty) := by
  have htext (t : Text) : (fieldText? fields "host").filter (!·.isEmpty) = some t ↔
      ∃ v text, (fieldValues "host" fields).head? = some v ∧ Utf8.decode? v = some text ∧
        Text.trim text = t ∧ t ≠ [] := by
    simp only [fieldText?_eq, Option.filter_eq_some_iff, Option.map_eq_some_iff,
      Option.bind_eq_some_iff, Bool.not_eq_true', List.isEmpty_eq_false_iff]
    constructor
    · rintro ⟨⟨text, ⟨v, hv, hd⟩, ht⟩, hne⟩
      exact ⟨v, text, hv, hd, ht, hne⟩
    · rintro ⟨v, text, hv, hd, ht, hne⟩
      exact ⟨⟨text, ⟨v, hv, hd⟩, ht⟩, hne⟩
  constructor
  · intro h
    exact Option.ext fun t => (h t).trans (htext t).symm
  · rintro rfl
    exact htext

/-! ## The host of a request -/

/-- The host is the one that a request is for: the one that its target names, and else the one that
its host fields name. -/
structure Hosted (target : Text) (fields : List Field) (host : Option Text) : Prop where
  named : ∀ a, AbsoluteForm target a → host = some a
  field : (∀ a, ¬ AbsoluteForm target a) → FieldHost fields host

/-- The host is the one that the request is for exactly when a host in absolute form comes with a
scheme in small letters, or the host fields name it as well. -/
theorem hosted_iff : Hosted target fields (Request.hostOf target fields) ↔
    ∀ a, AbsoluteForm target a → SmallScheme target ∨ FieldHost fields (some a) := by
  unfold Request.hostOf
  cases hfound : authority? target with
  | some b =>
    obtain ⟨habsolute, hsmall⟩ := absoluteForm_of_authority? hfound
    refine iff_of_true ⟨fun a ha => ?_, fun hnone => absurd habsolute (hnone b)⟩
      fun a _ => .inl hsmall
    exact hfound.symm.trans (ha.authority?_iff.2 hsmall)
  | none =>
    have hlarge {a : Text} (ha : AbsoluteForm target a) : ¬ SmallScheme target := by
      rw [← ha.authority?_iff, hfound]
      nofun
    constructor
    · intro hhosted a ha
      exact .inr (fieldHost_iff.2 (hhosted.named a ha).symm)
    · intro h
      refine ⟨fun a ha => ?_, fun _ => fieldHost_iff.2 rfl⟩
      exact (fieldHost_iff.1 ((h a ha).resolve_left (hlarge ha))).symm

/-- **Which host a request is for.** Of every request that is read, however its bytes came, the host
is the one that its target names in absolute form, and the one that its first host field names when
it names none, exactly when the scheme of an absolute form is spelled in small letters or the first
host field names the same host. -/
theorem host_of_target {limit : Nat} {r : Reader} {q : Request}
    (hq : (r.readRequest limit).result = .ok q) :
    ∃ lines rest, scanRequest (fieldSlots q.raw) q.raw = .done lines rest ∧
      Utf8.decode? lines.target = some q.target ∧
      (Hosted q.target lines.fields q.host ↔
        ∀ a, AbsoluteForm q.target a → SmallScheme q.target ∨ FieldHost lines.fields (some a)) := by
  obtain ⟨lines, rest, hscan, hmade⟩ :=
    Request.says_of_ofRaw? (Reader.readRequest_eq_ok.1 hq).2
  refine ⟨lines, rest, hscan, hmade.target, ?_⟩
  rw [hmade.host]
  exact hosted_iff

/-- A reader to which a request for a target comes in one piece, with a host field. -/
def askingReader (target field : String) : Reader where
  stream := .ofSource
    { events := [⟨0, .data (ascii "GET " ++ ascii target ++ ascii " HTTP/1.1\r\nHost: " ++
        ascii field ++ ascii "\r\n\r\n")⟩] }

/-- The request that is read there. -/
def askedRequest (target field host : String) : Request where
  raw := (askingReader target field).bytes
  method := "GET".toList
  target := target.toList
  host := some host.toList
  framing := .empty

/-- The lines of its head. -/
def askedLines (target field : String) : RequestLines :=
  ⟨ascii "GET", ascii target, 1, [⟨ascii "Host", ascii field⟩]⟩

/-- User information and a query are left out, and the host field does not count. -/
theorem host_of_target_user :
    ((askingReader "http://me@a.test:81?b@c" "d.test").readRequest 10).result =
        .ok (askedRequest "http://me@a.test:81?b@c" "d.test" "a.test:81") ∧
      ∃ lines rest, scanRequest (fieldSlots (askingReader "http://me@a.test:81?b@c" "d.test").bytes)
          (askingReader "http://me@a.test:81?b@c" "d.test").bytes = .done lines rest ∧
        Hosted "http://me@a.test:81?b@c".toList lines.fields (some "a.test:81".toList) := by
  have hq : ((askingReader "http://me@a.test:81?b@c" "d.test").readRequest 10).result =
      .ok (askedRequest "http://me@a.test:81?b@c" "d.test" "a.test:81") := by decide +kernel
  obtain ⟨lines, rest, hscan, -, hhosted⟩ := host_of_target hq
  exact ⟨hq, lines, rest, hscan, hhosted.2 fun _ _ => .inl (.inl ⟨_, rfl⟩)⟩

/-- With the scheme in capitals the host field counts, though the target names another host. -/
theorem host_of_target_capitals :
    ((askingReader "HTTP://a.test/" "b.test").readRequest 10).result =
        .ok (askedRequest "HTTP://a.test/" "b.test" "b.test") ∧
      scanRequest (fieldSlots (askingReader "HTTP://a.test/" "b.test").bytes)
        (askingReader "HTTP://a.test/" "b.test").bytes =
          .done (askedLines "HTTP://a.test/" "b.test") [] ∧
      AbsoluteForm "HTTP://a.test/".toList "a.test".toList ∧
      ¬ Hosted "HTTP://a.test/".toList (askedLines "HTTP://a.test/" "b.test").fields
        (some "b.test".toList) := by
  have hnamed : AbsoluteForm "HTTP://a.test/".toList "a.test".toList :=
    ⟨"HTTP".toList, "a.test/".toList, .inl (by decide), rfl,
      hostBehind?_eq_some.1 (by decide +kernel)⟩
  refine ⟨by decide +kernel, by decide +kernel, hnamed, fun hhosted => ?_⟩
  exact absurd (hhosted.named _ hnamed) (by decide)

end Intercept.Http
