import Intercept.Proofs.Tls.Encoding

/-!
# What the reader of server names accepts

The grammar of a handshake record with a ClientHello in it, in terms of the writer of
`Encoding.lean`. A field with a length of its own lies inside the field around it and need not fill
it: behind it any bytes may stand.

* `FirstHostName names host`, `NamesHost data name`: what a list of names and a server name
  extension have to hold.
* `FirstServerName block data`, `NoServerName block`: the first server name extension of a block.
* `HasTail hello tail`, `HasBlock hello block`: what stands behind the compression methods of a
  hello, and its extensions.
* `CarriesHello record hello`, and in the same way `CarriesBlock`, `CarriesServerName`,
  `CarriesNames` and `CarriesHostName`: a part of a record, from the outermost to the innermost.
* `Decides`: records with the same part read the same.

Results:
* `vector8?_eq_some`, `vector16?_eq_some`: a field is read exactly where one was written.
* `hostName?_eq_some`: the loop over names finds the first host name, and nothing else.
* `nameOfExtensions_cases`, `nameOfHello_cases`, `serverName?_cases`: what does not follow the
  grammar is refused.
* `serverName_exact`: when a record names a server, when it names none and when its name is invalid;
  and which bytes do not matter.
-/

namespace Intercept.Tls

variable {n : Nat} {b x r : Bytes}

/-! ## Fields -/

theorem pair_number (hi lo : UInt8) : pair (number hi lo) = [hi, lo] := by
  have hhi : UInt8.ofNat ((hi.toNat * 256 + lo.toNat) / 256) = hi := by
    rw [show (hi.toNat * 256 + lo.toNat) / 256 = hi.toNat by have := lo.toNat_lt; omega,
      UInt8.ofNat_toNat]
  have hlo : UInt8.ofNat (hi.toNat * 256 + lo.toNat) = lo := by
    rw [← UInt8.toNat_inj, UInt8.toNat_ofNat']
    have := lo.toNat_lt
    omega
  rw [pair, number, hhi, hlo]

theorem number_lt (hi lo : UInt8) : number hi lo < 65536 := by
  have := hi.toNat_lt
  have := lo.toNat_lt
  unfold number
  omega

theorem number?_eq_some : number? b = some (n, r) ↔ n < 65536 ∧ b = pair n ++ r := by
  constructor
  · intro h
    match b with
    | [] => cases h
    | [_] => cases h
    | hi :: lo :: _ =>
      cases h
      exact ⟨number_lt hi lo, by rw [pair_number]; rfl⟩
  · rintro ⟨hlt, rfl⟩
    simp only [pair, List.cons_append, List.nil_append, number?, number_pair hlt]

/-- A field is read exactly where one was written. -/
theorem vector8?_eq_some : vector8? b = some (x, r) ↔ x.length < 256 ∧ b = vector8 x ++ r := by
  constructor
  · intro h
    cases b with
    | nil => cases h
    | cons l b =>
      obtain ⟨rfl, hlength⟩ := split?_eq_some.1 (show split? l.toNat b = some (x, r) from h)
      refine ⟨hlength ▸ l.toNat_lt, ?_⟩
      rw [vector8, hlength, UInt8.ofNat_toNat, List.cons_append]
  · rintro ⟨hlt, rfl⟩
    exact vector8?_vector8 hlt r

/-- A field is read exactly where one was written. -/
theorem vector16?_eq_some :
    vector16? b = some (x, r) ↔ x.length < 65536 ∧ b = vector16 x ++ r := by
  constructor
  · intro h
    simp only [vector16?, Option.bind_eq_bind, Option.bind_eq_some_iff] at h
    obtain ⟨⟨n, rest⟩, hn, hsplit⟩ := h
    obtain ⟨hlt, rfl⟩ := number?_eq_some.1 hn
    obtain ⟨rfl, rfl⟩ := split?_eq_some.1 hsplit
    exact ⟨hlt, by rw [vector16, List.append_assoc]⟩
  · rintro ⟨hlt, rfl⟩
    exact vector16?_vector16 hlt r

/-- Bytes behind their length in three bytes. -/
def vector24 (x : Bytes) : Bytes := UInt8.ofNat (x.length / 65536) :: (pair x.length ++ x)

/-! ## Host names -/

/-- The first host name in a list of names is `host`: names of other types stand in front of it, and
anything behind. -/
def FirstHostName (names host : Bytes) : Prop :=
  ∃ (others : List NameEntry) (behind : Bytes),
    (∀ entry ∈ others, entry.type ≠ 0 ∧ entry.name.length < 65536) ∧ host.length < 65536 ∧
      names = others.flatMap NameEntry.encode ++ ((⟨0, host⟩ : NameEntry).encode ++ behind)

/-- The loop over names finds the first host name, and nothing else. -/
theorem hostName?_eq_some {names host : Bytes} :
    hostName? names = some host ↔ FirstHostName names host := by
  constructor
  · intro h
    fun_induction hostName? names with
    | case1 => cases h
    | case2 => cases h
    | case3 r name rest hr =>
      cases h
      obtain ⟨hlt, rfl⟩ := vector16?_eq_some.1 hr
      exact ⟨[], rest, by simp, hlt, rfl⟩
    | case4 type r name rest hr htype ih =>
      obtain ⟨others, behind, hothers, hhost, rfl⟩ := ih h
      obtain ⟨hlt, rfl⟩ := vector16?_eq_some.1 hr
      refine ⟨⟨type, name⟩ :: others, behind, ?_, hhost, ?_⟩
      · exact List.forall_mem_cons.2 ⟨⟨htype, hlt⟩, hothers⟩
      · simp [NameEntry.encode]
  · rintro ⟨others, behind, hothers, hhost, rfl⟩
    induction others with
    | nil => exact (hostName?_cons hhost behind).trans (if_pos rfl)
    | cons entry others ih =>
      obtain ⟨hentry, hothers⟩ := List.forall_mem_cons.1 hothers
      rw [List.flatMap_cons, List.append_assoc, hostName?_cons hentry.2, if_neg hentry.1]
      exact ih hothers

/-- The data of a server name extension: a list of names, whose first host name is the text; behind
the list anything may stand. -/
def NamesHost (data : Bytes) (name : Text) : Prop :=
  ∃ names behind, names.length < 65536 ∧ data = vector16 names ++ behind ∧
    FirstHostName names (Utf8.encode name)

/-- An extension names a server exactly when its list of names does. -/
theorem nameOfExtension_eq_ok {data : Bytes} {name : Text} :
    nameOfExtension data = .ok name ↔ NamesHost data name := by
  have hread : nameOfExtension data = .ok name ↔
      ∃ field, vector16? data = some field ∧ (hostName? field.1).bind Utf8.decode? = some name := by
    rw [nameOfExtension]
    cases vector16? data with
    | none => simp
    | some field =>
      simp only [Option.bind_some, Option.some.injEq, exists_eq_left']
      cases (hostName? field.1).bind Utf8.decode? <;> simp
  simp only [hread, Prod.exists, Option.bind_eq_some_iff, hostName?_eq_some,
    Utf8.decode?_eq_some_iff]
  constructor
  · rintro ⟨names, behind, hnames, _, hhost, rfl⟩
    obtain ⟨hlt, rfl⟩ := vector16?_eq_some.1 hnames
    exact ⟨names, behind, hlt, rfl, hhost⟩
  · rintro ⟨names, behind, hlt, rfl, hhost⟩
    exact ⟨names, behind, vector16?_vector16 hlt behind, _, hhost, rfl⟩

/-- There is no other error than that of a malformed list of names. -/
theorem nameOfExtension_eq_error {data : Bytes} {e : Error} :
    nameOfExtension data = .error e ↔ e = .invalidName ∧ ∀ name, ¬ NamesHost data name := by
  simp only [← nameOfExtension_eq_ok]
  unfold nameOfExtension
  split
  · simp
  · simp [eq_comm]

/-! ## Extensions -/

/-- Extensions of other types than server names. -/
def NoServerNames (others : List Extension) : Prop :=
  ∀ ext ∈ others, ext.type ≠ 0 ∧ ext.data.length < 65536

/-- The first server name extension of a block holds `data`: extensions of other types stand in
front of it, and anything behind. -/
def FirstServerName (block data : Bytes) : Prop :=
  ∃ others behind, NoServerNames others ∧ data.length < 65536 ∧
    block = others.flatMap Extension.encode ++ ((⟨0, data⟩ : Extension).encode ++ behind)

/-- A block holds extensions of other types only, and behind them less than the header of one. -/
def NoServerName (block : Bytes) : Prop :=
  ∃ others behind, NoServerNames others ∧ behind.length < 4 ∧
    block = others.flatMap Extension.encode ++ behind

theorem nameOfExtensions_append {others : List Extension} (h : NoServerNames others) (r : Bytes) :
    nameOfExtensions (others.flatMap Extension.encode ++ r) = nameOfExtensions r := by
  induction others with
  | nil => rfl
  | cons ext others ih =>
    obtain ⟨hext, hothers⟩ := List.forall_mem_cons.1 h
    rw [List.flatMap_cons, List.append_assoc, nameOfExtensions_cons hext.2, if_neg hext.1]
    exact ih hothers

theorem nameOfExtensions_of_first {block data : Bytes} (h : FirstServerName block data) :
    nameOfExtensions block = (nameOfExtension data).map some := by
  obtain ⟨others, behind, hothers, hdata, rfl⟩ := h
  rw [nameOfExtensions_append hothers, nameOfExtensions_cons hdata, if_pos rfl]

theorem nameOfExtensions_of_none {block : Bytes} (h : NoServerName block) :
    nameOfExtensions block = .ok none := by
  obtain ⟨others, behind, hothers, hshort, rfl⟩ := h
  rw [nameOfExtensions_append hothers]
  match behind with
  | [] | [_] | [_, _] | [_, _, _] =>
    rw [nameOfExtensions]
    simp

/-- What is cut off a block behind four bytes of header is an extension. -/
theorem encode_of_split? (t0 t1 : UInt8) {l0 l1 : UInt8} {r data rest : Bytes}
    (h : split? (number l0 l1) r = some (data, rest)) :
    data.length < 65536 ∧ t0 :: t1 :: l0 :: l1 :: r =
      (⟨UInt16.ofNat (number t0 t1), data⟩ : Extension).encode ++ rest := by
  obtain ⟨hlt, hbytes⟩ := vector16?_eq_some.1 (show vector16? (l0 :: l1 :: r) = _ from h)
  refine ⟨hlt, ?_⟩
  rw [Extension.encode, UInt16.toNat_ofNat_of_lt' (number_lt t0 t1), pair_number, hbytes]
  rfl

/-- A block that is not one of these breaks off in an extension. -/
theorem nameOfExtensions_cases (block : Bytes) :
    (∃ data, FirstServerName block data) ∨ NoServerName block ∨
      nameOfExtensions block = .error .truncated := by
  fun_induction nameOfExtensions block with
  | case1 => exact .inr (.inr rfl)
  | case2 t0 t1 l0 l1 r data rest hr htype =>
    obtain ⟨hlt, hbytes⟩ := encode_of_split? t0 t1 hr
    rw [htype] at hbytes
    exact .inl ⟨data, [], rest, by simp [NoServerNames], hlt, hbytes⟩
  | case3 t0 t1 l0 l1 r data rest hr htype ih =>
    obtain ⟨hlt, hbytes⟩ := encode_of_split? t0 t1 hr
    have hother : (⟨UInt16.ofNat (number t0 t1), data⟩ : Extension).type ≠ 0 := by
      intro h0
      have := congrArg UInt16.toNat h0
      rw [UInt16.toNat_ofNat_of_lt' (number_lt t0 t1)] at this
      exact htype this
    rw [hbytes]
    rcases ih with ⟨first, others, behind, hothers, hfirst, hrest⟩ |
      ⟨others, behind, hothers, hshort, hrest⟩ | htruncated
    · have hothers := List.forall_mem_cons.2 ⟨⟨hother, hlt⟩, hothers⟩
      refine .inl ⟨first, _, behind, hothers, hfirst, ?_⟩
      rw [hrest, List.flatMap_cons, List.append_assoc]
    · have hothers := List.forall_mem_cons.2 ⟨⟨hother, hlt⟩, hothers⟩
      refine .inr (.inl ⟨_, behind, hothers, hshort, ?_⟩)
      rw [hrest, List.flatMap_cons, List.append_assoc]
    · exact .inr (.inr htruncated)
  | case4 block hshort =>
    refine .inr (.inl ⟨[], block, by simp [NoServerNames], ?_, rfl⟩)
    match block with
    | [] | [_] | [_, _] | [_, _, _] => simp
    | t0 :: t1 :: l0 :: l1 :: r => exact (hshort t0 t1 l0 l1 r rfl).elim

/-! ## Hellos -/

/-- A hello is version and random, session, cipher suites and compression methods, and then
`tail`. -/
def HasTail (hello tail : Bytes) : Prop :=
  ∃ front session cipherSuites compression : Bytes,
    front.length = 34 ∧ session.length < 256 ∧ cipherSuites.length < 65536 ∧
      compression.length < 256 ∧
      hello = front ++ (vector8 session ++ (vector16 cipherSuites ++ (vector8 compression ++ tail)))

/-- The extensions of a hello are `block`; behind it anything may stand. -/
def HasBlock (hello block : Bytes) : Prop :=
  ∃ behind, block.length < 65536 ∧ HasTail hello (vector16 block ++ behind)

/-- What a hello holds behind its compression methods. -/
def helloTail? (hello : Bytes) : Option Bytes := do
  let (_, r) ← split? 34 hello
  let (_, r) ← vector8? r
  let (_, r) ← vector16? r
  let (_, r) ← vector8? r
  return r

theorem helloTail?_eq_some {hello tail : Bytes} :
    helloTail? hello = some tail ↔ HasTail hello tail := by
  simp only [helloTail?, Option.bind_eq_bind, Option.bind_eq_some_iff, Prod.exists, split?_eq_some,
    vector8?_eq_some, vector16?_eq_some, Option.pure_def, Option.some.injEq]
  constructor
  · rintro ⟨front, _, ⟨rfl, hfront⟩, session, _, ⟨hsession, rfl⟩, suites, _, ⟨hsuites, rfl⟩,
      methods, _, ⟨hmethods, rfl⟩, rfl⟩
    exact ⟨front, session, suites, methods, hfront, hsession, hsuites, hmethods, rfl⟩
  · rintro ⟨front, session, suites, methods, hfront, hsession, hsuites, hmethods, rfl⟩
    exact ⟨front, _, ⟨rfl, hfront⟩, session, _, ⟨hsession, rfl⟩, suites, _, ⟨hsuites, rfl⟩,
      methods, _, ⟨hmethods, rfl⟩, rfl⟩

theorem nameOfHello_eq (hello : Bytes) : nameOfHello hello =
    match helloTail? hello with
    | none => .error .truncated
    | some [] => .ok none
    | some r =>
      match vector16? r with
      | none => .error .truncated
      | some (block, _) => nameOfExtensions block := rfl

theorem nameOfHello_of_tail {hello : Bytes} (h : HasTail hello []) :
    nameOfHello hello = .ok none := by
  rw [nameOfHello_eq, helloTail?_eq_some.2 h]

theorem nameOfHello_of_block {hello block : Bytes} (h : HasBlock hello block) :
    nameOfHello hello = nameOfExtensions block := by
  obtain ⟨behind, hlt, htail⟩ := h
  rw [nameOfHello_eq, helloTail?_eq_some.2 htail]
  obtain ⟨b, r, hcons⟩ : ∃ b r, vector16 block ++ behind = b :: r := ⟨_, _, rfl⟩
  rw [hcons]
  simp only
  rw [← hcons, vector16?_vector16 hlt]

/-- A hello that is not one of these breaks off in a field. -/
theorem nameOfHello_cases (hello : Bytes) :
    HasTail hello [] ∨ (∃ block, HasBlock hello block) ∨ nameOfHello hello = .error .truncated := by
  rw [nameOfHello_eq]
  split
  · exact .inr (.inr rfl)
  · rename_i htail
    exact .inl (helloTail?_eq_some.1 htail)
  · rename_i r _ htail
    split
    · exact .inr (.inr rfl)
    · rename_i block behind hblock
      obtain ⟨hlt, rfl⟩ := vector16?_eq_some.1 hblock
      exact .inr (.inl ⟨block, behind, hlt, helloTail?_eq_some.1 htail⟩)

/-! ## Records -/

theorem pair_add (a : Nat) (n : Nat) : pair (a * 65536 + n) = pair n := by
  have hhi : UInt8.ofNat ((a * 65536 + n) / 256) = UInt8.ofNat (n / 256) := by
    rw [← UInt8.toNat_inj, UInt8.toNat_ofNat', UInt8.toNat_ofNat']
    omega
  have hlo : UInt8.ofNat (a * 65536 + n) = UInt8.ofNat n := by
    rw [← UInt8.toNat_inj, UInt8.toNat_ofNat', UInt8.toNat_ofNat']
    omega
  rw [pair, pair, hhi, hlo]

/-- A field behind three bytes of length is cut off exactly where one was written. -/
theorem split?_three {a b c : UInt8} {r x rest : Bytes} :
    split? (a.toNat * 65536 + number b c) r = some (x, rest) ↔
      x.length < 16777216 ∧ a :: b :: c :: r = vector24 x ++ rest := by
  have ha := a.toNat_lt
  have hnumber := number_lt b c
  rw [split?_eq_some]
  constructor
  · rintro ⟨rfl, hlength⟩
    refine ⟨by omega, ?_⟩
    have hfirst : (a.toNat * 65536 + number b c) / 65536 = a.toNat := by omega
    rw [vector24, hlength, hfirst, UInt8.ofNat_toNat, pair_add, pair_number]
    rfl
  · rintro ⟨hlt, hbytes⟩
    simp only [vector24, pair, List.cons_append, List.nil_append, List.cons.injEq] at hbytes
    obtain ⟨rfl, rfl, rfl, rfl⟩ := hbytes
    refine ⟨rfl, ?_⟩
    unfold number
    simp only [UInt8.toNat_ofNat']
    omega

/-- The handshake message that a hello is. -/
def helloMessage (hello : Bytes) : Bytes := clientHelloType :: vector24 hello

/-- The record starts with a handshake record, the body of which starts with the hello. -/
def CarriesHello (record hello : Bytes) : Prop :=
  ∃ (v0 v1 : UInt8) (behindHello behind : Bytes),
    (helloMessage hello ++ behindHello).length < 65536 ∧
    record = handshakeType :: v0 :: v1 :: (vector16 (helloMessage hello ++ behindHello) ++ behind)

theorem nameOfHandshake_append {hello behind : Bytes} (h : hello.length < 16777216) :
    nameOfHandshake (helloMessage hello ++ behind) = nameOfHello hello := by
  have hsplit : split? _ (hello ++ behind) = some (hello, behind) := split?_three.2 ⟨h, rfl⟩
  rw [helloMessage, vector24, pair]
  simp only [List.cons_append, List.nil_append, nameOfHandshake, hsplit, ne_eq, not_true_eq_false,
    if_false]

theorem serverName?_of_carries {record hello : Bytes} (h : CarriesHello record hello) :
    serverName? record = nameOfHello hello := by
  obtain ⟨v0, v1, behindHello, behind, hlt, rfl⟩ := h
  have hbody := split?_append (helloMessage hello ++ behindHello) behind
  have hhello : hello.length < 16777216 := by
    simp [helloMessage, vector24] at hlt
    omega
  rw [vector16, pair]
  simp only [List.cons_append, List.nil_append, serverName?, number_pair hlt, hbody, ne_eq,
    not_true_eq_false, if_false]
  exact nameOfHandshake_append hhello

theorem nameOfHandshake_cases (body : Bytes) :
    (∃ hello behind, body = helloMessage hello ++ behind) ∨
      ∃ e, e ≠ .invalidName ∧ nameOfHandshake body = .error e := by
  unfold nameOfHandshake
  split
  · rename_i type a b c r
    by_cases htype : type = clientHelloType
    · rw [if_neg fun h => h htype]
      split
      · exact .inr ⟨.truncated, by decide, rfl⟩
      · rename_i hello behind hsplit
        obtain ⟨-, hbytes⟩ := split?_three.1 hsplit
        exact .inl ⟨hello, behind, by rw [htype, hbytes]; rfl⟩
    · rw [if_pos htype]
      exact .inr ⟨.notClientHello, by decide, rfl⟩
  · exact .inr ⟨.truncated, by decide, rfl⟩

/-- A record that carries no hello is refused, but not for its names. -/
theorem serverName?_cases (record : Bytes) : (∃ hello, CarriesHello record hello) ∨
    ∃ e, e ≠ .invalidName ∧ serverName? record = .error e := by
  unfold serverName?
  split
  · rename_i type v0 v1 hi lo r
    by_cases htype : type = handshakeType
    · rw [if_neg fun h => h htype]
      split
      · exact .inr ⟨.truncated, by decide, rfl⟩
      · rename_i body behind hsplit
        obtain ⟨hlt, hbytes⟩ := vector16?_eq_some.1 (show vector16? (hi :: lo :: r) = _ from hsplit)
        rcases nameOfHandshake_cases body with ⟨hello, behindHello, rfl⟩ | hrefused
        · exact .inl ⟨hello, v0, v1, behindHello, behind, hlt, by rw [htype, hbytes]⟩
        · exact .inr hrefused
    · rw [if_pos htype]
      exact .inr ⟨.notHandshake, by decide, rfl⟩
  · exact .inr ⟨.truncated, by decide, rfl⟩

/-- The extensions of the hello in a record are `block`. -/
def CarriesBlock (record block : Bytes) : Prop :=
  ∃ hello, CarriesHello record hello ∧ HasBlock hello block

/-- The first server name extension of the hello in a record holds `data`. -/
def CarriesServerName (record data : Bytes) : Prop :=
  ∃ block, CarriesBlock record block ∧ FirstServerName block data

/-- The list of names in the first server name extension of the hello in a record is `names`. -/
def CarriesNames (record names : Bytes) : Prop :=
  ∃ behind, names.length < 65536 ∧ CarriesServerName record (vector16 names ++ behind)

/-- The first host name in that list is `host`. -/
def CarriesHostName (record host : Bytes) : Prop :=
  ∃ names, CarriesNames record names ∧ FirstHostName names host

/-- The hello in a record ends behind its compression methods, or it has extensions, and none of
them is for server names. -/
def CarriesNoServerName (record : Bytes) : Prop :=
  (∃ hello, CarriesHello record hello ∧ HasTail hello []) ∨
    ∃ block, CarriesBlock record block ∧ NoServerName block

theorem serverName?_of_block {record block : Bytes} (h : CarriesBlock record block) :
    serverName? record = nameOfExtensions block := by
  obtain ⟨hello, hcarries, hblock⟩ := h
  rw [serverName?_of_carries hcarries, nameOfHello_of_block hblock]

theorem serverName?_of_serverName {record data : Bytes} (h : CarriesServerName record data) :
    serverName? record = (nameOfExtension data).map some := by
  obtain ⟨block, hblock, hdata⟩ := h
  rw [serverName?_of_block hblock, nameOfExtensions_of_first hdata]

theorem serverName?_of_none {record : Bytes} (h : CarriesNoServerName record) :
    serverName? record = .ok none := by
  rcases h with ⟨hello, hcarries, htail⟩ | ⟨block, hblock, hnone⟩
  · rw [serverName?_of_carries hcarries, nameOfHello_of_tail htail]
  · rw [serverName?_of_block hblock, nameOfExtensions_of_none hnone]

/-- A record has a server name extension, or it has none, or it is refused, but not for its
names. -/
theorem carries_cases (record : Bytes) : (∃ data, CarriesServerName record data) ∨
    CarriesNoServerName record ∨ ∃ e, e ≠ .invalidName ∧ serverName? record = .error e := by
  rcases serverName?_cases record with ⟨hello, hcarries⟩ | hrefused
  · rcases nameOfHello_cases hello with htail | ⟨block, hblock⟩ | htruncated
    · exact .inr (.inl (.inl ⟨hello, hcarries, htail⟩))
    · have hcarries : CarriesBlock record block := ⟨hello, hcarries, hblock⟩
      rcases nameOfExtensions_cases block with ⟨data, hdata⟩ | hnone | htruncated
      · exact .inl ⟨data, block, hcarries, hdata⟩
      · exact .inr (.inl (.inr ⟨block, hcarries, hnone⟩))
      · exact .inr (.inr ⟨.truncated, by decide, (serverName?_of_block hcarries).trans htruncated⟩)
    · exact .inr (.inr ⟨.truncated, by decide, (serverName?_of_carries hcarries).trans htruncated⟩)
  · exact .inr (.inr hrefused)

theorem serverName?_eq_some_of {record data : Bytes} (h : CarriesServerName record data)
    {name : Text} : serverName? record = .ok (some name) ↔ NamesHost data name := by
  rw [serverName?_of_serverName h, ← nameOfExtension_eq_ok]
  cases nameOfExtension data <;> simp [Except.map]

theorem serverName?_ne_none_of {record data : Bytes} (h : CarriesServerName record data) :
    serverName? record ≠ .ok none := by
  rw [serverName?_of_serverName h]
  cases nameOfExtension data <;> simp [Except.map]

theorem serverName?_eq_error_of {record data : Bytes} (h : CarriesServerName record data)
    {e : Error} :
    serverName? record = .error e ↔ e = .invalidName ∧ ∀ name, ¬ NamesHost data name := by
  rw [serverName?_of_serverName h, ← nameOfExtension_eq_error]
  cases nameOfExtension data <;> simp [Except.map]

theorem nameOfExtension_append {names : Bytes} (h : names.length < 65536) (behind : Bytes) :
    nameOfExtension (vector16 names ++ behind) =
      match (hostName? names).bind Utf8.decode? with
      | some name => .ok name
      | none => .error .invalidName := by
  rw [nameOfExtension, vector16?_vector16 h]
  rfl

theorem serverName?_of_names {record names : Bytes} (h : CarriesNames record names) :
    serverName? record =
      match (hostName? names).bind Utf8.decode? with
      | some name => .ok (some name)
      | none => .error .invalidName := by
  obtain ⟨behind, hlt, hcarries⟩ := h
  rw [serverName?_of_serverName hcarries, nameOfExtension_append hlt]
  cases (hostName? names).bind Utf8.decode? <;> rfl

theorem serverName?_of_hostName {record host : Bytes} (h : CarriesHostName record host) :
    serverName? record =
      match Utf8.decode? host with
      | some name => .ok (some name)
      | none => .error .invalidName := by
  obtain ⟨names, hcarries, hhost⟩ := h
  rw [serverName?_of_names hcarries, hostName?_eq_some.2 hhost, Option.bind_some]

/-- Records with the same part read the same, whatever stands behind that part and in the fields in
front of it. -/
def Decides (Carries : Bytes → Bytes → Prop) : Prop :=
  ∀ ⦃record other part : Bytes⦄, Carries record part → Carries other part →
    serverName? other = serverName? record

/-- **A record is read by its grammar.** It names a server exactly when the first server name
extension of its hello holds a list of names whose first host name is that name in UTF-8. It names
none exactly when its hello ends behind the compression methods, or when its extensions, each of
which is complete up to a rest without room for the header of one, are all of other types. The name
is invalid exactly when there is a server name extension, but no list of names with such a name in
it. Each part on the way down decides: what stands behind the record, the hello, the extensions, the
server name extension, its list and its host name does not matter. -/
theorem serverName_exact (record : Bytes) :
    (∀ name, serverName? record = .ok (some name) ↔
      ∃ data, CarriesServerName record data ∧ NamesHost data name) ∧
    (serverName? record = .ok none ↔ CarriesNoServerName record) ∧
    (serverName? record = .error .invalidName ↔
      ∃ data, CarriesServerName record data ∧ ∀ name, ¬ NamesHost data name) ∧
    Decides CarriesHello ∧ Decides CarriesBlock ∧ Decides CarriesServerName ∧
    Decides CarriesNames ∧ Decides CarriesHostName := by
  refine ⟨fun name => ⟨fun h => ?_, ?_⟩, ⟨fun h => ?_, serverName?_of_none⟩, ⟨fun h => ?_, ?_⟩,
    ?_, ?_, ?_, ?_, ?_⟩
  · rcases carries_cases record with ⟨data, hdata⟩ | hnone | ⟨e, -, he⟩
    · exact ⟨data, hdata, (serverName?_eq_some_of hdata).1 h⟩
    · cases (serverName?_of_none hnone).symm.trans h
    · cases he.symm.trans h
  · rintro ⟨data, hdata, hnames⟩
    exact (serverName?_eq_some_of hdata).2 hnames
  · rcases carries_cases record with ⟨data, hdata⟩ | hnone | ⟨e, -, he⟩
    · exact absurd h (serverName?_ne_none_of hdata)
    · exact hnone
    · cases he.symm.trans h
  · rcases carries_cases record with ⟨data, hdata⟩ | hnone | ⟨e, hother, he⟩
    · exact ⟨data, hdata, ((serverName?_eq_error_of hdata).1 h).2⟩
    · cases (serverName?_of_none hnone).symm.trans h
    · exact absurd (Except.error.inj (he.symm.trans h)) hother
  · rintro ⟨data, hdata, hmalformed⟩
    exact (serverName?_eq_error_of hdata).2 ⟨rfl, hmalformed⟩
  · intro record other hello h h'
    rw [serverName?_of_carries h, serverName?_of_carries h']
  · intro record other block h h'
    rw [serverName?_of_block h, serverName?_of_block h']
  · intro record other data h h'
    rw [serverName?_of_serverName h, serverName?_of_serverName h']
  · intro record other names h h'
    rw [serverName?_of_names h, serverName?_of_names h']
  · intro record other host h h'
    rw [serverName?_of_hostName h, serverName?_of_hostName h']

/-- A record with stray bytes behind each of its parts, and with an extension that breaks off behind
the one for server names. -/
def strayRecord : Bytes :=
  [0x16, 3, 1, 0, 80, 1, 0, 0, 75, 3, 3] ++ List.replicate 32 0x42 ++
    [0, 0, 2, 0x13, 1, 1, 0, 0, 31, 0, 0x17, 0, 0, 0, 0, 0, 19, 0, 16, 1, 0, 1, 0x78,
      0, 0, 7, 0x62, 0xC3, 0xBC, 0x63, 0x68, 0x65, 0x72, 0xFF, 0xFF, 0xEE, 0, 0, 0xFF, 0xFF,
      0xDD, 0xCC, 0xBB]

/-- The stray bytes do not matter. -/
theorem serverName_exact_strays :
    serverName? strayRecord = .ok (some ['b', 'ü', 'c', 'h', 'e', 'r']) := by
  let names : Bytes :=
    [1, 0, 1, 0x78, 0, 0, 7, 0x62, 0xC3, 0xBC, 0x63, 0x68, 0x65, 0x72, 0xFF, 0xFF]
  let data : Bytes := vector16 names ++ [0xEE]
  let block : Bytes := [0, 0x17, 0, 0, 0, 0, 0, 19] ++ (data ++ [0, 0, 0xFF, 0xFF])
  let front : Bytes := [3, 3] ++ List.replicate 32 0x42
  let hello : Bytes :=
    front ++ (vector8 [] ++ (vector16 [0x13, 1] ++ (vector8 [0] ++ (vector16 block ++ [0xDD]))))
  have hnames : NamesHost data ['b', 'ü', 'c', 'h', 'e', 'r'] :=
    ⟨names, [0xEE], by decide, rfl, [⟨1, [0x78]⟩], [0xFF, 0xFF], by decide, by decide +kernel,
      by decide +kernel⟩
  have hfirst : FirstServerName block data :=
    ⟨[⟨0x17, []⟩], [0, 0, 0xFF, 0xFF], by simp [NoServerNames], by decide, by decide +kernel⟩
  have hblock : HasBlock hello block :=
    ⟨[0xDD], by decide, front, [], [0x13, 1], [0], by decide, by decide, by decide, by decide, rfl⟩
  have hhello : CarriesHello strayRecord hello :=
    ⟨3, 1, [0xCC], [0xBB], by decide, by decide +kernel⟩
  exact ((serverName_exact _).1 _).2 ⟨data, ⟨block, ⟨hello, hhello, hblock⟩, hfirst⟩, hnames⟩

end Intercept.Tls
