import Intercept.Proofs.Text.Utf8
import Intercept.Tls.ClientHello

/-!
# A ClientHello that was written is read back

The reader of `ClientHello.lean` is measured against a writer: a ClientHello as a value, and the
record that carries it.

* `vector8`, `vector16`: a field behind its length.
* `NameEntry`, `Extension`, `ClientHello`: the parts of a hello, with the bounds that their lengths
  have to meet. The extensions are `none` when the hello ends in front of their block.
* `HelloRecord`: a hello that fits in one handshake record. Whatever stands behind a two-byte
  length inside it is then short enough for that length.
* `ClientHello.Names hello name`: the hello names the server `name`, or no server.

Results:
* `vector8?_vector8`, `vector16?_vector16`: a field is read back, whatever follows.
* `hostName?_encode`, `nameOfExtensions_encode`: what the two loops find is the first entry of
  their kind.
* `serverName?_encode_append`: a record reads as its first server name extension does.
* `serverName_of_names`: the server that a hello names is read off its record.
-/

namespace Intercept.Tls

/-! ## Fields behind their length -/

/-- A number below 65536 in two bytes, the high one first. -/
def pair (n : Nat) : Bytes := [UInt8.ofNat (n / 256), UInt8.ofNat n]

/-- Bytes behind their length in one byte. -/
def vector8 (x : Bytes) : Bytes := UInt8.ofNat x.length :: x

/-- Bytes behind their length in two bytes. -/
def vector16 (x : Bytes) : Bytes := pair x.length ++ x

@[simp] theorem length_pair (n : Nat) : (pair n).length = 2 := rfl

@[simp] theorem length_vector8 (x : Bytes) : (vector8 x).length = x.length + 1 := rfl

@[simp] theorem length_vector16 (x : Bytes) : (vector16 x).length = x.length + 2 := by
  simp [vector16]
  omega

variable {n : Nat} {x : Bytes}

theorem number_pair (h : n < 65536) : number (UInt8.ofNat (n / 256)) (UInt8.ofNat n) = n := by
  unfold number
  rw [UInt8.toNat_ofNat', UInt8.toNat_ofNat']
  omega

theorem split?_append (x r : Bytes) : split? x.length (x ++ r) = some (x, r) :=
  split?_eq_some.2 ⟨rfl, rfl⟩

theorem vector8?_vector8 (h : x.length < 256) (r : Bytes) :
    vector8? (vector8 x ++ r) = some (x, r) := by
  change split? (UInt8.ofNat x.length).toNat (x ++ r) = _
  rw [UInt8.toNat_ofNat_of_lt' h, split?_append]

theorem vector16?_vector16 (h : x.length < 65536) (r : Bytes) :
    vector16? (vector16 x ++ r) = some (x, r) := by
  change split? (number (UInt8.ofNat (x.length / 256)) (UInt8.ofNat x.length)) (x ++ r) = _
  rw [number_pair h, split?_append]

theorem vector16?_self (h : x.length < 65536) : vector16? (vector16 x) = some (x, []) := by
  simpa using vector16?_vector16 h []

/-! ## Server names -/

/-- A name in a list of server names, with its type. -/
structure NameEntry where
  type : UInt8
  name : Bytes

/-- The bytes of a name. -/
def NameEntry.encode (entry : NameEntry) : Bytes := entry.type :: vector16 entry.name

@[simp] theorem NameEntry.length_encode (entry : NameEntry) :
    entry.encode.length = entry.name.length + 3 := by
  simp [encode]

/-- The data of a server name extension. -/
def NameEntry.list (entries : List NameEntry) : Bytes := vector16 (entries.flatMap encode)

theorem hostName?_cons {entry : NameEntry} (h : entry.name.length < 65536) (r : Bytes) :
    hostName? (entry.encode ++ r) = if entry.type = 0 then some entry.name else hostName? r := by
  rw [NameEntry.encode, List.cons_append, hostName?, vector16?_vector16 h]

/-- The host name of a list is that of the first entry of this type. -/
theorem hostName?_encode {entries : List NameEntry}
    (h : (entries.flatMap NameEntry.encode).length < 65536) :
    hostName? (entries.flatMap NameEntry.encode) =
      (entries.find? (·.type = 0)).map NameEntry.name := by
  induction entries with
  | nil =>
    rw [List.flatMap_nil, hostName?]
    rfl
  | cons entry entries ih =>
    rw [List.flatMap_cons, List.length_append, NameEntry.length_encode] at h
    rw [List.flatMap_cons, hostName?_cons (by omega), ih (by omega), List.find?_cons]
    by_cases htype : entry.type = 0
    · simp [htype]
    · simp [htype]

theorem nameOfExtension_list {entries : List NameEntry} {name : Text}
    (h : (NameEntry.list entries).length < 65536)
    (hfirst : entries.find? (·.type = 0) = some ⟨0, Utf8.encode name⟩) :
    nameOfExtension (NameEntry.list entries) = .ok name := by
  rw [NameEntry.list, length_vector16] at h
  have hlist : vector16? (NameEntry.list entries) = some (entries.flatMap NameEntry.encode, []) :=
    vector16?_self (by omega)
  have hname : (hostName? (entries.flatMap NameEntry.encode)).bind Utf8.decode? = some name := by
    rw [hostName?_encode (by omega), hfirst, Option.map_some, Option.bind_some, Utf8.decode?_encode]
  unfold nameOfExtension
  simp only [hlist, Option.bind_some, hname]

/-! ## Extensions -/

/-- An extension: its type and its data. -/
structure Extension where
  type : UInt16
  data : Bytes

/-- The bytes of an extension. -/
def Extension.encode (ext : Extension) : Bytes := pair ext.type.toNat ++ vector16 ext.data

@[simp] theorem Extension.length_encode (ext : Extension) :
    ext.encode.length = ext.data.length + 4 := by
  simp [encode]
  omega

/-- What the first server name extension says. -/
def Extension.serverName? (exts : List Extension) : Except Error (Option Text) :=
  match exts.find? (·.type = 0) with
  | some ext => (nameOfExtension ext.data).map some
  | none => .ok none

theorem nameOfExtensions_nil : nameOfExtensions [] = .ok none := by
  rw [nameOfExtensions]
  simp

theorem nameOfExtensions_cons {ext : Extension} (h : ext.data.length < 65536) (r : Bytes) :
    nameOfExtensions (ext.encode ++ r) =
      if ext.type = 0 then (nameOfExtension ext.data).map some else nameOfExtensions r := by
  have htype : ext.type.toNat = 0 ↔ ext.type = 0 := UInt16.toNat_inj (b := 0)
  rw [Extension.encode, vector16]
  simp only [pair, List.cons_append, List.nil_append]
  rw [nameOfExtensions, number_pair h, split?_append, number_pair ext.type.toNat_lt]
  simp only [htype]

/-- What the extensions of a block say is what the first server name extension says. -/
theorem nameOfExtensions_encode {exts : List Extension}
    (h : (exts.flatMap Extension.encode).length < 65536) :
    nameOfExtensions (exts.flatMap Extension.encode) = Extension.serverName? exts := by
  induction exts with
  | nil => exact nameOfExtensions_nil
  | cons ext exts ih =>
    rw [List.flatMap_cons, List.length_append, Extension.length_encode] at h
    rw [List.flatMap_cons, nameOfExtensions_cons (by omega), ih (by omega), Extension.serverName?,
      Extension.serverName?, List.find?_cons]
    by_cases htype : ext.type = 0
    · simp [htype]
    · simp [htype]

/-! ## Hellos and their records -/

/-- A ClientHello. -/
structure ClientHello where
  version : UInt16
  random : Bytes
  session : Bytes
  cipherSuites : Bytes
  compression : Bytes
  /-- `none` when the hello ends behind the compression methods. -/
  extensions : Option (List Extension)
  random_length : random.length = 32
  session_length : session.length < 256
  compression_length : compression.length < 256

namespace ClientHello

variable (hello : ClientHello)

/-- The bytes behind the compression methods. -/
def tail : Bytes :=
  match hello.extensions with
  | some exts => vector16 (exts.flatMap Extension.encode)
  | none => []

/-- The bytes of a hello. -/
def encode : Bytes :=
  pair hello.version.toNat ++ hello.random ++ (vector8 hello.session ++
    (vector16 hello.cipherSuites ++ (vector8 hello.compression ++ hello.tail)))

/-- The handshake message that a hello is: its type and its length in three bytes in front. -/
def message : Bytes :=
  clientHelloType :: UInt8.ofNat (hello.encode.length / 65536) ::
    (pair hello.encode.length ++ hello.encode)

/-- The extensions of a hello. -/
def extensionList : List Extension := hello.extensions.getD []

/-- The server that a hello names: the first host name in its first server name extension, or none
when it has no such extension. -/
inductive Names : Option Text → Prop
  | host {name : Text} {ext : Extension} {entries : List NameEntry}
      (hext : hello.extensionList.find? (·.type = 0) = some ext)
      (hdata : ext.data = NameEntry.list entries)
      (hentry : entries.find? (·.type = 0) = some ⟨0, Utf8.encode name⟩) : Names (some name)
  | nobody (hext : hello.extensionList.find? (·.type = 0) = none) : Names none

theorem length_encode : hello.encode.length =
    hello.session.length + hello.cipherSuites.length + hello.compression.length +
      hello.tail.length + 38 := by
  simp [encode, hello.random_length]
  omega

theorem length_message : hello.message.length = hello.encode.length + 4 := by
  simp [message]
  omega

/-- The data of every extension of a hello that fits is short enough for its length. -/
theorem length_data_lt (h : hello.encode.length < 65536) :
    ∀ ext ∈ hello.extensionList, ext.data.length < 65536 := by
  intro ext hmem
  have hlength := hello.length_encode
  unfold extensionList at hmem
  cases hexts : hello.extensions with
  | none => simp [hexts] at hmem
  | some exts =>
    rw [hexts, Option.getD_some] at hmem
    have hext : ext.encode.length ≤ (exts.flatMap Extension.encode).length :=
      (List.sublist_flatten_of_mem (List.mem_map_of_mem hmem)).length_le
    simp only [tail, hexts, length_vector16] at hlength
    rw [Extension.length_encode] at hext
    omega

theorem nameOfHello_encode (h : hello.encode.length < 65536) :
    nameOfHello hello.encode = Extension.serverName? hello.extensionList := by
  have hlength := hello.length_encode
  have hfront (r : Bytes) :
      split? 34 (pair hello.version.toNat ++ hello.random ++ r) = some (_, r) :=
    split?_eq_some.2 ⟨rfl, by simp [hello.random_length]⟩
  unfold nameOfHello
  simp only [encode, hfront, vector8?_vector8 hello.session_length,
    vector8?_vector8 hello.compression_length, Option.bind_eq_bind, Option.bind_some, Option.pure_def,
    vector16?_vector16 (show hello.cipherSuites.length < 65536 by omega)]
  cases hexts : hello.extensions with
  | none =>
    simp only [tail, extensionList, hexts]
    rfl
  | some exts =>
    simp only [tail, hexts, length_vector16] at hlength
    simp only [tail, extensionList, hexts, Option.getD_some]
    obtain ⟨b, r, hblock⟩ : ∃ b r, vector16 (exts.flatMap Extension.encode) = b :: r := ⟨_, _, rfl⟩
    rw [hblock]
    simp only
    rw [← hblock, vector16?_self (by omega)]
    exact nameOfExtensions_encode (by omega)

theorem nameOfHandshake_message (h : hello.message.length < 65536) :
    nameOfHandshake hello.message = Extension.serverName? hello.extensionList := by
  rw [length_message] at h
  have hlength : (UInt8.ofNat (hello.encode.length / 65536)).toNat * 65536 +
      number (UInt8.ofNat (hello.encode.length / 256)) (UInt8.ofNat hello.encode.length) =
        hello.encode.length := by
    rw [number_pair (by omega), Nat.div_eq_of_lt (by omega)]
    simp
  have hsplit := split?_append hello.encode []
  rw [List.append_nil] at hsplit
  rw [message, pair]
  simp only [List.cons_append, List.nil_append, nameOfHandshake, hlength, hsplit, ne_eq,
    not_true_eq_false, if_false]
  exact hello.nameOfHello_encode (by omega)

end ClientHello

/-- A handshake record with a hello that fits in it. -/
structure HelloRecord where
  version : UInt16
  hello : ClientHello
  fits : hello.message.length < 65536

/-- The bytes of a record. -/
def HelloRecord.encode (record : HelloRecord) : Bytes :=
  handshakeType :: (pair record.version.toNat ++ vector16 record.hello.message)

/-- A record reads as its first server name extension does, whatever follows the record. -/
theorem serverName?_encode_append (record : HelloRecord) (behind : Bytes) :
    serverName? (record.encode ++ behind) =
      Extension.serverName? record.hello.extensionList := by
  have hbody := split?_append record.hello.message behind
  rw [HelloRecord.encode, vector16, pair, pair]
  simp only [List.cons_append, List.nil_append, serverName?, number_pair record.fits, hbody, ne_eq,
    not_true_eq_false, if_false]
  exact record.hello.nameOfHandshake_message record.fits

/-- The server that a hello names is read off its record, whatever follows the record. -/
theorem serverName_of_names (record : HelloRecord) (behind : Bytes) {name : Option Text}
    (h : record.hello.Names name) : serverName? (record.encode ++ behind) = .ok name := by
  rw [serverName?_encode_append, Extension.serverName?]
  cases h with
  | nobody hext => rw [hext]
  | host hext hdata hentry =>
    have hfits := record.fits
    rw [ClientHello.length_message] at hfits
    have hshort := record.hello.length_data_lt (by omega) _ (List.mem_of_find?_eq_some hext)
    rw [hdata] at hshort
    simp only [hext, hdata, nameOfExtension_list hshort hentry]
    rfl

/-- A name of two-byte characters, behind another extension and a name of another type, with one
more server name extension and a stray byte behind it. -/
theorem serverName_of_names_second :
    serverName? ([0x16, 3, 1, 0, 75, 1, 0, 0, 71, 3, 3] ++ List.replicate 32 0x42 ++
      [0, 0, 2, 0x13, 1, 1, 0, 0, 28, 0, 0x17, 0, 0, 0, 0, 0, 16, 0, 14, 1, 0, 1, 0x78,
        0, 0, 7, 0x62, 0xC3, 0xBC, 0x63, 0x68, 0x65, 0x72, 0, 0, 0, 0] ++ [0xFF]) =
      .ok (some ['b', 'ü', 'c', 'h', 'e', 'r']) := by
  let exts : List Extension := [⟨0x17, []⟩,
    ⟨0, NameEntry.list [⟨1, [0x78]⟩, ⟨0, Utf8.encode ['b', 'ü', 'c', 'h', 'e', 'r']⟩]⟩, ⟨0, []⟩]
  let hello : ClientHello :=
    { version := 0x0303, random := List.replicate 32 0x42, session := [], cipherSuites := [0x13, 1],
      compression := [0], extensions := some exts, random_length := by decide,
      session_length := by decide, compression_length := by decide }
  let record : HelloRecord := ⟨0x0301, hello, by decide⟩
  have hbytes : record.encode = [0x16, 3, 1, 0, 75, 1, 0, 0, 71, 3, 3] ++ List.replicate 32 0x42 ++
      [0, 0, 2, 0x13, 1, 1, 0, 0, 28, 0, 0x17, 0, 0, 0, 0, 0, 16, 0, 14, 1, 0, 1, 0x78,
        0, 0, 7, 0x62, 0xC3, 0xBC, 0x63, 0x68, 0x65, 0x72, 0, 0, 0, 0] := by decide +kernel
  rw [← hbytes]
  exact serverName_of_names record [0xFF] (.host rfl rfl rfl)

end Intercept.Tls
