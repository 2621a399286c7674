import Intercept.Proofs.Http.Lengths

/-!
# Transfer codings

When a request is framed by its transfer codings: all fields together list the codings, and the last
one decides.

* `LastIsChunked values`: the last of all codings that the values list is `chunked`.
* `FramedByCodings values result`: a request is accepted, framed and refused as the values call for.
* `EndsInChunked t`: what the text of the first field has to end in to be taken for `chunked`.
* `FirstDecides fields`: the first field speaks for all of them.

Results:
* `isChunked_trim_iff`: `EndsInChunked` is what is tested.
* `lastIsChunked_of_endsInChunked`: for one value of ASCII bytes that test is the right one.
* `framed_by_codings`: a request is framed by its transfer codings exactly when the first field
  decides, and so whenever there is at most one field and that is ASCII.
-/

namespace Intercept.Http

open Text

/-! ## What all fields say -/

/-- The codings that values list one behind the other, without the spaces around them. -/
def codings (values : List Bytes) : List Bytes :=
  ((values.flatMap (pieces (· = 44))).map trimSpaces).filter (!·.isEmpty)

/-- The last of the codings is `chunked`. -/
def LastIsChunked (values : List Bytes) : Prop :=
  ∃ last ∈ (codings values).getLast?, sameWord last (ascii "chunked")

instance (values : List Bytes) : Decidable (LastIsChunked values) :=
  inferInstanceAs (Decidable (∃ last ∈ (codings values).getLast?, sameWord last (ascii "chunked")))

theorem LastIsChunked.ne_nil {values : List Bytes} (h : LastIsChunked values) : values ≠ [] := by
  rintro rfl
  obtain ⟨last, hlast, -⟩ := h
  cases hlast

/-- A request is framed by its transfer codings: it is chunked exactly when the last coding is
`chunked`, refused when the last coding is another one, and has none when it is framed otherwise. -/
structure FramedByCodings (values : List Bytes) (result : Except (Stop Error) Request) : Prop where
  chunked : ∀ request, result = .ok request →
    (request.framing = .chunked ↔ values ≠ [] ∧ LastIsChunked values)
  refused : values ≠ [] → ¬ LastIsChunked values → result = .error (.failed .invalidRequest)
  bare : ∀ request, result = .ok request →
    (request.framing = .empty ∨ ∃ n, request.framing = .length n) → values = []

namespace FramedByCodings

variable {values : List Bytes} {request : Request}

theorem error : FramedByCodings values (.error (.failed .invalidRequest)) where
  chunked _ h := by cases h
  refused _ _ := rfl
  bare _ h := by cases h

theorem ok_chunked (h : request.framing = .chunked) :
    FramedByCodings values (.ok request) ↔ LastIsChunked values := by
  constructor
  · exact fun hframed => ((hframed.chunked request rfl).1 h).2
  · refine fun hlast => ⟨?_, fun _ hno => absurd hlast hno, ?_⟩
    · rintro _ ⟨⟩
      exact iff_of_true h ⟨hlast.ne_nil, hlast⟩
    · rintro _ ⟨⟩ hbare
      simp [h] at hbare

theorem ok_bare (h : request.framing = .empty ∨ ∃ n, request.framing = .length n) :
    FramedByCodings values (.ok request) ↔ values = [] := by
  constructor
  · exact fun hframed => hframed.bare request rfl h
  · refine fun hnil => ⟨?_, fun hne => absurd hnil hne, fun _ _ _ => hnil⟩
    rintro _ ⟨⟩
    refine iff_of_false (fun hchunked => ?_) fun hcoded => hcoded.1 hnil
    simp [hchunked] at h

end FramedByCodings

/-! ## What the first field says -/

theorem letter_of_isWord_chunked {word : Text} (h : isWord word "chunked") :
    ∀ c ∈ word, 65 ≤ c.toNat ∧ c.toNat ≤ 122 := by
  intro c hc
  have hmem : c.toLower ∈ word.map Char.toLower := List.mem_map_of_mem hc
  rw [of_decide_eq_true h] at hmem
  have hlow : ("chunked".toList.map Char.toLower).all fun x => 97 ≤ x.toNat ∧ x.toNat ≤ 122 := by
    decide
  have hc := of_decide_eq_true (List.all_eq_true.1 hlow _ hmem)
  rw [Numeral.toNat_toLower] at hc
  split at hc <;> omega

/-- A text ends in the word `chunked`, with blanks around it, behind a comma or all alone. -/
def EndsInChunked (t : Text) : Prop :=
  ∃ front before word after, t = front ++ (before ++ word ++ after) ∧
    (front = [] ∨ ∃ a, front = a ++ [',']) ∧ (∀ c ∈ before, isBlank c) ∧ (∀ c ∈ after, isBlank c) ∧
    isWord word "chunked"

theorem endsInChunked_of_isChunked {t : Text} (h : isChunked (trim t)) : EndsInChunked t := by
  -- blanks come off twice, around the whole text and around its last piece
  obtain ⟨b0, a0, ht, hb0, ha0⟩ := trimEnds_parts isBlank t
  change t = b0 ++ trim t ++ a0 at ht
  unfold isChunked at h
  simp only at h
  generalize hlast : ((cutLast ',' (trim t)).map (·.2)).getD (trim t) = last at h
  obtain ⟨b1, a1, hl, hb1, ha1⟩ := trimEnds_parts isBlank last
  change last = b1 ++ trim last ++ a1 at hl
  have hafter : ∀ c ∈ a1 ++ a0, isBlank c := List.forall_mem_append.2 ⟨ha1, ha0⟩
  cases hc : cutLast ',' (trim t) with
  | none =>
    rw [hc] at hlast
    obtain rfl : trim t = last := hlast
    refine ⟨[], b0 ++ b1, _, a1 ++ a0, ?_, .inl rfl, List.forall_mem_append.2 ⟨hb0, hb1⟩,
      hafter, h⟩
    conv_lhs => rw [ht, hl]
    simp
  | some p =>
    rw [hc] at hlast
    obtain ⟨a, b⟩ := p
    obtain rfl : b = last := hlast
    refine ⟨b0 ++ a ++ [','], b1, _, a1 ++ a0, ?_, .inr ⟨b0 ++ a, rfl⟩, hb1, hafter, h⟩
    conv_lhs => rw [ht, (cutLast_eq_some.1 hc).1, hl]
    simp

/-- Trimming leaves the comma in front of a last word, and what is between the two. -/
theorem trim_behind_comma {a before word after : Text} (hne : word ≠ [])
    (hw : ∀ c ∈ word, isBlank c = false) (ha : ∀ c ∈ after, isBlank c) :
    trim (a ++ [','] ++ (before ++ word ++ after)) =
      a.dropWhile isBlank ++ ',' :: (before ++ word) := by
  have hsplit : a ++ [','] ++ (before ++ word ++ after) =
      a.takeWhile isBlank ++ (a.dropWhile isBlank ++ ',' :: (before ++ word)) ++ after := by
    rw [← List.append_assoc (a.takeWhile isBlank), List.takeWhile_append_dropWhile]
    simp
  rw [hsplit]
  refine trimEnds_append (List.all_eq_true.1 List.all_takeWhile) ?_ ?_ ha
  · have hstop := List.head?_dropWhile_not isBlank a
    cases hd : a.dropWhile isBlank with
    | nil => simp; decide
    | cons x r => simpa [hd] using hstop
  · rw [← List.cons_append, ← List.append_assoc, List.getLast?_append,
      List.getLast?_eq_getLast_of_ne_nil hne]
    simpa using hw _ (List.getLast_mem hne)

theorem isChunked_of_endsInChunked {t : Text} (h : EndsInChunked t) : isChunked (trim t) := by
  obtain ⟨front, before, word, after, rfl, hfront, hb, ha, hword⟩ := h
  have hletter := letter_of_isWord_chunked hword
  have hw : ∀ c ∈ word, isBlank c = false := fun c hc =>
    isBlank_of_printable (by have := hletter c hc; omega)
  have hcomma : ',' ∉ before ++ word := by
    intro hc
    rcases List.mem_append.1 hc with hc | hc
    · exact absurd (hb _ hc) (by decide)
    · exact absurd (hletter _ hc) (by decide)
  have htrim {b : Text} (hb : ∀ c ∈ b, isBlank c) : trim (b ++ word) = word := by
    have h := @trimEnds_between _ isBlank b word [] hb hw (by simp)
    rwa [List.append_nil] at h
  unfold isChunked
  rcases hfront with rfl | ⟨a, rfl⟩
  · rw [List.nil_append, show trim (before ++ word ++ after) = word from trimEnds_between hb hw ha,
      cutLast_eq_none.2 fun hc => hcomma (List.mem_append_right _ hc)]
    show isWord (trim ([] ++ word)) "chunked" = true
    rwa [htrim (by simp)]
  · have hne : word ≠ [] := by
      rintro rfl
      cases hword
    rw [trim_behind_comma hne hw ha, cutLast_eq_some.2 ⟨rfl, hcomma⟩]
    show isWord (trim (before ++ word)) "chunked" = true
    rwa [htrim hb]

/-- What the text of a field has to end in to be taken for `chunked`. -/
theorem isChunked_trim_iff {t : Text} : isChunked (trim t) = true ↔ EndsInChunked t :=
  ⟨endsInChunked_of_isChunked, isChunked_of_endsInChunked⟩

/-! ## One value of ASCII bytes -/

theorem isWord_asciiText {word : String} (h : Utf8.asciiText (ascii word) = word.toList)
    (b : Bytes) : isWord (Utf8.asciiText b) word = sameWord b (ascii word) := by
  have hbyte (x : UInt8) :
      (Char.ofNat x.toNat).toLower = Char.ofNat (lowerByte x).toNat := by
    have hle : (65 ≤ x && x ≤ 90) = true ↔ 65 ≤ x.toNat ∧ x.toNat ≤ 90 := by
      rw [Bool.and_eq_true, decide_eq_true_iff, decide_eq_true_iff, UInt8.le_iff_toNat_le,
        UInt8.le_iff_toNat_le]
      rfl
    rw [← Char.toNat_inj, Numeral.toNat_toLower, Utf8.toNat_asciiChar, Utf8.toNat_asciiChar]
    unfold lowerByte
    by_cases hx : 65 ≤ x.toNat ∧ x.toNat ≤ 90
    · rw [if_pos hx, if_pos (hle.2 hx), UInt8.toNat_add]
      show x.toNat + 32 = (x.toNat + 32) % 256
      omega
    · rw [if_neg hx, if_neg (mt hle.1 hx)]
  have hlower (b : Bytes) :
      (Utf8.asciiText b).map Char.toLower = Utf8.asciiText (b.map lowerByte) := by
    simp only [Utf8.asciiText, List.map_map, Function.comp_def, hbyte]
  rw [isWord, sameWord, ← h, hlower, hlower, decide_eq_decide]
  exact ⟨Utf8.asciiText_inj, congrArg _⟩

/-- Among the ASCII bytes of a value, only space and tab are blank. -/
theorem isSpace_of_isBlank {b : UInt8} (hb : isValue b) (hascii : b < 0x80)
    (h : isBlank (Char.ofNat b.toNat)) : isSpace b := by
  have hlt : b.toNat < 0x80 := hascii
  unfold isBlank at h
  rw [Utf8.toNat_asciiChar, if_pos hlt] at h
  simp only [isValue, isSpace, Bool.or_eq_true, Bool.and_eq_true, decide_eq_true_eq,
    ← UInt8.toNat_inj, UInt8.le_iff_toNat_le, UInt8.reduceToNat] at hb h ⊢
  omega

/-- The parts of an ASCII text that ends in `chunked`, as bytes. -/
theorem EndsInChunked.bytes {v : Bytes} (hv : ∀ b ∈ v, isValue b ∧ b < 0x80)
    (h : EndsInChunked (Utf8.asciiText v)) :
    ∃ front before word after : Bytes, v = front ++ (before ++ word ++ after) ∧
      (front = [] ∨ ∃ a, front = a ++ [44]) ∧ (∀ b ∈ before, isSpace b) ∧
      (∀ b ∈ after, isSpace b) ∧ isWord (Utf8.asciiText word) "chunked" := by
  obtain ⟨front, before, word, after, hparts, hfront, hb, ha, hword⟩ := h
  obtain ⟨front, last, rfl, rfl, hlast⟩ := List.map_eq_append_iff.1 hparts
  obtain ⟨body, after, rfl, hbody, rfl⟩ := List.map_eq_append_iff.1 hlast
  obtain ⟨before, word, rfl, rfl, rfl⟩ := List.map_eq_append_iff.1 hbody
  have hspace {l : Bytes} (hl : ∀ b ∈ l, b ∈ front ++ (before ++ word ++ after))
      (hblank : ∀ c ∈ Utf8.asciiText l, isBlank c) : ∀ b ∈ l, isSpace b := fun b hb =>
    isSpace_of_isBlank (hv b (hl b hb)).1 (hv b (hl b hb)).2 (hblank _ (List.mem_map_of_mem hb))
  refine ⟨front, before, word, after, rfl, ?_, hspace (by simp +contextual) hb,
    hspace (by simp +contextual) ha, hword⟩
  rcases hfront with hnil | ⟨a, hend⟩
  · exact .inl (List.map_eq_nil_iff.1 hnil)
  · obtain ⟨a, mark, rfl, -, hmark⟩ := List.map_eq_append_iff.1 hend
    rw [show mark = [44] from Utf8.asciiText_inj hmark]
    exact .inr ⟨a, rfl⟩

/-- The word that one value of ASCII bytes ends in is the last of its codings. -/
theorem lastIsChunked_of_endsInChunked {v : Bytes} (hv : ∀ b ∈ v, isValue b ∧ b < 0x80)
    (h : EndsInChunked (Utf8.asciiText v)) : LastIsChunked [v] := by
  obtain ⟨front, before, word, after, rfl, hfront, hb, ha, hword⟩ := h.bytes hv
  have hletter : ∀ b ∈ word, 65 ≤ b.toNat ∧ b.toNat ≤ 122 := by
    intro b hb
    rw [← Utf8.toNat_asciiChar]
    exact letter_of_isWord_chunked hword _ (List.mem_map_of_mem hb)
  have hnospace : ∀ b ∈ word, isSpace b = false := by
    intro b hb
    have := hletter b hb
    simp only [isSpace, Bool.or_eq_false_iff, decide_eq_false_iff_not, ← UInt8.toNat_inj,
      UInt8.reduceToNat]
    omega
  have hcomma : ∀ b ∈ before ++ word ++ after, decide (b = 44) = false := by
    simp only [List.forall_mem_append, decide_eq_false_iff_not]
    refine ⟨⟨?_, ?_⟩, ?_⟩ <;> rintro b hmem rfl
    · exact absurd (hb _ hmem) (by decide)
    · exact absurd (hletter _ hmem) (by decide)
    · exact absurd (ha _ hmem) (by decide)
  have hfront : front = [] ∨ ∃ a c, decide (c = 44) ∧ front = a ++ [c] :=
    hfront.imp_right fun ⟨a, ha⟩ => ⟨a, 44, by decide, ha⟩
  obtain ⟨before', hpieces⟩ := List.getLast?_eq_some_iff.1 (getLast?_pieces hfront hcomma)
  have htrim : trimSpaces (before ++ word ++ after) = word := trimEnds_between hb hnospace ha
  have hne : word ≠ [] := by
    rintro rfl
    cases hword
  refine ⟨word, ?_, ?_⟩
  · rw [codings, List.flatMap_singleton, hpieces, List.map_append, List.map_singleton, htrim,
      List.filter_append]
    simp [hne]
  · rwa [← isWord_asciiText (by decide)]

/-! ## Requests -/

/-- The first transfer coding field speaks for all of them: if it is not text, the head is refused
for its lengths, and if it ends in `chunked`, all of them do. -/
def FirstDecides (fields : List Field) : Prop :=
  ∀ v more, fieldValues "transfer-encoding" fields = v :: more →
    ((Utf8.decode? v).isSome ∨ contentLength? fields = none) ∧
    ∀ t, Utf8.decode? v = some t → EndsInChunked t → LastIsChunked (v :: more)

theorem Request.framing?_of_codings {fields : List Field} {codings : Text}
    (h : fieldText? fields "transfer-encoding" = some codings) :
    Request.framing? fields = if isChunked codings then some .chunked else none := by
  unfold Request.framing? told?
  rw [h]
  by_cases hc : isChunked codings = true <;> simp [hc]

theorem lengthFraming_bare (told : Option Nat) :
    lengthFraming .empty told = .empty ∨ ∃ n, lengthFraming .empty told = .length n := by
  rcases told with _ | n
  · exact .inl rfl
  · by_cases hn : n = 0
    · exact .inl (if_pos hn)
    · exact .inr ⟨n, if_neg hn⟩

/-- Where transfer codings frame what is made of the fields of a request. -/
theorem framedByCodings_iff {fields : List Field} {make : Framing → Request}
    (hmake : ∀ framing, (make framing).framing = framing) :
    FramedByCodings (fieldValues "transfer-encoding" fields)
        ((Request.framing? fields).elim (.error (.failed .invalidRequest)) fun f => .ok (make f)) ↔
      FirstDecides fields := by
  have hbare (told : Option Nat) : (make (lengthFraming .empty told)).framing = .empty ∨
      ∃ n, (make (lengthFraming .empty told)).framing = .length n := by
    rw [hmake]
    exact lengthFraming_bare told
  unfold FirstDecides
  have htext := fieldText?_eq "transfer-encoding" fields
  generalize fieldValues "transfer-encoding" fields = values at htext ⊢
  cases values with
  | nil =>
    rw [Request.framing?_of_lengths htext]
    refine iff_of_true ?_ (by simp)
    cases contentLength? fields with
    | none => exact .error
    | some told => exact (FramedByCodings.ok_bare (hbare told)).2 rfl
  | cons v more =>
    simp only [List.cons.injEq, and_imp, forall_apply_eq_imp_iff, forall_eq']
    cases ht : Utf8.decode? v with
    | none =>
      -- a value that is no text is passed over, as if there were no field at all
      rw [List.head?_cons, Option.bind_some, ht] at htext
      rw [Request.framing?_of_lengths htext]
      cases contentLength? fields with
      | none => exact iff_of_true .error (by simp)
      | some told =>
        refine iff_of_false (fun h => ?_) (by simp)
        cases (FramedByCodings.ok_bare (hbare told)).1 h
    | some t =>
      rw [List.head?_cons, Option.bind_some, ht] at htext
      rw [Request.framing?_of_codings htext]
      by_cases hc : EndsInChunked t
      · rw [if_pos (isChunked_trim_iff.2 hc)]
        refine (FramedByCodings.ok_chunked (hmake _)).trans ?_
        simp [hc]
      · rw [if_neg (mt isChunked_trim_iff.1 hc)]
        exact iff_of_true .error (by simp [hc])

/-- One field of ASCII bytes speaks for itself. -/
theorem firstDecides_of_ascii {fields : List Field}
    (hone : (fieldValues "transfer-encoding" fields).length ≤ 1)
    (hv : ∀ v ∈ fieldValues "transfer-encoding" fields, ∀ b ∈ v, isValue b ∧ b < 0x80) :
    FirstDecides fields := by
  intro v more hvalues
  rw [hvalues] at hone hv
  obtain rfl : more = [] := List.eq_nil_of_length_eq_zero (by simpa using hone)
  have hv := hv v List.mem_cons_self
  have htext := Utf8.decode?_ascii fun b hb => (hv b hb).2
  refine ⟨.inl (by rw [htext]; rfl), fun t ht hends => ?_⟩
  obtain rfl := Option.some.inj (htext.symm.trans ht)
  exact lastIsChunked_of_endsInChunked hv hends

/-- **Where requests are framed by their transfer codings.** A request head that was cut off and
that the scanner accepts is framed by its transfer codings exactly when the first of the fields
decides; and so it is when there is at most one field and that is ASCII. -/
theorem framed_by_codings {limit : Nat} {r : Reader} {raw rest : Bytes} {lines : RequestLines}
    (hcut : (r.readHead .invalidRequest limit).result = .ok raw)
    (hscan : scanRequest (fieldSlots raw) raw = .done lines rest) :
    (FramedByCodings (fieldValues "transfer-encoding" lines.fields) (r.readRequest limit).result ↔
      FirstDecides lines.fields) ∧
    ((fieldValues "transfer-encoding" lines.fields).length ≤ 1 →
      (∀ v ∈ fieldValues "transfer-encoding" lines.fields, ∀ b ∈ v, b < 0x80) →
      FramedByCodings (fieldValues "transfer-encoding" lines.fields)
        (r.readRequest limit).result) := by
  obtain ⟨method, target, hof⟩ := Request.ofRaw?_of_scan hscan
  have hresult : (r.readRequest limit).result = (Request.framing? lines.fields).elim
      (.error (.failed .invalidRequest)) fun framing =>
        .ok ⟨raw, method, target, Request.hostOf target lines.fields, framing⟩ := by
    rw [Reader.readRequest_of_readHead hcut, hof]
    cases Request.framing? lines.fields <;> rfl
  have hiff := @framedByCodings_iff lines.fields _ fun framing =>
    (rfl : (Request.mk raw method target (Request.hostOf target lines.fields) framing).framing = _)
  rw [hresult]
  refine ⟨hiff, fun hone hascii => hiff.2 (firstDecides_of_ascii hone fun v hv b hb => ?_)⟩
  exact ⟨isValue_of_mem_fieldValues hscan hv b hb, hascii v hv b hb⟩

/-- A reader to which a request with the given transfer coding fields comes in one piece. -/
def codedReader (values : List Bytes) : Reader where
  stream := .ofSource { events := [⟨0, .data (ascii "POST /u HTTP/1.1\r\nHost: a\r\n" ++
    values.flatMap (fun v => ascii "Transfer-Encoding: " ++ v ++ ascii "\r\n") ++
    ascii "\r\n")⟩] }

/-- The head of such a request. -/
def codedLines (values : List Bytes) : RequestLines :=
  ⟨ascii "POST", ascii "/u", 1,
    ⟨ascii "Host", ascii "a"⟩ :: values.map fun v => ⟨ascii "Transfer-Encoding", v⟩⟩

/-- A request with one field that ends in `chunked` is framed by it. -/
theorem framed_by_codings_one :
    LastIsChunked [ascii "gzip, chunked"] ∧
      FramedByCodings [ascii "gzip, chunked"]
        ((codedReader [ascii "gzip, chunked"]).readRequest 10).result := by
  have hcut : ((codedReader [ascii "gzip, chunked"]).readHead .invalidRequest 10).result =
      .ok (codedReader [ascii "gzip, chunked"]).bytes := by decide +kernel
  have hscan : scanRequest (fieldSlots (codedReader [ascii "gzip, chunked"]).bytes)
      (codedReader [ascii "gzip, chunked"]).bytes =
        .done (codedLines [ascii "gzip, chunked"]) [] := by decide +kernel
  have hvalues : fieldValues "transfer-encoding" (codedLines [ascii "gzip, chunked"]).fields =
      [ascii "gzip, chunked"] := by decide +kernel
  have hframed := (framed_by_codings hcut hscan).2
  rw [hvalues] at hframed
  exact ⟨by decide +kernel, hframed (by decide) (by decide +kernel)⟩

/-- A request with these transfer coding fields has a head like any other, but is not framed by
them. -/
structure Misframed (values : List Bytes) : Prop where
  scan : scanRequest (fieldSlots (codedReader values).bytes) (codedReader values).bytes =
    .done (codedLines values) []
  cut : ((codedReader values).readHead .invalidRequest 10).result = .ok (codedReader values).bytes
  told : fieldValues "transfer-encoding" (codedLines values).fields = values
  wrong : ¬ FramedByCodings values ((codedReader values).readRequest 10).result

/-- A second field does not change what the first one says, and a field that is not text says
nothing: neither last coding is `chunked`, but both requests are accepted. -/
theorem not_framed_by_codings :
    Misframed [ascii "chunked", ascii "gzip"] ∧ Misframed [[255]] := by
  have hrefused {values : List Bytes}
      (h : values ≠ [] ∧ ¬ LastIsChunked values ∧
        ((codedReader values).readRequest 10).result ≠ .error (.failed .invalidRequest)) :
      ¬ FramedByCodings values ((codedReader values).readRequest 10).result :=
    fun hframed => h.2.2 (hframed.refused h.1 h.2.1)
  constructor
  · exact ⟨by decide +kernel, by decide +kernel, by decide +kernel, hrefused (by decide +kernel)⟩
  · exact ⟨by decide +kernel, by decide +kernel, by decide +kernel, hrefused (by decide +kernel)⟩

end Intercept.Http
