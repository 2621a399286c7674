import Intercept.Proofs.Http.HeadEnd
import Intercept.Proofs.Text.Numeral

/-!
# Content lengths

When a head that has no transfer coding is framed by its content lengths.

* `fieldValues name fields`: the values of the fields of a name.
* `LengthText sign v n`: the value `v` is the number `n` with that sign in front.
* `FramedByLengths values bare framing`: the framing is the one that the values call for.
* `SignFree values`: the values are no one number that some of them write with a plus sign.

Results:
* `contentLength?_eq_some_iff`: a length is told exactly when every field is read as that length.
* `framedByLengths_iff`: the fields are read by their grammar exactly when they are free of signs.
* `framed_by_lengths`: the same for whole heads, of requests and of responses.
-/

namespace Intercept.Http

open Text

/-! ## Fields by name -/

/-- The values of the fields of a name, in order. -/
def fieldValues (name : String) (fields : List Field) : List Bytes :=
  (fields.filter fun f => sameWord f.name (ascii name)).map (·.value)

theorem fieldText?_eq (name : String) (fields : List Field) :
    fieldText? fields name =
      ((fieldValues name fields).head?.bind Utf8.decode?).map Text.trim := by
  rw [fieldText?, fieldValues, List.head?_map, List.head?_filter, Option.bind_map]
  rfl

/-- The values of a head that was accepted have bytes of values only. -/
theorem isValue_of_mem_fieldValues {name : String} {slots : Nat} {b rest v : Bytes}
    {lines : RequestLines} (h : scanRequest slots b = .done lines rest)
    (hv : v ∈ fieldValues name lines.fields) : ∀ c ∈ v, isValue c := by
  obtain ⟨n, head, ⟨-, -, -, hfields⟩, -, -⟩ := scanRequest_eq_done.1 h
  obtain ⟨f, hf, rfl⟩ := List.mem_map.1 hv
  exact hfields.isValue f (List.mem_of_mem_filter hf)

/-! ## Content lengths -/

/-- The value `v` is the number `n` with the given sign in front and blanks around it. -/
def LengthText (sign : Text) (v : Bytes) (n : Nat) : Prop :=
  ∃ t, Utf8.decode? v = some t ∧ Numeral.Framed 10 UInt64.size sign t n

/-- How a value is read as a length. -/
def readLength? (v : Bytes) : Option Nat :=
  (Utf8.decode? v).bind fun t => Numeral.read? 10 UInt64.size (Text.trim t)

theorem readLength?_eq_some {v : Bytes} {n : Nat} :
    readLength? v = some n ↔ LengthText [] v n ∨ LengthText ['+'] v n := by
  simp only [readLength?, LengthText, Option.bind_eq_some_iff,
    Numeral.read?_trim (by decide : 10 ≤ 16)]
  constructor
  · rintro ⟨t, ht, h | h⟩
    · exact .inl ⟨t, ht, h⟩
    · exact .inr ⟨t, ht, h⟩
  · rintro (⟨t, ht, h⟩ | ⟨t, ht, h⟩)
    · exact ⟨t, ht, .inl h⟩
    · exact ⟨t, ht, .inr h⟩

namespace LengthText

variable {v : Bytes} {m n : Nat}

/-- A value is at most one number. -/
theorem unique (hm : LengthText [] v m) (hn : LengthText [] v n) : m = n :=
  Option.some.inj <|
    (readLength?_eq_some.2 (.inl hm)).symm.trans (readLength?_eq_some.2 (.inl hn))

/-- A value with a plus sign is no number without one. -/
theorem not_plus (hm : LengthText [] v m) : ¬ LengthText ['+'] v n := by
  rintro ⟨t, ht, hplus⟩
  obtain ⟨t', ht', hbare⟩ := hm
  obtain rfl : t' = t := Option.some.inj (ht'.symm.trans ht)
  exact hbare.not_plus (by decide) hplus

end LengthText

/-- What the content length fields come to, by their values. -/
theorem contentLength?_eq (fields : List Field) :
    contentLength? fields =
      match (fieldValues "content-length" fields).mapM readLength? with
      | none => none
      | some [] => some none
      | some (n :: r) => if r.all (· = n) then some (some n) else none := by
  have hmap : (fieldValues "content-length" fields).mapM readLength? =
      (fields.filter fun f => sameWord f.name (ascii "content-length")).mapM fun f =>
        (Utf8.decode? f.value).bind fun t => Numeral.read? 10 UInt64.size (Text.trim t) := by
    rw [fieldValues, List.mapM_map]
    rfl
  rw [hmap]
  rfl

/-- No length is given exactly when there is no field. -/
theorem contentLength?_eq_some_none_iff {fields : List Field} :
    contentLength? fields = some none ↔ fieldValues "content-length" fields = [] := by
  rw [contentLength?_eq]
  generalize fieldValues "content-length" fields = values
  constructor
  · intro h
    split at h
    · cases h
    · rename_i hm
      cases mapM_eq_some_iff.1 hm
      rfl
    · split at h <;> cases h
  · rintro rfl
    rfl

/-- A length is given exactly when there is a field and every field is read as that length. -/
theorem contentLength?_eq_some_iff {fields : List Field} {n : Nat} :
    contentLength? fields = some (some n) ↔
      fieldValues "content-length" fields ≠ [] ∧
        ∀ v ∈ fieldValues "content-length" fields, readLength? v = some n := by
  rw [contentLength?_eq]
  generalize fieldValues "content-length" fields = values
  rw [← mapM_const_iff]
  cases hm : values.mapM readLength? with
  | none => simp
  | some numbers =>
    have hread := mapM_eq_some_iff.1 hm
    cases hread with
    | nil => simp
    | @cons v k values r _ _ =>
      simp only [Option.ite_none_right_eq_some, Option.some.injEq, List.all_eq_true,
        decide_eq_true_eq, ne_eq, reduceCtorEq, not_false_eq_true, true_and, exists_eq_left',
        List.mem_cons, forall_eq_or_imp]
      constructor
      · rintro ⟨hall, rfl⟩
        exact ⟨rfl, hall⟩
      · rintro ⟨rfl, hall⟩
        exact ⟨hall, rfl⟩

/-- The framing that a length gives, and the one for heads without a length. -/
def lengthFraming (bare : Framing) : Option Nat → Framing
  | none => bare
  | some n => if n = 0 then .empty else .length n

/-- The body is framed by the content lengths: by the one number that all of them are, and not at
all when one is no number or two differ. `bare` is the framing without any. -/
structure FramedByLengths (values : List Bytes) (bare : Framing) (framing : Option Framing) :
    Prop where
  length : ∀ n, 0 < n →
    (framing = some (.length n) ↔ values ≠ [] ∧ ∀ v ∈ values, LengthText [] v n)
  zero : values ≠ [] → (∀ v ∈ values, LengthText [] v 0) → framing = some .empty
  malformed : ∀ v ∈ values, (∀ n, ¬ LengthText [] v n) → framing = none
  conflicting : ∀ v ∈ values, ∀ w ∈ values, ∀ m n, LengthText [] v m → LengthText [] w n →
    m ≠ n → framing = none
  absent : values = [] → framing = some bare

/-- No value has a plus sign, unless the values are no one number even without their signs. -/
def SignFree (values : List Bytes) : Prop :=
  ∀ n, (∀ v ∈ values, LengthText [] v n ∨ LengthText ['+'] v n) →
    ∀ v ∈ values, ¬ LengthText ['+'] v n

theorem map_lengthFraming_eq_length {bare : Framing} (hbare : ∀ n, bare ≠ .length n) {n : Nat}
    (hn : 0 < n) {told : Option (Option Nat)} :
    told.map (lengthFraming bare) = some (.length n) ↔ told = some (some n) := by
  rcases told with _ | _ | k
  · simp
  · simpa [lengthFraming] using hbare n
  · by_cases hk : k = 0
    · subst hk
      simpa [lengthFraming] using Nat.ne_of_lt hn
    · simp [lengthFraming, hk]

/-- Without signs, a length is told exactly when there is a field and every value is that number. -/
theorem SignFree.contentLength?_iff {fields : List Field} {n : Nat}
    (h : SignFree (fieldValues "content-length" fields)) :
    contentLength? fields = some (some n) ↔
      fieldValues "content-length" fields ≠ [] ∧
        ∀ v ∈ fieldValues "content-length" fields, LengthText [] v n := by
  simp only [contentLength?_eq_some_iff, readLength?_eq_some]
  refine and_congr_right fun _ => ⟨fun hall v hv => ?_, fun hall v hv => .inl (hall v hv)⟩
  exact (hall v hv).resolve_right (h n hall v hv)

/-- Without signs, a head is refused unless all values are one number. -/
theorem SignFree.contentLength?_none {fields : List Field} {v : Bytes}
    (h : SignFree (fieldValues "content-length" fields))
    (hv : v ∈ fieldValues "content-length" fields)
    (hno : ∀ n, ¬ ∀ w ∈ fieldValues "content-length" fields, LengthText [] w n) :
    contentLength? fields = none := by
  rcases hlen : contentLength? fields with _ | _ | n
  · rfl
  · exact absurd (contentLength?_eq_some_none_iff.1 hlen) (List.ne_nil_of_mem hv)
  · exact absurd (h.contentLength?_iff.1 hlen).2 (hno n)

/-- **Where content lengths are read by their grammar**: exactly where no sign gets through. -/
theorem framedByLengths_iff {bare : Framing} (hbare : ∀ n, bare ≠ .length n) (fields : List Field) :
    FramedByLengths (fieldValues "content-length" fields) bare
        ((contentLength? fields).map (lengthFraming bare)) ↔
      SignFree (fieldValues "content-length" fields) := by
  constructor
  · intro h n hall v hv hplus
    have hread : contentLength? fields = some (some n) :=
      contentLength?_eq_some_iff.2
        ⟨List.ne_nil_of_mem hv, fun w hw => readLength?_eq_some.2 (hall w hw)⟩
    have hrefused := h.malformed v hv fun m hm => hm.not_plus hplus
    rw [hread] at hrefused
    cases hrefused
  · intro h
    refine ⟨fun n hn => ?_, fun hne hall => ?_, fun v hv hno => ?_,
      fun v hv w hw m n hm hn hmn => ?_, fun hnil => ?_⟩
    · rw [map_lengthFraming_eq_length hbare hn, h.contentLength?_iff]
    · rw [h.contentLength?_iff.2 ⟨hne, hall⟩]
      rfl
    · rw [h.contentLength?_none hv fun n hall => hno n (hall v hv), Option.map_none]
    · rw [h.contentLength?_none hv fun k hall =>
        hmn ((hm.unique (hall v hv)).trans (hn.unique (hall w hw)).symm), Option.map_none]
    · rw [contentLength?_eq_some_none_iff.2 hnil]
      rfl

namespace Request

/-- Without a transfer coding that can be read, the lengths frame a request. -/
theorem framing?_of_lengths {fields : List Field}
    (h : fieldText? fields "transfer-encoding" = none) :
    framing? fields = (contentLength? fields).map (lengthFraming .empty) := by
  unfold framing? told?
  rw [h]
  rcases contentLength? fields with _ | _ | n <;> rfl

end Request

namespace Response

/-- Without a transfer coding that can be read, the lengths frame a response that has a body. -/
theorem framing?_of_lengths {status : Nat} {fields : List Field}
    (h : fieldText? fields "transfer-encoding" = none) (hinterim : isInterim status = false)
    (h204 : status ≠ 204) (h304 : status ≠ 304) :
    framing? false status fields = (contentLength? fields).map (lengthFraming .untilClose) := by
  unfold framing? told?
  rw [h, if_neg (by simp [hinterim, h204, h304])]
  rcases contentLength? fields with _ | _ | n <;> rfl

end Response

/-- **Where heads are framed by their content lengths.** Without a transfer coding, a request head,
and a response head that is to have a body, is framed by its content lengths exactly when no plus
sign gets through among them. -/
theorem framed_by_lengths (raw : Bytes) :
    (∀ (rest : Bytes) (lines : RequestLines),
      scanRequest (fieldSlots raw) raw = .done lines rest →
      fieldValues "transfer-encoding" lines.fields = [] →
      (FramedByLengths (fieldValues "content-length" lines.fields) .empty
          ((Request.ofRaw? raw).map (·.framing)) ↔
        SignFree (fieldValues "content-length" lines.fields))) ∧
    ∀ (rest : Bytes) (lines : ResponseLines),
      scanResponse (fieldSlots raw) raw = .done lines rest →
      fieldValues "transfer-encoding" lines.fields = [] →
      Response.isInterim lines.status = false → lines.status ≠ 204 → lines.status ≠ 304 →
      (FramedByLengths (fieldValues "content-length" lines.fields) .untilClose
          ((Response.ofRaw? false raw).map (·.framing)) ↔
        SignFree (fieldValues "content-length" lines.fields)) := by
  constructor
  · intro rest lines hscan hcodings
    have htext : fieldText? lines.fields "transfer-encoding" = none := by
      rw [fieldText?_eq, hcodings]
      rfl
    obtain ⟨method, target, hof⟩ := Request.ofRaw?_of_scan hscan
    rw [hof, Request.framing?_of_lengths htext, Option.map_map]
    simp only [Function.comp_def, Option.map_id']
    exact framedByLengths_iff (by simp) lines.fields
  · intro rest lines hscan hcodings hinterim h204 h304
    have htext : fieldText? lines.fields "transfer-encoding" = none := by
      rw [fieldText?_eq, hcodings]
      rfl
    have hof : Response.ofRaw? false raw =
        (Response.framing? false lines.status lines.fields).map (⟨raw, lines.status, ·⟩) := by
      unfold Response.ofRaw?
      rw [hscan]
    rw [hof, Response.framing?_of_lengths htext hinterim h204 h304, Option.map_map]
    simp only [Function.comp_def, Option.map_id']
    exact framedByLengths_iff (by simp) lines.fields

/-- A request head with one content length. -/
def lengthRequest (value : String) : Bytes :=
  ascii ("POST /u HTTP/1.1\r\nHost: a\r\nContent-Length: " ++ value ++ "\r\n\r\n")

/-- What that head holds. -/
def lengthRequestLines (value : String) : RequestLines :=
  ⟨ascii "POST", ascii "/u", 1,
    [⟨ascii "Host", ascii "a"⟩, ⟨ascii "Content-Length", ascii value⟩]⟩

/-- A response head with one content length. -/
def lengthResponse (value : String) : Bytes :=
  ascii ("HTTP/1.1 200 OK\r\nContent-Length: " ++ value ++ "\r\n\r\n")

/-- What that head holds. -/
def lengthResponseLines (value : String) : ResponseLines :=
  ⟨1, 200, [⟨ascii "Content-Length", ascii value⟩]⟩

/-- Digits alone are free of signs, so they frame a body. -/
theorem framed_by_lengths_digits :
    SignFree [ascii "5"] ∧
      FramedByLengths [ascii "5"] .empty
        ((Request.ofRaw? (lengthRequest "5")).map (·.framing)) ∧
      FramedByLengths [ascii "5"] .untilClose
        ((Response.ofRaw? false (lengthResponse "5")).map (·.framing)) := by
  have hfive : LengthText [] (ascii "5") 5 := by
    have hdigits : Numeral.Denotes 10 ['5'] 5 :=
      (Numeral.value?_eq_some (by decide)).1 (by decide)
    exact ⟨['5'], by decide +kernel, ⟨[], ['5'], [], rfl, by simp, by simp, hdigits⟩, by decide⟩
  have hsign : SignFree [ascii "5"] := fun n _ v hv => by
    rw [List.mem_singleton.1 hv]
    exact hfive.not_plus
  have hrequest := (framed_by_lengths (lengthRequest "5")).1 [] (lengthRequestLines "5")
    (by decide +kernel) (by decide +kernel)
  have hresponse := (framed_by_lengths (lengthResponse "5")).2 [] (lengthResponseLines "5")
    (by decide +kernel) (by decide +kernel) (by decide) (by decide) (by decide)
  exact ⟨hsign, hrequest.2 hsign, hresponse.2 hsign⟩

/-- A plus sign gets through: the value is no string of digits, but both heads are accepted. -/
theorem not_framed_by_lengths_plus :
    (scanRequest (fieldSlots (lengthRequest "+5")) (lengthRequest "+5") =
        .done (lengthRequestLines "+5") [] ∧
      fieldValues "transfer-encoding" (lengthRequestLines "+5").fields = [] ∧
      ¬ FramedByLengths (fieldValues "content-length" (lengthRequestLines "+5").fields) .empty
        ((Request.ofRaw? (lengthRequest "+5")).map (·.framing))) ∧
    scanResponse (fieldSlots (lengthResponse "+5")) (lengthResponse "+5") =
        .done (lengthResponseLines "+5") [] ∧
      fieldValues "transfer-encoding" (lengthResponseLines "+5").fields = [] ∧
      ¬ FramedByLengths (fieldValues "content-length" (lengthResponseLines "+5").fields) .untilClose
        ((Response.ofRaw? false (lengthResponse "+5")).map (·.framing)) := by
  have hplus : LengthText ['+'] (ascii "+5") 5 := by
    have hdigits : Numeral.Denotes 10 ['5'] 5 :=
      (Numeral.value?_eq_some (by decide)).1 (by decide)
    exact ⟨['+', '5'], by decide +kernel, ⟨[], ['5'], [], rfl, by simp, by simp, hdigits⟩, by decide⟩
  have hno (n : Nat) : ¬ LengthText [] (ascii "+5") n := fun h => h.not_plus hplus
  refine ⟨⟨by decide +kernel, by decide +kernel, fun h => ?_⟩,
    ⟨by decide +kernel, by decide +kernel, fun h => ?_⟩⟩
  · have hnone := h.malformed (ascii "+5") (by decide +kernel) hno
    revert hnone
    decide +kernel
  · have hnone := h.malformed (ascii "+5") (by decide +kernel) hno
    revert hnone
    decide +kernel

end Intercept.Http
