import Intercept.Text.Utf8
import Mathlib.Tactic.SplitIfs

/-!
# UTF-8 that was written is read back

Writing a character gives one to four bytes, and reading takes just these off again, whatever
follows. So a text is read back from its bytes. Reading takes nothing else for a character, so
well-formed bytes are those of one text.

Results:
* `next_two`, `next_three`, `next_four`: a character from the numbers of its bytes.
* `isSecond_iff`: the second bytes that a lead byte allows. A character with no shorter form that
  is no surrogate always meets it.
* `next_encodeChar`: one character in front of other bytes.
* `decode?_encode`: a whole text.
* `decode?_append`: well-formed bytes in front stand for themselves, whatever follows.
* `encodeChar_of_next`: a character that is read stood there in its own bytes.
* `decode?_eq_some_iff`: bytes stand for a text exactly when they are its own.
-/

namespace Intercept.Utf8

variable {b c d e : UInt8} {v : Nat}

theorem isContinuation_of_toNat (hb : b.toNat = v % 64 + 128) : isContinuation b = true := by
  simp only [isContinuation, Bool.and_eq_true, decide_eq_true_eq, UInt8.le_iff_toNat_le, hb,
    UInt8.reduceToNat]
  omega

theorem payload_of_toNat (hb : b.toNat = v % 64 + 128) : payload b = v % 64 := by
  unfold payload
  omega

/-- The second bytes that a lead byte allows: any continuation byte, less the overlong forms, the
surrogates and what lies above the last code point. -/
theorem isSecond_iff : isSecond b c = true ↔
    (128 ≤ c.toNat ∧ c.toNat ≤ 191) ∧ (b.toNat = 224 → 160 ≤ c.toNat) ∧
      (b.toNat = 237 → c.toNat ≤ 159) ∧ (b.toNat = 240 → 144 ≤ c.toNat) ∧
      (b.toNat = 244 → c.toNat ≤ 143) := by
  have hlead (n : UInt8) : b = n ↔ b.toNat = n.toNat := UInt8.toNat_inj.symm
  unfold isSecond secondRange
  simp only [hlead, UInt8.reduceToNat]
  split_ifs <;>
    simp only [Bool.and_eq_true, decide_eq_true_eq, UInt8.le_iff_toNat_le, UInt8.reduceToNat] <;>
    omega

/-- A character of two bytes. -/
theorem next_two (hlow : 128 ≤ v) (hhigh : v < 2048) (hb : b.toNat = v / 64 + 192)
    (hc : c.toNat = v % 64 + 128) (r : Bytes) : next b (c :: r) = (some (Char.ofNat v), r) := by
  have hlead : ¬ b < 0x80 ∧ (0xC2 ≤ b ∧ b ≤ 0xDF) := by
    simp only [UInt8.lt_iff_toNat_lt, UInt8.le_iff_toNat_le, hb, UInt8.reduceToNat]
    omega
  have hvalue : b.toNat % 32 * 64 + payload c = v := by
    rw [payload_of_toNat hc]
    omega
  unfold next
  rw [if_neg hlead.1, if_pos (by simpa using hlead.2)]
  simp only [isContinuation_of_toNat hc, if_pos, hvalue]

/-- A character of three bytes. -/
theorem next_three (hlow : 2048 ≤ v) (hhigh : v < 65536) (hvalid : v.isValidChar)
    (hb : b.toNat = v / 4096 + 224) (hc : c.toNat = v / 64 % 64 + 128)
    (hd : d.toNat = v % 64 + 128) (r : Bytes) :
    next b (c :: d :: r) = (some (Char.ofNat v), r) := by
  have hlead : ¬ b < 0x80 ∧ ¬ (0xC2 ≤ b ∧ b ≤ 0xDF) ∧ 0xE0 ≤ b ∧ b ≤ 0xEF := by
    simp only [UInt8.lt_iff_toNat_lt, UInt8.le_iff_toNat_le, hb, UInt8.reduceToNat]
    omega
  have hvalue : (b.toNat % 16 * 64 + payload c) * 64 + payload d = v := by
    rw [payload_of_toNat hc, payload_of_toNat hd]
    omega
  have hsecond : isSecond b c = true := by
    unfold Nat.isValidChar at hvalid
    rw [isSecond_iff]
    omega
  unfold next
  rw [if_neg hlead.1, if_neg (by simpa using hlead.2.1), if_pos (by simpa using hlead.2.2)]
  simp only [hsecond, isContinuation_of_toNat hd, if_pos, hvalue]

/-- A character of four bytes. -/
theorem next_four (hlow : 65536 ≤ v) (hhigh : v < 1114112)
    (hb : b.toNat = v / 262144 + 240) (hc : c.toNat = v / 4096 % 64 + 128)
    (hd : d.toNat = v / 64 % 64 + 128) (he : e.toNat = v % 64 + 128) (r : Bytes) :
    next b (c :: d :: e :: r) = (some (Char.ofNat v), r) := by
  have hlead : ¬ b < 0x80 ∧ ¬ (0xC2 ≤ b ∧ b ≤ 0xDF) ∧ ¬ (0xE0 ≤ b ∧ b ≤ 0xEF) ∧
      0xF0 ≤ b ∧ b ≤ 0xF4 := by
    simp only [UInt8.lt_iff_toNat_lt, UInt8.le_iff_toNat_le, hb, UInt8.reduceToNat]
    omega
  have hvalue : ((b.toNat % 8 * 64 + payload c) * 64 + payload d) * 64 + payload e = v := by
    rw [payload_of_toNat hc, payload_of_toNat hd, payload_of_toNat he]
    omega
  have hsecond : isSecond b c = true := by
    rw [isSecond_iff]
    omega
  unfold next
  rw [if_neg hlead.1, if_neg (by simpa using hlead.2.1), if_neg (by simpa using hlead.2.2.1),
    if_pos (by simpa using hlead.2.2.2)]
  simp only [hsecond, isContinuation_of_toNat hd, isContinuation_of_toNat he, if_pos, hvalue]

/-- A character is read off its own bytes, whatever follows. -/
theorem next_encodeChar (x : Char) :
    ∃ b front, String.utf8EncodeChar x = b :: front ∧ ∀ r, next b (front ++ r) = (some x, r) := by
  have hvalid : x.toNat.isValidChar := x.valid
  have hhigh : x.toNat < 1114112 := by
    unfold Nat.isValidChar at hvalid
    omega
  have hbyte {n m : Nat} (hnm : n = m) (hm : m < 256) : (UInt8.ofNat n).toNat = m :=
    hnm ▸ UInt8.toNat_ofNat_of_lt' (hnm ▸ hm)
  have hread : some x = some (Char.ofNat x.toNat) := by rw [Char.ofNat_toNat]
  rw [hread]
  unfold String.utf8EncodeChar
  change ∃ b front, (if x.toNat ≤ 127 then [UInt8.ofNat x.toNat] else if x.toNat ≤ 2047 then _
    else if x.toNat ≤ 65535 then _ else _) = b :: front ∧ _
  split_ifs with hone htwo hthree
  · refine ⟨_, [], rfl, fun r => ?_⟩
    have hfirst : (UInt8.ofNat x.toNat).toNat = x.toNat := hbyte rfl (by omega)
    have hascii : UInt8.ofNat x.toNat < 0x80 := by
      rw [UInt8.lt_iff_toNat_lt, hfirst]
      exact Nat.lt_succ_of_le hone
    unfold next
    rw [if_pos hascii, hfirst]
    rfl
  · exact ⟨_, _, rfl, next_two (by omega) (by omega)
      (hbyte (by change x.toNat / 64 % 32 + 192 = _; omega) (by omega)) (hbyte rfl (by omega))⟩
  · exact ⟨_, _, rfl, next_three (by omega) (by omega) hvalid
      (hbyte (by change x.toNat / 4096 % 16 + 224 = _; omega) (by omega)) (hbyte rfl (by omega))
      (hbyte rfl (by omega))⟩
  · exact ⟨_, _, rfl, next_four (by omega) hhigh
      (hbyte (by change x.toNat / 262144 % 8 + 240 = _; omega) (by omega)) (hbyte rfl (by omega))
      (hbyte rfl (by omega)) (hbyte rfl (by omega))⟩

/-- What is scanned in the bytes of a text is its characters. -/
theorem scan_encode (t : Text) : scan (encode t) = t.map some := by
  induction t with
  | nil => exact scan_nil
  | cons x t ih =>
    obtain ⟨b, front, hbytes, hnext⟩ := next_encodeChar x
    have hcons : encode (x :: t) = b :: (front ++ encode t) := by
      unfold encode
      rw [List.flatMap_cons, hbytes, List.cons_append]
    rw [hcons, scan_cons, hnext, List.map_cons, ih]

/-- A text is read back from its bytes. -/
theorem decode?_encode (t : Text) : decode? (encode t) = some t := by
  unfold decode?
  rw [scan_encode]
  simp

/-- A character is read in the same way when more bytes follow. -/
theorem next_append {r : Bytes} {x : Char} (h : (next b r).1 = some x) (more : Bytes) :
    next b (r ++ more) = (some x, (next b r).2 ++ more) := by
  -- a character takes three more bytes at the most
  rcases r with _ | ⟨c, _ | ⟨d, _ | ⟨e, r⟩⟩⟩ <;> unfold next at h ⊢ <;> grind

theorem scan_append {front : Bytes} (h : (scan front).all Option.isSome) (more : Bytes) :
    scan (front ++ more) = scan front ++ scan more := by
  induction hn : front.length using Nat.strongRecOn generalizing front with
  | ind n ih =>
    cases front with
    | nil => rw [scan_nil, List.nil_append, List.nil_append]
    | cons b r =>
      rw [scan_cons, List.all_cons, Bool.and_eq_true] at h
      obtain ⟨x, hx⟩ := Option.isSome_iff_exists.1 h.1
      have hshort := next_length_le b r
      rw [List.length_cons] at hn
      rw [List.cons_append, scan_cons, scan_cons, next_append hx, hx, List.cons_append,
        ih _ (by omega) h.2 rfl]

/-- Well-formed bytes in front stand for themselves, whatever follows. -/
theorem decode?_append {front : Bytes} {t : Text} (h : decode? front = some t) (more : Bytes) :
    decode? (front ++ more) = (decode? more).map (t ++ ·) := by
  unfold decode? at h ⊢
  simp only [Option.ite_none_right_eq_some, Option.some.injEq] at h
  obtain ⟨hall, rfl⟩ := h
  simp only [scan_append hall, List.all_append, hall, Bool.true_and, List.filterMap_append]
  split <;> rfl

/-! ## Reading undoes writing -/

theorem isContinuation_iff : isContinuation b = true ↔ 128 ≤ b.toNat ∧ b.toNat ≤ 191 := by
  simp only [isContinuation, Bool.and_eq_true, decide_eq_true_eq, UInt8.le_iff_toNat_le,
    UInt8.reduceToNat]

theorem toNat_val_ofNat (hvalid : v.isValidChar) : (Char.ofNat v).val.toNat = v := by
  unfold Char.ofNat
  rw [dif_pos hvalid]
  rfl

theorem ofNat_eq_of_toNat {n : Nat} (h : b.toNat = n) : UInt8.ofNat n = b := by
  rw [← h, UInt8.ofNat_toNat]

/-- The byte of a character of one byte. -/
theorem encodeChar_one (hb : b.toNat < 128) (r : Bytes) :
    b :: r = String.utf8EncodeChar (Char.ofNat b.toNat) ++ r := by
  unfold String.utf8EncodeChar
  simp only [toNat_val_ofNat (v := b.toNat) (.inl (by omega))]
  rw [if_pos (by omega), ofNat_eq_of_toNat rfl]
  rfl

/-- The bytes of a character of two bytes. -/
theorem encodeChar_two (hlow : 128 ≤ v) (hhigh : v < 2048) (hb : b.toNat = v / 64 + 192)
    (hc : c.toNat = v % 64 + 128) (r : Bytes) :
    b :: c :: r = String.utf8EncodeChar (Char.ofNat v) ++ r := by
  unfold String.utf8EncodeChar
  simp only [toNat_val_ofNat (v := v) (.inl (by omega))]
  rw [if_neg (by omega), if_pos (by omega), ofNat_eq_of_toNat (b := b) (by omega),
    ofNat_eq_of_toNat hc]
  rfl

/-- The bytes of a character of three bytes. -/
theorem encodeChar_three (hlow : 2048 ≤ v) (hhigh : v < 65536) (hvalid : v.isValidChar)
    (hb : b.toNat = v / 4096 + 224) (hc : c.toNat = v / 64 % 64 + 128)
    (hd : d.toNat = v % 64 + 128) (r : Bytes) :
    b :: c :: d :: r = String.utf8EncodeChar (Char.ofNat v) ++ r := by
  unfold String.utf8EncodeChar
  simp only [toNat_val_ofNat hvalid]
  rw [if_neg (by omega), if_neg (by omega), if_pos (by omega),
    ofNat_eq_of_toNat (b := b) (by omega), ofNat_eq_of_toNat hc, ofNat_eq_of_toNat hd]
  rfl

/-- The bytes of a character of four bytes. -/
theorem encodeChar_four (hlow : 65536 ≤ v) (hhigh : v < 1114112)
    (hb : b.toNat = v / 262144 + 240) (hc : c.toNat = v / 4096 % 64 + 128)
    (hd : d.toNat = v / 64 % 64 + 128) (he : e.toNat = v % 64 + 128) (r : Bytes) :
    b :: c :: d :: e :: r = String.utf8EncodeChar (Char.ofNat v) ++ r := by
  unfold String.utf8EncodeChar
  simp only [toNat_val_ofNat (v := v) (by unfold Nat.isValidChar; omega)]
  rw [if_neg (by omega), if_neg (by omega), if_neg (by omega),
    ofNat_eq_of_toNat (b := b) (by omega), ofNat_eq_of_toNat hc, ofNat_eq_of_toNat hd,
    ofNat_eq_of_toNat he]
  rfl

/-- A character that is read off the front stood there in its own bytes. -/
theorem encodeChar_of_next {r rest : Bytes} {x : Char} (h : next b r = (some x, rest)) :
    b :: r = String.utf8EncodeChar x ++ rest := by
  have hle (m n : UInt8) : m ≤ n ↔ m.toNat ≤ n.toNat := UInt8.le_iff_toNat_le
  unfold next at h
  simp only [UInt8.lt_iff_toNat_lt, Bool.and_eq_true, decide_eq_true_eq, hle, isContinuation_iff,
    isSecond_iff, payload, UInt8.reduceToNat] at h
  -- a branch for each kind of lead byte; in it only the way through all continuation bytes is left
  split at h
  · cases h
    exact encodeChar_one (by omega) _
  split at h
  · split at h <;> try cases h
    split at h <;> cases h
    exact encodeChar_two (by omega) (by omega) (by omega) (by omega) _
  split at h
  · split at h <;> try cases h
    split at h <;> try cases h
    split at h <;> try cases h
    split at h <;> cases h
    exact encodeChar_three (by omega) (by omega) (by unfold Nat.isValidChar; omega) (by omega)
      (by omega) (by omega) _
  split at h
  · split at h <;> try cases h
    split at h <;> try cases h
    split at h <;> try cases h
    split at h <;> try cases h
    split at h <;> try cases h
    split at h <;> cases h
    exact encodeChar_four (by omega) (by omega) (by omega) (by omega) (by omega) (by omega) _
  · cases h

/-- Well-formed bytes are those of the text that they stand for. -/
theorem eq_encode_of_decode? {bytes : Bytes} {t : Text} (h : decode? bytes = some t) :
    bytes = encode t := by
  induction hn : bytes.length using Nat.strongRecOn generalizing bytes t with
  | ind n ih =>
    unfold decode? at h
    simp only [Option.ite_none_right_eq_some, Option.some.injEq] at h
    obtain ⟨hall, rfl⟩ := h
    cases bytes with
    | nil =>
      rw [scan_nil]
      rfl
    | cons b r =>
      have hshort := next_length_le b r
      rw [List.length_cons] at hn
      rw [scan_cons, List.all_cons, Bool.and_eq_true] at hall
      obtain ⟨x, hx⟩ := Option.isSome_iff_exists.1 hall.1
      have hrest : (next b r).2 = encode ((scan (next b r).2).filterMap id) :=
        ih _ (by omega) (by unfold decode?; simp only [hall.2, if_true]) rfl
      calc b :: r = String.utf8EncodeChar x ++ (next b r).2 := encodeChar_of_next (Prod.ext hx rfl)
        _ = String.utf8EncodeChar x ++ encode ((scan (next b r).2).filterMap id) :=
          congrArg (_ ++ ·) hrest
        _ = encode ((scan (b :: r)).filterMap id) := by
          rw [scan_cons, hx]
          rfl

/-- Bytes stand for a text exactly when they are its own. -/
theorem decode?_eq_some_iff {bytes : Bytes} {t : Text} :
    decode? bytes = some t ↔ bytes = encode t :=
  ⟨eq_encode_of_decode?, fun h => h ▸ decode?_encode t⟩

end Intercept.Utf8
