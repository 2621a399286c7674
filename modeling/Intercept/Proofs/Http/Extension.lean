import Intercept.Proofs.Http.Slots

/-!
# What more bytes change

A head comes in pieces and is scanned anew with every piece. That makes sense because scanning only
ever asks for more bytes or settles: once it is done with a buffer or has refused it, bytes behind
the buffer change nothing.

* `Scan.extend` is what scanning came to, with more bytes behind the buffer.
* `Settles` says of a scan that bytes behind the buffer change nothing once it does not ask for
  them.
* `IsRequestHead` says of bytes that they are a request head from the first to the last.

Results:
* `Settles.andThen`, `Settles.map`: scans that settle, one behind the other, settle.
* `settles_scanRequest`: scanning a request settles.
* `IsRequestHead.scan_append`, `IsRequestHead.not_flawed`: on every buffer that starts with a head
  scanning is done, and no front piece of a head is ever refused.
* `IsRequestHead.scan_front`: so a buffer that grows is scanned until its head is there.
-/

namespace Intercept.Http

variable {α β : Type}

/-- What scanning came to, with more bytes behind the buffer. -/
def Scan.extend (behind : Bytes) : Scan α → Scan α
  | .done a rest => .done a (rest ++ behind)
  | .more => .more
  | .flawed e => .flawed e

/-- Unless a scan asks for more bytes, bytes behind the buffer change nothing. -/
def Settles (scan : Bytes → Scan α) : Prop :=
  ∀ b behind, scan b ≠ .more → scan (b ++ behind) = (scan b).extend behind

namespace Settles

variable {f : Bytes → Scan α} {g : α → Bytes → Scan β}

theorem andThen (hf : Settles f) (hg : ∀ a, Settles (g a)) : Settles fun b => (f b).andThen g := by
  intro b behind h
  show (f (b ++ behind)).andThen g = ((f b).andThen g).extend behind
  replace h : (f b).andThen g ≠ .more := h
  have hb := hf b behind
  cases hs : f b with
  | done a rest =>
    rw [hs] at h hb
    rw [hb nofun]
    exact hg a rest behind h
  | more =>
    rw [hs] at h
    exact absurd rfl h
  | flawed e =>
    rw [hs] at hb
    rw [hb nofun]
    rfl

theorem map (hf : Settles f) (k : α → β) : Settles fun b => (f b).map k :=
  hf.andThen fun _ _ _ _ => rfl

end Settles

/-! ## Lines and words -/

theorem settles_scanLineEnd (flaw : Flaw) : Settles (scanLineEnd flaw) := by
  intro b behind h
  match b with
  | [] => exact absurd rfl h
  | c :: r =>
    by_cases hlf : c = lf
    · subst hlf
      rfl
    by_cases hcr : c = cr
    · subst hcr
      match r with
      | [] => exact absurd rfl h
      | d :: r =>
        by_cases hd : d = lf
        · subst hd
          rfl
        · simp [scanLineEnd, hlf, hd, Scan.extend]
    · simp [scanLineEnd, hlf, hcr, Scan.extend]

theorem settles_skipEmptyLines : Settles skipEmptyLines := by
  intro b behind h
  fun_induction skipEmptyLines b with
  | case1 => exact absurd rfl h
  | case2 r ih =>
    rw [← ih h]
    exact skipEmptyLines_append (.more .bare .none) (r ++ behind)
  | case3 => exact absurd rfl h
  | case4 r _ ih =>
    rw [← ih h]
    exact skipEmptyLines_append (.more .pair .none) (r ++ behind)
  | case5 d r hd hne =>
    unfold skipEmptyLines
    simp [hd, hne, Scan.extend]
  | case6 c r hlf hcr =>
    unfold skipEmptyLines
    simp [hlf, hcr, Scan.extend]

/-- A run that stops inside the buffer stops there whatever stands behind. -/
theorem dropWhile_append_of_cons {p : UInt8 → Bool} {b r : Bytes} {c : UInt8}
    (h : b.dropWhile p = c :: r) (behind : Bytes) :
    (b ++ behind).dropWhile p = c :: (r ++ behind) := by
  rw [List.dropWhile_append, h]
  rfl

theorem takeWhile_append_of_cons {p : UInt8 → Bool} {b r : Bytes} {c : UInt8}
    (h : b.dropWhile p = c :: r) (behind : Bytes) :
    (b ++ behind).takeWhile p = b.takeWhile p := by
  have hall := List.takeWhile_append_dropWhile (p := p) (l := b ++ behind)
  have hb := List.takeWhile_append_dropWhile (p := p) (l := b)
  rw [dropWhile_append_of_cons h] at hall
  rw [h] at hb
  have hsame : (b ++ behind).takeWhile p ++ c :: (r ++ behind) =
      b.takeWhile p ++ c :: (r ++ behind) := by
    rw [hall, ← List.cons_append, ← List.append_assoc, hb]
  exact List.append_cancel_right hsame

theorem settles_scanRun (p : UInt8 → Bool) (stop : UInt8) (flaw : Flaw) :
    Settles (scanRun p stop flaw) := by
  intro b behind h
  unfold scanRun at h ⊢
  cases hd : b.dropWhile p with
  | nil =>
    rw [hd] at h
    exact absurd rfl h
  | cons c r =>
    rw [dropWhile_append_of_cons hd, takeWhile_append_of_cons hd]
    simp only
    split <;> rfl

theorem settles_scanTarget : Settles scanTarget := by
  refine (settles_scanRun isTarget sp .token).andThen fun target rest behind _ => ?_
  split <;> rfl

/-- The two versions differ in their last byte only. -/
theorem Version.isPrefix_of_short {minor : Nat} {word b : Bytes} (h : Version minor word)
    (hb : b <+: word) (hlt : b.length < 8) : b <+: ascii "HTTP/1." := by
  have hlen : b.length ≤ (ascii "HTTP/1.").length := Nat.le_of_lt_succ hlt
  cases h with
  | zero => exact List.prefix_of_prefix_length_le hb ⟨[48], by decide⟩ hlen
  | one => exact List.prefix_of_prefix_length_le hb ⟨[49], by decide⟩ hlen

/-- Fewer than eight bytes that do not start a version start none with more bytes behind them. -/
theorem scanVersion_of_short {b : Bytes} (hlt : b.length < 8) (hb : ¬ b <+: ascii "HTTP/1.")
    (behind : Bytes) : scanVersion (b ++ behind) = .flawed .version := by
  have hfront : b <+: (b ++ behind).take 8 := by
    rw [List.take_append, List.take_of_length_le (by omega)]
    exact List.prefix_append _ _
  unfold scanVersion
  simp only
  split
  · rw [if_neg]
    exact fun h => hb (hfront.trans (List.isPrefixOf_iff_prefix.1 h))
  · rw [if_neg, if_neg]
    · exact fun h => hb (Version.one.isPrefix_of_short (h ▸ hfront) hlt)
    · exact fun h => hb (Version.zero.isPrefix_of_short (h ▸ hfront) hlt)

theorem settles_scanVersion : Settles scanVersion := by
  intro b behind h
  by_cases hlt : b.length < 8
  · have hb : ¬ b <+: ascii "HTTP/1." := by
      intro hb
      refine h ?_
      unfold scanVersion
      simp only
      rw [List.take_of_length_le (by omega), if_pos hlt,
        if_pos (List.isPrefixOf_iff_prefix.2 hb)]
    have hflawed := scanVersion_of_short hlt hb []
    rw [List.append_nil] at hflawed
    rw [scanVersion_of_short hlt hb, hflawed]
    rfl
  · have htake : (b ++ behind).take 8 = b.take 8 := List.take_append_of_le_length (by omega)
    have hdrop : (b ++ behind).drop 8 = b.drop 8 ++ behind :=
      List.drop_append_of_le_length (by omega)
    have hlong : ¬ (b.take 8).length < 8 := by rw [List.length_take]; omega
    unfold scanVersion
    simp only
    rw [htake, hdrop, if_neg hlong, if_neg hlong]
    split
    · rfl
    · split <;> rfl

/-! ## Fields -/

theorem settles_scanValue : Settles scanValue := by
  intro b behind h
  unfold scanValue at h ⊢
  simp only at h ⊢
  cases hs : b.dropWhile isSpace with
  | nil =>
    rw [hs] at h
    exact absurd rfl h
  | cons c r =>
    rw [hs] at h
    rw [dropWhile_append_of_cons hs]
    cases hv : (c :: r).dropWhile isValue with
    | nil =>
      rw [hv] at h
      exact absurd rfl h
    | cons d r' =>
      rw [hv] at h
      have htake := takeWhile_append_of_cons hv behind
      have hdrop := dropWhile_append_of_cons hv behind
      rw [List.cons_append] at htake hdrop
      rw [htake, hdrop]
      exact (settles_scanLineEnd .fieldValue).map _ (d :: r') behind h

theorem settles_scanField : Settles scanField :=
  (settles_scanRun isToken 58 .fieldName).andThen fun _ => settles_scanValue.map _

theorem settles_scanFields (slots : Nat) (done : List Field) : Settles (scanFields slots done) := by
  intro b behind h
  fun_induction scanFields slots done b with
  | case1 => exact absurd rfl h
  | case2 slots done c r hc =>
    rw [List.cons_append]
    unfold scanFields
    rw [if_pos hc]
    exact (settles_scanLineEnd .newLine).map _ (c :: r) behind h
  | case3 done c r hc =>
    rw [List.cons_append]
    unfold scanFields
    rw [if_neg hc]
    rfl
  | case4 done c r hc slots f r' hf ih =>
    have hfield := settles_scanField (c :: r) behind (by rw [hf]; rintro ⟨⟩)
    rw [hf, List.cons_append] at hfield
    rw [← ih h, List.cons_append]
    conv => lhs; unfold scanFields
    simp only [if_neg hc, hfield, Scan.extend]
  | case5 => exact absurd rfl h
  | case6 done c r hc slots e hf =>
    have hfield := settles_scanField (c :: r) behind (by rw [hf]; rintro ⟨⟩)
    rw [hf, List.cons_append] at hfield
    rw [List.cons_append]
    conv => lhs; unfold scanFields
    simp only [if_neg hc, hfield, Scan.extend]

/-! ## Requests -/

/-- **Scanning a request settles**: once it is done or the buffer is refused, bytes behind the
buffer change nothing. -/
theorem settles_scanRequest (slots : Nat) : Settles (scanRequest slots) :=
  settles_skipEmptyLines.andThen fun _ =>
    (settles_scanRun isToken sp .token).andThen fun _ =>
      settles_scanTarget.andThen fun _ =>
        settles_scanVersion.andThen fun _ =>
          (settles_scanLineEnd .newLine).andThen fun _ =>
            (settles_scanFields slots []).map _

/-! ## Heads and their front pieces -/

/-- Whether bytes are a request head from the first to the last, empty lines in front included. -/
def IsRequestHead (b : Bytes) : Prop := ∃ lines, scanRequest (fieldSlots b) b = .done lines []

theorem fieldSlots_append (b behind : Bytes) : fieldSlots b ≤ fieldSlots (b ++ behind) := by
  simp only [fieldSlots, List.count_append]
  omega

/-- In front of every buffer that starts with a head, scanning is done. -/
theorem IsRequestHead.scan_append {b : Bytes} (h : IsRequestHead b) (behind : Bytes) :
    ∃ lines, scanRequest (fieldSlots (b ++ behind)) (b ++ behind) = .done lines behind := by
  obtain ⟨lines, hscan⟩ := h
  rw [← scanRequest_slots (fieldSlots_append b behind)] at hscan
  refine ⟨lines, ?_⟩
  rw [settles_scanRequest _ b behind (by rw [hscan]; nofun), hscan]
  rfl

/-- No front piece of a head is ever refused. -/
theorem IsRequestHead.not_flawed {b front : Bytes} (h : IsRequestHead b) (hfront : front <+: b)
    (e : Flaw) : scanRequest (fieldSlots front) front ≠ .flawed e := by
  intro hflawed
  obtain ⟨behind, rfl⟩ := hfront
  obtain ⟨lines, hscan⟩ := h
  rw [← scanRequest_slots (fieldSlots_append front behind)] at hflawed
  rw [settles_scanRequest _ front behind (by rw [hflawed]; nofun), hflawed] at hscan
  cases hscan

/-- Of bytes that start with a head every front piece is asked to go on, until the head is there. -/
theorem IsRequestHead.scan_front {head seen whole : Bytes} (h : IsRequestHead head)
    (hhead : head <+: whole) (hseen : seen <+: whole) :
    (∃ lines rest, scanRequest (fieldSlots seen) seen = .done lines rest) ∨
      (scanRequest (fieldSlots seen) seen = .more ∧ seen.length < head.length) := by
  by_cases hlen : head.length ≤ seen.length
  · obtain ⟨behind, rfl⟩ := List.prefix_of_prefix_length_le hhead hseen hlen
    obtain ⟨lines, hscan⟩ := h.scan_append behind
    exact .inl ⟨lines, behind, hscan⟩
  · have hfront := List.prefix_of_prefix_length_le hseen hhead (by omega)
    cases hscan : scanRequest (fieldSlots seen) seen with
    | done lines rest => exact .inl ⟨lines, rest, rfl⟩
    | more => exact .inr ⟨rfl, by omega⟩
    | flawed e => exact absurd hscan (h.not_flawed hfront e)

/-- One head at the most stands in front of some bytes. -/
theorem IsRequestHead.unique {head head' b : Bytes} (h : IsRequestHead head)
    (h' : IsRequestHead head') (hfront : head <+: b) (hfront' : head' <+: b) : head = head' := by
  obtain ⟨rest, rfl⟩ := hfront
  obtain ⟨rest', hrest'⟩ := hfront'
  obtain ⟨lines, hscan⟩ := h.scan_append rest
  obtain ⟨lines', hscan'⟩ := h'.scan_append rest'
  rw [hrest', hscan] at hscan'
  cases hscan'
  exact (List.append_cancel_right hrest').symm

/-- Where scanning is done, a head stands at the front. -/
theorem exists_isRequestHead {b rest : Bytes} {lines : RequestLines}
    (h : scanRequest (fieldSlots b) b = .done lines rest) :
    ∃ head, IsRequestHead head ∧ b = head ++ rest := by
  obtain ⟨n, head, hhead, rfl, -⟩ := scanRequest_eq_done.1 h
  refine ⟨head, ⟨lines, scanRequest_eq_done.2 ⟨n, head, hhead, ?_, hhead.length_le_slots⟩⟩, rfl⟩
  exact (List.append_nil head).symm

end Intercept.Http
