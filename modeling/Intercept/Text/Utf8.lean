import Intercept.Text.Cut

/-!
# UTF-8

Names and header values arrive as bytes. `decode?` is strict (`from_utf8`): it gives the text when
the bytes are well formed and nothing otherwise. `decodeLossy` always gives a text
(`from_utf8_lossy`), in which each longest piece that starts a character and breaks off stands as
one replacement character.

* `next` reads one character, or the ill-formed piece in its place.
* `encode` writes a text.

Results:
* `decode?_append_ascii`, `decode?_ascii`: ASCII stands for itself, whatever follows.
-/

namespace Intercept.Utf8

/-- Whether a byte continues a character. -/
def isContinuation (b : UInt8) : Bool := 0x80 ≤ b && b ≤ 0xBF

/-- The six low bits of a continuation byte. -/
def payload (b : UInt8) : Nat := b.toNat % 64

/-- The range of second bytes that may follow a lead byte: it excludes overlong forms,
surrogates and code points above the last one. -/
def secondRange (lead : UInt8) : UInt8 × UInt8 :=
  if lead = 0xE0 then (0xA0, 0xBF)
  else if lead = 0xED then (0x80, 0x9F)
  else if lead = 0xF0 then (0x90, 0xBF)
  else if lead = 0xF4 then (0x80, 0x8F)
  else (0x80, 0xBF)

/-- Whether `b` may follow the lead byte. -/
def isSecond (lead b : UInt8) : Bool := (secondRange lead).1 ≤ b && b ≤ (secondRange lead).2

/-- Reads one character after its first byte `b`: the character, or `none` for an ill-formed
piece, and what follows. -/
def next (b : UInt8) (r : Bytes) : Option Char × Bytes :=
  if b < 0x80 then (some (Char.ofNat b.toNat), r)
  else if 0xC2 ≤ b && b ≤ 0xDF then
    match r with
    | c :: r' =>
      if isContinuation c then (some (Char.ofNat (b.toNat % 32 * 64 + payload c)), r') else (none, r)
    | [] => (none, r)
  else if 0xE0 ≤ b && b ≤ 0xEF then
    match r with
    | c :: r' =>
      if isSecond b c then
        match r' with
        | d :: r'' =>
          if isContinuation d then
            (some (Char.ofNat ((b.toNat % 16 * 64 + payload c) * 64 + payload d)), r'')
          else (none, r')
        | [] => (none, r')
      else (none, r)
    | [] => (none, r)
  else if 0xF0 ≤ b && b ≤ 0xF4 then
    match r with
    | c :: r' =>
      if isSecond b c then
        match r' with
        | d :: r'' =>
          if isContinuation d then
            match r'' with
            | e :: r''' =>
              if isContinuation e then
                (some (Char.ofNat
                  (((b.toNat % 8 * 64 + payload c) * 64 + payload d) * 64 + payload e)), r''')
              else (none, r'')
            | [] => (none, r'')
          else (none, r')
        | [] => (none, r')
      else (none, r)
    | [] => (none, r)
  else (none, r)

theorem next_length_le (b : UInt8) (r : Bytes) : (next b r).2.length ≤ r.length := by
  unfold next
  repeat' split
  all_goals simp <;> omega

/-- The characters of a byte string after those already read, which are kept in reverse. -/
def scanAfter (done : List (Option Char)) : Bytes → List (Option Char)
  | [] => done.reverse
  | b :: r => scanAfter ((next b r).1 :: done) (next b r).2
termination_by l => l.length
decreasing_by have := next_length_le b r; simp; omega

/-- The characters of a byte string, with `none` for each ill-formed piece. -/
def scan (bytes : Bytes) : List (Option Char) := scanAfter [] bytes

theorem scanAfter_eq (done : List (Option Char)) (bytes : Bytes) :
    scanAfter done bytes = done.reverse ++ scan bytes := by
  suffices h : ∀ n, ∀ bytes : Bytes, bytes.length ≤ n → ∀ done,
      scanAfter done bytes = done.reverse ++ scanAfter [] bytes from h _ _ (Nat.le_refl _) _
  intro n
  induction n with
  | zero => intro bytes hb done; simp_all [scanAfter]
  | succ n ih =>
    intro bytes hb done
    cases bytes with
    | nil => simp [scanAfter]
    | cons b r =>
      have := next_length_le b r
      simp only [List.length_cons] at hb
      rw [scanAfter, scanAfter, ih _ (by omega), ih _ (by omega) [(next b r).1]]
      simp

@[simp] theorem scan_nil : scan [] = [] := by simp [scan, scanAfter]

theorem scan_cons (b : UInt8) (r : Bytes) : scan (b :: r) = (next b r).1 :: scan (next b r).2 := by
  rw [scan, scanAfter, scanAfter_eq]
  simp

/-- The text that well-formed bytes stand for. -/
def decode? (bytes : Bytes) : Option Text :=
  let cs := scan bytes
  if cs.all Option.isSome then some (cs.filterMap id) else none

/-- The text of ASCII bytes. -/
def asciiText (bytes : Bytes) : Text := bytes.map fun b => Char.ofNat b.toNat

theorem toNat_asciiChar (b : UInt8) : (Char.ofNat b.toNat).toNat = b.toNat := by
  have hb := b.toNat_lt
  have hvalid : b.toNat.isValidChar := .inl (by omega)
  unfold Char.ofNat
  rw [dif_pos hvalid]
  rfl

theorem asciiText_inj {a b : Bytes} (h : asciiText a = asciiText b) : a = b := by
  refine (List.map_inj_right fun x y hxy => ?_).1 h
  rw [← UInt8.toNat_inj, ← toNat_asciiChar, ← toNat_asciiChar y]
  exact congrArg Char.toNat hxy

/-- ASCII in front stands for itself, whatever follows. -/
theorem decode?_append_ascii {front : Bytes} (h : ∀ b ∈ front, b < 0x80) (rest : Bytes) :
    decode? (front ++ rest) = (decode? rest).map (asciiText front ++ ·) := by
  induction front with
  | nil =>
    rw [List.nil_append]
    cases decode? rest <;> rfl
  | cons b r ih =>
    have hnext (r : Bytes) : next b r = (some (Char.ofNat b.toNat), r) := by
      unfold next
      rw [if_pos (h b List.mem_cons_self)]
    have hcons (r : Bytes) :
        decode? (b :: r) = (decode? r).map (Char.ofNat b.toNat :: ·) := by
      unfold decode?
      rw [scan_cons, hnext]
      cases hall : (scan r).all Option.isSome <;> simp [hall]
    rw [List.cons_append, hcons, ih fun x hx => h x (List.mem_cons_of_mem b hx), Option.map_map]
    rfl

/-- ASCII stands for itself. -/
theorem decode?_ascii {bytes : Bytes} (h : ∀ b ∈ bytes, b < 0x80) :
    decode? bytes = some (asciiText bytes) := by
  have happ := decode?_append_ascii h []
  have hnil : decode? [] = some [] := by
    unfold decode?
    simp
  rw [List.append_nil, hnil, Option.map_some, List.append_nil] at happ
  exact happ

/-- ASCII is well formed. -/
theorem decode?_isSome_of_ascii {bytes : Bytes} (h : ∀ b ∈ bytes, b < 0x80) :
    (decode? bytes).isSome := by
  rw [decode?_ascii h, Option.isSome_some]

/-- The text in which every ill-formed piece is a replacement character. -/
def decodeLossy (bytes : Bytes) : Text := (scan bytes).map (·.getD '\uFFFD')

/-- The bytes of a text. -/
def encode (t : Text) : Bytes := t.flatMap String.utf8EncodeChar

end Intercept.Utf8
