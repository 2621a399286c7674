import Intercept.Proofs.Http.Copying
import Intercept.Proofs.Text.Numeral

/-!
# Chunked bodies

The grammar of chunked bodies, and what copying one makes of it.

* `SizeLine n l`: the line `l` gives the size `n`, in the grammar.
* `TakenForSize n l`: the line `l` is read as the size `n`.
* `ChunkedBody` is a body in its parts. It is `WellFormed` in the grammar, and `Copied` when each
  first line is read as the size of its chunk and any line stands behind the data.
* `ChunkedBody.Strict`: the size lines are those of the grammar, and behind data a line just ends.

Results:
* `SizeLine.size_eq`: a size line is not read as another size.
* `ChunkedBody.Copied.unique`: no bytes are a copied and a well-formed body in different ways.
* `chunks_whole`: what is cut off as a chunked body is one that is copied.
* `chunked_copied`: what copying a chunked body passes on is such a body, and it is well-formed
  exactly when it is strict.
-/

namespace Intercept.Http

open Text Numeral

/-! ## Lines -/

/-- A line, with its line feed and no other. -/
def IsLine (l : Bytes) : Prop := ∃ front, lf ∉ front ∧ l = front ++ [lf]

theorem lineEnd_iff {l : Bytes} : LineEnd l ↔ l = [cr, lf] ∨ l = [lf] := by
  constructor
  · rintro (_ | _)
    · exact .inr rfl
    · exact .inl rfl
  · rintro (rfl | rfl)
    · exact .pair
    · exact .bare

theorem LineEnd.isLine_append {front eol : Bytes} (h : LineEnd eol) (hfront : lf ∉ front) :
    IsLine (front ++ eol) := by
  cases h with
  | bare => exact ⟨front, hfront, rfl⟩
  | pair =>
    refine ⟨front ++ [cr], ?_, by simp⟩
    rw [List.mem_append, not_or]
    exact ⟨hfront, by decide⟩

theorem LineEnd.isLine {eol : Bytes} (h : LineEnd eol) : IsLine eol :=
  h.isLine_append List.not_mem_nil

/-- A byte of ASCII that is a blank. -/
def IsAsciiBlank (b : UInt8) : Prop := b < 0x80 ∧ isBlank (Char.ofNat b.toNat)

theorem IsAsciiBlank.of_isSpace {b : UInt8} (h : isSpace b) : IsAsciiBlank b := by
  simp only [isSpace, Bool.or_eq_true, decide_eq_true_eq] at h
  rcases h with rfl | rfl <;> exact ⟨by decide, by decide⟩

theorem LineEnd.blank {eol : Bytes} (h : LineEnd eol) : ∀ b ∈ eol, IsAsciiBlank b := by
  have hcr : IsAsciiBlank cr := ⟨by decide, by decide⟩
  have hlf : IsAsciiBlank lf := ⟨by decide, by decide⟩
  cases h <;> simp [hcr, hlf]

/-- The first line of some bytes is the only one. -/
theorem IsLine.unique {l l' r r' : Bytes} (h : IsLine l) (h' : IsLine l')
    (heq : l ++ r = l' ++ r') : l = l' ∧ r = r' := by
  obtain ⟨front, hf, rfl⟩ := h
  obtain ⟨front', hf', rfl⟩ := h'
  have hcut : cutFirst lf (front ++ lf :: r) = some (front, r) := cutFirst_eq_some.2 ⟨rfl, hf⟩
  have hcut' : cutFirst lf (front' ++ lf :: r') = some (front', r') :=
    cutFirst_eq_some.2 ⟨rfl, hf'⟩
  rw [List.append_assoc, List.append_assoc, List.singleton_append, List.singleton_append] at heq
  rw [heq, hcut', Option.some.injEq, Prod.mk.injEq] at hcut
  exact ⟨by rw [hcut.1], hcut.2.symm⟩

/-- What is cut off as a line is one. -/
theorem Cut.isLine_of_line {b l front rest : Bytes} (h : Cut.line b = .whole l front rest) :
    IsLine l ∧ front = l := by
  refine ⟨?_, Cut.line_value h⟩
  unfold Cut.line at h
  split at h
  · rename_i before rest' hc
    cases h
    exact ⟨before, (cutFirst_eq_some.1 hc).2, rfl⟩
  · cases h

/-! ## Size lines -/

/-- A line that gives the size `n`: hexadecimal digits, perhaps spaces and an extension behind a
semicolon, and the end of the line. -/
inductive SizeLine (n : Nat) : Bytes → Prop
  | bare {digits eol : Bytes} : Denotes 16 (Utf8.asciiText digits) n → LineEnd eol →
      SizeLine n (digits ++ eol)
  | extended {digits spaces ext eol : Bytes} : Denotes 16 (Utf8.asciiText digits) n →
      (∀ b ∈ spaces, isSpace b) → lf ∉ ext → LineEnd eol →
      SizeLine n (digits ++ spaces ++ 59 :: ext ++ eol)

/-- A line that is read as the size `n`: up to any semicolon, a number with blanks around it and
perhaps a plus sign in front. -/
def TakenForSize (n : Nat) (l : Bytes) : Prop :=
  IsLine l ∧ ∃ t, Utf8.decode? l = some t ∧
    (Framed 16 UInt64.size [] (t.takeWhile (· ≠ ';')) n ∨
      Framed 16 UInt64.size ['+'] (t.takeWhile (· ≠ ';')) n)

theorem takenForSize_iff {n : Nat} {l : Bytes} :
    TakenForSize n l ↔ IsLine l ∧ chunkSize? l = some n := by
  simp only [TakenForSize, chunkSize?, Option.bind_eq_some_iff, read?_trim (by decide : 16 ≤ 16)]

/-- Digits are what is left of a text when blanks and all behind a semicolon are taken off. -/
theorem trim_takeWhile {n : Nat} {digits blank rest : Text} (hd : Denotes 16 digits n)
    (hblank : ∀ c ∈ blank, isBlank c) (hrest : rest = [] ∨ ∃ r, rest = ';' :: r) :
    trim ((digits ++ blank ++ rest).takeWhile (· ≠ ';')) = digits := by
  have hfront : ∀ c ∈ digits ++ blank, decide (c ≠ ';') = true := by
    intro c hc
    rw [decide_eq_true_eq]
    rintro rfl
    rcases List.mem_append.1 hc with hc | hc
    · exact absurd (hd.digit (by decide) _ hc) (by decide)
    · exact absurd (hblank _ hc) (by decide)
  have hstop : rest.takeWhile (fun c => decide (c ≠ ';')) = [] := by
    rcases hrest with rfl | ⟨r, rfl⟩ <;> rfl
  rw [List.takeWhile_append_of_pos hfront, hstop, List.append_nil]
  exact @trimEnds_between _ isBlank [] digits blank (by simp) (hd.not_isBlank (by decide)) hblank

namespace SizeLine

variable {m n : Nat} {l : Bytes}

/-- The digits of a size line are letters and digits of ASCII. -/
theorem digit_range {digits : Bytes} (hd : Denotes 16 (Utf8.asciiText digits) n) :
    ∀ b ∈ digits, 48 ≤ b.toNat ∧ b.toNat ≤ 102 := by
  intro b hb
  have := hd.digit (by decide) _ (List.mem_map_of_mem hb)
  rw [Utf8.toNat_asciiChar] at this
  omega

theorem isLine (h : SizeLine n l) : IsLine l := by
  cases h with
  | bare hd he => exact he.isLine_append fun hmem => absurd (digit_range hd _ hmem) (by decide)
  | @extended digits spaces ext eol hd hspaces hext he =>
    refine he.isLine_append ?_
    simp only [List.mem_append, List.mem_cons, not_or]
    exact ⟨⟨fun hmem => absurd (digit_range hd _ hmem) (by decide),
      fun hmem => absurd (hspaces _ hmem) (by decide)⟩, by decide, hext⟩

/-- The digits of a size line are what its text is read for. -/
theorem denotes {t : Text} (h : SizeLine n l) (ht : Utf8.decode? l = some t) :
    Denotes 16 (trim (t.takeWhile (· ≠ ';'))) n := by
  have hascii {digits : Bytes} (hd : Denotes 16 (Utf8.asciiText digits) n) :
      ∀ b ∈ digits, b < 0x80 := fun b hb =>
    UInt8.lt_iff_toNat_lt.2 (Nat.lt_of_le_of_lt (digit_range hd b hb).2 (by decide))
  have hblank {blank : Bytes} (hb : ∀ b ∈ blank, IsAsciiBlank b) :
      ∀ c ∈ Utf8.asciiText blank, isBlank c := by
    intro c hc
    obtain ⟨b, hmem, rfl⟩ := List.mem_map.1 hc
    exact (hb b hmem).2
  cases h with
  | @bare digits eol hd he =>
    have hall : ∀ b ∈ digits ++ eol, b < 0x80 :=
      List.forall_mem_append.2 ⟨hascii hd, fun b hb => (he.blank b hb).1⟩
    rw [Utf8.decode?_ascii hall] at ht
    obtain rfl := Option.some.inj ht
    have htrim := trim_takeWhile hd (hblank he.blank) (.inl rfl)
    rw [List.append_nil] at htrim
    rw [Utf8.asciiText, List.map_append]
    exact htrim.symm ▸ hd
  | @extended digits spaces ext eol hd hspaces hext he =>
    have hspaces : ∀ b ∈ spaces, IsAsciiBlank b := fun b hb => .of_isSpace (hspaces b hb)
    have hfront : ∀ b ∈ digits ++ spaces ++ [59], b < 0x80 := by
      simp only [List.forall_mem_append, List.forall_mem_singleton]
      exact ⟨⟨hascii hd, fun b hb => (hspaces b hb).1⟩, by decide⟩
    -- an extension need not be ASCII, or text at all: it stays behind the semicolon
    have hsplit : digits ++ spaces ++ 59 :: ext ++ eol =
        digits ++ spaces ++ [59] ++ (ext ++ eol) := by simp
    rw [hsplit, Utf8.decode?_append_ascii hfront, Option.map_eq_some_iff] at ht
    obtain ⟨tail, -, rfl⟩ := ht
    have htrim := trim_takeWhile hd (hblank hspaces) (.inr ⟨tail, rfl⟩)
    rw [Utf8.asciiText, List.map_append, List.map_append, List.append_assoc _ _ tail]
    exact htrim.symm ▸ hd

/-- A size line is not read as another size. -/
theorem size_eq (h : SizeLine n l) (hm : TakenForSize m l) : m = n := by
  obtain ⟨-, t, ht, hm⟩ := hm
  have hd := h.denotes ht
  rw [← read?_trim (by decide), read?_eq_some (by decide)] at hm
  rcases hm with ⟨hm | ⟨r, hr, -⟩, -⟩
  · exact hm.unique (by decide) hd
  · rw [hr] at hd
    exact absurd hd (not_denotes_plus (by decide))

/-- Where a line taken for a size and a size line both stand, they are one line and one size. -/
theorem unique {l' r r' : Bytes} (h : SizeLine n l') (hm : TakenForSize m l)
    (heq : l ++ r = l' ++ r') : l = l' ∧ m = n ∧ r = r' := by
  obtain ⟨rfl, hr⟩ := hm.1.unique h.isLine heq
  exact ⟨rfl, h.size_eq hm, hr⟩

end SizeLine

/-! ## Bodies -/

/-- A chunk: the line that gives its size, its data, and the line behind that. -/
structure Chunk where
  line : Bytes
  data : Bytes
  ending : Bytes

def Chunk.bytes (c : Chunk) : Bytes := c.line ++ c.data ++ c.ending

/-- A chunked body: chunks, the line that gives the size zero, trailer lines and an empty line. -/
structure ChunkedBody where
  chunks : List Chunk
  last : Bytes
  trailers : List Bytes
  eol : Bytes

namespace ChunkedBody

def bytes (b : ChunkedBody) : Bytes :=
  b.chunks.flatMap Chunk.bytes ++ (b.last ++ (b.trailers.flatten ++ b.eol))

/-- The lines that frame the body: those that give a size, those behind data and the trailers. The
empty one at the end is left out. -/
def lines (b : ChunkedBody) : List Bytes :=
  (b.chunks.flatMap fun c => [c.line, c.ending]) ++ b.last :: b.trailers

/-- The body has the form of chunks, given which lines give a size and which may stand behind data.
-/
structure Formed (size : Nat → Bytes → Prop) (ending : Bytes → Prop) (b : ChunkedBody) : Prop where
  chunk : ∀ c ∈ b.chunks, c.data ≠ [] ∧ size c.data.length c.line ∧ ending c.ending
  last : size 0 b.last
  trailer : ∀ l ∈ b.trailers, IsLine l ∧ ¬ LineEnd l
  eol : LineEnd b.eol

/-- The body is one of the grammar: behind the data of each chunk follows just the end of a line. -/
def WellFormed : ChunkedBody → Prop := Formed SizeLine LineEnd

/-- The body is one that is copied: behind the data of each chunk follows any line. -/
def Copied : ChunkedBody → Prop := Formed TakenForSize IsLine

/-- The size lines are those of the grammar, and just the end of a line stands behind data. -/
structure Strict (b : ChunkedBody) : Prop where
  chunk : ∀ c ∈ b.chunks, (∃ n, SizeLine n c.line) ∧ LineEnd c.ending
  last : ∃ n, SizeLine n b.last

/-- A copied body is strict exactly when it is well-formed. -/
theorem Copied.strict_iff {b : ChunkedBody} (h : b.Copied) : b.Strict ↔ b.WellFormed := by
  constructor
  · intro hs
    refine ⟨fun c hc => ?_, ?_, h.trailer, h.eol⟩
    · obtain ⟨⟨n, hsize⟩, hending⟩ := hs.chunk c hc
      obtain ⟨hne, htaken, -⟩ := h.chunk c hc
      exact ⟨hne, hsize.size_eq htaken ▸ hsize, hending⟩
    · obtain ⟨n, hsize⟩ := hs.last
      exact hsize.size_eq h.last ▸ hsize
  · exact fun hw => ⟨fun c hc => ⟨⟨_, (hw.chunk c hc).2.1⟩, (hw.chunk c hc).2.2⟩, ⟨_, hw.last⟩⟩

/-- Trailer lines can be read in one way only. -/
theorem trailers_unique {ls ls' : List Bytes} {eol eol' : Bytes}
    (hls : ∀ l ∈ ls, IsLine l ∧ ¬ LineEnd l) (hls' : ∀ l ∈ ls', IsLine l ∧ ¬ LineEnd l)
    (he : LineEnd eol) (he' : LineEnd eol') (h : ls.flatten ++ eol = ls'.flatten ++ eol') :
    ls = ls' ∧ eol = eol' := by
  induction ls generalizing ls' with
  | nil =>
    cases ls' with
    | nil => exact ⟨rfl, h⟩
    | cons l' ls' =>
      obtain ⟨hl', hno⟩ := hls' l' List.mem_cons_self
      have heq : eol ++ [] = l' ++ (ls'.flatten ++ eol') := by simpa using h
      exact absurd (he.isLine.unique hl' heq).1 fun heq => hno (heq ▸ he)
  | cons l ls ih =>
    obtain ⟨hl, hno⟩ := hls l List.mem_cons_self
    cases ls' with
    | nil =>
      have heq : l ++ (ls.flatten ++ eol) = eol' ++ [] := by simpa using h
      exact absurd (hl.unique he'.isLine heq).1 fun heq => hno (heq ▸ he')
    | cons l' ls' =>
      have heq : l ++ (ls.flatten ++ eol) = l' ++ (ls'.flatten ++ eol') := by simpa using h
      obtain ⟨rfl, hrest⟩ := hl.unique (hls' l' List.mem_cons_self).1 heq
      obtain ⟨rfl, rfl⟩ := ih (fun x hx => hls x (List.mem_cons_of_mem l hx))
        (fun x hx => hls' x (List.mem_cons_of_mem l hx)) hrest
      exact ⟨rfl, rfl⟩

theorem bytes_cons (c : Chunk) (chunks : List Chunk) (last : Bytes) (trailers : List Bytes)
    (eol : Bytes) :
    (ChunkedBody.mk (c :: chunks) last trailers eol).bytes =
      c.line ++ (c.data ++ (c.ending ++ (ChunkedBody.mk chunks last trailers eol).bytes)) := by
  simp [bytes, Chunk.bytes]

/-- The chunks behind the first one, with what is behind them, are of the same form. -/
theorem Formed.tail {size : Nat → Bytes → Prop} {ending : Bytes → Prop} {c : Chunk}
    {chunks : List Chunk} {last eol : Bytes} {trailers : List Bytes}
    (h : Formed size ending ⟨c :: chunks, last, trailers, eol⟩) :
    Formed size ending ⟨chunks, last, trailers, eol⟩ :=
  ⟨(List.forall_mem_cons.1 h.chunk).2, h.last, h.trailer, h.eol⟩

/-- No bytes are a copied and a well-formed body in different ways. -/
theorem Copied.unique {b b' : ChunkedBody} (h : b.Copied) (h' : b'.WellFormed)
    (heq : b.bytes = b'.bytes) : b = b' := by
  obtain ⟨chunks, last, trailers, eol⟩ := b
  obtain ⟨chunks', last', trailers', eol'⟩ := b'
  -- both start with the same line, so they are at a chunk of one size or both at the last one
  induction chunks generalizing chunks' with
  | nil =>
    cases chunks' with
    | nil =>
      obtain ⟨rfl, -, hrest⟩ := h'.last.unique h.last heq
      obtain ⟨rfl, rfl⟩ := trailers_unique h.trailer h'.trailer h.eol h'.eol hrest
      rfl
    | cons c' chunks' =>
      obtain ⟨hne, hsize, -⟩ := h'.chunk c' List.mem_cons_self
      rw [bytes_cons] at heq
      obtain ⟨-, hzero, -⟩ := hsize.unique h.last heq
      exact absurd (List.eq_nil_of_length_eq_zero hzero.symm) hne
  | cons c chunks ih =>
    obtain ⟨hne, hsize, hending⟩ := h.chunk c List.mem_cons_self
    rw [bytes_cons] at heq
    cases chunks' with
    | nil =>
      obtain ⟨-, hzero, -⟩ := h'.last.unique hsize heq
      exact absurd (List.eq_nil_of_length_eq_zero hzero) hne
    | cons c' chunks' =>
      obtain ⟨line, data, ending⟩ := c
      obtain ⟨line', data', ending'⟩ := c'
      obtain ⟨-, hsize', hending'⟩ := h'.chunk _ List.mem_cons_self
      rw [bytes_cons] at heq
      obtain ⟨rfl, hlength, hdata⟩ := hsize'.unique hsize heq
      obtain ⟨rfl, hrest⟩ := List.append_inj hdata hlength
      obtain ⟨rfl, hmore⟩ := hending.unique hending'.isLine hrest
      cases ih (Formed.tail h) chunks' (Formed.tail h') hmore
      rfl

end ChunkedBody

/-! ## What is cut off -/

theorem Cut.length_of_take {n : Nat} {b front rest : Bytes} {u : Unit}
    (h : Cut.take n b = .whole u front rest) : front.length = n := by
  unfold Cut.take at h
  split at h
  · rename_i hn
    cases h
    exact List.length_take_of_le hn
  · cases h

/-- Trailer lines that are cut off end in an empty line, the only one among them. -/
theorem trailers_whole {b front rest : Bytes} {u : Unit}
    (h : Cut.trailers b = .whole u front rest) :
    ∃ (ls : List Bytes) (eol : Bytes), (∀ l ∈ ls, IsLine l ∧ ¬ LineEnd l) ∧ LineEnd eol ∧
      front = ls.flatten ++ eol := by
  fun_induction Cut.trailers b generalizing front with
  | case1 => cases h
  | case2 b l _ rest' hline hl =>
    cases h
    exact ⟨[], l, by simp, lineEnd_iff.2 hl, rfl⟩
  | case3 b l _ rest' hline hl ih =>
    obtain ⟨front', hrest, rfl⟩ := Cut.of_behind_whole h
    obtain ⟨ls, eol, hls, he, rfl⟩ := ih hrest
    refine ⟨l :: ls, eol, List.forall_mem_cons.2 ⟨⟨?_, mt lineEnd_iff.1 hl⟩, hls⟩, he, ?_⟩
    · exact (Cut.isLine_of_line hline).1
    · rw [List.flatten_cons, List.append_assoc]

/-- What is cut off as a chunked body is one that is copied. -/
theorem chunks_whole {b front rest : Bytes} {u : Unit} (h : Cut.chunks b = .whole u front rest) :
    ∃ body : ChunkedBody, body.Copied ∧ body.bytes = front := by
  fun_induction Cut.chunks b generalizing front with
  | case1 => cases h
  | case2 => cases h
  | case3 b l _ rest' hline hsize =>
    obtain ⟨front', hrest, rfl⟩ := Cut.of_behind_whole h
    obtain ⟨ls, eol, hls, he, rfl⟩ := trailers_whole hrest
    refine ⟨⟨[], l, ls, eol⟩, ⟨by simp, ?_, hls, he⟩, rfl⟩
    exact takenForSize_iff.2 ⟨(Cut.isLine_of_line hline).1, hsize⟩
  | case4 => cases h
  | case5 => cases h
  | case6 b l _ rest' hline n hn hsize _ data restData hdata ending _ restEnding hending ih =>
    obtain ⟨front', hrest, rfl⟩ := Cut.of_behind_whole h
    obtain ⟨body, hbody, rfl⟩ := ih hrest
    have hlen : data.length = n := Cut.length_of_take hdata
    refine ⟨{ body with chunks := ⟨l, data, ending⟩ :: body.chunks }, ⟨?_, hbody.last,
      hbody.trailer, hbody.eol⟩, by simp [ChunkedBody.bytes, Chunk.bytes]⟩
    refine List.forall_mem_cons.2 ⟨⟨?_, ?_, (Cut.isLine_of_line hending).1⟩, hbody.chunk⟩
    · rintro rfl
      exact hn hlen.symm
    · rw [hlen]
      exact takenForSize_iff.2 ⟨(Cut.isLine_of_line hline).1, hsize⟩

/-! ## What is copied -/

/-- **What copying a chunked body passes on.** When copying finishes, what was passed on is a body
that is copied, at the front of the reader's bytes, and the rest is left to the reader. These bytes
are a well-formed body exactly when the size lines are those of the grammar and just the end of a
line stands behind the data of each chunk. -/
theorem chunked_wellFormed {limit : Nat} {c : Copying} {u : Unit}
    (h : (c.body limit .chunked).result = .ok u) :
    ∃ body : ChunkedBody, body.Copied ∧
      c.reader.bytes = body.bytes ++ (c.body limit .chunked).state.reader.bytes ∧
      (c.body limit .chunked).state.written = c.written ++ body.bytes ∧
      ((∃ b : ChunkedBody, b.WellFormed ∧ b.bytes = body.bytes) ↔ body.Strict) := by
  obtain ⟨passed, hpasses, -, hdone⟩ := Copying.body_follows limit .chunked c
  have hcut : Cut.chunks c.reader.bytes =
      .whole u passed (c.body limit .chunked).state.reader.bytes := hdone u h
  obtain ⟨body, hcopied, rfl⟩ := chunks_whole hcut
  have hat : (Cut.chunks c.reader.bytes).At c.reader.bytes := Cut.chunks_at _
  rw [hcut] at hat
  refine ⟨body, hcopied, hat.symm, hpasses.written, ?_⟩
  rw [hcopied.strict_iff]
  constructor
  · rintro ⟨b, hb, hbytes⟩
    exact hcopied.unique hb hbytes.symm ▸ hb
  · exact fun hb => ⟨body, hb, rfl⟩

/-- Copying of a body that comes in one piece. -/
def copyingOf (body : Bytes) : Copying where
  reader := { stream := .ofSource { events := [⟨0, .data body⟩] } }
  sink := {}

/-- A body of one chunk with the given lines around its data. -/
def oneChunk (line ending : String) : ChunkedBody :=
  ⟨[⟨ascii line, ascii "hello", ascii ending⟩], ascii "0\r\n", [], ascii "\r\n"⟩

/-- A chunk of five bytes and the last one are copied, and make up a strict body. -/
theorem chunked_wellFormed_five :
    ((copyingOf (oneChunk "5\r\n" "\r\n").bytes).body 10 .chunked).result = .ok () ∧
      ∃ body : ChunkedBody, body.Strict ∧ body.bytes = (oneChunk "5\r\n" "\r\n").bytes := by
  have hdone : ((copyingOf (oneChunk "5\r\n" "\r\n").bytes).body 10 .chunked).result = .ok () := by
    decide +kernel
  have hwritten : ((copyingOf (oneChunk "5\r\n" "\r\n").bytes).body 10 .chunked).state.written =
      (oneChunk "5\r\n" "\r\n").bytes := by
    decide +kernel
  have hfive : Denotes 16 (Utf8.asciiText (ascii "5")) 5 :=
    (value?_eq_some (by decide)).1 (by decide +kernel)
  have hzero : Denotes 16 (Utf8.asciiText (ascii "0")) 0 :=
    (value?_eq_some (by decide)).1 (by decide +kernel)
  have hwell : (oneChunk "5\r\n" "\r\n").WellFormed := by
    refine ⟨?_, .bare hzero .pair, by simp [oneChunk], .pair⟩
    exact List.forall_mem_singleton.2 ⟨by decide, .bare hfive .pair, .pair⟩
  obtain ⟨body, -, -, hbytes, hiff⟩ := chunked_wellFormed hdone
  have hbody : (oneChunk "5\r\n" "\r\n").bytes = body.bytes := hwritten.symm.trans hbytes
  exact ⟨hdone, body, hiff.1 ⟨_, hwell, hbody⟩, hbody.symm⟩

theorem oneChunk_copied {line ending : String} (hline : IsLine (ascii line))
    (hsize : chunkSize? (ascii line) = some 5) (hending : IsLine (ascii ending)) :
    (oneChunk line ending).Copied := by
  have hdata : ascii "hello" ≠ [] ∧ (ascii "hello").length = 5 := by decide
  have hlast : TakenForSize 0 (ascii "0\r\n") :=
    takenForSize_iff.2 ⟨⟨ascii "0\r", by decide, by decide⟩, by decide +kernel⟩
  refine ⟨List.forall_mem_singleton.2 ⟨hdata.1, ?_, hending⟩, hlast, by simp [oneChunk], .pair⟩
  rw [hdata.2]
  exact takenForSize_iff.2 ⟨hline, hsize⟩

/-- A body of one chunk that is copied to its end, though its bytes are no well-formed body. -/
structure Miscopied (line ending : String) : Prop where
  done : ((copyingOf (oneChunk line ending).bytes).body 10 .chunked).result = .ok ()
  written : ((copyingOf (oneChunk line ending).bytes).body 10 .chunked).state.written =
    (oneChunk line ending).bytes
  wrong : ¬ ∃ b : ChunkedBody, b.WellFormed ∧ b.bytes = (oneChunk line ending).bytes

/-- Bytes between the data and the end of the line get through, and so does a plus sign in front of
a size. -/
theorem chunked_not_wellFormed : Miscopied "5\r\n" "JUNK\r\n" ∧ Miscopied "+5\r\n" "\r\n" := by
  refine ⟨⟨by decide +kernel, by decide +kernel, ?_⟩, ⟨by decide +kernel, by decide +kernel, ?_⟩⟩
  · rintro ⟨b, hb, hbytes⟩
    have hjunk : (oneChunk "5\r\n" "JUNK\r\n").Copied :=
      oneChunk_copied ⟨ascii "5\r", by decide, by decide⟩ (by decide +kernel)
        ⟨ascii "JUNK\r", by decide, by decide⟩
    obtain rfl := hjunk.unique hb hbytes.symm
    have hending := (hb.chunk _ List.mem_cons_self).2.2
    exact absurd (lineEnd_iff.1 hending) (by decide)
  · rintro ⟨b, hb, hbytes⟩
    have hplus : (oneChunk "+5\r\n" "\r\n").Copied :=
      oneChunk_copied ⟨ascii "+5\r", by decide, by decide⟩ (by decide +kernel) LineEnd.pair.isLine
    obtain rfl := hplus.unique hb hbytes.symm
    have hsize := (hb.chunk _ List.mem_cons_self).2.1
    have hdigits := hsize.denotes (t := ['+', '5', '\r', '\n']) (by decide +kernel)
    rw [show trim (['+', '5', '\r', '\n'].takeWhile (· ≠ ';')) = ['+', '5'] by decide] at hdigits
    exact not_denotes_plus (by decide) hdigits

end Intercept.Http
