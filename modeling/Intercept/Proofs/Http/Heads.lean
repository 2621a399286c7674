import Intercept.Proofs.Http.HeadEnd
import Intercept.Proofs.Http.Place

/-!
# Heads are cut where they end

A head is cut off by looking for bytes, and what it says is found by scanning it line by line. Each
has its own notion of the end of a line and of the empty lines in front. For every head that is
accepted the two ends are one.

* `EndsBlank`: whether some bytes end in a line feed and an empty line.
* `CutAtBlank raw input`: `raw` is the shortest piece in front of the input that ends so.
* `CompletesAt scan raw lines`: scanning is done behind `raw`, whatever follows, and not before.
* `Request.Says`, `Response.Says`: what was made of a head is what its lines say.

Results:
* `cutAtBlank_iff`: looking for the end of a head cuts at the first empty line.
* `completesAt_of_cut`: a head that was cut off and that scanning accepts is scanned to its end.
* `Reader.readRequest_eq_ok`, `Reader.readResponse_eq_ok`: what is read is a head that was cut off
  and accepted.
* `accepted_heads_end_where_cut`: so it is with every request and every response that is read.
-/

namespace Intercept.Http

/-! ## The first empty line -/

/-- Whether the last line is an empty one: LF LF or LF CR LF. -/
def EndsBlank (b : Bytes) : Prop := [lf, lf] <:+ b ∨ [lf, cr, lf] <:+ b

/-- The shortest piece in front of the input that ends in a line feed and an empty line. -/
structure CutAtBlank (raw input : Bytes) : Prop where
  isPrefix : raw <+: input
  blank : EndsBlank raw
  shortest : ∀ p, p <+: input → EndsBlank p → raw <+: p

theorem EndsBlank.append {b : Bytes} (h : EndsBlank b) (front : Bytes) :
    EndsBlank (front ++ b) :=
  h.imp (·.trans (List.suffix_append front b)) (·.trans (List.suffix_append front b))

/-- Every head ends in an empty line. -/
theorem Headed.endsBlank {fs : List Field} {n : Nat} {head : Bytes} (h : Headed fs n head) :
    EndsBlank head := by
  -- the last line of the fields is empty, and some line is in front of it
  have hfields (fs : List Field) (fields : Bytes) (h : FieldLines fs fields) :
      ∀ eol, LineEnd eol → EndsBlank (eol ++ fields) := by
    induction h with
    | nil he' =>
      intro eol he
      cases he <;> cases he'
      · exact .inl (List.suffix_refl _)
      · exact .inr (List.suffix_refl _)
      · exact .inl (List.suffix_cons _ _)
      · exact .inr (List.suffix_cons _ _)
    | @cons f fs line eol' b _ he' _ ih =>
      intro eol _
      rw [List.append_assoc line, ← List.append_assoc eol]
      exact (ih eol' he').append _
  obtain ⟨-, -, -, he, hfs⟩ := h
  rename_i front line eol fields
  rw [List.append_assoc line, ← List.append_assoc front]
  exact (hfields _ _ hfs eol he).append _

theorem headEnd?_cons (c : UInt8) (r : Bytes) :
    headEnd? (c :: r) =
      if c = lf ∧ r.head? = some lf then some 2
      else if c = lf ∧ startsBlank r then some 3
      else (headEnd? r).map (· + 1) := by
  rw [headEnd?, headEndFrom_cons, headEndFrom_eq (0 + 1)]

/-- What is cut off ends in an empty line. -/
theorem endsBlank_take {b : Bytes} {n : Nat} (h : headEnd? b = some n) : EndsBlank (b.take n) := by
  induction b generalizing n with
  | nil => cases h
  | cons c r ih =>
    rw [headEnd?_cons] at h
    split at h
    · rename_i hc
      cases h
      rcases r with _ | ⟨d, r⟩
      · simp at hc
      · obtain ⟨rfl, hd⟩ := hc
        cases hd
        exact .inl (List.suffix_refl _)
    · rename_i hnot
      split at h
      · rename_i hc
        cases h
        obtain ⟨rfl, hblank⟩ := hc
        rcases r with _ | ⟨d, r⟩
        · cases hblank
        · -- the empty line is no single LF here
          have hd : d ≠ lf := fun hd => hnot ⟨rfl, congrArg some hd⟩
          obtain ⟨rfl, hr⟩ : d = cr ∧ r.head? = some lf := by simpa [startsBlank, hd] using hblank
          rcases r with _ | ⟨e, r⟩
          · cases hr
          · cases hr
            exact .inr (List.suffix_refl _)
      · obtain ⟨m, hm, rfl⟩ := Option.map_eq_some_iff.1 h
        exact (ih hm).append [c]

/-- Where an empty line ends some bytes, a head ends in them. -/
theorem EndsBlank.headEnd? {b : Bytes} (h : EndsBlank b) : ∃ n, headEnd? b = some n := by
  have hbehind (front b : Bytes) (h : ∃ n, Http.headEnd? b = some n) :
      ∃ n, Http.headEnd? (front ++ b) = some n := by
    induction front with
    | nil => exact h
    | cons c front ih =>
      obtain ⟨n, hn⟩ := ih
      rw [List.cons_append, headEnd?_cons, hn]
      split
      · exact ⟨2, rfl⟩
      · split
        · exact ⟨3, rfl⟩
        · exact ⟨n + 1, rfl⟩
  rcases h with ⟨front, rfl⟩ | ⟨front, rfl⟩
  · exact hbehind front _ ⟨2, rfl⟩
  · exact hbehind front _ ⟨3, rfl⟩

/-- Looking for the end of a head cuts at the first empty line. -/
theorem cutAtBlank_iff {raw b : Bytes} :
    CutAtBlank raw b ↔ raw <+: b ∧ headEnd? b = some raw.length := by
  -- an empty line inside a piece in front is not before the end that is found
  have hle {p : Bytes} (hp : p <+: b) (hblank : EndsBlank p) :
      ∃ m, headEnd? b = some m ∧ m ≤ p.length := by
    obtain ⟨rest, rfl⟩ := hp
    obtain ⟨m, hm⟩ := hblank.headEnd?
    exact ⟨m, headEnd?_append hm, (headEnd?_bounds hm).2⟩
  constructor
  · rintro ⟨hfront, hblank, hshortest⟩
    obtain ⟨m, hm, hmraw⟩ := hle hfront hblank
    have hback := (hshortest _ (List.take_prefix m b) (endsBlank_take hm)).length_le
    rw [List.length_take] at hback
    exact ⟨hfront, by rw [hm, show m = raw.length by omega]⟩
  · rintro ⟨hfront, hend⟩
    have hraw : b.take raw.length = raw := (List.prefix_iff_eq_take.1 hfront).symm
    refine ⟨hfront, hraw ▸ endsBlank_take hend, fun p hp hblank => ?_⟩
    obtain ⟨m, hm, hmp⟩ := hle hp hblank
    obtain rfl : m = raw.length := Option.some.inj (hm.symm.trans hend)
    exact List.prefix_of_prefix_length_le hfront hp hmp

/-- The end of a head that was cut off is seen without what was behind it. -/
theorem CutAtBlank.headEnd?_self {raw b : Bytes} (h : CutAtBlank raw b) :
    headEnd? raw = some raw.length := by
  obtain ⟨⟨rest, rfl⟩, hend⟩ := cutAtBlank_iff.1 h
  exact headEnd?_of_append hend (Nat.le_refl _)

/-! ## Where scanning is done -/

/-- Scanning is done behind `raw`, whatever follows and however many slots there are, and is not
done before. -/
structure CompletesAt {α : Type} (scan : Nat → Bytes → Scan α) (raw : Bytes) (lines : α) :
    Prop where
  done : ∀ slots more, fieldSlots raw ≤ slots → scan slots (raw ++ more) = .done lines more
  notBefore : ∀ p, p <+: raw → p ≠ raw → ∀ slots a rest, scan slots p ≠ .done a rest

section

variable {α : Type} {scan : Nat → Bytes → Scan α} {Head : α → Nat → Bytes → Prop}
  {fields : α → List Field} {lines : α} {raw rest : Bytes}

/-- A head that was cut off is scanned to its end if scanning accepts it, and no earlier. It is
the same for requests and responses. -/
theorem completesAt_of_cut
    (hscan : ∀ slots b rest lines, scan slots b = .done lines rest ↔
      ∃ n head, Head lines n head ∧ b = head ++ rest ∧ (fields lines).length ≤ slots)
    (hheaded : ∀ lines n head, Head lines n head → Headed (fields lines) n head)
    (hcut : headEnd? raw = some raw.length) (h : scan (fieldSlots raw) raw = .done lines rest) :
    rest = [] ∧ CompletesAt scan raw lines := by
  obtain ⟨n, head, hhead, hraw, hlen⟩ := (hscan _ _ _ _).1 h
  have hrest : rest = [] := by
    rw [hraw] at hcut
    have hle := (hheaded _ _ _ hhead).cut_le hcut
    rw [List.length_append] at hle
    exact List.eq_nil_of_length_eq_zero (by omega)
  rw [hrest, List.append_nil] at hraw
  subst hraw
  refine ⟨hrest, fun slots more hslots => ?_, fun p hp hne slots a left hdone => ?_⟩
  · exact (hscan _ _ _ _).2 ⟨n, raw, hhead, rfl, hlen.trans hslots⟩
  · obtain ⟨m, front, hfront, rfl, -⟩ := (hscan _ _ _ _).1 hdone
    obtain ⟨behind, hbehind⟩ := hp
    -- the shorter head would be cut inside `p` already
    rw [← hbehind, List.append_assoc] at hcut
    have hle := (hheaded _ _ _ hfront).cut_le hcut
    simp only [List.length_append] at hle
    obtain rfl : behind = [] := List.eq_nil_of_length_eq_zero (by omega)
    exact hne (by rw [← hbehind, List.append_nil])

end

/-! ## What is read -/

/-- What was made of a request head is what its lines say. -/
structure Request.Says (q : Request) (lines : RequestLines) : Prop where
  method : Utf8.decode? lines.method = some q.method
  target : Utf8.decode? lines.target = some q.target
  host : q.host = hostOf q.target lines.fields
  framing : framing? lines.fields = some q.framing

/-- What was made of a response head is what its lines say. -/
structure Response.Says (headRequest : Bool) (a : Response) (lines : ResponseLines) : Prop where
  status : a.status = lines.status
  framing : framing? headRequest lines.status lines.fields = some a.framing

theorem Request.says_of_ofRaw? {raw : Bytes} {q : Request} (h : ofRaw? raw = some q) :
    ∃ lines rest, scanRequest (fieldSlots raw) raw = .done lines rest ∧ q.Says lines := by
  unfold ofRaw? at h
  split at h
  · rename_i lines rest hscan
    simp only [Option.bind_eq_bind, Option.bind_eq_some_iff, Option.pure_def,
      Option.some.injEq] at h
    obtain ⟨method, hm, target, ht, framing, hf, rfl⟩ := h
    exact ⟨lines, rest, hscan, hm, ht, rfl, hf⟩
  · cases h

theorem Response.says_of_ofRaw? {headRequest : Bool} {raw : Bytes} {a : Response}
    (h : ofRaw? headRequest raw = some a) :
    ∃ lines rest, scanResponse (fieldSlots raw) raw = .done lines rest ∧
      a.Says headRequest lines := by
  unfold ofRaw? at h
  split at h
  · rename_i lines rest hscan
    obtain ⟨framing, hf, rfl⟩ := Option.map_eq_some_iff.1 h
    exact ⟨lines, rest, hscan, rfl, hf⟩
  · cases h

namespace Reader

variable {incomplete : Error} {limit : Nat} {r : Reader} {raw : Bytes}

/-- A head is cut at the first empty line of all that there is to read. -/
theorem cutAtBlank_of_readHead (h : (r.readHead incomplete limit).result = .ok raw) :
    CutAtBlank raw r.bytes :=
  cutAtBlank_iff.2 ⟨⟨_, (readHead_bytes h).1⟩, readHead_headEnd h⟩

section

variable {α : Type} {head : Except (Stop Error) Bytes} {parse : Bytes → Option α} {e : Error}

/-- What is read is what was made of the head that was cut off. -/
theorem bind_parse_eq_ok {a : α} :
    (head.bind fun raw => (parse raw).elim (.error (.failed e)) .ok) = .ok a ↔
      ∃ raw, head = .ok raw ∧ parse raw = some a := by
  cases head with
  | error s => simp [Except.bind]
  | ok raw => cases h : parse raw <;> simp [Except.bind, h]

/-- Cutting the head off fails as reading does, unless the head that was cut off is refused. -/
theorem bind_parse_eq_error {s : Stop Error} (hs : s ≠ .failed e) :
    (head.bind fun raw => (parse raw).elim (.error (.failed e)) .ok) = .error s ↔
      head = .error s := by
  cases head with
  | error s => simp [Except.bind]
  | ok raw => cases h : parse raw <;> simp [Except.bind, h, hs.symm]

end

theorem result_readRequest (limit : Nat) (r : Reader) :
    (r.readRequest limit).result = (r.readHead .invalidRequest limit).result.bind fun raw =>
      (Request.ofRaw? raw).elim (.error (.failed .invalidRequest)) .ok := by
  unfold readRequest
  cases h : (r.readHead .invalidRequest limit).result <;> simp [Except.bind, h]

theorem result_readResponse (headRequest : Bool) (limit : Nat) (r : Reader) :
    (r.readResponse headRequest limit).result =
      (r.readHead .invalidResponse limit).result.bind fun raw =>
        (Response.ofRaw? headRequest raw).elim (.error (.failed .invalidResponse)) .ok := by
  unfold readResponse
  cases h : (r.readHead .invalidResponse limit).result <;> simp [Except.bind, h]

/-- A request is read when its head is cut off and accepted. -/
theorem readRequest_eq_ok {q : Request} : (r.readRequest limit).result = .ok q ↔
    (r.readHead .invalidRequest limit).result = .ok q.raw ∧ Request.ofRaw? q.raw = some q := by
  rw [result_readRequest, bind_parse_eq_ok]
  constructor
  · rintro ⟨raw, hhead, hq⟩
    obtain rfl := Request.raw_of_ofRaw? hq
    exact ⟨hhead, hq⟩
  · exact fun h => ⟨_, h⟩

theorem readResponse_eq_ok {headRequest : Bool} {a : Response} :
    (r.readResponse headRequest limit).result = .ok a ↔
      (r.readHead .invalidResponse limit).result = .ok a.raw ∧
        Response.ofRaw? headRequest a.raw = some a := by
  rw [result_readResponse, bind_parse_eq_ok]
  constructor
  · rintro ⟨raw, hhead, ha⟩
    obtain rfl := Response.raw_of_ofRaw? ha
    exact ⟨hhead, ha⟩
  · exact fun h => ⟨_, h⟩

end Reader

/-- **Accepted heads are cut where they end**: whatever was read ahead and however the rest comes,
the bytes of a request or a response that is read are the shortest piece in front of the input that
ends in an empty line, scanning is done exactly behind them, all that was made of the head is what
its lines say, and behind the head the reader goes on with the rest of the input. -/
theorem accepted_heads_end_where_cut (limit : Nat) (r : Reader) :
    (∀ q, (r.readRequest limit).result = .ok q →
      CutAtBlank q.raw r.bytes ∧ (∃ lines, CompletesAt scanRequest q.raw lines ∧ q.Says lines) ∧
      q.raw ++ (r.readRequest limit).reader.bytes = r.bytes) ∧
    (∀ headRequest a, (r.readResponse headRequest limit).result = .ok a →
      CutAtBlank a.raw r.bytes ∧
      (∃ lines, CompletesAt scanResponse a.raw lines ∧ a.Says headRequest lines) ∧
      a.raw ++ (r.readResponse headRequest limit).reader.bytes = r.bytes) := by
  constructor
  · intro q hq
    obtain ⟨hhead, haccepted⟩ := Reader.readRequest_eq_ok.1 hq
    have hcut := Reader.cutAtBlank_of_readHead hhead
    obtain ⟨lines, rest, hscan, hsays⟩ := Request.says_of_ofRaw? haccepted
    obtain ⟨-, hdone⟩ := completesAt_of_cut (fun _ _ _ _ => scanRequest_eq_done)
      (fun _ _ _ => RequestHead.headed) hcut.headEnd?_self hscan
    exact ⟨hcut, ⟨lines, hdone, hsays⟩, Reader.readRequest_bytes hq⟩
  · intro headRequest a ha
    obtain ⟨hhead, haccepted⟩ := Reader.readResponse_eq_ok.1 ha
    have hcut := Reader.cutAtBlank_of_readHead hhead
    obtain ⟨lines, rest, hscan, hsays⟩ := Response.says_of_ofRaw? haccepted
    obtain ⟨-, hdone⟩ := completesAt_of_cut (fun _ _ _ _ => scanResponse_eq_done)
      (fun _ _ _ => ResponseHead.headed) hcut.headEnd?_self hscan
    refine ⟨hcut, ⟨lines, hdone, hsays⟩, ?_⟩
    rw [Reader.reader_readResponse]
    exact (Reader.readHead_bytes hhead).1

/-- A request behind an empty line, with lines of both kinds and more input behind it. -/
def mixedRequest : Request where
  raw := ascii "\r\nGET /a HTTP/1.1\nHost: a.test\r\n\n"
  method := "GET".toList
  target := "/a".toList
  host := some "a.test".toList
  framing := .empty

/-- A response without a reason, ended by LF CR LF. -/
def curtResponse : Response where
  raw := ascii "HTTP/1.0 200\nContent-Length: 2\n\r\n"
  status := 200
  framing := .length 2

/-- Both are cut at their ends, in the midst of pieces and with other ends of lines behind them. -/
theorem accepted_heads_end_where_cut_piecemeal :
    let asked : Reader :=
      { buffer := ascii "\r\nGET /a "
        stream := .ofPieces
          [ascii "HTTP/1.1\nHost: a.test\r", ascii "\n\n\nHost: b.test\r\n\r\n"] }
    let answered : Reader :=
      { stream := .ofPieces [curtResponse.raw ++ ascii "ok", ascii "\r\n\r\n"] }
    (asked.readRequest 0).result = .ok mixedRequest ∧ CutAtBlank mixedRequest.raw asked.bytes ∧
      (answered.readResponse false 0).result = .ok curtResponse ∧
      CutAtBlank curtResponse.raw answered.bytes := by
  intro asked answered
  have hrequest : (asked.readRequest 0).result = .ok mixedRequest := by decide +kernel
  have hresponse : (answered.readResponse false 0).result = .ok curtResponse := by decide +kernel
  obtain ⟨hasked, -⟩ := (accepted_heads_end_where_cut 0 asked).1 _ hrequest
  obtain ⟨hanswered, -⟩ := (accepted_heads_end_where_cut 0 answered).2 _ _ hresponse
  exact ⟨hrequest, hasked, hresponse, hanswered⟩

end Intercept.Http
