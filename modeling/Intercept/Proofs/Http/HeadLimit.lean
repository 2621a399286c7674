import Intercept.Proofs.Http.Heads

/-!
# How long a head a reader takes

A reader gives up on a head once it holds more than `mostInHead` bytes and no end of a head among
them. It looks between one read and the next, so what the limit is put on is not the head but what
was there before the read that brought its end.

* `Reached size step most n s`: reads from `s` on come to `n` bytes, and each of them begins with at
  most `most` bytes.
* `Reader.Reached limit n r`: a reader comes to `n` bytes in that way.
* `Reader.Overruns limit r raw`: the head in front is longer than a head may be, and is reached.

Results:
* `Reached.pieces`: where each read brings one piece, the pieces before the last one are limited.
* `readHead_eq_ok`: a head is cut off exactly if it is reached.
* `readHead_headTooLarge`: a head within the limit is never refused as too large.
* `readRequest_limited`, `readResponse_limited`: no head that is longer than the limit is accepted,
  exactly if none is accepted that overruns it.
-/

namespace Intercept

/-- Reads from a state on come to `n` bytes, and each of them begins with at most `most` bytes. -/
inductive Reached {σ : Type} (size : σ → Nat) (step : σ → σ → Prop) (most n : Nat) : σ → Prop
  | there {s : σ} : n ≤ size s → Reached size step most n s
  | read {s s' : σ} : size s ≤ most → step s s' → Reached size step most n s' →
      Reached size step most n s

section

variable {σ : Type} {size : σ → Nat} {step : σ → σ → Prop} {most : Nat}

/-- Where each read brings one piece, all the bytes are reached exactly if those before the last
piece are no more than the limit. -/
theorem Reached.pieces (state : Bytes → List Bytes → σ) (got : Bytes) {fits : Bytes → Prop}
    (hsize : ∀ got pieces, size (state got pieces) = got.length)
    (hstep : ∀ got piece pieces s, fits piece →
      (step (state got (piece :: pieces)) s ↔ s = state (got ++ piece) pieces))
    {last : Bytes} {pieces : List Bytes} (hfits : ∀ piece ∈ pieces ++ [last], fits piece)
    (hlast : last ≠ []) :
    Reached size step most (got ++ pieces.flatten ++ last).length (state got (pieces ++ [last])) ↔
      (got ++ pieces.flatten).length ≤ most := by
  have hpos := List.length_pos_iff.2 hlast
  induction pieces generalizing got with
  | nil =>
    rw [List.flatten_nil, List.append_nil]
    constructor
    · rintro (hall | ⟨hmost, -, -⟩)
      · rw [hsize, List.length_append] at hall
        omega
      · rwa [hsize] at hmost
    · intro hmost
      refine .read (by rwa [hsize]) ((hstep _ _ _ _ (hfits last ?_)).2 rfl) (.there ?_)
      · exact List.mem_append_right _ List.mem_cons_self
      · rw [hsize]
  | cons piece pieces ih =>
    obtain ⟨hpiece, hrest⟩ := List.forall_mem_cons.1 hfits
    have hflat : got ++ (piece :: pieces).flatten = got ++ piece ++ pieces.flatten := by simp
    have ih := ih (got ++ piece) hrest
    rw [hflat]
    constructor
    · rintro (hall | ⟨-, hread, hreached⟩)
      · rw [hsize] at hall
        simp only [List.length_append] at hall
        omega
      · rw [(hstep _ _ _ _ hpiece).1 hread] at hreached
        exact ih.1 hreached
    · intro hmost
      refine .read ?_ ((hstep _ _ _ _ hpiece).2 rfl) (ih.2 hmost)
      rw [hsize]
      simp only [List.length_append] at hmost
      omega

end

namespace Http.Reader

variable {incomplete : Error} {limit n : Nat} {r r' : Reader} {raw : Bytes}

/-- Reading ahead comes to `n` bytes, and each read begins with no more than a head may hold. -/
def Reached (limit n : Nat) (r : Reader) : Prop :=
  Intercept.Reached (fun r : Reader => r.buffer.length) (fun r r' => r.fill limit = .more r')
    mostInHead n r

/-- The head in front is longer than a head may be, and is reached all the same. -/
structure Overruns (limit : Nat) (r : Reader) (raw : Bytes) : Prop where
  cut : CutAtBlank raw r.bytes
  long : mostInHead < raw.length
  reached : r.Reached limit raw.length

/-! ## Cutting -/

/-- A head is cut off exactly if it is reached. -/
theorem readHead_eq_ok : (r.readHead incomplete limit).result = .ok raw ↔
    CutAtBlank raw r.bytes ∧ r.Reached limit raw.length := by
  constructor
  · intro h
    refine ⟨cutAtBlank_of_readHead h, ?_⟩
    fun_induction readHead incomplete limit r with
    | case1 r n hn =>
      cases h
      refine .there ?_
      rw [List.length_take]
      exact Nat.min_le_right _ _
    | case2 => cases h
    | case3 r hnone hlarge r' hr ih => exact .read (Nat.le_of_not_lt hlarge) hr (ih h)
    | case4 => cases h
    | case5 => cases h
  · rintro ⟨hcut, hreached⟩
    -- a head whose end is in the buffer is there in full
    have hthere (r : Reader) (n : Nat) (hcut : CutAtBlank raw r.bytes)
        (hn : headEnd? r.buffer = some n) : (r.readHead incomplete limit).result = .ok raw := by
      obtain ⟨hraw, hend⟩ := cutAtBlank_iff.1 hcut
      obtain rfl : n = raw.length := Option.some.inj ((headEnd?_append hn).symm.trans hend)
      have hfront : raw <+: r.buffer :=
        List.prefix_of_prefix_length_le hraw ⟨_, rfl⟩ (headEnd?_bounds hn).2
      rw [readHead_of_buffer incomplete limit hn, ← List.prefix_iff_eq_take.1 hfront]
    induction hreached with
    | @there r hn =>
      obtain ⟨-, hend⟩ := cutAtBlank_iff.1 hcut
      exact hthere r _ hcut (headEnd?_of_append hend hn)
    | @read r r' hmost hr _ ih =>
      cases hn : headEnd? r.buffer with
      | some n => exact hthere r n hcut hn
      | none =>
        rw [readHead_of_fill incomplete hn (Nat.not_lt.2 hmost) hr]
        have hbytes : r'.bytes = r.bytes := bytes_of_fill hr
        exact ih (hbytes ▸ hcut)

/-- No read fails because a head is too large. -/
theorem fill_ne_headTooLarge : r.fill limit ≠ .stopped (.failed .headTooLarge) r' := by
  intro h
  unfold fill at h
  split at h
  · simp only [Filled.stopped.injEq, verdict] at h
    obtain ⟨hverdict, -⟩ := h
    split at hverdict
    · split at hverdict <;> cases hverdict
    · cases hverdict
  · split at h <;> cases h

/-- However bytes come, they are too large only if no empty line ends within the limit. -/
theorem readHead_headTooLarge (hincomplete : incomplete ≠ .headTooLarge)
    (h : (r.readHead incomplete limit).result = .error (.failed .headTooLarge)) :
    ∀ p, p <+: r.bytes → EndsBlank p → mostInHead < p.length := by
  intro p hp hblank
  obtain ⟨n, hn⟩ := hblank.headEnd?
  obtain ⟨rest, hrest⟩ := hp
  have hend : headEnd? r.bytes = some n := hrest ▸ headEnd?_append hn
  refine Nat.lt_of_lt_of_le ?_ (headEnd?_bounds hn).2
  clear hrest
  fun_induction readHead incomplete limit r with
  | case1 => cases h
  | case2 r hnone hlarge => exact Nat.lt_trans hlarge (length_buffer_lt hend hnone)
  | case3 r hnone hlarge r' hr ih =>
    have hbytes : r'.bytes = r.bytes := bytes_of_fill hr
    exact ih h (hbytes ▸ hend)
  | case4 =>
    cases h
    exact absurd rfl hincomplete
  | case5 r hnone hlarge s r' hr =>
    cases h
    exact absurd hr fill_ne_headTooLarge

/-! ## Requests and responses -/

/-- No head above the limit is accepted, exactly if no head that overruns it would be. It is the
same for requests and responses. -/
theorem limited_iff {α : Type} {parse : Bytes → Option α} {rawOf : α → Bytes}
    {result : Except (Stop Error) α} (hraw : ∀ raw a, parse raw = some a → rawOf a = raw)
    (hresult : ∀ a, result = .ok a ↔
      (r.readHead incomplete limit).result = .ok (rawOf a) ∧ parse (rawOf a) = some a) :
    (∀ a, result = .ok a → (rawOf a).length ≤ mostInHead) ↔
      ∀ raw, r.Overruns limit raw → parse raw = none := by
  constructor
  · intro hlimited raw hoverruns
    refine Option.eq_none_iff_forall_ne_some.2 fun a ha => ?_
    obtain rfl := hraw raw a ha
    have hok := (hresult a).2 ⟨readHead_eq_ok.2 ⟨hoverruns.cut, hoverruns.reached⟩, ha⟩
    exact Nat.not_lt.2 (hlimited a hok) hoverruns.long
  · intro hnone a ha
    obtain ⟨hhead, hparse⟩ := (hresult a).1 ha
    obtain ⟨hcut, hreached⟩ := readHead_eq_ok.1 hhead
    refine Nat.le_of_not_lt fun hlong => ?_
    cases hparse.symm.trans (hnone _ ⟨hcut, hlong, hreached⟩)

theorem readRequest_limited :
    (∀ q, (r.readRequest limit).result = .ok q → q.raw.length ≤ mostInHead) ↔
      ∀ raw, r.Overruns limit raw → Request.ofRaw? raw = none :=
  limited_iff (fun _ _ => Request.raw_of_ofRaw?) fun _ => readRequest_eq_ok

theorem readResponse_limited {headRequest : Bool} :
    (∀ a, (r.readResponse headRequest limit).result = .ok a → a.raw.length ≤ mostInHead) ↔
      ∀ raw, r.Overruns limit raw → Response.ofRaw? headRequest raw = none :=
  limited_iff (fun _ _ => Response.raw_of_ofRaw?) fun _ => readResponse_eq_ok

/-- A request is refused as too large when its head is. -/
theorem readRequest_headTooLarge :
    (r.readRequest limit).result = .error (.failed .headTooLarge) ↔
      (r.readHead .invalidRequest limit).result = .error (.failed .headTooLarge) := by
  rw [result_readRequest, bind_parse_eq_error (by decide)]

theorem readResponse_headTooLarge {headRequest : Bool} :
    (r.readResponse headRequest limit).result = .error (.failed .headTooLarge) ↔
      (r.readHead .invalidResponse limit).result = .error (.failed .headTooLarge) := by
  rw [result_readResponse, bind_parse_eq_error (by decide)]

/-! ## Heads in pieces -/

/-- A head that comes in time is cut off or refused as too large. -/
theorem readHead_ok_or_headTooLarge (incomplete : Error) (h : r.Steady limit n)
    (hend : headEnd? r.bytes = some n) :
    (r.readHead incomplete limit).result = .ok (r.bytes.take n) ∨
      (r.readHead incomplete limit).result = .error (.failed .headTooLarge) := by
  fun_induction readHead incomplete limit r with
  | case1 r m hm =>
    obtain rfl : m = n := Option.some.inj ((headEnd?_append hm).symm.trans hend)
    rw [Reader.bytes, List.take_append_of_le_length (headEnd?_bounds hm).2]
    exact .inl rfl
  | case2 => exact .inr rfl
  | case3 r hnone hlarge r' hr ih =>
    have hbytes : r'.bytes = r.bytes := bytes_of_fill hr
    have hsteady := h.more (length_buffer_lt hend hnone) hr
    rw [← hbytes] at hend ⊢
    exact ih hsteady hend
  | case4 r hnone hlarge r' hr =>
    have := (headEnd?_bounds hend).2
    have := length_buffer_lt hend hnone
    exact absurd hr (fill_ne_ended (by omega))
  | case5 r hnone hlarge s r' hr =>
    exact absurd hr (h.fill_ne_stopped (length_buffer_lt hend hnone))

/-- What becomes of a head that comes in pieces is decided by what came before the last of them. -/
theorem readHead_pieces (incomplete : Error) (limit : Nat) {pieces : List Bytes} {last : Bytes}
    (hbuffer : r.buffer = []) (hstream : r.stream = .ofPieces (pieces ++ [last]))
    (hfits : ∀ p ∈ pieces ++ [last], p ≠ [] ∧ p.length ≤ readAhead)
    (hend : headEnd? (pieces.flatten ++ last) = some (pieces.flatten ++ last).length) :
    (r.readHead incomplete limit).result = if pieces.flatten.length ≤ mostInHead
      then .ok (pieces.flatten ++ last) else .error (.failed .headTooLarge) := by
  obtain ⟨buffer, stream, patience, now⟩ := r
  obtain rfl : buffer = [] := hbuffer
  obtain rfl : stream = .ofPieces (pieces ++ [last]) := hstream
  let state (got : Bytes) (pieces : List Bytes) : Reader := ⟨got, .ofPieces pieces, patience, now⟩
  have hbytes : (state [] (pieces ++ [last])).bytes = pieces.flatten ++ last := by
    rw [Reader.bytes, Replay.bytes_ofPieces, List.flatten_append]
    simp [state]
  have hlast : last ≠ [] := (hfits last (List.mem_append_right _ List.mem_cons_self)).1
  have hreached : (state [] (pieces ++ [last])).Reached limit (pieces.flatten ++ last).length ↔
      pieces.flatten.length ≤ mostInHead := by
    refine Reached.pieces state [] (fun _ _ => rfl) ?_ hfits hlast
    rintro got piece rest s ⟨hne, hshort⟩
    rw [fill_piece (r := state got (piece :: rest)) limit rfl hne hshort, Filled.more.injEq]
    exact eq_comm
  have hcut : CutAtBlank (pieces.flatten ++ last) (state [] (pieces ++ [last])).bytes := by
    rw [hbytes]
    exact cutAtBlank_iff.2 ⟨List.prefix_refl _, hend⟩
  by_cases hmost : pieces.flatten.length ≤ mostInHead
  · rw [if_pos hmost]
    exact readHead_eq_ok.2 ⟨hcut, hreached.2 hmost⟩
  · rw [if_neg hmost]
    have hsteady : (state [] (pieces ++ [last])).Steady limit (pieces.flatten ++ last).length :=
      Replay.Steady.ofPieces _
    rcases readHead_ok_or_headTooLarge incomplete hsteady (hbytes ▸ hend) with hok | hlarge
    · rw [hbytes, List.take_length] at hok
      exact absurd (hreached.1 (readHead_eq_ok.1 hok).2) hmost
    · exact hlarge

end Http.Reader
end Intercept
