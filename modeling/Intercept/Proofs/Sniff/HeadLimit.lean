import Intercept.Proofs.Http.HeadLimit
import Intercept.Proofs.Sniff.Protocol

/-!
# The head limit and the arrival of a head

Reader and sniffer both put a limit on heads, and both look at it between one read and the next: the
reader goes on while it holds no more than `mostInHead` bytes, the sniffer while it holds fewer. So
how long a head may be depends on how it arrives.

* `Probing`: what a probe goes on from.
* `Probing.Reached deadline n p`: a probe comes to `n` bytes, and each read begins below the limit.

Results:
* `probe_eq_http`, `sniff_eq_http`: a stream is taken for HTTP exactly if the request head in front
  of it is reached.
* `head_limit`: what reader and sniffer accept keeps the limit exactly if no longer head is reached,
  and a head that is refused as too large is longer than the limit in any case.
* `head_in_pieces`: a head that comes in pieces is accepted exactly if what came before its last
  piece is within the limit.
-/

namespace Intercept

open Http

/-! ## Probing -/

/-- What a probe goes on from. -/
structure Probing where
  seen : Bytes
  now : Nat
  rest : Replay

namespace Probing

/-- A probe reads on. -/
def Reads (deadline : Nat) (p p' : Probing) : Prop :=
  ∃ time b bs rest, p.rest.readBy deadline p.now probeSize = some ⟨time, .bytes (b :: bs), rest⟩ ∧
    p' = ⟨p.seen ++ b :: bs, time, rest⟩

/-- A probe comes to `n` bytes, and each read begins with fewer than a head may hold. -/
def Reached (deadline n : Nat) (p : Probing) : Prop :=
  Intercept.Reached (fun p : Probing => p.seen.length) (Reads deadline) (mostInHead - 1) n p

/-- What sniffing leaves to a probe when the stream does not start with a handshake record. -/
def begin (deadline now : Nat) (r : Replay) : Probing :=
  let head := r.gather deadline Tls.headerLength [] now
  ⟨head.bytes, head.time, head.rest⟩

theorem bytes_begin (deadline now : Nat) (r : Replay) :
    (begin deadline now r).seen ++ (begin deadline now r).rest.bytes = r.bytes :=
  r.gather_bytes deadline Tls.headerLength [] now

end Probing

variable {deadline now : Nat} {seen head : Bytes} {r : Replay}

/-- A probe takes bytes for HTTP exactly if the request head in front of them is reached. -/
theorem probe_eq_http : (probe deadline seen now r).protocol = .http ↔
    ∃ head, IsRequestHead head ∧ head <+: seen ++ r.bytes ∧
      Probing.Reached deadline head.length ⟨seen, now, r⟩ := by
  constructor
  · intro h
    fun_induction probe deadline seen now r with
    | case1 seen now r lines rest hs =>
      obtain ⟨head, hhead, rfl⟩ := exists_isRequestHead hs
      refine ⟨head, hhead, ?_, .there ?_⟩
      · rw [List.append_assoc]
        exact List.prefix_append _ _
      · rw [List.length_append]
        exact Nat.le_add_right _ _
    | case2 => cases h
    | case3 => cases h
    | case4 => cases h
    | case5 seen now r _ hmost time b bs rest hr ih =>
      have hbytes : b :: bs ++ rest.bytes = r.bytes :=
        Replay.bytes_of_read (Replay.read_of_readBy hr)
      obtain ⟨head, hhead, hfront, hreached⟩ := ih h
      rw [List.append_assoc, hbytes] at hfront
      refine ⟨head, hhead, hfront, .read ?_ ⟨time, b, bs, rest, hr, rfl⟩ hreached⟩
      simp only
      omega
    | case6 => cases h
    | case7 => cases h
    | case8 => cases h
  · rintro ⟨head, hhead, hfront, hreached⟩
    -- what a probe sees is a part of the head or has the head in front
    have hscan (seen : Bytes) (r : Replay) (hfront : head <+: seen ++ r.bytes) :=
      hhead.scan_front hfront (List.prefix_append seen r.bytes)
    generalize hp : (⟨seen, now, r⟩ : Probing) = p at hreached
    induction hreached generalizing seen now r with
    | @there p hn =>
      subst hp
      rcases hscan seen r hfront with ⟨lines, rest, hdone⟩ | ⟨-, hlt⟩
      · rw [probe, hdone]
      · exact absurd hn (Nat.not_le.2 hlt)
    | @read p p' hmost hread _ ih =>
      subst hp
      obtain ⟨time, b, bs, rest, hr, rfl⟩ := hread
      have hbytes : b :: bs ++ rest.bytes = r.bytes :=
        Replay.bytes_of_read (Replay.read_of_readBy hr)
      rcases hscan seen r hfront with ⟨lines, rest, hdone⟩ | ⟨hmore, -⟩
      · rw [probe, hdone]
      · have hsmall : ¬ mostInHead ≤ seen.length := by
          simp only [mostInHead] at hmost ⊢
          omega
        rw [probe, hmore]
        simp only [if_neg hsmall]
        split <;> rename_i hr' <;> cases hr.symm.trans hr'
        exact ih (by rwa [List.append_assoc, hbytes]) rfl

/-! ## Sniffing -/

/-- A handshake record is no request. -/
theorem sniff_of_head (hhead : IsRequestHead head) (hfront : head <+: r.bytes) :
    (sniff deadline now r).protocol = (probe deadline (Probing.begin deadline now r).seen
      (Probing.begin deadline now r).now (Probing.begin deadline now r).rest).protocol := by
  unfold sniff
  simp only
  split
  · rename_i ht
    have hrecord := (Tls.isHandshake_iff.1 ht.2).trans
      ⟨_, r.gather_bytes deadline Tls.headerLength [] now⟩
    have hflawed : scanRequest (fieldSlots [0x16, 0x03, 0x01]) [0x16, 0x03, 0x01] =
      .flawed .token := by decide
    rcases hhead.scan_front hfront hrecord with ⟨lines, rest, hdone⟩ | ⟨hmore, -⟩
    · cases hflawed.symm.trans hdone
    · cases hflawed.symm.trans hmore
  · rfl

/-- A stream is taken for HTTP exactly if the request head in front of it is reached. -/
theorem sniff_eq_http : (sniff deadline now r).protocol = .http ↔
    ∃ head, IsRequestHead head ∧ head <+: r.bytes ∧
      (Probing.begin deadline now r).Reached deadline head.length := by
  constructor
  · intro h
    have hprobe : (probe deadline (Probing.begin deadline now r).seen
        (Probing.begin deadline now r).now (Probing.begin deadline now r).rest).protocol = .http := by
      unfold sniff at h
      simp only at h
      split at h
      · cases h
      · exact h
    have := probe_eq_http.1 hprobe
    rwa [Probing.bytes_begin] at this
  · rintro ⟨head, hhead, hfront, hreached⟩
    rw [sniff_of_head hhead hfront]
    exact probe_eq_http.2 ⟨head, hhead, by rwa [Probing.bytes_begin], hreached⟩

/-- No head above the limit is taken for HTTP, exactly if none is reached. -/
theorem sniff_limited :
    ((sniff deadline now r).protocol = .http →
      ∀ head, IsRequestHead head → head <+: r.bytes → head.length ≤ mostInHead) ↔
    ∀ head, IsRequestHead head → head <+: r.bytes → mostInHead < head.length →
      ¬ (Probing.begin deadline now r).Reached deadline head.length := by
  constructor
  · intro hlimited head hhead hfront hlong hreached
    have hhttp := sniff_eq_http.2 ⟨head, hhead, hfront, hreached⟩
    exact Nat.not_lt.2 (hlimited hhttp head hhead hfront) hlong
  · intro hnone hhttp head hhead hfront
    obtain ⟨head', hhead', hfront', hreached⟩ := sniff_eq_http.1 hhttp
    obtain rfl := hhead'.unique hhead hfront' hfront
    exact Nat.le_of_not_lt fun hlong => hnone _ hhead hfront hlong hreached

/-! ## Heads in pieces -/

/-- So many bytes are gathered from the pieces that hold them, and the next pieces are left. -/
theorem Replay.gather_pieces {limit want : Nat} {got : Bytes} {pieces : List Bytes}
    (rest : List Bytes) (hfits : ∀ p ∈ pieces, p ≠ [])
    (hwant : (got ++ pieces.flatten).length = want) :
    (Replay.ofPieces (pieces ++ rest)).gather limit want got now =
      ⟨got ++ pieces.flatten, none, now, .ofPieces rest⟩ := by
  induction pieces generalizing got with
  | nil =>
    rw [List.flatten_nil, List.append_nil] at hwant ⊢
    rw [gather, if_pos (Nat.le_of_eq hwant.symm)]
    rfl
  | cons piece pieces ih =>
    obtain ⟨hne, hothers⟩ := List.forall_mem_cons.1 hfits
    have hpos := List.length_pos_iff.2 hne
    have hflat : got ++ (piece :: pieces).flatten = got ++ piece ++ pieces.flatten := by simp
    rw [hflat] at hwant ⊢
    have hlength := hwant
    simp only [List.length_append] at hlength
    have hroom : piece.length ≤ want - got.length := by omega
    have hread := readBy_piece limit now (pieces ++ rest) hne hroom
    obtain ⟨b, bs, rfl⟩ := List.exists_cons_of_ne_nil hne
    rw [gather, if_neg (by omega)]
    rw [← List.cons_append] at hread
    split <;> rename_i hr <;> cases hread.symm.trans hr
    exact ih hothers hwant

/-- What is made of a request head that comes in pieces is decided by what comes before the last of
them. The first pieces are those that sniffing looks at for a handshake record. -/
theorem sniff_pieces {front pieces : List Bytes} {last : Bytes}
    (hfront : front.flatten.length = Tls.headerLength)
    (hfits : ∀ p ∈ front ++ (pieces ++ [last]), p ≠ [] ∧ p.length ≤ probeSize)
    (hhead : IsRequestHead (front.flatten ++ pieces.flatten ++ last)) :
    (sniff deadline now (.ofPieces (front ++ (pieces ++ [last])))).protocol =
      if (front.flatten ++ pieces.flatten).length < mostInHead then .http else .blind := by
  have hbytes : (Replay.ofPieces (front ++ (pieces ++ [last]))).bytes =
      front.flatten ++ pieces.flatten ++ last := by
    rw [Replay.bytes_ofPieces]
    simp
  obtain ⟨hfitsFront, hfitsLater⟩ := List.forall_mem_append.1 hfits
  have hbegin : Probing.begin deadline now (.ofPieces (front ++ (pieces ++ [last]))) =
      ⟨front.flatten, now, .ofPieces (pieces ++ [last])⟩ := by
    unfold Probing.begin
    simp only
    rw [Replay.gather_pieces _ (fun p hp => ?_) (by rwa [List.nil_append])]
    · rfl
    · exact (hfitsFront p hp).1
  let state (got : Bytes) (pieces : List Bytes) : Probing := ⟨got, now, .ofPieces pieces⟩
  have hlast : last ≠ [] := (hfitsLater last (List.mem_append_right _ List.mem_cons_self)).1
  have hreached : (state front.flatten (pieces ++ [last])).Reached deadline
      (front.flatten ++ pieces.flatten ++ last).length ↔
        (front.flatten ++ pieces.flatten).length ≤ mostInHead - 1 := by
    refine Reached.pieces state _ (fun _ _ => rfl) ?_ hfitsLater hlast
    rintro got piece rest s ⟨hne, hshort⟩
    have hread := Replay.readBy_piece deadline now rest hne hshort
    obtain ⟨b, bs, rfl⟩ := List.exists_cons_of_ne_nil hne
    constructor
    · rintro ⟨time, b', bs', rest', hr, rfl⟩
      cases hread.symm.trans hr
      rfl
    · rintro rfl
      exact ⟨now, b, bs, .ofPieces rest, hread, rfl⟩
  have hhttp : (sniff deadline now (.ofPieces (front ++ (pieces ++ [last])))).protocol = .http ↔
      (front.flatten ++ pieces.flatten).length ≤ mostInHead - 1 := by
    rw [sniff_eq_http, hbegin, hbytes]
    constructor
    · rintro ⟨head, hhead', hprefix, hreached'⟩
      obtain rfl := hhead'.unique hhead hprefix (List.prefix_refl _)
      exact hreached.1 hreached'
    · exact fun hmost => ⟨_, hhead, List.prefix_refl _, hreached.2 hmost⟩
  have hnot : (sniff deadline now (.ofPieces (front ++ (pieces ++ [last])))).protocol ≠ .tls := by
    rw [sniff_of_head hhead (hbytes ▸ List.prefix_refl _)]
    exact probe_ne_tls _ _ _ _
  by_cases hmost : (front.flatten ++ pieces.flatten).length < mostInHead
  · rw [if_pos hmost]
    exact hhttp.2 (by omega)
  · rw [if_neg hmost]
    cases hp : (sniff deadline now (.ofPieces (front ++ (pieces ++ [last])))).protocol with
    | tls => exact absurd hp hnot
    | http =>
      have := hhttp.1 hp
      simp only [mostInHead] at this hmost
      omega
    | blind => rfl

/-- **How a head arrives decides** what becomes of it: a request head that comes in pieces, each of
them short enough for one read, is accepted by the reader and taken for HTTP exactly if what comes
before its last piece is within the limit of the one and of the other. How long the head is makes no
difference. -/
theorem head_in_pieces {lines : RequestLines} {n : Nat} {front pieces : List Bytes} {last : Bytes}
    (hhead : RequestHead lines n (front.flatten ++ pieces.flatten ++ last)) (hn : n ≤ 1)
    (hfront : front.flatten.length = Tls.headerLength)
    (hfits : ∀ p ∈ front ++ (pieces ++ [last]), p ≠ [] ∧ p.length ≤ probeSize)
    (limit deadline now : Nat) :
    let arrival := Replay.ofPieces (front ++ (pieces ++ [last]))
    let before := front.flatten ++ pieces.flatten
    (Reader.readHead .invalidRequest limit { stream := arrival }).result =
        (if before.length ≤ mostInHead then .ok (before ++ last)
          else .error (.failed .headTooLarge)) ∧
      (sniff deadline now arrival).protocol =
        if before.length < mostInHead then .http else .blind := by
  intro arrival before
  have hflat : before = (front ++ pieces).flatten := List.flatten_append.symm
  constructor
  · have hend := hhead.headEnd?_eq hn []
    rw [List.append_nil] at hend
    rw [hflat]
    refine Reader.readHead_pieces _ _ rfl ?_ (fun p hp => ?_) (by rwa [← hflat])
    · rw [List.append_assoc]
    · rw [List.append_assoc] at hp
      exact (hfits p hp).imp_right (Nat.le_trans · (by decide))
  · refine sniff_pieces hfront hfits ⟨lines, scanRequest_eq_done.2 ⟨n, _, hhead, ?_, ?_⟩⟩
    · rw [List.append_nil]
    · exact hhead.length_le_slots

/-- A client that sends the first `k` bytes one by one and then all the others at once. -/
def dripping (k : Nat) (b : Bytes) : Replay :=
  .ofPieces ((b.take k).map (fun c => [c]) ++ [b.drop k])

theorem flatten_bytewise (b : Bytes) : (b.map fun c => [c]).flatten = b := by
  induction b with
  | nil => rfl
  | cons c r ih => exact congrArg (c :: ·) ih

/-- Of a head whose bytes come one by one and then all at once, so many may come one by one. -/
theorem head_dripping {lines : RequestLines} {n k : Nat} (hhead : RequestHead lines n head)
    (hn : n ≤ 1) (hk : Tls.headerLength ≤ k) (hlong : k < head.length)
    (hlast : head.length ≤ k + probeSize) (limit deadline now : Nat) :
    (Reader.readHead .invalidRequest limit { stream := dripping k head }).result =
        (if k ≤ mostInHead then .ok head else .error (.failed .headTooLarge)) ∧
      (sniff deadline now (dripping k head)).protocol =
        if k < mostInHead then .http else .blind := by
  let bytewise (b : Bytes) : List Bytes := b.map fun c => [c]
  let front := bytewise ((head.take k).take Tls.headerLength)
  let pieces := bytewise ((head.take k).drop Tls.headerLength)
  have hpieces : dripping k head = .ofPieces (front ++ (pieces ++ [head.drop k])) := by
    rw [dripping, ← List.append_assoc, ← List.map_append, List.take_append_drop]
  have hbefore : front.flatten ++ pieces.flatten = head.take k := by
    rw [flatten_bytewise, flatten_bytewise, List.take_append_drop]
  have hall : front.flatten ++ pieces.flatten ++ head.drop k = head := by
    rw [hbefore, List.take_append_drop]
  have hlength : (head.take k).length = k := by
    rw [List.length_take]
    omega
  have hfits : ∀ p ∈ front ++ (pieces ++ [head.drop k]), p ≠ [] ∧ p.length ≤ probeSize := by
    have hone (b : Bytes) : ∀ p ∈ bytewise b, p ≠ [] ∧ p.length ≤ probeSize := by
      intro p hp
      obtain ⟨c, -, rfl⟩ := List.mem_map.1 hp
      exact ⟨List.cons_ne_nil c [], by rw [List.length_singleton]; decide⟩
    refine List.forall_mem_append.2 ⟨hone _, List.forall_mem_append.2 ⟨hone _, ?_⟩⟩
    refine List.forall_mem_singleton.2 ⟨?_, ?_⟩
    · exact List.ne_nil_of_length_pos (by rw [List.length_drop]; omega)
    · rw [List.length_drop]
      omega
  have hfront : front.flatten.length = Tls.headerLength := by
    rw [flatten_bytewise, List.length_take, hlength]
    omega
  have := head_in_pieces (hall ▸ hhead) hn hfront hfits limit deadline now
  simp only at this
  rwa [hbefore, List.take_append_drop, ← hpieces, hlength] at this

/-- Every request that is a little longer than the limit is accepted when it arrives in one way and
refused when it arrives in another. -/
theorem arrival_decides {lines : RequestLines} {n : Nat} {q : Request}
    (hhead : RequestHead lines n head) (hn : n ≤ 1) (hq : Request.ofRaw? head = some q)
    (hlong : mostInHead + 1 < head.length) (hshort : head.length < mostInHead + probeSize)
    (limit deadline now : Nat) :
    (Reader.readRequest limit { stream := dripping (mostInHead - 1) head }).result = .ok q ∧
      (sniff deadline now (dripping (mostInHead - 1) head)).protocol = .http ∧
      (Reader.readRequest limit { stream := dripping (head.length - 1) head }).result =
        .error (.failed .headTooLarge) ∧
      (sniff deadline now (dripping (head.length - 1) head)).protocol = .blind := by
  have hmost : Tls.headerLength < mostInHead := by decide
  obtain ⟨hburst, hburstHttp⟩ := head_dripping (k := mostInHead - 1) hhead hn (by omega) (by omega)
    (by omega) limit deadline now
  obtain ⟨hdrip, hdripBlind⟩ := head_dripping (k := head.length - 1) hhead hn (by omega) (by omega)
    (by simp only [probeSize]; omega) limit deadline now
  rw [if_pos (by omega)] at hburst hburstHttp
  rw [if_neg (by omega)] at hdrip hdripBlind
  refine ⟨?_, hburstHttp, ?_, hdripBlind⟩
  · rw [Reader.result_readRequest, Reader.bind_parse_eq_ok]
    exact ⟨head, hburst, hq⟩
  · exact Reader.readRequest_headTooLarge.2 hdrip

/-- A request of `k + 22` bytes. -/
def paddedRequest (k : Nat) : Bytes :=
  ascii "GET" ++ sp :: (ascii "/" ++ sp :: ascii "HTTP/1.1") ++ [cr, lf] ++
    (ascii "A" ++ 58 :: List.replicate k 97 ++ [cr, lf] ++ [cr, lf])

theorem length_paddedRequest (k : Nat) : (paddedRequest k).length = k + 22 := by
  simp [paddedRequest, ascii]

/-- The lines of a padded request. -/
def paddedLines (k : Nat) : RequestLines :=
  ⟨ascii "GET", ascii "/", 1, [⟨ascii "A", trimSpaces (List.replicate k 97)⟩]⟩

theorem paddedRequest_head (k : Nat) : RequestHead (paddedLines k) 0 (paddedRequest k) := by
  have hmethod : ∀ c ∈ ascii "GET", isToken c := by decide +kernel
  have htarget : ∀ c ∈ ascii "/", isTarget c := by decide +kernel
  have hname : ∀ c ∈ ascii "A", isToken c := by decide +kernel
  have hline : RequestLine (ascii "GET") (ascii "/") 1
      (ascii "GET" ++ sp :: (ascii "/" ++ sp :: ascii "HTTP/1.1")) :=
    .mk (by decide) hmethod (by decide) htarget (by decide +kernel) .one
  have hvalue : ∀ c ∈ List.replicate k (97 : UInt8), isValue c := by
    intro c hc
    rw [List.eq_of_mem_replicate hc]
    decide
  have hfield : FieldLine ⟨ascii "A", trimSpaces (List.replicate k 97)⟩
      (ascii "A" ++ 58 :: List.replicate k 97) := .mk (by decide) hname hvalue
  have hhead : RequestHead (paddedLines k) 0 ([] ++ paddedRequest k) :=
    .mk .none hline .pair (.cons hfield .pair (.nil .pair))
  exact hhead

theorem paddedRequest_accepted (k : Nat) : ∃ q, Request.ofRaw? (paddedRequest k) = some q := by
  obtain ⟨method, target, hq⟩ := Request.ofRaw?_of_head (paddedRequest_head k)
  have hframing : Request.framing? (paddedLines k).fields = some .empty := rfl
  rw [hframing] at hq
  exact ⟨_, hq⟩

/-! ## The limit -/

/-- **The head limit** is kept exactly as far as no read steps over it. A request, a response or a
stream taken for HTTP may have a head that is longer only if all reads but the last one ended within
the limit, and then it has if the head is well-formed. What is refused as too large has no head
within the limit, however it came. -/
theorem head_limit (limit deadline now : Nat) (headRequest : Bool) (r : Reader) (s : Replay) :
    ((∀ q, (r.readRequest limit).result = .ok q → q.raw.length ≤ mostInHead) ↔
      ∀ raw, r.Overruns limit raw → Request.ofRaw? raw = none) ∧
    ((∀ a, (r.readResponse headRequest limit).result = .ok a → a.raw.length ≤ mostInHead) ↔
      ∀ raw, r.Overruns limit raw → Response.ofRaw? headRequest raw = none) ∧
    (((sniff deadline now s).protocol = .http →
        ∀ head, IsRequestHead head → head <+: s.bytes → head.length ≤ mostInHead) ↔
      ∀ head, IsRequestHead head → head <+: s.bytes → mostInHead < head.length →
        ¬ (Probing.begin deadline now s).Reached deadline head.length) ∧
    ((r.readRequest limit).result = .error (.failed .headTooLarge) ∨
        (r.readResponse headRequest limit).result = .error (.failed .headTooLarge) →
      ∀ fs n head, Headed fs n head → head <+: r.bytes → mostInHead < head.length) := by
  refine ⟨Reader.readRequest_limited, Reader.readResponse_limited, sniff_limited, ?_⟩
  rintro (hlarge | hlarge) fs n head hhead hfront
  · have hcut := Reader.readRequest_headTooLarge.1 hlarge
    exact Reader.readHead_headTooLarge (by decide) hcut head hfront hhead.endsBlank
  · have hcut := Reader.readResponse_headTooLarge.1 hlarge
    exact Reader.readHead_headTooLarge (by decide) hcut head hfront hhead.endsBlank

/-- A request that is refused as too large, byte by byte as it comes, has no head within the
limit. -/
theorem head_limit_dripping :
    let asked : Reader := { stream := dripping 32999 (paddedRequest 32978) }
    (asked.readRequest 0).result = .error (.failed .headTooLarge) ∧
      ∀ fs n head, Headed fs n head → head <+: asked.bytes → mostInHead < head.length := by
  intro asked
  have hlength : (paddedRequest 32978).length = 33000 := length_paddedRequest 32978
  obtain ⟨q, hq⟩ := paddedRequest_accepted 32978
  have hmost : mostInHead = 32768 := rfl
  have hprobe : probeSize = 4096 := rfl
  obtain ⟨-, -, hdrip, -⟩ := arrival_decides (paddedRequest_head 32978) (Nat.zero_le 1) hq
    (by omega) (by omega) 0 0 0
  rw [hlength] at hdrip
  obtain ⟨-, -, -, hlarge⟩ := head_limit 0 0 0 false asked asked.stream
  exact ⟨hdrip, hlarge (.inl hdrip)⟩

/-- A request with a head of 33000 bytes is accepted by the reader and taken for HTTP, though a head
may have 32768 bytes, when all but its last 233 bytes come one by one. When all bytes come one by
one, it is refused as too large and not taken for HTTP. -/
theorem head_limit_differs :
    (paddedRequest 32978).length = 33000 ∧ mostInHead = 32768 ∧
      (∃ q, (Reader.readRequest 0 { stream := dripping 32767 (paddedRequest 32978) }).result =
        .ok q ∧ q.raw = paddedRequest 32978) ∧
      (sniff 0 0 (dripping 32767 (paddedRequest 32978))).protocol = .http ∧
      (Reader.readRequest 0 { stream := dripping 32999 (paddedRequest 32978) }).result =
        .error (.failed .headTooLarge) ∧
      (sniff 0 0 (dripping 32999 (paddedRequest 32978))).protocol = .blind := by
  have hlength : (paddedRequest 32978).length = 33000 := length_paddedRequest 32978
  obtain ⟨q, hq⟩ := paddedRequest_accepted 32978
  have hmost : mostInHead = 32768 := rfl
  have hprobe : probeSize = 4096 := rfl
  obtain ⟨hburst, hhttp, hdrip, hblind⟩ := arrival_decides (paddedRequest_head 32978)
    (Nat.zero_le 1) hq (by omega) (by omega) 0 0 0
  rw [hmost] at hburst hhttp
  rw [hlength] at hdrip hblind
  exact ⟨hlength, hmost, ⟨q, hburst, Request.raw_of_ofRaw? hq⟩, hhttp, hdrip, hblind⟩

end Intercept
