import Intercept.Proofs.Http.HeadEnd
import Intercept.Sniff

/-!
# What the sniffer accepts and what the reader makes of it

The sniffer takes bytes for HTTP when the grammar finds a complete head in them, the reader cuts at
the first empty line behind a line feed. Both read the same bytes, the reader from what the sniffer
put back, and they differ in one thing: the grammar passes over any number of empty lines in front
of the head, of which the reader takes the first two for the end of one.

Results:
* `sniff_http`: what was taken for HTTP holds a complete head, and is not too long for the reader.
* `readHead_sniffed`: the reader cuts what was put back where its first empty line is.
* `sniff_readRequest`: the reader cuts that very head exactly when at most one empty line stands in
  front of it, and then refuses it for its framing fields only.
-/

namespace Intercept

open Http

/-- What a probe takes for HTTP holds a complete head. -/
theorem probe_http {deadline now : Nat} {seen : Bytes} {r : Replay}
    (h : (probe deadline seen now r).protocol = .http) :
    ∃ lines rest, scanRequest (fieldSlots (probe deadline seen now r).seen)
      (probe deadline seen now r).seen = .done lines rest := by
  fun_induction probe deadline seen now r with
  | case1 seen now r lines rest hs => exact ⟨lines, rest, hs⟩
  | case2 => cases h
  | case3 => cases h
  | case4 => cases h
  | case5 seen now r _ _ time b bs rest hr ih => exact ih h
  | case6 => cases h
  | case7 => cases h
  | case8 => cases h

/-- A probe stops once there are as many bytes as a head may have. -/
theorem probe_length (deadline now : Nat) (seen : Bytes) (r : Replay) :
    (probe deadline seen now r).seen.length ≤ max seen.length (mostInHead - 1 + probeSize) := by
  fun_induction probe deadline seen now r with
  | case1 => exact Nat.le_max_left _ _
  | case2 => exact Nat.le_max_left _ _
  | case3 => exact Nat.le_max_left _ _
  | case4 => exact Nat.le_max_left _ _
  | case5 seen now r _ hmost time b bs rest hr ih =>
    have := (Replay.length_of_read (Replay.read_of_readBy hr) rfl).1
    rw [List.length_append] at ih
    omega
  | case6 => exact Nat.le_max_left _ _
  | case7 => exact Nat.le_max_left _ _
  | case8 => exact Nat.le_max_left _ _

/-- What was taken for HTTP holds a complete head, and is not too long for the reader. -/
theorem sniff_http {deadline now : Nat} {r : Replay} (h : (sniff deadline now r).protocol = .http) :
    (∃ lines rest, scanRequest (fieldSlots (sniff deadline now r).seen)
      (sniff deadline now r).seen = .done lines rest) ∧
      (sniff deadline now r).seen.length ≤ mostInHead - 1 + probeSize := by
  have hg := r.gather_length deadline Tls.headerLength [] now
  unfold sniff at h ⊢
  simp only at h ⊢
  split
  · rename_i ht
    rw [if_pos ht] at h
    cases h
  · rename_i ht
    rw [if_neg ht] at h
    refine ⟨probe_http h, Nat.le_trans (probe_length ..) ?_⟩
    simp only [Tls.headerLength, List.length_nil, mostInHead, probeSize] at hg ⊢
    omega

/-- The reader cuts the bytes that were put back where their first empty line is. -/
theorem readHead_sniffed (limit later : Nat) (patience : Option Nat) {deadline now m : Nat}
    {r : Replay} (h : (sniff deadline now r).protocol = .http)
    (hend : headEnd? (sniff deadline now r).seen = some m) :
    (Reader.readHead .invalidRequest limit
      { stream := (sniff deadline now r).stream, patience := patience, now := later }).result =
        .ok ((sniff deadline now r).seen.take m) := by
  have hmost : (sniff deadline now r).seen.length ≤ mostInHead + readAhead :=
    Nat.le_trans (sniff_http h).2 (by decide)
  exact Reader.readHead_held rfl (.inr ⟨0, rfl⟩) hmost hend

/-- **Where sniffer and reader agree.** Bytes that were taken for HTTP start with a complete head,
and the reader cuts it off exactly when at most one empty line stands in front of it. Then the
request is refused only if its framing fields make no sense; else always. -/
theorem sniff_readRequest (deadline now limit later : Nat) (patience : Option Nat) (r : Replay)
    (h : (sniff deadline now r).protocol = .http) :
    let s := sniff deadline now r
    let reader : Reader := { stream := s.stream, patience := patience, now := later }
    ∃ n lines used rest, RequestHead lines n used ∧ s.seen = used ++ rest ∧
      scanRequest (fieldSlots s.seen) s.seen = .done lines rest ∧
      ((reader.readHead .invalidRequest limit).result = .ok used ↔ n ≤ 1) ∧
      (n ≤ 1 → ∃ method target, (reader.readRequest limit).result =
        (Request.framing? lines.fields).elim (.error (.failed .invalidRequest)) fun framing =>
          .ok ⟨used, method, target, Request.hostOf target lines.fields, framing⟩) ∧
      (2 ≤ n → (reader.readRequest limit).result = .error (.failed .invalidRequest)) := by
  intro s reader
  obtain ⟨⟨lines, rest, hscan⟩, -⟩ := sniff_http h
  obtain ⟨n, used, hhead, hseen, -⟩ := scanRequest_eq_done.1 hscan
  refine ⟨n, lines, used, rest, hhead, hseen, hscan, ?_⟩
  by_cases hn : n ≤ 1
  · have hcut : (reader.readHead .invalidRequest limit).result = .ok used := by
      have hend := hhead.headEnd?_eq hn rest
      rw [← hseen] at hend
      have := readHead_sniffed limit later patience h hend
      rwa [hseen, List.take_left] at this
    refine ⟨⟨fun _ => hn, fun _ => hcut⟩, fun _ => ?_, fun _ => by omega⟩
    obtain ⟨method, target, hof⟩ := Request.ofRaw?_of_head hhead
    refine ⟨method, target, ?_⟩
    rw [Reader.readRequest_of_readHead hcut, hof]
    cases Request.framing? lines.fields <;> rfl
  · obtain ⟨blank, hblank, hlt, hend, htake⟩ := hhead.headEnd?_of_two (by omega) rest
    have hcut : (reader.readHead .invalidRequest limit).result = .ok blank := by
      rw [← hseen] at hend
      have := readHead_sniffed limit later patience h hend
      rwa [hseen, htake] at this
    refine ⟨⟨fun hused => ?_, fun h1 => absurd h1 hn⟩, fun h1 => absurd h1 hn, fun _ => ?_⟩
    · rw [hcut] at hused
      cases hused
      omega
    · rw [Reader.readRequest_of_readHead hcut, Request.ofRaw?_of_emptyLines hblank]
      rfl

/-- A client that sends a request at once, behind the given bytes. -/
def clientSending (front : String) : Replay :=
  .ofSource { events := [⟨0, .data (ascii (front ++ "GET / HTTP/1.1\r\nHost: a.test\r\n\r\n"))⟩] }

/-- Behind one empty line a request is taken for HTTP, so the theorem above is about it. -/
theorem sniff_readRequest_one_empty_line :
    (sniff 10 0 (clientSending "\r\n")).protocol = .http ∧
      ∃ n lines used rest, RequestHead lines n used ∧
        (sniff 10 0 (clientSending "\r\n")).seen = used ++ rest ∧
        ((Reader.readHead .invalidRequest 10
          { stream := (sniff 10 0 (clientSending "\r\n")).stream }).result = .ok used ↔ n ≤ 1) := by
  have h : (sniff 10 0 (clientSending "\r\n")).protocol = .http := by decide +kernel
  obtain ⟨n, lines, used, rest, hhead, hseen, -, hcut, -, -⟩ :=
    sniff_readRequest 10 0 10 0 none (clientSending "\r\n") h
  exact ⟨h, n, lines, used, rest, hhead, hseen, hcut⟩

/-- Behind two empty lines the same request is taken for HTTP too and its framing fields make sense,
but the reader takes the empty lines for its head and refuses it. -/
theorem sniff_readRequest_two_empty_lines :
    (sniff 10 0 (clientSending "\r\n\r\n")).protocol = .http ∧
      (match scanRequest (fieldSlots (sniff 10 0 (clientSending "\r\n\r\n")).seen)
          (sniff 10 0 (clientSending "\r\n\r\n")).seen with
        | .done lines _ => (Request.framing? lines.fields).isSome
        | _ => false) = true ∧
      (Reader.readHead .invalidRequest 10
        { stream := (sniff 10 0 (clientSending "\r\n\r\n")).stream }).result.toOption =
          some (ascii "\r\n\r\n") ∧
      (Reader.readRequest 10
        { stream := (sniff 10 0 (clientSending "\r\n\r\n")).stream }).result.toOption = none := by
  decide +kernel

end Intercept
