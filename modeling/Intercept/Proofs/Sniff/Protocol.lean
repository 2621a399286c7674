import Intercept.Proofs.Http.Extension
import Intercept.Proofs.Sniff
import Intercept.Proofs.Stream.Arrival

/-!
# What the first bytes show

Sniffing scans a growing buffer, and how it grows hangs on how the bytes arrive. What it answers
does not, for a stream whose bytes all come in time: a head is found as soon as it is there, since
no front piece of it is refused, and the buffer grows until then.

The one thing that arrival decides is how far behind the size limit a probe still looks: the last
read may bring up to `probeSize` bytes more. So nothing is said of a head whose length lies between.

Results:
* `probe_of_head`: a probe finds a head that fits the size limit.
* `sniff_protocol`: the answer for a stream that comes in time, from its bytes alone.
-/

namespace Intercept

open Http

theorem Tls.isHandshake_iff {b : Bytes} : isHandshake b = true ↔ [0x16, 0x03, 0x01] <+: b := by
  match b with
  | [] => simp [isHandshake]
  | [_] => simp [isHandshake]
  | [_, _] => simp [isHandshake]
  | x :: y :: z :: r =>
    simp only [isHandshake, Bool.and_eq_true, decide_eq_true_eq]
    constructor
    · rintro ⟨⟨rfl, rfl⟩, rfl⟩
      exact ⟨r, rfl⟩
    · rintro ⟨r', hr⟩
      cases hr
      exact ⟨⟨rfl, rfl⟩, rfl⟩

section

variable {deadline now : Nat} {seen head : Bytes} {r : Replay}

/-- What is scanned in part is shorter than the head that stands at the front. -/
theorem length_lt_of_more (hhead : IsRequestHead head) (hfront : head <+: seen ++ r.bytes)
    (hmore : scanRequest (fieldSlots seen) seen = .more) : seen.length < head.length := by
  rcases hhead.scan_front hfront (List.prefix_append _ _) with ⟨lines, rest, hdone⟩ | ⟨-, hlt⟩
  · cases hmore.symm.trans hdone
  · exact hlt

/-- And then more of the head comes. -/
theorem readBy_of_more (h : r.ArrivesBy deadline) (hhead : IsRequestHead head)
    (hfront : head <+: seen ++ r.bytes) (hmore : scanRequest (fieldSlots seen) seen = .more) :
    ∃ time b bs rest, r.readBy deadline now probeSize = some ⟨time, .bytes (b :: bs), rest⟩ := by
  refine h.readBy (by decide) ?_
  intro hnone
  have hlt := length_lt_of_more hhead hfront hmore
  have hle := hfront.length_le
  rw [hnone, List.append_nil] at hle
  omega

/-- A probe finds a head that fits the size limit. -/
theorem probe_of_head (h : r.ArrivesBy deadline) (hhead : IsRequestHead head)
    (hfront : head <+: seen ++ r.bytes) (hfits : head.length ≤ mostInHead) :
    (probe deadline seen now r).protocol = .http := by
  fun_induction probe deadline seen now r with
  | case1 => rfl
  | case2 seen now r e hflawed =>
    rcases hhead.scan_front hfront (List.prefix_append _ _) with ⟨_, _, hs⟩ | ⟨hs, -⟩ <;>
      cases hs.symm.trans hflawed
  | case3 seen now r hmore hmost =>
    have := length_lt_of_more hhead hfront hmore
    omega
  | case4 seen now r hmore _ hr =>
    obtain ⟨_, _, _, _, hbytes⟩ := readBy_of_more h hhead hfront hmore
    cases hr.symm.trans hbytes
  | case5 seen now r hmore _ time b bs rest hr ih =>
    have hread := Replay.read_of_readBy hr
    have hbytes : b :: bs ++ rest.bytes = r.bytes := Replay.bytes_of_read hread
    refine ih (h.rest hread) ?_
    rwa [List.append_assoc, hbytes]
  | case6 seen now r hmore _ time rest hr =>
    obtain ⟨_, _, _, _, hbytes⟩ := readBy_of_more h hhead hfront hmore
    cases hr.symm.trans hbytes
  | case7 seen now r hmore _ time rest hr =>
    obtain ⟨_, _, _, _, hbytes⟩ := readBy_of_more h hhead hfront hmore
    cases hr.symm.trans hbytes
  | case8 seen now r hmore _ time f rest hr =>
    obtain ⟨_, _, _, _, hbytes⟩ := readBy_of_more h hhead hfront hmore
    cases hr.symm.trans hbytes

end

theorem probe_ne_tls (deadline now : Nat) (seen : Bytes) (r : Replay) :
    (probe deadline seen now r).protocol ≠ .tls := by
  fun_induction probe deadline seen now r with
  | case5 seen now r _ _ time b bs rest hr ih => exact ih
  | _ => rintro ⟨⟩

/-- A stream that comes in time is taken for TLS for its first bytes alone, and is probed for a head
otherwise. -/
theorem sniff_eq {deadline : Nat} {r : Replay} (h : r.ArrivesBy deadline) (now : Nat) :
    ∃ seen time rest, seen ++ rest.bytes = r.bytes ∧ rest.ArrivesBy deadline ∧
      (sniff deadline now r).protocol =
        if 5 ≤ r.bytes.length ∧ [0x16, 0x03, 0x01] <+: r.bytes then .tls
        else (probe deadline seen time rest).protocol := by
  let first := r.gather deadline Tls.headerLength [] now
  have hbytes : first.bytes ++ first.rest.bytes = r.bytes := r.gather_bytes ..
  refine ⟨first.bytes, first.time, first.rest, hbytes, h.gather_rest, ?_⟩
  have hshort : first.short = none ↔ 5 ≤ r.bytes.length := h.gather
  have hiff : first.short = none ∧ Tls.isHandshake first.bytes ↔
      5 ≤ r.bytes.length ∧ [0x16, 0x03, 0x01] <+: r.bytes := by
    rw [← hshort, Tls.isHandshake_iff]
    refine and_congr_right fun hnone => ⟨fun hpre => hpre.trans ⟨_, hbytes⟩, fun hpre => ?_⟩
    have hlong : 5 ≤ first.bytes.length := Replay.le_length_gather hnone
    exact List.prefix_of_prefix_length_le hpre ⟨_, hbytes⟩ (by simp only [List.length]; omega)
  unfold sniff
  simp only
  by_cases hc : first.short = none ∧ Tls.isHandshake first.bytes
  · rw [if_pos hc, if_pos (hiff.1 hc)]
  · rw [if_neg hc, if_neg (fun hw => hc (hiff.2 hw))]

/-- What was taken for HTTP starts with a head that was read in full. -/
theorem exists_head_of_sniff {deadline now : Nat} {r : Replay}
    (h : (sniff deadline now r).protocol = .http) :
    ∃ head, IsRequestHead head ∧ head <+: r.bytes ∧ head.length ≤ 36863 := by
  obtain ⟨⟨lines, rest, hscan⟩, hlen⟩ := sniff_http h
  obtain ⟨head, hhead, hseen⟩ := exists_isRequestHead hscan
  have hfront : head <+: (sniff deadline now r).seen := ⟨rest, hseen.symm⟩
  have hbytes := sniff_bytes deadline now r
  rw [Sniffed.stream, Replay.bytes_putBack] at hbytes
  exact ⟨head, hhead, hfront.trans ⟨_, hbytes⟩, Nat.le_trans hfront.length_le hlen⟩

/-- **What the first bytes show.** Of a stream whose bytes `w` all come in time, however they are
cut into pieces, the bytes alone decide: five of them with the start of a handshake record are TLS,
else a head within 32768 bytes is HTTP, and without a head within 36863 bytes it is neither. -/
theorem sniff_protocol {deadline : Nat} {w : Bytes} {r : Replay} (h : r.ArrivesBy deadline)
    (hw : r.bytes = w) (now : Nat) :
    ((sniff deadline now r).protocol = .tls ↔ 5 ≤ w.length ∧ [0x16, 0x03, 0x01] <+: w) ∧
    (¬ (5 ≤ w.length ∧ [0x16, 0x03, 0x01] <+: w) →
      ((∃ head, IsRequestHead head ∧ head <+: w ∧ head.length ≤ 32768) →
        (sniff deadline now r).protocol = .http) ∧
      ((∀ head, IsRequestHead head → head <+: w → 36863 < head.length) →
        (sniff deadline now r).protocol = .blind)) := by
  subst hw
  obtain ⟨seen, time, rest, hbytes, hrest, heq⟩ := sniff_eq h now
  have hne := probe_ne_tls deadline time seen rest
  by_cases htls : 5 ≤ r.bytes.length ∧ [0x16, 0x03, 0x01] <+: r.bytes
  · rw [if_pos htls] at heq
    exact ⟨⟨fun _ => htls, fun _ => heq⟩, fun hother => absurd htls hother⟩
  · rw [if_neg htls] at heq
    refine ⟨⟨fun h => absurd (heq.symm.trans h) hne, fun h => absurd h htls⟩,
      fun _ => ⟨?_, fun hnone => ?_⟩⟩
    · rintro ⟨head, hhead, hfront, hfits⟩
      rw [heq]
      exact probe_of_head hrest hhead (hbytes ▸ hfront) hfits
    · cases hp : (sniff deadline now r).protocol with
      | tls => exact absurd (heq.symm.trans hp) hne
      | http =>
        obtain ⟨head, hhead, hfront, hlen⟩ := exists_head_of_sniff hp
        exact absurd (hnone head hhead hfront) (Nat.not_lt.2 hlen)
      | blind => rfl

/-- A client that sends a request in three pieces, the last of which holds more than its head. -/
def drippingClient : Replay :=
  .ofSource { events := [⟨3, .data (ascii "GET / HT")⟩, ⟨5, .data (ascii "TP/1.1\r\nHost: a.te")⟩,
    ⟨9, .data (ascii "st\r\n\r\nmore")⟩, ⟨20, .close⟩] }

/-- The request is found as soon as the last piece is there. -/
theorem sniff_protocol_dripping :
    drippingClient.ArrivesBy 10 ∧ (sniff 10 0 drippingClient).protocol = .http := by
  have harrives : drippingClient.ArrivesBy 10 := ⟨by decide, by decide, by decide, trivial⟩
  have hhead : IsRequestHead (ascii "GET / HTTP/1.1\r\nHost: a.test\r\n\r\n") :=
    ⟨⟨ascii "GET", ascii "/", 1, [⟨ascii "Host", ascii "a.test"⟩]⟩, by decide +kernel⟩
  refine ⟨harrives, ((sniff_protocol harrives rfl 0).2 (by decide +kernel)).1 ⟨_, hhead, ?_, ?_⟩⟩
  · exact ⟨ascii "more", by decide +kernel⟩
  · decide +kernel

end Intercept
