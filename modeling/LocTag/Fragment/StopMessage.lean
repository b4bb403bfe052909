import LocTag.CsiUtil.GotPacket
import LocTag.Fragment.Receive

/-!
# The end of a capture

`csiutil` forwards the packets it captures as datagrams and, when it is done, sends the stop message
over the same socket; the fragments tell the two apart by the first byte alone.

`Handed` is one call of `got_packet` as the kernel sees it, `datagrams` what arrives, in order, at
the receive loop.  `ends_at_stop_iff` says exactly for which sequences of packets a loop takes every
datagram before it leaves at the stop message.
-/

namespace LocTag

open Lib Lib.Fetch

/-- A packet handed to `got_packet`, with the bytes that follow the captured ones in memory (`sendto`
may be given more than was captured) and whether `sendto` accepts the datagram. -/
structure Handed where
  pk : Captured
  beyond : ℕ → UInt8
  accepted : Bool

/-- The largest payload of a UDP datagram. -/
def maxUdpPayload : ℕ := 65507

/-- The datagram a call of `got_packet` puts on the socket. -/
def sentDatagram (opts : CsiUtilOpts) (h : Handed) : Option (List UInt8) :=
  (value h.pk.mem (gotPacket opts h.pk)).bind fun r =>
    if h.accepted = true ∧ r.size ≤ maxUdpPayload then
      some ((List.range r.size).map fun i =>
        (h.pk.mem (r.start + i)).getD (h.beyond (r.start + i)))
    else none

/-- The datagrams of a capture, in order. -/
def datagrams (opts : CsiUtilOpts) (hs : List Handed) : List (List UInt8) :=
  hs.filterMap (sentDatagram opts)

/-- The loop that reads packets of the type `csiutil` forwards takes every datagram as data and
leaves through its stop test at the stop message. -/
def EndsAtStop (newStringUTF : List UInt8 → List Char) (opts : CsiUtilOpts) (hs : List Handed) :
    Prop :=
  (opts.pktType = 1 → ∃ st,
    (captureLoop newStringUTF).run {} (datagrams opts hs ++ [stopMsg]) = .stopped st []) ∧
  (opts.pktType = 2 → ∃ st,
    csiLoop.run {} (datagrams opts hs ++ [stopMsg]) = .stopped st [])

/-! ### What arrives -/

/-- The bytes of the packet from `k` on, `len` in all, as they lie in memory. -/
def Handed.payload (h : Handed) (k : ℕ) : List UInt8 :=
  (List.range (h.pk.len - k)).map fun i => (h.pk.mem (k + i)).getD (h.beyond (k + i))

/-- The bytes from `k` on are a datagram that `sendto` accepts. -/
def Handed.Sent (h : Handed) (k : ℕ) : Prop :=
  h.accepted = true ∧ k ≤ h.pk.len ∧ h.pk.len - k ≤ maxUdpPayload

theorem value_gotPacket (opts : CsiUtilOpts) (pk : Captured) :
    value pk.mem (gotPacket opts pk) = forwarded opts pk.len := by
  unfold gotPacket
  split
  · simp
  · split <;> simp

section Datagrams

variable {opts : CsiUtilOpts} {h : Handed} {d : List UInt8}

/-- Packets of type 1 are forwarded from their start. -/
theorem sentDatagram_dot11 (hf : opts.forwarding) (htype : opts.pktType = 1) :
    sentDatagram opts h = some d ↔ h.Sent 0 ∧ h.payload 0 = d := by
  have hfwd : forwarded opts h.pk.len = some ⟨0, h.pk.len⟩ := by
    rw [forwarded, if_neg (not_not.2 hf), if_pos (.inr htype)]
  rw [sentDatagram, value_gotPacket, hfwd, Option.bind_some]
  simp [Handed.Sent, Handed.payload]

/-- Packets of type 2 are forwarded from behind the network headers; a shorter one has a size that no
datagram has. -/
theorem sentDatagram_csi (hf : opts.forwarding) (htype : opts.pktType = 2) :
    sentDatagram opts h = some d ↔
      h.Sent sizeofNetHeaders ∧ h.payload sizeofNetHeaders = d := by
  have hfwd : forwarded opts h.pk.len =
      some ⟨sizeofNetHeaders, toU32 ((h.pk.len : ℤ) - sizeofNetHeaders)⟩ := by
    rw [forwarded, if_neg (not_not.2 hf), if_neg (by omega), if_pos htype]
  have hlt := h.pk.len_lt
  rw [sentDatagram, value_gotPacket, hfwd, Option.bind_some]
  by_cases hlen : sizeofNetHeaders ≤ h.pk.len
  · have hsize : toU32 ((h.pk.len : ℤ) - sizeofNetHeaders) = h.pk.len - sizeofNetHeaders := by
      rw [← Nat.cast_sub hlen, toU32_natCast (by omega)]
    simp [Handed.Sent, Handed.payload, hsize, hlen]
  · have hsize : ¬ toU32 ((h.pk.len : ℤ) - sizeofNetHeaders) ≤ maxUdpPayload := by
      unfold toU32 maxUdpPayload
      unfold sizeofNetHeaders at hlen ⊢
      omega
    simp [Handed.Sent, hsize, hlen]

theorem forall_mem_datagrams {k : ℕ} {P : List UInt8 → Prop} {hs : List Handed}
    (hsent : ∀ {h d}, sentDatagram opts h = some d ↔ h.Sent k ∧ h.payload k = d) :
    (∀ d ∈ datagrams opts hs, P d) ↔ ∀ h ∈ hs, h.Sent k → P (h.payload k) := by
  rw [datagrams, List.forall_mem_filterMap]
  apply forall₂_congr
  intro h _
  constructor
  · intro hP hs
    exact hP _ (hsent.2 ⟨hs, rfl⟩)
  · intro hP d hd
    obtain ⟨hs, rfl⟩ := hsent.1 hd
    exact hP hs

end Datagrams

section Loops

variable {newStringUTF : List UInt8 → List Char} {ds : List (List UInt8)}

theorem captureLoop_ends_iff :
    (∃ st, (captureLoop newStringUTF).run {} (ds ++ [stopMsg]) = .stopped st []) ↔
      ∀ d ∈ ds, d.head? ≠ some 0xc5 ∧ FrameDecodes d := by
  have hz : (captureLoop newStringUTF).stop stopMsg = true := (isStop_received (by omega)).2 rfl
  rw [ReceiveLoop.exists_run_append_stop_iff _ hz (captureBody_ok_iff newStringUTF)]
  exact forall₂_congr fun d _ => and_congr_left fun _ => isStop_received_eq_false (by omega)

theorem csiLoop_ends_iff :
    (∃ st, csiLoop.run {} (ds ++ [stopMsg]) = .stopped st []) ↔
      ∀ d ∈ ds, d.head? ≠ some 0xc5 ∧ CsiDatagram d := by
  have hz : csiLoop.stop stopMsg = true := (isStop_received (by omega)).2 rfl
  rw [ReceiveLoop.exists_run_append_stop_iff _ hz csiBody_ok_iff]
  exact forall₂_congr fun d _ => and_congr_left fun _ => isStop_received_eq_false (by omega)

end Loops

/-- A CSI message does not start with the stop byte. -/
theorem CsiDatagram.head_ne {d : List UInt8} (h : CsiDatagram d) : d.head? ≠ some 0xc5 := by
  intro hd
  have hbyte : (Mem.ofList d).u8At 0 = 0xc5 := by
    rw [List.head?_eq_getElem?] at hd
    simp [Mem.u8At, Mem.ofList, hd]
  have hmagic := h.1
  have hlt := Mem.u8At_lt (m := Mem.ofList d) 1
  rw [Mem.le32At, Mem.le16At, hbyte] at hmagic
  omega

/-- **The loop leaves exactly at the stop message** iff, of the packets that are sent, none of type
1 starts with the stop byte or makes the decoder go wrong, and each of type 2 is a CSI message behind
its network headers. -/
theorem ends_at_stop_iff (newStringUTF : List UInt8 → List Char) {opts : CsiUtilOpts}
    (hf : opts.forwarding) (hs : List Handed) :
    EndsAtStop newStringUTF opts hs ↔
      (opts.pktType = 1 → ∀ h ∈ hs, h.Sent 0 →
        (h.payload 0).head? ≠ some 0xc5 ∧ FrameDecodes (h.payload 0)) ∧
      (opts.pktType = 2 → ∀ h ∈ hs, h.Sent sizeofNetHeaders →
        CsiDatagram (h.payload sizeofNetHeaders)) := by
  rw [EndsAtStop, captureLoop_ends_iff, csiLoop_ends_iff]
  apply and_congr
  · apply forall_congr'
    intro htype
    exact forall_mem_datagrams (sentDatagram_dot11 hf htype)
  · apply forall_congr'
    intro htype
    rw [forall_mem_datagrams (sentDatagram_csi hf htype)]
    apply forall₃_congr
    intro h _ _
    exact ⟨fun hd => hd.2, fun hd => ⟨hd.head_ne, hd⟩⟩

/-- A CSI message of 64 samples behind its network headers. -/
theorem ends_at_stop_csi :
    EndsAtStop (fun _ => []) ⟨2, 2, 0, false⟩
      [⟨⟨List.replicate 42 0 ++ csiDatagram64, 316, by decide +kernel, by decide⟩, fun _ => 0,
        true⟩] := by
  refine (ends_at_stop_iff (fun _ => []) (by rfl) _).2 ⟨nofun, ?_⟩
  intro _ h hh _
  obtain rfl := List.mem_singleton.1 hh
  decide +kernel

/-- A captured frame that starts with the stop byte is taken for the stop message. -/
theorem data_ends_capture :
    ¬ ∀ (newStringUTF : List UInt8 → List Char) (opts : CsiUtilOpts) (hs : List Handed),
      opts.forwarding → opts.pktType = 1 ∨ opts.pktType = 2 → EndsAtStop newStringUTF opts hs := by
  intro hall
  let h : Handed := ⟨⟨[0xc5], 1, by simp, by simp⟩, fun _ => 0, true⟩
  have hd : datagrams ⟨1, 2, 0, false⟩ [h] = [[0xc5]] := by
    simp [datagrams, sentDatagram, value_gotPacket]
    rfl
  have hends := (hall (fun _ => []) ⟨1, 2, 0, false⟩ [h] (by rfl) (.inl rfl)).1 rfl
  rw [hd, captureLoop_ends_iff] at hends
  exact (hends [0xc5] (by simp)).1 rfl

end LocTag
