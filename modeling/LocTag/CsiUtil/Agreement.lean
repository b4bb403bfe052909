import LocTag.CsiUtil.GotPacket
import LocTag.Fragment.StopMessage

/-!
# The two decoders of a captured packet

A captured packet is decoded twice: by `process_csi` or `process_dot11rt` where `csiutil` has it in
memory, and by `buffToCsi4339` or `buffToDot11Rt` in the app, from the datagram `got_packet`
forwards as it lies in the buffer of a fragment.  The base offsets, the length variables and the cut
at the buffer differ; `decoders_agree` says that the verdicts and what is reported do not.

Both sides are compared over the memory of the packet: `mem_received_payload` carries the buffer of
the fragment over to it.
-/

namespace LocTag

open Lib Lib.Fetch

/-! ### The packet in the buffer of a fragment -/

section Payload

variable {h : Handed} {k : ℕ}

/-- A packet captured whole is forwarded without the bytes beyond it. -/
theorem payload_eq_drop (hcap : h.pk.caplen = h.pk.len) : h.payload k = h.pk.data.drop k := by
  apply List.ext_getElem?
  intro i
  rw [Handed.payload, List.getElem?_map, List.getElem?_drop, ← hcap, Captured.caplen]
  by_cases hi : i < h.pk.data.length - k
  · have hin : k + i < h.pk.data.length := by omega
    simp [List.getElem?_range hi, Captured.mem, Mem.ofList, List.getElem?_eq_getElem hin]
  · rw [List.getElem?_eq_none (by simpa using hi), List.getElem?_eq_none (by omega),
      Option.map_none]

theorem length_payload : (h.payload k).length = h.pk.len - k := by
  simp [Handed.payload]

/-- A byte of the buffer is the byte of the packet it was sent from. -/
theorem mem_received_payload (hcap : h.pk.caplen = h.pk.len) {size : ℕ} {hsize : size < 2147483648}
    {i : ℕ} (hi : i < getLength size (h.payload k)) :
    (received size (h.payload k) hsize).mem i = h.pk.mem (k + i) := by
  rw [mem_received hi, payload_eq_drop hcap, List.getElem?_drop]
  rfl

end Payload

/-! ### CSI packets -/

/-- `process_csi` and `buffToCsi4339` agree: in the verdict, and in what is logged of an accepted
packet, at log level 1 the fields of the header and at level 2 the address. -/
structure CsiAgree (opts : CsiUtilOpts) (print : CsiPrint) (obj : Csi4339) : Prop where
  accepted : (∃ fields srcMac dump, print = .accepted fields srcMac dump) ↔ obj.status = 0
  broken : (∃ size, print = .broken size) ↔ obj.status = 1
  badSize : print = .badSize ↔ obj.status = 2
  fields : ∀ fields srcMac dump, print = .accepted fields srcMac dump → 1 ≤ opts.logLevel →
    ∃ f, fields = some f ∧ obj.seq = f.seq ∧ obj.coreNum = f.core ∧ obj.ssNum = f.ss ∧
      obj.chanspec = f.chanspec
  srcMac : ∀ fields srcMac dump, print = .accepted fields srcMac dump → 2 ≤ opts.logLevel →
    ∃ a, srcMac = some a ∧ obj.srcMac = some (macStr a)

section Csi

variable {opts : CsiUtilOpts} {pk : Captured}

/-- The verdict of `process_csi`, for a packet that has its network headers. -/
theorem value_processCsi (h42 : sizeofNetHeaders ≤ pk.len) (hlen : pk.len < 2147483708) :
    value pk.mem (processCsi opts pk) =
      if pk.len - 42 < 18 ∨ pk.mem.le32At 42 ≠ 0x11111111 then .broken ((pk.len : ℤ) - 60)
      else if pk.len - 42 = 274 ∨ pk.len - 42 = 530 ∨ pk.len - 42 = 1042 then
        value pk.mem (logCsi opts pk ((pk.len : ℤ) - 60))
      else .badSize := by
  have hsize : csiPacketDataSize pk.len = (pk.len : ℤ) - 60 := by
    rw [csiPacketDataSize_eq pk.len_lt, if_pos hlen]
  have h42 : 42 ≤ pk.len := h42
  have hneg : (pk.len : ℤ) - 60 < 0 ↔ pk.len - 42 < 18 := by omega
  have hok := csiSizeOk_sub (pk.len - 42)
  rw [show ((pk.len - 42 : ℕ) : ℤ) - 18 = (pk.len : ℤ) - 60 by omega] at hok
  simp only [processCsi, hsize, value_bind, csiMagic, value_ite, value_le32, value_pure,
    show sizeofNetHeaders = 42 from rfl, hneg, Bool.not_eq_true']
  by_cases h18 : pk.len - 42 < 18
  · simp only [h18, if_true, true_or]
  by_cases hmagic : pk.mem.le32At 42 = 0x11111111
  · by_cases hs : pk.len - 42 = 274 ∨ pk.len - 42 = 530 ∨ pk.len - 42 = 1042
    · simp [h18, hmagic, hs, hok.2 hs]
    · simp [h18, hmagic, hs, Bool.eq_false_iff.2 (mt hok.1 hs)]
  · simp [hmagic]

/-- What `process_csi` logs of an accepted packet. -/
theorem value_logCsi (size : ℤ) : value pk.mem (logCsi opts pk size) =
    .accepted
      (if opts.logLevel < 1 then none else some ⟨pk.mem.le16At 52, pk.mem.le16At 54 / 256 % 8,
        pk.mem.le16At 54 / 2048 % 8, pk.mem.le16At 56, size⟩)
      (if opts.logLevel < 2 then none else some (pk.mem.blockAt 46 6))
      (if opts.logLevel < 3 then none else some (pk.mem.blockAt 0 pk.len)) := by
  simp [logCsi, csiSeqNum, csiCoreNum, csiSsNum, csiChanspec, csiSrcMac, sizeofNetHeaders]

/-- `process_csi` ends, for a packet captured whole. -/
theorem run_processCsi (hcap : pk.caplen = pk.len) :
    run pk.mem (processCsi opts pk) = some (value pk.mem (processCsi opts pk)) := by
  have hin : CsiReadsInside opts pk := by
    intro h60 hmax
    exact ⟨by omega, fun _ => ⟨fun _ => by omega, fun _ => by omega⟩⟩
  apply run_value
  exact (reads_processCsi_iff.2 hin).imp fun i hi => Mem.ofList_isSome.2 hi

/-- **The two CSI decoders agree** on a packet that is captured whole and has its network headers. -/
theorem csi_agree {h : Handed} (hcap : h.pk.caplen = h.pk.len) (hlen : h.pk.len < 2147483708)
    (h42 : sizeofNetHeaders ≤ h.pk.len) :
    CsiAgree opts (value h.pk.mem (processCsi opts h.pk)) (decodedCsi (h.payload 42)) := by
  have hn : getLength 2048 (h.payload 42) = min (h.pk.len - 42) 2048 := by
    rw [getLength, length_payload]
  have hlt : getLength 2048 (h.payload 42) < 2147483648 := by omega
  have hbyte : ∀ i < min (h.pk.len - 42) 2048,
      (csiBuffer (h.payload 42)).mem i = h.pk.mem (42 + i) := by
    intro i hi
    exact mem_received_payload hcap (by omega)
  have hstatus := status_buffToCsi4339 (m := (csiBuffer (h.payload 42)).mem) (o := 0) hlt
  rw [hn] at hstatus
  by_cases h18 : h.pk.len - 42 < 18
  · have hst : (decodedCsi (h.payload 42)).status = 1 := by
      rw [decodedCsi, hn, hstatus, if_pos (.inl (by omega))]
    rw [value_processCsi h42 hlen, if_pos (.inl h18)]
    constructor <;> simp [hst]
  -- the header lies in the buffer
  have hheader : ∀ i k, i + k < 18 →
      (csiBuffer (h.payload 42)).mem (i + k) = h.pk.mem (42 + i + k) := by
    intro i k hik
    rw [hbyte (i + k) (by omega), Nat.add_assoc]
  have hle16 : ∀ i < 17, (csiBuffer (h.payload 42)).mem.le16At i = h.pk.mem.le16At (42 + i) :=
    fun i hi => Mem.le16At_congr fun k hk => hheader i k (by omega)
  have hmagic : (csiBuffer (h.payload 42)).mem.le32At 0 = h.pk.mem.le32At 42 :=
    Mem.le32At_congr fun k hk => hheader 0 k (by omega)
  have hmac : (csiBuffer (h.payload 42)).mem.blockAt 4 6 = h.pk.mem.blockAt 46 6 :=
    Mem.blockAt_congr fun k hk => hheader 4 k (by omega)
  rw [hmagic] at hstatus
  by_cases hm : h.pk.mem.le32At 42 = 0x11111111
  · by_cases hs : h.pk.len - 42 = 274 ∨ h.pk.len - 42 = 530 ∨ h.pk.len - 42 = 1042
    · have hwf : CsiWellFormed (csiBuffer (h.payload 42)).mem 0 (getLength 2048 (h.payload 42)) :=
        ⟨by rw [hmagic, hm], by omega⟩
      have hobj := value_buffToCsi4339 hlt hwf
      rw [← decodedCsi] at hobj
      rw [value_processCsi h42 hlen, if_neg (by omega), if_pos hs, value_logCsi, hobj]
      constructor
      case fields =>
        intro fields srcMac dump hprint hlevel
        simp only [CsiPrint.accepted.injEq, if_neg (not_lt.2 hlevel)] at hprint
        exact ⟨_, hprint.1.symm, by simp [hle16]⟩
      case srcMac =>
        intro fields srcMac dump hprint hlevel
        simp only [CsiPrint.accepted.injEq, if_neg (not_lt.2 hlevel)] at hprint
        exact ⟨_, hprint.2.1.symm, by simp [hmac]⟩
      all_goals simp
    · have hst : (decodedCsi (h.payload 42)).status = 2 := by
        rw [decodedCsi, hn, hstatus, if_neg (by omega), if_neg (by omega)]
      rw [value_processCsi h42 hlen, if_neg (by omega), if_neg hs]
      constructor <;> simp [hst]
  · have hst : (decodedCsi (h.payload 42)).status = 1 := by
      rw [decodedCsi, hn, hstatus, if_pos (.inr hm)]
    rw [value_processCsi h42 hlen, if_pos (.inr hm)]
    constructor <;> simp [hst]

end Csi

/-! ### 802.11 frames -/

/-- `process_dot11rt` and `buffToDot11Rt` agree: in the verdict, and in what is logged of an accepted
frame from log level 1 on. -/
structure Dot11Agree (opts : CsiUtilOpts) (print : Dot11Print) (obj : Dot11Rt) : Prop where
  accepted : (∃ fields ssid, print = .accepted fields ssid) ↔ obj.status = 0
  fields : ∀ fields ssid, print = .accepted fields ssid → 1 ≤ opts.logLevel →
    ∃ f, fields = some f ∧ obj.txMac = some (macStr f.addr2) ∧ obj.rxMac = some (macStr f.addr1) ∧
      obj.rate = f.rate ∧ obj.cFreq = f.chan ∧ obj.rssi = f.dbmAntsignal ∧
      obj.noise = f.dbmAntnoise
  ssid : ∀ fields ssid, print = .accepted fields ssid → 1 ≤ opts.logLevel →
    ∃ type subtype text, ssid = some (type, subtype, text) ∧ obj.type = type ∧
      obj.subtype = subtype ∧ obj.SSID = some text

/-- What the two decoders consult of the packet and of the buffer with the datagram `d`, the copy to
the output file apart, lies in the first 1024 bytes of the packet. -/
def ConsultedWithin (opts : CsiUtilOpts) (pk : Captured) (d : List UInt8) : Prop :=
  (∀ i ∈ consulted pk.mem (processDot11rt { opts with dump := false } pk),
    i < 1024 ∧ i < pk.len) ∧
  ∀ i ∈ consulted (captureBuffer d).mem (buffToDot11Rt 0 (getLength 1024 d)),
    i < 1024 ∧ i < pk.len

section Dot11

variable {opts : CsiUtilOpts} {pk : Captured}

theorem value_processDot11rt (h : Accepted pk.mem 0 pk.len) :
    value pk.mem (processDot11rt opts pk) =
      value pk.mem (logDot11 opts 0 (hdrAt pk.mem 0) (ssidSetAt pk.mem 0)) := by
  obtain ⟨hlen, hpresent⟩ := h
  rw [toU32_natCast pk.len_lt] at hlen
  simp only [Nat.zero_add] at hpresent
  simp [processDot11rt, Nat.not_lt.2 hlen, hpresent, hdrAt, ssidSetAt]

theorem value_processDot11rt_of_not (h : ¬ Accepted pk.mem 0 pk.len) :
    value pk.mem (processDot11rt opts pk) = .broken (pk.mem.le32At 4) := by
  rw [Accepted, toU32_natCast pk.len_lt, Nat.zero_add] at h
  by_cases hlen : pk.len < sizeofNexmonRadiotapHeader
  · simp [processDot11rt, hlen]
  · have hpresent : pk.mem.le32At 4 ≠ 0x4008006f := fun hp => h ⟨Nat.not_lt.1 hlen, hp⟩
    simp [processDot11rt, hlen, hpresent]

/-- The text logged is the one `sprintf` prints, the empty one where it prints none. -/
theorem value_tagBuf_ssidLen (m : Mem) (type subtype p : ℕ) :
    value m (tagBuf p (value m (ssidLen type subtype p))) =
      (value m (ssidText type subtype p)).getD [] := by
  by_cases hb : type = 0 ∧ subtype = 8
  · by_cases hn : (m p).getD 0 = 0
    · simp [ssidLen, ssidText, hb, tagNum, hn]
    · simp [ssidLen, ssidText, hb, tagNum, hn, tagBuf, cstr]
  · simp [ssidLen, ssidText, hb, tagBuf, cstr]

/-- What `process_dot11rt` logs of an accepted frame. -/
theorem value_logDot11 (rhdr hdr ssidSet : ℕ) : value pk.mem (logDot11 opts rhdr hdr ssidSet) =
    .accepted
      (if opts.logLevel < 1 then none else
        some ⟨pk.mem.blockAt (hdr + 10) 6, pk.mem.blockAt (hdr + 4) 6,
          (pk.mem.u8At (rhdr + 17) : ℚ) / 2, pk.mem.le16At (rhdr + 18),
          toI8 ((pk.mem (rhdr + 22)).getD 0), toI8 ((pk.mem (rhdr + 23)).getD 0)⟩)
      (if opts.logLevel < 1 then none else
        some (pk.mem.u8At hdr / 4 % 4, pk.mem.u8At hdr / 16,
          (value pk.mem (ssidText (pk.mem.u8At hdr / 4 % 4) (pk.mem.u8At hdr / 16)
            ssidSet)).getD [])) := by
  simp [logDot11, dataRate, chanFreq, dbmAntsignal, dbmAntnoise, value_tagBuf_ssidLen, Mem.u8At]

/-- The copy to the output file reads captured bytes only. -/
theorem reads_processDot11rt
    (h : Reads pk.mem (processDot11rt { opts with dump := false } pk) fun i => (pk.mem i).isSome) :
    Reads pk.mem (processDot11rt opts pk) fun i => (pk.mem i).isSome := by
  have hP : ∀ i, i < pk.caplen → (pk.mem i).isSome := fun i hi => Mem.ofList_isSome.2 hi
  unfold processDot11rt at h ⊢
  rw [reads_bind fun _ hi => hi] at h ⊢
  exact ⟨(reads_pcapDump hP).imp hP, h.2⟩

/-- **The two 802.11 decoders agree** on a packet that is captured whole, as far as its first 1024
bytes are enough for both: they end, and report the same. -/
theorem dot11_agree {h : Handed} (hcap : h.pk.caplen = h.pk.len)
    (hwithin : ConsultedWithin opts h.pk (h.payload 0)) :
    ∃ print r, run h.pk.mem (processDot11rt opts h.pk) = some print ∧
      run (captureBuffer (h.payload 0)).mem
        (buffToDot11Rt 0 (getLength 1024 (h.payload 0))) = some r ∧
      value h.pk.mem (buffToDot11Rt 0 (getLength 1024 (h.payload 0))) = r ∧
      Dot11Agree opts print r.1 := by
  obtain ⟨hprocess, hbuff⟩ := hwithin
  have hn : getLength 1024 (h.payload 0) = min h.pk.len 1024 := by
    rw [getLength, length_payload, Nat.sub_zero]
  have hin : ∀ i, i < 1024 ∧ i < h.pk.len → (h.pk.mem i).isSome := by
    intro i hi
    exact Mem.ofList_isSome.2 (lt_of_lt_of_eq hi.2 hcap.symm)
  have hbyte : ∀ i, i < 1024 ∧ i < h.pk.len →
      (captureBuffer (h.payload 0)).mem i = h.pk.mem i := by
    intro i hi
    rw [captureBuffer, mem_received_payload hcap (by omega), Nat.zero_add]
  -- the buffer and the packet have the same bytes where they are consulted
  have hrun := run_congr _ fun i hi => hbyte i (hbuff i hi)
  have hend := run_value (reads_processDot11rt fun i hi => hin i (hprocess i hi))
  have hreads : Reads h.pk.mem (buffToDot11Rt 0 (getLength 1024 (h.payload 0)))
      fun i => (h.pk.mem i).isSome := by
    intro i hi
    rw [← hrun.2] at hi
    exact hin i (hbuff i hi)
  refine ⟨_, _, hend, hrun.1.trans (run_value hreads), rfl, ?_⟩
  have hacc : Accepted h.pk.mem 0 (getLength 1024 (h.payload 0)) ↔ Accepted h.pk.mem 0 h.pk.len := by
    have h1 : toU32 (getLength 1024 (h.payload 0)) = min h.pk.len 1024 := by
      rw [toU32_natCast (by omega), hn]
    have h2 : toU32 h.pk.len = h.pk.len := toU32_natCast h.pk.len_lt
    rw [Accepted, Accepted, h1, h2]
    exact and_congr_left fun _ => by unfold sizeofNexmonRadiotapHeader; omega
  by_cases ha : Accepted h.pk.mem 0 h.pk.len
  · rw [value_processDot11rt ha, value_logDot11, value_buffToDot11Rt (hacc.2 ha)]
    constructor
    case accepted => simp
    case fields =>
      intro fields ssid hprint hlevel
      simp only [Dot11Print.accepted.injEq, if_neg (not_lt.2 hlevel)] at hprint
      exact ⟨_, hprint.1.symm, by simp⟩
    case ssid =>
      intro fields ssid hprint hlevel
      simp only [Dot11Print.accepted.injEq, if_neg (not_lt.2 hlevel)] at hprint
      exact ⟨_, _, _, hprint.2.symm, by simp⟩
  · rw [value_processDot11rt_of_not ha, value_buffToDot11Rt_of_not (mt hacc.1 ha)]
    constructor <;> simp

end Dot11

/-! ### The callback and the fragments -/

/-- `process_csi` on the packet and `buffToCsi4339` on the datagram in the buffer of `CsiFragment`
end and agree. -/
def CsiDecodedAlike (opts : CsiUtilOpts) (h : Handed) : Prop :=
  ∃ d print obj, sentDatagram opts h = some d ∧
    run h.pk.mem (processCsi opts h.pk) = some print ∧
    run (csiBuffer d).mem (buffToCsi4339 0 (getLength 2048 d)) = some obj ∧
    CsiAgree opts print obj

/-- `process_dot11rt` on the packet and `buffToDot11Rt` on the datagram in the buffer of
`CaptureFragment` end and agree where 1024 bytes are enough for both; what `sprintf` prints fits
`buf` unless the SSID of a beacon reaches 64 bytes. -/
def Dot11DecodedAlike (opts : CsiUtilOpts) (h : Handed) : Prop :=
  ∃ d, sentDatagram opts h = some d ∧ (ConsultedWithin opts h.pk d →
    ∃ print r, run h.pk.mem (processDot11rt opts h.pk) = some print ∧
      run (captureBuffer d).mem (buffToDot11Rt 0 (getLength 1024 d)) = some r ∧
      Dot11Agree opts print r.1 ∧
      (¬ (IsBeacon h.pk.mem 0 ∧ HasSsid h.pk.mem 0 ∧ SsidReaches h.pk.mem 0 64) →
        ∀ s ∈ r.2, s.length + 1 ≤ 64))

theorem length_headers_csiDatagram64 : (List.replicate 42 0 ++ csiDatagram64).length = 316 := by
  rw [csiDatagram64, List.length_append, List.length_append, List.length_replicate,
    List.length_replicate, List.length_replicate]

end LocTag
