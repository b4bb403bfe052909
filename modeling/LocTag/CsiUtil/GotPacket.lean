import LocTag.Dot11.Decode
import LocTag.Csi.Decode

/-!
# The capture callback of `csiutil`

`got_packet` of `csiutil.c` with the two functions it calls, `process_dot11rt` and `process_csi`.
A captured packet has `caplen` bytes in memory and was `len` bytes long on the air; the callback
goes by `len` throughout.  `forward_inside_iff` says exactly when what it hands to `sendto`, and
what `process_csi` reads, lies in the captured bytes.
-/

namespace LocTag

open Lib Lib.Fetch

/-! ### Packets and modes -/

/-- A packet as libpcap hands it over: the bytes captured, and `header->len`. -/
structure Captured where
  data : List UInt8
  len : ℕ
  caplen_le : data.length ≤ len
  len_lt : len < 4294967296

namespace Captured

variable (pk : Captured)

def caplen : ℕ := pk.data.length

/-- The memory at `packet`. -/
def mem : Mem := Mem.ofList pk.data

end Captured

/-- The settings of `csiutil` that `got_packet` reads. -/
structure CsiUtilOpts where
  pktType : ℤ
  mode : ℤ
  logLevel : ℤ
  /-- whether `output_file` is open -/
  dump : Bool

namespace CsiUtilOpts

variable (opts : CsiUtilOpts)

/-- `mode & STANDALONE` -/
def standalone : Prop := toU32 opts.mode % 2 = 1

/-- `mode & FORWARDING` -/
def forwarding : Prop := toU32 opts.mode / 2 % 2 = 1

instance : Decidable opts.standalone := by unfold standalone; infer_instance
instance : Decidable opts.forwarding := by unfold forwarding; infer_instance

end CsiUtilOpts

/-! ### `process_dot11rt` and `process_csi` -/

/-- `pcap_dump`, which copies the captured bytes to the output file. -/
def pcapDump (opts : CsiUtilOpts) (pk : Captured) : Fetch Unit :=
  if opts.dump then do
    let _ ← block 0 pk.caplen
    pure ()
  else pure ()

/-- The first line `process_dot11rt` logs of an accepted frame. -/
structure Dot11Log where
  addr2 : List UInt8
  addr1 : List UInt8
  rate : ℚ
  chan : ℕ
  dbmAntsignal : ℤ
  dbmAntnoise : ℤ

/-- `ssid_len` -/
def ssidLen (type subtype ssidSet : ℕ) : Fetch ℕ :=
  if type = 0 ∧ subtype = 8 then do
    let num ← tagNum ssidSet
    if num = 0 then do
      let len ← tagLen ssidSet
      pure len.toNat
    else pure 0
  else pure 0

/-- What `process_dot11rt` prints: the message about a broken radiotap header, or the two lines of
log level 1, the second with the type, the subtype and the SSID. -/
inductive Dot11Print where
  | broken (present : ℕ)
  | accepted (fields : Option Dot11Log) (ssid : Option (ℕ × ℕ × List UInt8))

def logDot11 (opts : CsiUtilOpts) (rhdr hdr ssidSet : ℕ) : Fetch Dot11Print := do
  let fields ← (if opts.logLevel < 1 then pure none else do
    let addr2 ← addr2 hdr
    let addr1 ← addr1 hdr
    let rate ← dataRate rhdr
    let chan ← chanFreq rhdr
    let dbmAntsignal ← dbmAntsignal rhdr
    let dbmAntnoise ← dbmAntnoise rhdr
    pure (some ⟨addr2, addr1, (rate.toNat : ℚ) / 2, chan, dbmAntsignal, dbmAntnoise⟩))
  let type ← hdrType hdr
  let subtype ← hdrSubtype hdr
  let len ← ssidLen type subtype ssidSet
  let ssid ← (if opts.logLevel < 1 then pure none else do
    pure (some (type, subtype, ← tagBuf ssidSet len)))
  pure (.accepted fields ssid)

/-- `process_dot11rt`; its complaint prints `it_present` also where the frame is too short for it. -/
def processDot11rt (opts : CsiUtilOpts) (pk : Captured) : Fetch Dot11Print := do
  pcapDump opts pk
  let rhdr := 0
  let hdr ← itLen rhdr
  let ssidSet := (← itLen rhdr) + 0x24
  if pk.len < sizeofNexmonRadiotapHeader then do
    pure (.broken (← itPresent rhdr))
  else do
    let present ← itPresent rhdr
    if present ≠ 0x4008006f then pure (.broken present) else logDot11 opts rhdr hdr ssidSet

/-- `sizeof(struct net_headers)`: Ethernet, IP and UDP headers. -/
def sizeofNetHeaders : ℕ := 42

/-- The line of log level 1 of `process_csi`. -/
structure CsiFields where
  seq : ℕ
  core : ℕ
  ss : ℕ
  chanspec : ℕ
  size : ℤ

/-- What `process_csi` prints: its two complaints, and what it logs of an accepted packet at log
levels 1, 2 and 3. -/
inductive CsiPrint where
  | broken (size : ℤ)
  | badSize
  | accepted (fields : Option CsiFields) (srcMac : Option (List UInt8)) (dump : Option (List UInt8))

/-- `int csi_data_size` of `process_csi` -/
def csiPacketDataSize (len : ℕ) : ℤ :=
  toI32 (toU32 ((toU32 ((len : ℤ) - sizeofNetHeaders) : ℤ) - sizeofCsiHeader4339))

/-- The logging of an accepted packet; `hexDump` is given all `header->len` bytes. -/
def logCsi (opts : CsiUtilOpts) (pk : Captured) (size : ℤ) : Fetch CsiPrint := do
  let chdr := sizeofNetHeaders
  let fields ← (if opts.logLevel < 1 then pure none else do
    let seqNum ← csiSeqNum chdr
    let coreNum ← csiCoreNum chdr
    let ssNum ← csiSsNum chdr
    let chanspec ← csiChanspec chdr
    pure (some ⟨seqNum, coreNum, ssNum, chanspec, size⟩))
  let srcMac ← (if opts.logLevel < 2 then pure none else do pure (some (← csiSrcMac chdr)))
  let dump ← (if opts.logLevel < 3 then pure none else do pure (some (← block 0 pk.len)))
  pure (.accepted fields srcMac dump)

/-- `process_csi` -/
def processCsi (opts : CsiUtilOpts) (pk : Captured) : Fetch CsiPrint := do
  pcapDump opts pk
  let size := csiPacketDataSize pk.len
  if size < 0 then pure (.broken size) else do
    let magic ← csiMagic sizeofNetHeaders
    if magic ≠ 0x11111111 then pure (.broken size)
    else if !csiSizeOk size then pure .badSize
    else logCsi opts pk size

/-! ### `got_packet` -/

/-- The bytes handed to `sendto`: address and size, relative to `packet`. -/
structure Forward where
  start : ℕ
  size : ℕ
  deriving DecidableEq

/-- The call of `sendto` in `got_packet`; the size is an unsigned difference for CSI packets. -/
def forwarded (opts : CsiUtilOpts) (len : ℕ) : Option Forward :=
  if ¬ opts.forwarding then none
  else if opts.pktType = 0 ∨ opts.pktType = 1 then some ⟨0, len⟩
  else if opts.pktType = 2 then some ⟨sizeofNetHeaders, toU32 ((len : ℤ) - sizeofNetHeaders)⟩
  else none

/-- `got_packet`: processing, then forwarding. -/
def gotPacket (opts : CsiUtilOpts) (pk : Captured) : Fetch (Option Forward) := do
  if opts.pktType = 1 ∧ opts.standalone then
    let _ ← processDot11rt opts pk
    pure (forwarded opts pk.len)
  else if opts.pktType = 2 ∧ opts.standalone then
    let _ ← processCsi opts pk
    pure (forwarded opts pk.len)
  else pure (forwarded opts pk.len)

/-! ### What is forwarded -/

section Forwarding

variable (opts : CsiUtilOpts) (pk : Captured)

/-- The packet was captured whole, and a CSI packet has its network headers. -/
def ForwardInside : Prop :=
  opts.forwarding → opts.pktType = 0 ∨ opts.pktType = 1 ∨ opts.pktType = 2 →
    pk.len ≤ pk.caplen ∧ (opts.pktType = 2 → sizeofNetHeaders ≤ pk.len)

theorem forwarded_inside_iff :
    (∀ r, forwarded opts pk.len = some r → r.start + r.size ≤ pk.caplen) ↔
      ForwardInside opts pk := by
  have hcap : pk.caplen ≤ pk.len := pk.caplen_le
  have hlt := pk.len_lt
  unfold forwarded ForwardInside sizeofNetHeaders
  by_cases hf : opts.forwarding
  · rw [if_neg (not_not.2 hf)]
    by_cases h01 : opts.pktType = 0 ∨ opts.pktType = 1
    · have h2 : opts.pktType ≠ 2 := by omega
      rw [if_pos h01]
      simp only [Option.some.injEq, forall_eq', hf, h2, or_false, h01, false_implies, and_true,
        forall_const, Nat.zero_add]
    · rw [if_neg h01]
      by_cases h2 : opts.pktType = 2
      · -- an unsigned difference that wraps is larger than any packet
        have hwrap : 42 + toU32 ((pk.len : ℤ) - 42) ≤ pk.caplen ↔
            pk.len ≤ pk.caplen ∧ 42 ≤ pk.len := by
          unfold toU32
          omega
        rw [if_pos h2]
        simpa [hf, h2] using hwrap
      · rw [if_neg h2]
        simp [hf, h2, not_or.1 h01]
  · simp [hf]

end Forwarding

/-! ### What `process_csi` reads -/

section ProcessCsi

variable (opts : CsiUtilOpts) (pk : Captured)

/-- The reads of `process_csi` that its own checks lead to are inside the captured bytes: the
magic, at log level 1 the fields of the header, at log level 3 the whole packet. -/
def CsiReadsInside : Prop :=
  60 ≤ pk.len → pk.len < 2147483708 → 46 ≤ pk.caplen ∧
    (CsiWellFormed pk.mem sizeofNetHeaders (pk.len - sizeofNetHeaders) →
      (1 ≤ opts.logLevel → 58 ≤ pk.caplen) ∧ (3 ≤ opts.logLevel → pk.len ≤ pk.caplen))

theorem csiPacketDataSize_eq {len : ℕ} (h : len < 4294967296) :
    csiPacketDataSize len = if len < 2147483708 then (len : ℤ) - 60 else (len : ℤ) - 4294967356 := by
  unfold csiPacketDataSize toI32 toU32 sizeofNetHeaders sizeofCsiHeader4339
  split <;> split <;> omega

variable {opts pk}

theorem reads_pcapDump (hP : ∀ i, i < pk.caplen → (pk.mem i).isSome) :
    Reads pk.mem (pcapDump opts pk) (fun i => i < pk.caplen) := by
  unfold pcapDump
  split
  · simp only [reads_bind hP, reads_block hP, reads_pure, and_true]
    omega
  · exact reads_pure _

theorem reads_logCsi_iff (hP : ∀ i, i < pk.caplen → (pk.mem i).isSome) (size : ℤ) :
    Reads pk.mem (logCsi opts pk size) (fun i => i < pk.caplen) ↔
      (1 ≤ opts.logLevel → 58 ≤ pk.caplen) ∧ (3 ≤ opts.logLevel → pk.len ≤ pk.caplen) := by
  simp only [logCsi, csiSeqNum, csiCoreNum, csiSsNum, csiChanspec, csiSrcMac, sizeofNetHeaders,
    reads_bind hP, reads_le16 hP, reads_block hP, reads_ite, reads_pure, and_true, implies_true,
    true_and, Int.not_lt]
  constructor
  · rintro ⟨h1, h2, h3⟩
    constructor
    · intro hl
      have := h1 hl
      omega
    · intro hl
      by_contra hc
      have := h3 hl pk.caplen (by omega)
      omega
  · rintro ⟨h1, h3⟩
    refine ⟨?_, ?_, ?_⟩
    · intro hl
      have := h1 hl
      omega
    · intro hl j hj
      have := h1 (by omega)
      omega
    · intro hl j hj
      have := h3 hl
      omega

theorem reads_processCsi_iff :
    Reads pk.mem (processCsi opts pk) (fun i => i < pk.caplen) ↔ CsiReadsInside opts pk := by
  have hP : ∀ i, i < pk.caplen → (pk.mem i).isSome := fun i hi => Mem.ofList_isSome.2 hi
  have hlt := pk.len_lt
  have hsize := csiPacketDataSize_eq hlt
  simp only [processCsi, reads_bind hP, reads_pcapDump hP, csiMagic, reads_le32 hP, reads_ite,
    reads_pure, reads_logCsi_iff hP, implies_true, true_and, value_le32, not_not, sizeofNetHeaders,
    CsiReadsInside, CsiWellFormed]
  have hneg : ¬ csiPacketDataSize pk.len < 0 ↔ 60 ≤ pk.len ∧ pk.len < 2147483708 := by
    rw [hsize]
    split <;> omega
  have hok : 60 ≤ pk.len ∧ pk.len < 2147483708 → (¬ (!csiSizeOk (csiPacketDataSize pk.len)) = true ↔
      pk.len - 42 = 274 ∨ pk.len - 42 = 530 ∨ pk.len - 42 = 1042) := by
    rintro ⟨h60, hmax⟩
    rw [hsize, if_pos hmax]
    simp only [csiSizeOk, Bool.not_eq_true', Bool.not_eq_false, Bool.or_eq_true, beq_iff_eq]
    omega
  rw [hneg]
  constructor
  · intro h h60 hmax
    obtain ⟨hmagic, hlog⟩ := h ⟨h60, hmax⟩
    exact ⟨by omega, fun hw => hlog hw.1 ((hok ⟨h60, hmax⟩).2 hw.2)⟩
  · rintro h ⟨h60, hmax⟩
    obtain ⟨h46, hlog⟩ := h h60 hmax
    exact ⟨by omega, fun hm hs => hlog ⟨hm, (hok ⟨h60, hmax⟩).1 hs⟩⟩

end ProcessCsi

/-- **`got_packet` stays inside the captured bytes**, in what it forwards and, for CSI packets in a
standalone mode, in what it reads, iff `ForwardInside` and `CsiReadsInside`. -/
theorem forward_inside_iff (opts : CsiUtilOpts) (pk : Captured) :
    ((∀ r, forwarded opts pk.len = some r → r.start + r.size ≤ pk.caplen) ∧
      (opts.pktType = 2 → opts.standalone →
        ∀ i ∈ consulted pk.mem (gotPacket opts pk), i < pk.caplen)) ↔
    ForwardInside opts pk ∧ (opts.pktType = 2 → opts.standalone → CsiReadsInside opts pk) := by
  have hP : ∀ i, i < pk.caplen → (pk.mem i).isSome := fun i hi => Mem.ofList_isSome.2 hi
  rw [forwarded_inside_iff]
  apply and_congr_right
  intro _
  apply forall₂_congr
  intro h2 hs
  change Reads pk.mem (gotPacket opts pk) (fun i => i < pk.caplen) ↔ _
  rw [gotPacket, if_neg (by omega), if_pos ⟨h2, hs⟩, reads_bind hP, reads_processCsi_iff]
  simp

/-- A frame of 20 bytes given to the CSI callback is forwarded with a size of nearly `2 ^ 32`. -/
theorem forward_outside :
    ¬ ∀ (opts : CsiUtilOpts) (pk : Captured),
      (∀ r, forwarded opts pk.len = some r → r.start + r.size ≤ pk.caplen) ∧
      (opts.pktType = 2 → opts.standalone →
        ∀ i ∈ consulted pk.mem (gotPacket opts pk), i < pk.caplen) := by
  intro hall
  let pk : Captured := ⟨List.replicate 20 0, 20, by simp, by simp⟩
  have := (hall ⟨2, 2, 0, false⟩ pk).1 ⟨42, 4294967274⟩ rfl
  exact absurd this (by decide)

end LocTag
