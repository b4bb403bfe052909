import LocTag.Java

/-!
# The decoder of CSI datagrams

`buffToCsi4339` of `JNICsi.c` over `struct csi_header_4339` of `nex_csi4339.h`, and the text
`Csi4339.toString` makes of its result.

Unlike its 802.11 sibling the decoder checks the length before it reads: it consults bytes of the
datagram only (`reads_buffToCsi4339`), so over a buffer that has them it always ends.
-/

namespace LocTag

open Lib Lib.Fetch

/-! ### `struct csi_header_4339` -/

/-- `sizeof(struct csi_header_4339)`; the array `data[]` follows it. -/
def sizeofCsiHeader4339 : ℕ := 18

def csiMagic (p : ℕ) : Fetch ℕ := le32 p
def csiSrcMac (p : ℕ) : Fetch (List UInt8) := block (p + 4) 6
def csiSeqNum (p : ℕ) : Fetch ℕ := le16 (p + 10)
/-- The bit-fields of the 16-bit unit after 8 unnamed bits, from the low bits upwards. -/
def csiCoreNum (p : ℕ) : Fetch ℕ := do pure ((← le16 (p + 12)) / 256 % 8)
def csiSsNum (p : ℕ) : Fetch ℕ := do pure ((← le16 (p + 12)) / 2048 % 8)
def csiChanspec (p : ℕ) : Fetch ℕ := le16 (p + 14)
def csiChipVer (p : ℕ) : Fetch ℕ := le16 (p + 16)

/-! ### The Java objects -/

/-- `Complex.java`; the doubles here are converted from `int16_t`, so integers stand for them. -/
structure Complex where
  re : ℤ
  im : ℤ
  deriving DecidableEq

/-- `Csi4339.java`, with the defaults of a new object. -/
structure Csi4339 where
  status : ℤ := 0
  srcMac : Option (List Char) := none
  seq : ℤ := 0
  chanspec : ℤ := 0
  chipVer : ℤ := 0
  coreNum : ℤ := 0
  ssNum : ℤ := 0
  csi : Option (List Complex) := none
  deriving DecidableEq

/-- `Csi4339.toString`; `csi.length` throws where `csi` is `null`. -/
def Csi4339.toString (obj : Csi4339) : Except JavaException (List Char) :=
  match obj.csi with
  | none => .error .nullPointer
  | some csi => .ok <| strArg obj.srcMac ++ ",".toList ++ decimal obj.seq ++ ",[".toList ++
      decimal obj.coreNum ++ ",".toList ++ decimal obj.ssNum ++ "],".toList ++
      Nat.toDigits 16 (toU32 obj.chanspec) ++ ",".toList ++ decimal csi.length

/-! ### The decoder -/

/-- The elements of `data[]` from `p` on. -/
def csiData (p : ℕ) : ℕ → Fetch (List Complex)
  | 0 => pure []
  | n + 1 => do
    let real ← le16 p
    let imag ← le16 (p + 2)
    let rest ← csiData (p + 4) n
    pure (⟨toI16 real, toI16 imag⟩ :: rest)

/-- `buffToCsi4339` past its checks, for `n` samples. -/
def decodeCsi4339 (chdr n : ℕ) : Fetch Csi4339 := do
  let srcMac ← csiSrcMac chdr
  let seq ← csiSeqNum chdr
  let coreNum ← csiCoreNum chdr
  let ssNum ← csiSsNum chdr
  let chanspec ← csiChanspec chdr
  let chipVer ← csiChipVer chdr
  let csi ← csiData (chdr + sizeofCsiHeader4339) n
  pure { status := 0, srcMac := macStr srcMac, seq := seq, chanspec := chanspec,
         chipVer := chipVer, coreNum := coreNum, ssNum := ssNum, csi := csi }

/-- The sizes of the sample array that are accepted. -/
def csiSizeOk (size : ℤ) : Bool := size == 256 || size == 512 || size == 1024

/-- `int csi_data_size`, an unsigned difference stored in an `int`. -/
def csiDataSize (iLength : ℤ) : ℤ := toI32 (toU32 ((toU32 iLength : ℤ) - sizeofCsiHeader4339))

/-- `buffToCsi4339` -/
def buffToCsi4339 (iOffset : ℕ) (iLength : ℤ) : Fetch Csi4339 :=
  let size := csiDataSize iLength
  if size < 0 then pure { status := 1 } else do
    let magic ← csiMagic iOffset
    if magic ≠ 0x11111111 then pure { status := 1 }
    else if !csiSizeOk size then pure { status := 2 }
    else decodeCsi4339 iOffset (size / 4).toNat

/-! ### What it reads -/

theorem csiDataSize_natCast {n : ℕ} (h : n < 2147483648) : csiDataSize n = n - 18 := by
  unfold csiDataSize toI32 toU32 sizeofCsiHeader4339
  split <;> omega

section Reads

variable {m : Mem} {P : ℕ → Prop} (hP : ∀ i, P i → (m i).isSome)
include hP

theorem reads_csiData {p n : ℕ} (h : ∀ i, p ≤ i → i < p + 4 * n → P i) :
    Reads m (csiData p n) P := by
  induction n generalizing p with
  | zero => exact reads_pure _
  | succ n ih =>
    simp only [csiData, reads_bind hP, reads_le16 hP, reads_pure, and_true]
    refine ⟨⟨h _ ?_ ?_, h _ ?_ ?_⟩, ⟨h _ ?_ ?_, h _ ?_ ?_⟩, ih fun i h1 h2 => h i ?_ ?_⟩ <;> omega

theorem reads_decodeCsi4339 {p n : ℕ} (h : ∀ i, p ≤ i → i < p + 18 + 4 * n → P i) :
    Reads m (decodeCsi4339 p n) P := by
  simp only [decodeCsi4339, csiSrcMac, csiSeqNum, csiCoreNum, csiSsNum, csiChanspec, csiChipVer,
    sizeofCsiHeader4339, reads_bind hP, reads_block hP, reads_le16 hP, reads_pure, and_true]
  refine ⟨fun j _ => h _ ?_ ?_, ⟨h _ ?_ ?_, h _ ?_ ?_⟩, ⟨h _ ?_ ?_, h _ ?_ ?_⟩,
    ⟨h _ ?_ ?_, h _ ?_ ?_⟩, ⟨h _ ?_ ?_, h _ ?_ ?_⟩, ⟨h _ ?_ ?_, h _ ?_ ?_⟩,
    reads_csiData hP fun i h1 h2 => h i ?_ ?_⟩ <;> omega

end Reads

/-- **The decoder reads inside the datagram.** -/
theorem reads_buffToCsi4339 (b : JByteArray) {o n : ℕ} (h : o + n ≤ b.data.length) :
    Reads b.mem (buffToCsi4339 o n) fun i => o ≤ i ∧ i < o + n := by
  have hP : ∀ i, o ≤ i ∧ i < o + n → (b.mem i).isSome :=
    fun i hi => Mem.ofList_isSome.2 (by omega)
  have hsize : csiDataSize n = n - 18 := csiDataSize_natCast (by have := b.length_lt; omega)
  rw [buffToCsi4339, hsize]
  split
  · exact reads_pure _
  · rename_i h18
    simp only [csiMagic, reads_bind hP, reads_le32 hP, reads_ite, reads_pure, implies_true,
      true_and]
    refine ⟨by omega, ?_⟩
    intro _ _
    exact reads_decodeCsi4339 hP fun i h1 h2 => by omega

/-! ### Its verdict -/

section Verdict

variable {m : Mem} {o n : ℕ}

/-- A datagram of `n` bytes at `o` that is accepted: the header with its magic, and 64, 128 or 256
samples. -/
def CsiWellFormed (m : Mem) (o n : ℕ) : Prop :=
  m.le32At o = 0x11111111 ∧ (n = 274 ∨ n = 530 ∨ n = 1042)

instance : Decidable (CsiWellFormed m o n) := by unfold CsiWellFormed; infer_instance

/-- The sizes accepted, for a length that is not negative. -/
theorem csiSizeOk_sub (n : ℕ) : csiSizeOk ((n : ℤ) - 18) = true ↔ n = 274 ∨ n = 530 ∨ n = 1042 := by
  simp only [csiSizeOk, Bool.or_eq_true, beq_iff_eq]
  omega

/-- **`csi` is set for the accepted datagrams and no others.** -/
theorem csi_isSome_iff (hn : n < 2147483648) :
    (value m (buffToCsi4339 o n)).csi.isSome ↔ CsiWellFormed m o n := by
  rw [buffToCsi4339, csiDataSize_natCast hn]
  have hok := csiSizeOk_sub n
  split
  · simp only [value_pure, CsiWellFormed]
    constructor
    · intro h
      exact absurd h (by simp)
    · intro h
      omega
  · simp only [csiMagic, value_bind, value_le32, value_ite, value_pure, CsiWellFormed, ← hok]
    by_cases hmagic : m.le32At o = 0x11111111 <;> by_cases hs : csiSizeOk ((n : ℤ) - 18) <;>
      simp [hmagic, hs, decodeCsi4339]

/-- The object made of an accepted datagram. -/
theorem value_buffToCsi4339 (hn : n < 2147483648) (h : CsiWellFormed m o n) :
    value m (buffToCsi4339 o n) =
      { status := 0, srcMac := macStr (m.blockAt (o + 4) 6), seq := m.le16At (o + 10),
        chanspec := m.le16At (o + 14), chipVer := m.le16At (o + 16),
        coreNum := (m.le16At (o + 12) / 256 % 8 : ℕ), ssNum := (m.le16At (o + 12) / 2048 % 8 : ℕ),
        csi := some (value m (csiData (o + 18) ((n - 18) / 4))) } := by
  obtain ⟨hmagic, hsize⟩ := h
  have hneg : ¬ (n : ℤ) - 18 < 0 := by omega
  have hcount : (((n : ℤ) - 18) / 4).toNat = (n - 18) / 4 := by omega
  simp [buffToCsi4339, csiDataSize_natCast hn, hneg, csiMagic, hmagic, (csiSizeOk_sub n).2 hsize,
    decodeCsi4339, csiSrcMac, csiSeqNum, csiCoreNum, csiSsNum, csiChanspec, csiChipVer,
    sizeofCsiHeader4339, hcount]

/-- **The status**: `1` for a datagram without header or magic, `2` for one of another size. -/
theorem status_buffToCsi4339 (hn : n < 2147483648) : (value m (buffToCsi4339 o n)).status =
    if n < 18 ∨ m.le32At o ≠ 0x11111111 then 1 else
      if n = 274 ∨ n = 530 ∨ n = 1042 then 0 else 2 := by
  by_cases h18 : n < 18
  · have hneg : (n : ℤ) - 18 < 0 := by omega
    simp [buffToCsi4339, csiDataSize_natCast hn, hneg, h18]
  have hneg : ¬ (n : ℤ) - 18 < 0 := by omega
  by_cases hmagic : m.le32At o = 0x11111111
  · by_cases hsize : n = 274 ∨ n = 530 ∨ n = 1042
    · rw [value_buffToCsi4339 hn ⟨hmagic, hsize⟩, if_neg (by omega), if_pos hsize]
    · have hok := mt (csiSizeOk_sub n).1 hsize
      rw [if_neg (by omega), if_neg hsize]
      simp [buffToCsi4339, csiDataSize_natCast hn, hneg, csiMagic, hmagic, hok]
  · simp [buffToCsi4339, csiDataSize_natCast hn, hneg, csiMagic, hmagic]

end Verdict

end LocTag
