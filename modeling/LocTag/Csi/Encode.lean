import LocTag.Csi.Decode

/-!
# CSI datagrams written back

`encodeCsi4339` lays the fields of a decoded object out as `struct csi_header_4339` and its samples.
`csi_exact` puts the decoder's properties together: it reads inside the datagram, its status is
decided by the length and the magic, and what it makes of an accepted datagram is enough to write the
datagram back, except for the bits `withoutIgnored` clears.
-/

namespace LocTag

open Lib Lib.Fetch

/-! ### The encoder -/

/-- The value of two hexadecimal digits. -/
def octet (hi lo : Char) : UInt8 :=
  UInt8.ofNat ((digitIn 16 hi).getD 0 * 16 + (digitIn 16 lo).getD 0)

/-- The bytes of an address printed with `MACSTR`. -/
def macBytes : List Char → List UInt8
  | hi :: lo :: _ :: s => octet hi lo :: macBytes s
  | [hi, lo] => [octet hi lo]
  | _ => []

/-- A sample as it lies in `data[]`. -/
def sampleBytes (z : Complex) : List UInt8 := bytes16 (toU16 z.re) ++ bytes16 (toU16 z.im)

/-- The byte with the bit-fields: `core_num` in its low bits, then `ss_num`. -/
def coreSsByte (coreNum ssNum : ℤ) : UInt8 := UInt8.ofNat (toU16 coreNum + 8 * toU16 ssNum)

/-- The object in the layout of `struct csi_header_4339`, the unnamed bits `0`. -/
def encodeCsi4339 (obj : Csi4339) : List UInt8 :=
  bytes32 0x11111111 ++ macBytes (strArg obj.srcMac) ++ bytes16 (toU16 obj.seq) ++
    [0, coreSsByte obj.coreNum obj.ssNum] ++ bytes16 (toU16 obj.chanspec) ++
    bytes16 (toU16 obj.chipVer) ++ (obj.csi.getD []).flatMap sampleBytes

/-- A datagram with the bits the format ignores set to `0`: byte 12 and the two top bits of byte
13. -/
def withoutIgnored (bytes : List UInt8) : List UInt8 :=
  bytes.mapIdx fun i b => if i = 12 then 0 else if i = 13 then b % 64 else b

/-! ### Its parts -/

theorem octet_hex2 (b : UInt8) :
    octet (Nat.digitChar (b.toNat / 16)) (Nat.digitChar (b.toNat % 16)) = b := by
  have hb := b.toNat_lt
  rw [octet, digitIn_digitChar le_rfl (by omega), digitIn_digitChar le_rfl (by omega),
    Option.getD_some, Option.getD_some, Nat.div_add_mod', UInt8.ofNat_toNat]

theorem macBytes_hex2_cons (b : UInt8) (c : Char) (s : List Char) :
    macBytes (hex2 b ++ c :: s) = b :: macBytes s := by
  simp only [hex2, List.cons_append, List.nil_append, macBytes, octet_hex2]

/-- **The text of an address is read back.** -/
theorem macBytes_macStr (a : List UInt8) : macBytes (macStr a) = a := by
  rw [macStr]
  induction a with
  | nil => rfl
  | cons b a ih =>
    cases a with
    | nil => simp [hex2, macBytes, octet_hex2]
    | cons c a =>
      rw [List.map_cons, List.map_cons, List.intercalate_cons_cons, ← List.map_cons,
        List.append_assoc, List.singleton_append, macBytes_hex2_cons, ih]

/-- A sample is written back as the four bytes it was read from. -/
theorem sampleBytes_at (m : Mem) (p : ℕ) :
    sampleBytes ⟨toI16 (m.le16At p), toI16 (m.le16At (p + 2))⟩ = m.blockAt p 4 := by
  simp only [sampleBytes, toU16_toI16 (Mem.le16At_lt _), bytes16_le16At, ← Mem.blockAt_add]

/-- The samples are written back as the bytes they were read from. -/
theorem flatMap_sampleBytes (m : Mem) (p n : ℕ) :
    (value m (csiData p n)).flatMap sampleBytes = m.blockAt p (4 * n) := by
  induction n generalizing p with
  | zero => rfl
  | succ n ih =>
    simp only [csiData, value_bind, value_le16, value_pure, List.flatMap_cons, sampleBytes_at, ih]
    rw [show 4 * (n + 1) = 4 + 4 * n by ring, Mem.blockAt_add]

theorem length_csiData (m : Mem) (p n : ℕ) : (value m (csiData p n)).length = n := by
  induction n generalizing p with
  | zero => rfl
  | succ n ih => simp [csiData, ih]

/-- The byte with the bit-fields is written back without its two top bits. -/
theorem coreSsByte_at (m : Mem) (p : ℕ) :
    coreSsByte (m.le16At p / 256 % 8 : ℕ) (m.le16At p / 2048 % 8 : ℕ) =
      (m (p + 1)).getD 0 % 64 := by
  have h0 := Mem.u8At_lt (m := m) p
  have h1 := Mem.u8At_lt (m := m) (p + 1)
  rw [coreSsByte, toU16_natCast (by omega), toU16_natCast (by omega), ← UInt8.toNat_inj,
    UInt8.toNat_ofNat', UInt8.toNat_mod, ← Mem.u8At]
  change _ = m.u8At (p + 1) % 64
  unfold Mem.le16At
  omega

/-- What is ignored of a datagram of 14 bytes or more. -/
theorem withoutIgnored_append {p : List UInt8} (hp : p.length = 12) (a b : UInt8)
    (s : List UInt8) : withoutIgnored (p ++ [a, b] ++ s) = p ++ [0, b % 64] ++ s := by
  have hbefore : p.mapIdx (fun i b => if i = 12 then 0 else if i = 13 then b % 64 else b) = p := by
    apply List.ext_getElem (by simp)
    intro i hi _
    rw [List.length_mapIdx, hp] at hi
    simp [hi.ne, (show i ≠ 13 by omega)]
  have hafter : s.mapIdx (fun _ b => b) = s := by
    apply List.ext_getElem (by simp)
    intro i hi _
    simp
  rw [withoutIgnored, List.mapIdx_append, List.mapIdx_append, hbefore]
  simp [hp, hafter]

/-- **An accepted datagram is written back**, but for what the format ignores. -/
theorem encodeCsi4339_value {m : Mem} {o n : ℕ} (hn : n < 2147483648) (h : CsiWellFormed m o n) :
    encodeCsi4339 (value m (buffToCsi4339 o n)) = withoutIgnored (m.blockAt o n) := by
  obtain ⟨N, rfl⟩ : ∃ N, n = 18 + 4 * N := ⟨(n - 18) / 4, by have := h.2; omega⟩
  have hcount : (18 + 4 * N - 18) / 4 = N := by omega
  -- the datagram in the pieces the encoder writes
  have hsplit : m.blockAt o (18 + 4 * N) = (m.blockAt o 4 ++ m.blockAt (o + 4) 6 ++
      m.blockAt (o + 10) 2) ++ [(m (o + 12)).getD 0, (m (o + 13)).getD 0] ++
      (m.blockAt (o + 14) 2 ++ m.blockAt (o + 16) 2 ++ m.blockAt (o + 18) (4 * N)) := by
    rw [show 18 + 4 * N = 4 + 6 + 2 + 2 + (2 + 2 + 4 * N) by ring]
    simp only [Mem.blockAt_add, Nat.add_assoc, Nat.reduceAdd]
    rfl
  rw [value_buffToCsi4339 hn h, hcount, hsplit, withoutIgnored_append (by simp)]
  have hmagic := bytes32_le32At m o
  rw [h.1] at hmagic
  simp only [encodeCsi4339, strArg, Option.getD_some, macBytes_macStr, coreSsByte_at,
    toU16_natCast (Mem.le16At_lt _), bytes16_le16At, flatMap_sampleBytes, hmagic,
    List.append_assoc]

/-- **CSI decoding is exact and invertible**, for every datagram inside a byte array. -/
theorem csi_exact (b : JByteArray) (o n : ℕ) (h : o + n ≤ b.data.length) :
    (∀ i ∈ consulted b.mem (buffToCsi4339 o n), o ≤ i ∧ i < o + n) ∧
    ∃ obj, run b.mem (buffToCsi4339 o n) = some obj ∧
      (obj.status = 1 ↔ n < 18 ∨ b.mem.le32At o ≠ 0x11111111) ∧
      (obj.status = 2 ↔ ¬ (n < 18 ∨ b.mem.le32At o ≠ 0x11111111) ∧
        ¬ (n - 18 = 256 ∨ n - 18 = 512 ∨ n - 18 = 1024)) ∧
      (obj.status = 0 ↔ ¬ (n < 18 ∨ b.mem.le32At o ≠ 0x11111111) ∧
        (n - 18 = 256 ∨ n - 18 = 512 ∨ n - 18 = 1024)) ∧
      (obj.status = 0 → ∃ csi, obj.csi = some csi ∧ csi.length = (n - 18) / 4 ∧
        encodeCsi4339 obj = withoutIgnored ((b.data.drop o).take n)) := by
  have hn : n < 2147483648 := by have := b.length_lt; omega
  have hreads := reads_buffToCsi4339 b h
  have hstatus := status_buffToCsi4339 (m := b.mem) (o := o) hn
  refine ⟨hreads, _, run_value (hreads.imp fun i hi => Mem.ofList_isSome.2 (by omega)), ?_⟩
  rw [hstatus]
  refine ⟨?_, ?_, ?_, ?_⟩
  · split_ifs <;> simp_all
  · split_ifs <;> simp_all <;> omega
  · split_ifs <;> simp_all <;> omega
  · intro h0
    have hwf : CsiWellFormed b.mem o n := by
      split_ifs at h0 with h1 h2
      · cases h0
      · rw [not_or, not_not] at h1
        exact ⟨h1.2, h2⟩
      · cases h0
    refine ⟨_, by rw [value_buffToCsi4339 hn hwf], length_csiData _ _ _, ?_⟩
    rw [encodeCsi4339_value hn hwf, JByteArray.mem, Mem.blockAt_ofList h]

/-- The header with 64 samples, `-1` in every part. -/
def minusOneSamples : JByteArray :=
  ⟨List.replicate 4 0x11 ++ List.replicate 270 0xff, by decide +kernel⟩

theorem csi_exact_minus_one : ∃ obj,
    run minusOneSamples.mem (buffToCsi4339 0 (274 : ℕ)) = some obj ∧ obj.status = 0 ∧
      encodeCsi4339 obj = withoutIgnored ((minusOneSamples.data.drop 0).take 274) := by
  obtain ⟨-, obj, hrun, -, -, h0, hencode⟩ := csi_exact minusOneSamples 0 274 (by decide +kernel)
  have hst : obj.status = 0 := h0.2 ⟨by decide +kernel, by omega⟩
  obtain ⟨_, -, -, henc⟩ := hencode hst
  exact ⟨obj, hrun, hst, henc⟩

end LocTag
