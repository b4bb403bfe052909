import LocTag.Csi.Encode
import LocTag.Fragment.Receive

/-!
# The log of a CSI session

`CsiFragment` writes a line for every datagram: the address, the sequence number, the core and the
spatial stream in brackets, the chanspec in hexadecimal and the number of samples.

`csi_log_read_back` reads back whatever a session has written, at any moment.  `csi_lines_eq_iff` is
about what is lost: a line is decided by the length and ten bytes and a part of one more of the
header, and has nothing of the samples.
-/

namespace LocTag

open Lib Lib.Fetch

/-! ### Lines -/

/-- What a line has of an object. -/
structure CsiLogRecord where
  srcMac : Option (List Char)
  seq : ℤ
  coreNum : ℤ
  ssNum : ℤ
  chanspec : ℤ
  samples : ℤ
  deriving DecidableEq

/-- The fields of the object that are written. -/
def Csi4339.logRecord (obj : Csi4339) : CsiLogRecord :=
  { srcMac := obj.srcMac, seq := obj.seq, coreNum := obj.coreNum, ssNum := obj.ssNum,
    chanspec := obj.chanspec, samples := ((obj.csi.getD []).length : ℤ) }

/-- The record of a line. -/
def readCsiRecord (line : List Char) : Option CsiLogRecord :=
  match splitFirst ',' 5 line with
  | [srcMac, seq, core, ss, chanspec, samples] =>
    some { srcMac := some srcMac, seq := readInt seq, coreNum := readInt core.tail,
           ssNum := readInt ss.dropLast, chanspec := ((readDigits 16 0 chanspec).1 : ℤ),
           samples := readInt samples }
  | _ => none

/-- The fields of a line in front of the number of samples. -/
def CsiLogRecord.front (r : CsiLogRecord) : List (List Char) :=
  [strArg r.srcMac, decimal r.seq, '[' :: decimal r.coreNum, decimal r.ssNum ++ [']'],
    Nat.toDigits 16 (toU32 r.chanspec)]

/-- The line of a record. -/
def CsiLogRecord.line (r : CsiLogRecord) : List Char :=
  [','].intercalate (r.front ++ [decimal r.samples])

section Lines

variable {d d' : List UInt8} {line : List Char}

theorem toString_csi {obj : Csi4339} (h : obj.csi.isSome) : obj.toString = .ok obj.logRecord.line := by
  obtain ⟨csi, hcsi⟩ := Option.isSome_iff_exists.1 h
  have hopen : ",[".toList = [',', '['] := rfl
  have hclose : "],".toList = [']', ','] := rfl
  have hcomma : ",".toList = [','] := rfl
  simp only [Csi4339.toString, Csi4339.logRecord, CsiLogRecord.line, CsiLogRecord.front, hcsi, hopen,
    hclose, hcomma, Option.getD_some, List.cons_append, List.nil_append,
    List.intercalate_cons_cons, List.intercalate_singleton, List.append_assoc]

/-- The object made of an accepted datagram. -/
theorem decodedCsi_eq (h : CsiDatagram d) : decodedCsi d =
    { status := 0, srcMac := macStr ((Mem.ofList d).blockAt 4 6),
      seq := (Mem.ofList d).le16At 10, chanspec := (Mem.ofList d).le16At 14,
      chipVer := (Mem.ofList d).le16At 16,
      coreNum := ((Mem.ofList d).le16At 12 / 256 % 8 : ℕ),
      ssNum := ((Mem.ofList d).le16At 12 / 2048 % 8 : ℕ),
      csi := some (value (csiBuffer d).mem (csiData 18 ((d.length - 18) / 4))) } := by
  have hsize : d.length = 274 ∨ d.length = 530 ∨ d.length = 1042 := h.2
  have hlen : getLength 2048 d = d.length := by
    unfold getLength
    omega
  have hwf := (csi_isSome_iff (by omega)).1 ((csiDatagram_iff d).2 h)
  have hbyte : ∀ i k, i + k < 18 → (csiBuffer d).mem (i + k) = Mem.ofList d (i + k) :=
    fun i k hik => mem_received (by omega)
  have hle16 : ∀ i < 17, (csiBuffer d).mem.le16At i = (Mem.ofList d).le16At i :=
    fun i hi => Mem.le16At_congr fun k hk => hbyte i k (by omega)
  have hmac : (csiBuffer d).mem.blockAt 4 6 = (Mem.ofList d).blockAt 4 6 :=
    Mem.blockAt_congr fun k hk => hbyte 4 k (by omega)
  rw [decodedCsi, value_buffToCsi4339 (by omega) hwf]
  simp only [Nat.zero_add, hmac, hle16 10 (by omega), hle16 12 (by omega), hle16 14 (by omega),
    hle16 16 (by omega), hlen]

/-- A line is written for a CSI datagram, and has its record. -/
theorem line_eq_iff : (decodedCsi d).toString = .ok line ↔
    CsiDatagram d ∧ line = (decodedCsi d).logRecord.line := by
  rw [← csiDatagram_iff]
  by_cases h : (decodedCsi d).csi.isSome
  · rw [toString_csi h]
    simp [h, eq_comm]
  · rw [Option.not_isSome_iff_eq_none] at h
    simp [Csi4339.toString, h]

/-- The record of a datagram. -/
theorem logRecord_eq (h : CsiDatagram d) : (decodedCsi d).logRecord =
    { srcMac := some (macStr ((Mem.ofList d).blockAt 4 6)), seq := (Mem.ofList d).le16At 10,
      coreNum := ((Mem.ofList d).u8At 13 % 8 : ℕ), ssNum := ((Mem.ofList d).u8At 13 / 8 % 8 : ℕ),
      chanspec := (Mem.ofList d).le16At 14, samples := ((d.length - 18) / 4 : ℕ) } := by
  have hcore : (Mem.ofList d).le16At 12 / 256 % 8 = (Mem.ofList d).u8At 13 % 8 ∧
      (Mem.ofList d).le16At 12 / 2048 % 8 = (Mem.ofList d).u8At 13 / 8 % 8 := by
    have hlow := Mem.u8At_lt (m := Mem.ofList d) 12
    have hhigh : (Mem.ofList d).le16At 12 =
      (Mem.ofList d).u8At 12 + 256 * (Mem.ofList d).u8At 13 := rfl
    omega
  rw [decodedCsi_eq h]
  simp only [Csi4339.logRecord, hcore.1, hcore.2, Option.getD_some, length_csiData]

/-- No field in front has a comma or a newline. -/
theorem not_mem_front (h : CsiDatagram d) {c : Char} (hc : Delimiter c) (hopen : c ≠ '[')
    (hclose : c ≠ ']') : ∀ f ∈ (decodedCsi d).logRecord.front, c ∉ f := by
  have hint : ∀ x, c ∉ decimal x := not_mem_decimal hc.1 hc.2.1
  have hhex := not_mem_toDigits (by omega : 1 < 16) le_rfl hc.1
  rw [logRecord_eq h]
  simp [CsiLogRecord.front, strArg, hc.not_mem_macStr, hint, hhex, hopen, hclose]

/-- **A line is read back.** -/
theorem readCsiRecord_line (h : CsiDatagram d) :
    readCsiRecord (decodedCsi d).logRecord.line = some (decodedCsi d).logRecord := by
  have hcomma := not_mem_front h (c := ',') ⟨rfl, by simp, by simp, by simp⟩ (by simp) (by simp)
  have hsplit := splitFirst_intercalate (decimal (decodedCsi d).logRecord.samples) hcomma
  rw [← CsiLogRecord.line] at hsplit
  have hfive : (decodedCsi d).logRecord.front.length = 5 := rfl
  rw [hfive] at hsplit
  have hlt := Mem.le16At_lt (m := Mem.ofList d) 14
  have hhex := readDigits_toDigits (by omega : 1 < 16) le_rfl ((Mem.ofList d).le16At 14) []
  rw [List.append_nil] at hhex
  rw [readCsiRecord, hsplit, logRecord_eq h]
  simp only [CsiLogRecord.front, strArg, Option.getD_some, List.cons_append, List.nil_append,
    List.tail_cons, List.dropLast_concat, readInt_decimal,
    toU32_natCast (by omega : (Mem.ofList d).le16At 14 < 4294967296), hhex, readDigits]

theorem newline_not_mem_line (h : CsiDatagram d) : '\n' ∉ (decodedCsi d).logRecord.line := by
  have hfront := not_mem_front h (c := '\n') ⟨rfl, by simp, by simp, by simp⟩ (by simp) (by simp)
  have hsamples := not_mem_decimal (c := '\n') rfl (by simp) (decodedCsi d).logRecord.samples
  rw [CsiLogRecord.line, mem_intercalate (by simp)]
  rintro ⟨f, hf, hc⟩
  rcases List.mem_append.1 hf with hf | hf
  · exact hfront f hf hc
  · obtain rfl := List.mem_singleton.1 hf
    exact hsamples hc

end Lines

/-! ### Sessions -/

/-- The lines of datagrams are read back one by one, and none has a newline. -/
theorem read_lines {ds : List (List UInt8)} {lines : List (List Char)}
    (h : List.Forall₂ (fun d line => (decodedCsi d).toString = .ok line) ds lines) :
    List.Forall₂ (fun d line => readCsiRecord line = some (decodedCsi d).logRecord) ds lines ∧
      ∀ line ∈ lines, '\n' ∉ line := by
  induction h with
  | nil => exact ⟨.nil, nofun⟩
  | cons h _ ih =>
    obtain ⟨hd, rfl⟩ := line_eq_iff.1 h
    exact ⟨.cons (readCsiRecord_line hd) ih.1,
      List.forall_mem_cons.2 ⟨newline_not_mem_line hd, ih.2⟩⟩

section Lost

variable {d d' : List UInt8}

theorem le16At_eq_iff {m m' : Mem} (i : ℕ) :
    m.le16At i = m'.le16At i ↔ m.u8At i = m'.u8At i ∧ m.u8At (i + 1) = m'.u8At (i + 1) := by
  have h0 := Mem.u8At_lt (m := m) i
  have h0' := Mem.u8At_lt (m := m') i
  unfold Mem.le16At
  omega

theorem macStr_inj {a a' : List UInt8} : macStr a = macStr a' ↔ a = a' :=
  ⟨fun h => by rw [← macBytes_macStr a, h, macBytes_macStr], congrArg macStr⟩

theorem blockAt_eq_iff {m m' : Mem} (i n : ℕ) :
    m.blockAt i n = m'.blockAt i n ↔ ∀ j < n, m.u8At (i + j) = m'.u8At (i + j) := by
  simp [Mem.blockAt, Mem.u8At, List.map_inj_left, UInt8.toNat_inj]

/-- Two datagrams have the same byte. -/
theorem u8At_eq_iff {i : ℕ} (hi : i < d.length) (hi' : i < d'.length) :
    (Mem.ofList d).u8At i = (Mem.ofList d').u8At i ↔ d[i]? = d'[i]? := by
  simp [Mem.u8At, Mem.ofList, List.getElem?_eq_getElem hi, List.getElem?_eq_getElem hi',
    UInt8.toNat_inj]

/-- **Two datagrams have the same line** iff they are of one length and their headers agree, but for
byte 12, the two top bits of byte 13 and the chip version: the samples are not in the log. -/
theorem csi_lines_eq_iff (h : CsiDatagram d) (h' : CsiDatagram d') :
    (decodedCsi d).toString = (decodedCsi d').toString ↔
      d.length = d'.length ∧ (∀ i, 4 ≤ i → i < 16 → i ≠ 12 → i ≠ 13 → d[i]? = d'[i]?) ∧
        (d.getD 13 0).toNat % 64 = (d'.getD 13 0).toNat % 64 := by
  have hlines : (decodedCsi d).toString = (decodedCsi d').toString ↔
      (decodedCsi d).logRecord = (decodedCsi d').logRecord := by
    rw [line_eq_iff.2 ⟨h, rfl⟩, line_eq_iff.2 ⟨h', rfl⟩]
    constructor
    · intro hline
      have hread := readCsiRecord_line h
      rw [Except.ok.inj hline, readCsiRecord_line h'] at hread
      exact (Option.some.inj hread).symm
    · exact fun hrec => by rw [hrec]
  have hsize : d.length = 274 ∨ d.length = 530 ∨ d.length = 1042 := h.2
  have hsize' : d'.length = 274 ∨ d'.length = 530 ∨ d'.length = 1042 := h'.2
  have hbyte13 : ∀ d : List UInt8, (d.getD 13 0).toNat = (Mem.ofList d).u8At 13 := by
    simp [Mem.u8At, Mem.ofList]
  have hbyte : ∀ i < 16, (Mem.ofList d).u8At i = (Mem.ofList d').u8At i ↔ d[i]? = d'[i]? :=
    fun i hi => u8At_eq_iff (by omega) (by omega)
  rw [hlines, logRecord_eq h, logRecord_eq h', hbyte13, hbyte13]
  simp only [CsiLogRecord.mk.injEq, Option.some.injEq, macStr_inj, blockAt_eq_iff, Nat.cast_inj,
    le16At_eq_iff]
  constructor
  · rintro ⟨hmac, ⟨h10, h11⟩, hcore, hss, ⟨h14, h15⟩, hsamples⟩
    refine ⟨by omega, fun i h4 h16 h12 h13 => (hbyte i h16).1 ?_, by omega⟩
    by_cases hi : i < 10
    · have := hmac (i - 4) (by omega)
      rwa [Nat.add_sub_cancel' h4] at this
    · obtain rfl | rfl | rfl | rfl : i = 10 ∨ i = 11 ∨ i = 14 ∨ i = 15 := by omega
      · exact h10
      · exact h11
      · exact h14
      · exact h15
  · rintro ⟨hlen, hbytes, h13⟩
    have hsame : ∀ i, 4 ≤ i → i < 16 → i ≠ 12 → i ≠ 13 →
        (Mem.ofList d).u8At i = (Mem.ofList d').u8At i :=
      fun i h4 h16 h12 h13 => (hbyte i h16).2 (hbytes i h4 h16 h12 h13)
    refine ⟨fun j hj => hsame (4 + j) (by omega) (by omega) (by omega) (by omega),
      ⟨hsame 10 (by omega) (by omega) (by omega) (by omega),
        hsame 11 (by omega) (by omega) (by omega) (by omega)⟩, by omega, by omega,
      ⟨hsame 14 (by omega) (by omega) (by omega) (by omega),
        hsame 15 (by omega) (by omega) (by omega) (by omega)⟩, by rw [hlen]⟩

/-- Two channels that could not be less alike. -/
theorem csi_lines_eq_samples : (decodedCsi csiDatagram64).toString =
    (decodedCsi (List.replicate 4 0x11 ++ List.replicate 14 0 ++ List.replicate 256 0xff)).toString := by
  refine (csi_lines_eq_iff (by decide +kernel) (by decide +kernel)).2 ⟨by decide +kernel, ?_, rfl⟩
  intro i h4 h16 _ _
  interval_cases i <;> rfl

end Lost

end LocTag
