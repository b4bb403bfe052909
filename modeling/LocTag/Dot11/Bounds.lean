import LocTag.Dot11.Decode

/-!
# What the 802.11 decoder reads and prints

`buffToDot11Rt` checks the length of the frame against the 40 bytes of the radiotap header and
nothing else, so `it_len` and the length of the SSID tag go unchecked.  The two main results are
exact: `sprintf_fits_iff` says for which frames every `sprintf` stays inside `char buf[64]`, and
`reads_inside_iff` for which frames every index consulted lies in the `n` bytes handed over.
-/

namespace LocTag

open Lib Lib.Fetch

/-! ### The frame in memory -/

section Frame

variable (m : Mem) (o : ℕ) (n : ℤ)

/-- The frame passes the checks of `buffToDot11Rt`. -/
def Accepted : Prop := sizeofNexmonRadiotapHeader ≤ toU32 n ∧ m.le32At (o + 4) = 0x4008006f

/-- The address of the 802.11 header. -/
def hdrAt : ℕ := o + m.le16At (o + 2)

/-- The address of the first tagged parameter of a beacon. -/
def ssidSetAt : ℕ := o + m.le16At (o + 2) + 0x24

/-- The frame is a beacon: type 0, subtype 8. -/
def IsBeacon : Prop := m.u8At (hdrAt m o) / 4 % 4 = 0 ∧ m.u8At (hdrAt m o) / 16 = 8

/-- The first tagged parameter is an SSID. -/
def HasSsid : Prop := m.u8At (ssidSetAt m o) = 0

/-- The tag claims `k` bytes of text or more, and the first `k` have no NUL among them. -/
def SsidReaches (k : ℕ) : Prop :=
  k ≤ m.u8At (ssidSetAt m o + 1) ∧ ∀ j < k, m.u8At (ssidSetAt m o + 2 + j) ≠ 0

end Frame

/-! ### What is printed -/

section Printed

variable {m : Mem} {o : ℕ} {n : ℤ}

/-- What the calls of `sprintf` print: two addresses, and the SSID of a beacon that has one. -/
theorem printed_eq (h : Accepted m o n) : (value m (buffToDot11Rt o n)).2 =
    [asciiBytes (macStr (m.blockAt (hdrAt m o + 10) 6)),
      asciiBytes (macStr (m.blockAt (hdrAt m o + 4) 6))] ++
    (value m (ssidText (m.u8At (hdrAt m o) / 4 % 4) (m.u8At (hdrAt m o) / 16)
      (ssidSetAt m o))).toList := by
  obtain ⟨hlen, hpresent⟩ := h
  simp only [buffToDot11Rt, decodeDot11, value_bind, value_pure, value_itLen, value_itPresent,
    value_addr1, value_addr2, value_hdrType, value_hdrSubtype, Nat.not_lt.2 hlen, hpresent, ne_eq,
    not_true_eq_false, if_false, hdrAt, ssidSetAt]

/-- A frame that fails the checks gives a new object with status 1. -/
theorem value_buffToDot11Rt_of_not (h : ¬ Accepted m o n) :
    value m (buffToDot11Rt o n) = ({ status := 1 }, []) := by
  simp only [buffToDot11Rt, value_bind, value_ite, value_pure, value_itPresent]
  split
  · rfl
  · rename_i hlen
    rw [if_pos fun hp => h ⟨Nat.not_lt.1 hlen, hp⟩]

/-- The object made of an accepted frame. -/
theorem value_buffToDot11Rt (h : Accepted m o n) : (value m (buffToDot11Rt o n)).1 =
    { status := 0, txMac := macStr (m.blockAt (hdrAt m o + 10) 6),
      rxMac := macStr (m.blockAt (hdrAt m o + 4) 6), rate := (m.u8At (o + 17) : ℚ) / 2,
      cFreq := m.le16At (o + 18), rssi := toI8 ((m (o + 22)).getD 0),
      noise := toI8 ((m (o + 23)).getD 0), type := (m.u8At (hdrAt m o) / 4 % 4 : ℕ),
      subtype := (m.u8At (hdrAt m o) / 16 : ℕ),
      SSID := (value m (ssidText (m.u8At (hdrAt m o) / 4 % 4) (m.u8At (hdrAt m o) / 16)
        (ssidSetAt m o))).getD [] } := by
  obtain ⟨hlen, hpresent⟩ := h
  simp only [buffToDot11Rt, decodeDot11, dataRate, chanFreq, dbmAntsignal, dbmAntnoise, value_bind,
    value_pure, value_itLen, value_itPresent, value_addr1, value_addr2, value_hdrType,
    value_hdrSubtype, value_u8, value_le16, Nat.not_lt.2 hlen, hpresent, ne_eq, not_true_eq_false,
    if_false, hdrAt, ssidSetAt, Mem.u8At]

theorem printed_eq_nil (h : ¬ Accepted m o n) : (value m (buffToDot11Rt o n)).2 = [] := by
  rw [value_buffToDot11Rt_of_not h]

/-- An address takes 18 of the 64 characters of `buf`. -/
theorem length_asciiBytes_macStr (i : ℕ) : (asciiBytes (macStr (m.blockAt i 6))).length = 17 := by
  rw [asciiBytes, List.length_map, length_macStr (Mem.length_blockAt i 6)]

/-- The printed texts fit iff the SSID does not reach 64 bytes. -/
theorem printed_fits_iff : (∀ s ∈ (value m (buffToDot11Rt o n)).2, s.length + 1 ≤ 64) ↔
    ¬ (Accepted m o n ∧ IsBeacon m o ∧ HasSsid m o ∧ SsidReaches m o 64) := by
  by_cases hacc : Accepted m o n
  · have hmac := fun i => length_asciiBytes_macStr (m := m) i
    have hfit : ∀ s : List UInt8, s.length + 1 ≤ 64 ↔ ¬ 64 ≤ s.length := fun s => by omega
    rw [printed_eq hacc, value_ssidText]
    simp only [List.mem_append, List.mem_cons, List.not_mem_nil, or_false, or_imp, forall_and,
      forall_eq, hmac, hacc, IsBeacon, HasSsid, SsidReaches, Option.mem_toList, true_and]
    by_cases hb : (m.u8At (hdrAt m o) / 4 % 4 = 0 ∧ m.u8At (hdrAt m o) / 16 = 8) ∧
        m.u8At (ssidSetAt m o) = 0
    · simp only [hb, and_self, if_true, Option.some.injEq, forall_eq', hfit, le_length_cstr]
      simp
    · simp only [if_neg hb]
      simpa using fun h0 h8 hs => absurd ⟨⟨h0, h8⟩, hs⟩ hb
  · simp [printed_eq_nil hacc, hacc]

/-- **Every `sprintf` of `buffToDot11Rt` stays inside `char buf[64]`** iff the frame is not an
accepted beacon whose SSID tag claims 64 bytes or more with no NUL among the first 64. -/
theorem sprintf_fits_iff {r : Dot11Rt × List (List UInt8)}
    (hr : run m (buffToDot11Rt o n) = some r) :
    (∀ s ∈ r.2, s.length + 1 ≤ 64) ↔
      ¬ (Accepted m o n ∧ IsBeacon m o ∧ HasSsid m o ∧ SsidReaches m o 64) := by
  obtain rfl := (run_eq_some_iff.1 hr).2
  exact printed_fits_iff

end Printed

/-- The radiotap header of the firmware with `it_len = 40`, its fields `0`. -/
def radiotapHeader : List UInt8 := [0, 0, 40, 0, 0x6f, 0, 0x08, 0x40] ++ List.replicate 32 0

/-- A beacon with the SSID `ssid` after that header. -/
def beaconFrame (ssid : List UInt8) : List UInt8 :=
  radiotapHeader ++ 0x80 :: List.replicate 35 0 ++ [0, UInt8.ofNat ssid.length] ++ ssid

/-- An SSID of 32 bytes. -/
theorem sprintf_fits_beacon :
    ∃ r, run (Mem.ofList (beaconFrame (List.replicate 32 0x41))) (buffToDot11Rt 0 110) = some r ∧
      ((∀ s ∈ r.2, s.length + 1 ≤ 64) ↔
        ¬ (Accepted (Mem.ofList (beaconFrame (List.replicate 32 0x41))) 0 110 ∧
          IsBeacon (Mem.ofList (beaconFrame (List.replicate 32 0x41))) 0 ∧
          HasSsid (Mem.ofList (beaconFrame (List.replicate 32 0x41))) 0 ∧
          SsidReaches (Mem.ofList (beaconFrame (List.replicate 32 0x41))) 0 64)) := by
  have h : (run (Mem.ofList (beaconFrame (List.replicate 32 0x41)))
      (buffToDot11Rt 0 110)).isSome := rfl
  obtain ⟨r, hr⟩ := Option.isSome_iff_exists.1 h
  exact ⟨r, hr, sprintf_fits_iff hr⟩

/-- A tag length of 64 overruns `buf` by the NUL. -/
theorem sprintf_overruns :
    ¬ ∀ (b : JByteArray) (o : ℕ) (n : ℤ) (r : Dot11Rt × List (List UInt8)),
      run b.mem (buffToDot11Rt o n) = some r → ∀ s ∈ r.2, s.length + 1 ≤ 64 := by
  intro hall
  let b : JByteArray := ⟨beaconFrame (List.replicate 64 0x41), by decide +kernel⟩
  have h : (run b.mem (buffToDot11Rt 0 142)).map (fun r => r.2.map List.length) =
      some [17, 17, 64] := by decide +kernel
  obtain ⟨r, hr, hlen⟩ := Option.map_eq_some_iff.1 h
  obtain ⟨s, hs, h64⟩ := List.mem_map.1 (show 64 ∈ r.2.map List.length by rw [hlen]; decide)
  have := hall b 0 142 r hr s hs
  omega

/-! ### What is read -/

section Read

variable {m : Mem} {o e : ℕ}

/-- The text of the SSID tag ends, with its length or with a NUL, before `e`. -/
def SsidInside (m : Mem) (o e : ℕ) : Prop :=
  ssidSetAt m o + 2 + m.u8At (ssidSetAt m o + 1) ≤ e ∨
    ∃ j, ssidSetAt m o + 2 + j < e ∧ m.u8At (ssidSetAt m o + 2 + j) = 0

/-- What the decoder reads of an accepted frame lies before `e`: the addresses, in a beacon the
number of the first tag, and in a beacon with an SSID its length and its text. -/
def FrameInside (m : Mem) (o e : ℕ) : Prop :=
  hdrAt m o + 16 ≤ e ∧ (IsBeacon m o → ssidSetAt m o + 1 ≤ e ∧
    (HasSsid m o → ssidSetAt m o + 2 ≤ e ∧ SsidInside m o e))

/-- **The frames the decoder reads inside of.** -/
def ReadsInside (m : Mem) (o n : ℕ) : Prop := 4 ≤ n ∧ (Accepted m o n → FrameInside m o (o + n))

theorem reads_text_iff (hP : ∀ i, o ≤ i ∧ i < e → (m i).isSome) {p : ℕ} (hp : o ≤ p) (len : ℕ)
    (h2 : p + 2 ≤ e) :
    Reads m (tagBuf p len) (fun i => o ≤ i ∧ i < e) ↔
      p + 2 + len ≤ e ∨ ∃ j, p + 2 + j < e ∧ m.u8At (p + 2 + j) = 0 := by
  rw [tagBuf, reads_cstr hP]
  constructor
  · intro h
    by_contra hc
    rw [not_or, Nat.not_le] at hc
    obtain ⟨hlen, hz⟩ := hc
    -- the first index past the frame is read, since there is no NUL before it
    have := h (e - (p + 2)) (by omega) fun k hk h0 => hz ⟨k, by omega, h0⟩
    omega
  · rintro (h | ⟨z, hz, hz0⟩) j hj hk
    · omega
    · have : j ≤ z := by
        by_contra hlt
        exact hk z (by omega) hz0
      omega

theorem reads_decodeDot11_iff (hP : ∀ i, o ≤ i ∧ i < e → (m i).isSome) (h40 : o + 40 ≤ e) :
    Reads m (decodeDot11 o (hdrAt m o) (ssidSetAt m o)) (fun i => o ≤ i ∧ i < e) ↔
      FrameInside m o e := by
  have ho : o ≤ hdrAt m o := Nat.le_add_right _ _
  have hos : o ≤ ssidSetAt m o := by unfold ssidSetAt; omega
  have hz : (m (ssidSetAt m o)).getD 0 = 0 ↔ HasSsid m o := Mem.getD_eq_zero_iff
  have hb : m.u8At (hdrAt m o) / 4 % 4 = 0 ∧ m.u8At (hdrAt m o) / 16 = 8 ↔ IsBeacon m o := Iff.rfl
  simp only [FrameInside, decodeDot11, addr1, addr2, dataRate, chanFreq, dbmAntsignal, dbmAntnoise,
    hdrType, hdrSubtype, ssidText, tagNum, tagLen, reads_bind hP, reads_block hP, reads_le16 hP,
    reads_u8, reads_pure, reads_ite, value_bind, value_u8, value_pure, and_true, implies_true,
    ← Mem.u8At.eq_1, hb, hz]
  constructor
  · rintro ⟨h2, h1, -, -, -, -, hh, -, hbeacon⟩
    have := h2 5 (by omega)
    refine ⟨by omega, ?_⟩
    intro hB
    obtain ⟨hnum, hssid⟩ := hbeacon hB
    refine ⟨by omega, ?_⟩
    intro hS
    obtain ⟨hlen, htext⟩ := hssid hS
    exact ⟨by omega, (reads_text_iff hP hos _ (by omega)).1 htext⟩
  · rintro ⟨h16, hbeacon⟩
    refine ⟨?_, ?_, by omega, by omega, by omega, by omega, by omega, by omega, ?_⟩
    · intro j hj
      omega
    · intro j hj
      omega
    · intro hB
      obtain ⟨hnum, hssid⟩ := hbeacon hB
      refine ⟨by omega, ?_⟩
      intro hS
      obtain ⟨hlen, htext⟩ := hssid hS
      exact ⟨by omega, (reads_text_iff hP hos _ hlen).2 htext⟩

/-- What `buffToDot11Rt` reads lies before `e`, for a frame that does. -/
theorem reads_buffToDot11Rt_iff {n : ℤ} (hP : ∀ i, o ≤ i ∧ i < e → (m i).isSome)
    (hn : o + toU32 n ≤ e) :
    Reads m (buffToDot11Rt o n) (fun i => o ≤ i ∧ i < e) ↔
      o + 4 ≤ e ∧ (Accepted m o n → FrameInside m o e) := by
  simp only [buffToDot11Rt, itLen, itPresent, reads_bind hP, reads_le16 hP, reads_le32 hP,
    reads_ite, reads_pure, implies_true, true_and, value_le16, value_le32, Nat.not_lt,
    sizeofNexmonRadiotapHeader, Accepted, not_not, ← hdrAt.eq_1]
  constructor
  · rintro ⟨hlen, -, hrest⟩
    refine ⟨by omega, ?_⟩
    intro hacc
    exact (reads_decodeDot11_iff hP (by omega)).1 ((hrest hacc.1).2 hacc.2)
  · rintro ⟨h4, hrest⟩
    refine ⟨by omega, by omega, ?_⟩
    intro h40
    refine ⟨by omega, ?_⟩
    intro hp
    exact (reads_decodeDot11_iff hP (by omega)).2 (hrest ⟨h40, hp⟩)

end Read

/-- **`buffToDot11Rt(b, o, n)` consults bytes of `[o, o + n)` only** iff `ReadsInside`. -/
theorem reads_inside_iff (b : JByteArray) (o n : ℕ) (h : o + n ≤ b.data.length) :
    (∀ i ∈ consulted b.mem (buffToDot11Rt o n), o ≤ i ∧ i < o + n) ↔ ReadsInside b.mem o n := by
  have hP : ∀ i, o ≤ i ∧ i < o + n → (b.mem i).isSome :=
    fun i hi => Mem.ofList_isSome.2 (by omega)
  have hn : toU32 n = n := toU32_natCast (by have := b.length_lt; omega)
  change Reads b.mem (buffToDot11Rt o n) (fun i => o ≤ i ∧ i < o + n) ↔ _
  rw [reads_buffToDot11Rt_iff hP (by omega), ReadsInside, Nat.add_le_add_iff_left]

/-- An ordinary beacon. -/
theorem reads_inside_beacon :
    (∀ i ∈ consulted (Mem.ofList (beaconFrame [0x41])) (buffToDot11Rt 0 (79 : ℕ)),
        0 ≤ i ∧ i < 0 + 79) ↔
      ReadsInside (Mem.ofList (beaconFrame [0x41])) 0 79 :=
  reads_inside_iff ⟨beaconFrame [0x41], by decide⟩ 0 79 (by decide)

/-- A frame cut right after its radiotap header is decoded, and read past its end. -/
theorem reads_outside :
    ¬ ∀ (b : JByteArray) (o n : ℕ), o + n ≤ b.data.length →
      ∀ i ∈ consulted b.mem (buffToDot11Rt o n), o ≤ i ∧ i < o + n := by
  intro hall
  let b : JByteArray := ⟨radiotapHeader, by decide⟩
  have h50 : 50 ∈ consulted b.mem (buffToDot11Rt 0 (40 : ℕ)) := by decide
  have := hall b 0 40 (by rfl) 50 h50
  omega

end LocTag
