import LocTag.Radiotap.Iterator
import LocTag.Dot11.Bounds

/-!
# The radiotap overlay of the decoder

`buffToDot11Rt` reads the rate, the frequency, the signal and the noise of a frame through
`struct nexmon_radiotap_header`, at fixed offsets.  They are where the radiotap iterator finds them,
for every header with the present word the decoder asks for: the arguments of such a header are
`overlayArgs` (`iterRun_overlay`), whatever their bytes.
-/

namespace LocTag

open Lib Lib.Fetch

def IEEE80211_RADIOTAP_RATE : ℕ := 2
def IEEE80211_RADIOTAP_CHANNEL : ℕ := 3
def IEEE80211_RADIOTAP_DBM_ANTSIGNAL : ℕ := 5
def IEEE80211_RADIOTAP_DBM_ANTNOISE : ℕ := 6

/-! ### The arguments of the header -/

/-- The iterator between two arguments of the first present word, with `shifter` of it left. -/
def overlayIter (maxLength argIndex arg shifter thisArgIndex thisArg thisArgSize : ℕ) :
    RadiotapIter :=
  { maxLength, argIndex, arg, bitmapShifter := shifter, nextBitmap := 8, nextNsData := none,
    resetOnExt := false, currentNs := some .radiotap, isRadiotapNs := true, thisArg, thisArgIndex,
    thisArgSize }

/-- The iterator at the vendor namespace, whose data end at `data`. -/
def overlayEntered (maxLength data : ℕ) : RadiotapIter :=
  { maxLength, argIndex := 30, arg := 28, bitmapShifter := 1, nextBitmap := 8,
    nextNsData := some data, resetOnExt := false, currentNs := none, isRadiotapNs := true,
    thisArg := 24, thisArgIndex := 19, thisArgSize := 3 }

/-- The iterator behind a vendor namespace with `skip` bytes of data. -/
def overlayEnd (maxLength skip : ℕ) : RadiotapIter :=
  { maxLength, argIndex := 31, arg := 34 + skip, bitmapShifter := 0, nextBitmap := 8,
    nextNsData := some (34 + skip), resetOnExt := true, currentNs := none, isRadiotapNs := false,
    thisArg := 28, thisArgIndex := IEEE80211_RADIOTAP_VENDOR_NAMESPACE, thisArgSize := 6 + skip }

/-- Index, offset and size of the arguments: TSFT, flags, rate, channel, signal, noise, MCS and the
vendor namespace with its `skip` bytes. -/
def overlayArgs (skip : ℕ) : List (ℕ × ℕ × ℕ) :=
  [(0, 8, 8), (1, 16, 1), (2, 17, 1), (3, 18, 4), (5, 22, 1), (6, 23, 1), (19, 24, 3),
    (30, 28, 6 + skip)]

section Overlay

variable {m : Mem} {L : ℕ}

/-- An argument of the radiotap namespace behind `k` that are not present. -/
theorem returns_overlay {i arg shifter a b c k d size : ℕ} (hbits : shifter % 2 ^ k = 0)
    (hbit : shifter / 2 ^ k % 2 = 1) (hsize : rtapNamespaceSizes[i + k]? = some ⟨d + 1, size⟩)
    (halign : arg &&& d = 0) (hi : i + k < 29) :
    IterReturns m [] (overlayIter L i arg shifter a b c) (if arg + size ≤ L then
      .hit (overlayIter L (i + k + 1) (arg + size) (shifter / 2 ^ k / 2) (i + k) arg size)
      else .failed .einval) := by
  have hmod : (i + k) % 32 = i + k := Nat.mod_eq_of_lt (by omega)
  apply IterReturns.of_absent _ hbits (by show i % 32 + k ≤ 31; omega) rfl
  have hround : run m (nextRound [] (overlayIter L (i + k) arg (shifter / 2 ^ k) a b c)) =
      run m (takeArg (overlayIter L (i + k) arg (shifter / 2 ^ k) a b c) size) := by
    have h29 : i + k ≠ IEEE80211_RADIOTAP_RADIOTAP_NAMESPACE := by
      unfold IEEE80211_RADIOTAP_RADIOTAP_NAMESPACE
      omega
    have h30 : i + k ≠ IEEE80211_RADIOTAP_VENDOR_NAMESPACE := by
      unfold IEEE80211_RADIOTAP_VENDOR_NAMESPACE
      omega
    have h31 : i + k ≠ IEEE80211_RADIOTAP_EXT := by
      unfold IEEE80211_RADIOTAP_EXT
      omega
    have hsizes : argAlignSize (overlayIter L (i + k) arg (shifter / 2 ^ k) a b c) =
        some ⟨d + 1, size⟩ := by
      simp [argAlignSize, overlayIter, hmod, h29, h30, h31, CurrentNs.alignSize, hsize]
    simp only [nextRound, hsizes]
    simp [presentArg, overlayIter, hbit, hmod, h30, halign]
  have hret := IterReturns.of_takeArg hround (by show (i + k) % 32 < 29; omega)
  exact hret

/-- The vendor namespace, which the iterator does not know and returns raw. -/
theorem returns_vendor (hbytes : 34 ≤ L → ∀ i < 34, (m i).isSome) :
    IterReturns m [] (overlayIter L 20 27 0x400 19 24 3) (if 34 + m.le16At 32 ≤ L then
      .hit (overlayEnd L (m.le16At 32)) else .failed .einval) := by
  apply IterReturns.of_absent (overlayIter L 30 27 1 19 24 3) (k := 10)
    (by simp [overlayIter]) (by simp [overlayIter]) (by simp [overlayIter])
  -- the argument is aligned from 27 to 28
  have hround : run m (nextRound [] (overlayIter L 30 27 1 19 24 3)) =
      if 34 ≤ L then
        (run m (enterVendor [] (overlayIter L 30 28 1 19 24 3))).bind fun entered =>
          run m (takeArg entered.1 entered.2)
      else some (.failed .einval) := by
    have hpresent : nextRound [] (overlayIter L 30 27 1 19 24 3) =
        presentArg [] (overlayIter L 30 27 1 19 24 3) 2 6 := rfl
    rw [hpresent]
    by_cases h34 : 34 ≤ L
    · simp [presentArg, overlayIter, IEEE80211_RADIOTAP_VENDOR_NAMESPACE, h34, Nat.not_lt.2 h34]
    · simp [presentArg, overlayIter, IEEE80211_RADIOTAP_VENDOR_NAMESPACE, h34, Nat.not_le.1 h34]
  by_cases h34 : 34 ≤ L
  · have hP : ∀ i, i < 34 → (m i).isSome := hbytes h34
    have hreads : Reads m (enterVendor [] (overlayIter L 30 28 1 19 24 3)) (· < 34) := by
      simp [enterVendor, overlayIter, reads_bind hP, reads_le16 hP]
    have hval : value m (enterVendor [] (overlayIter L 30 28 1 19 24 3)) =
        (overlayEntered L (34 + m.le16At 32), 6 + m.le16At 32) := by
      simp [enterVendor, findNs, overlayIter, overlayEntered]
    rw [if_pos h34, run_value (hreads.imp hP), hval, Option.bind_some] at hround
    have harg : 28 + (6 + m.le16At 32) = 34 + m.le16At 32 := by ring
    split
    · rename_i hle
      apply IterReturns.of_hit
      rw [hround]
      simp [takeArg, overlayEntered, overlayEnd, harg, Nat.not_lt.2 hle, afterArg, nextEntry,
        IEEE80211_RADIOTAP_VENDOR_NAMESPACE]
    · rename_i hlt
      apply IterReturns.of_failed
      rw [hround]
      simp [takeArg, overlayEntered, harg, Nat.not_le.1 hlt]
  · rw [if_neg (by omega)]
    rw [if_neg h34] at hround
    exact .of_failed hround

theorem returns_end {skip : ℕ} : IterReturns m [] (overlayEnd L skip) (.failed .enoent) :=
  .of_failed rfl

/-- **The arguments of a header with the present word of the firmware.** -/
theorem iterRun_overlay (hbytes : 34 ≤ L → ∀ i < 34, (m i).isSome) {args : List (ℕ × ℕ × ℕ)} :
    IterRun m [] (overlayIter L 0 8 0x4008006f 0 8 0) args .enoent ↔
      34 + m.le16At 32 ≤ L ∧ args = overlayArgs (m.le16At 32) := by
  have htsft : IterReturns m [] (overlayIter L 0 8 0x4008006f 0 8 0) (if 16 ≤ L then
      .hit (overlayIter L 1 16 0x20040037 0 8 8) else .failed .einval) :=
    returns_overlay (i := 0) (k := 0) (d := 7) rfl rfl rfl rfl (by omega)
  have hflags : IterReturns m [] (overlayIter L 1 16 0x20040037 0 8 8) (if 17 ≤ L then
      .hit (overlayIter L 2 17 0x1002001b 1 16 1) else .failed .einval) :=
    returns_overlay (i := 1) (k := 0) (d := 0) rfl rfl rfl rfl (by omega)
  have hrate : IterReturns m [] (overlayIter L 2 17 0x1002001b 1 16 1) (if 18 ≤ L then
      .hit (overlayIter L 3 18 0x0801000d 2 17 1) else .failed .einval) :=
    returns_overlay (i := 2) (k := 0) (d := 0) rfl rfl rfl rfl (by omega)
  have hchannel : IterReturns m [] (overlayIter L 3 18 0x0801000d 2 17 1) (if 22 ≤ L then
      .hit (overlayIter L 4 22 0x04008006 3 18 4) else .failed .einval) :=
    returns_overlay (i := 3) (k := 0) (d := 1) rfl rfl rfl rfl (by omega)
  have hsignal : IterReturns m [] (overlayIter L 4 22 0x04008006 3 18 4) (if 23 ≤ L then
      .hit (overlayIter L 6 23 0x01002001 5 22 1) else .failed .einval) :=
    returns_overlay (i := 4) (k := 1) (d := 0) rfl rfl rfl rfl (by omega)
  have hnoise : IterReturns m [] (overlayIter L 6 23 0x01002001 5 22 1) (if 24 ≤ L then
      .hit (overlayIter L 7 24 0x00801000 6 23 1) else .failed .einval) :=
    returns_overlay (i := 6) (k := 0) (d := 0) rfl rfl rfl rfl (by omega)
  have hmcs : IterReturns m [] (overlayIter L 7 24 0x00801000 6 23 1) (if 27 ≤ L then
      .hit (overlayIter L 20 27 0x400 19 24 3) else .failed .einval) :=
    returns_overlay (i := 7) (k := 12) (d := 0) rfl rfl rfl rfl (by omega)
  simp only [IterRun.enoent_iff htsft, IterRun.enoent_iff hflags, IterRun.enoent_iff hrate,
    IterRun.enoent_iff hchannel, IterRun.enoent_iff hsignal, IterRun.enoent_iff hnoise,
    IterRun.enoent_iff hmcs, IterRun.enoent_iff (returns_vendor hbytes),
    IterRun.failed_iff returns_end]
  constructor
  · rintro ⟨-, _, rfl, -, _, rfl, -, _, rfl, -, _, rfl, -, _, rfl, -, _, rfl, -, _, rfl, hlen, _, rfl,
      rfl⟩
    exact ⟨hlen, rfl⟩
  · rintro ⟨hlen, rfl⟩
    exact ⟨by omega, _, rfl, by omega, _, rfl, by omega, _, rfl, by omega, _, rfl, by omega, _, rfl,
      by omega, _, rfl, by omega, _, rfl, hlen, _, rfl, rfl⟩

/-- The iterator `init` makes of such a header. -/
theorem iteratorInit_overlay {n : ℤ} {it : RadiotapIter}
    (h : run m (ieee80211RadiotapIteratorInit n) = some (.ok it))
    (hpresent : m.le32At 4 = 0x4008006f) :
    (m.le16At 2 : ℤ) ≤ n ∧ it = overlayIter (m.le16At 2) 0 8 0x4008006f 0 8 0 := by
  have hval := (run_eq_some_iff.1 h).2
  have hext : Nat.testBit 0x4008006f IEEE80211_RADIOTAP_EXT = false := rfl
  simp only [ieee80211RadiotapIteratorInit, iteratorStart, value_ite, value_bind, value_pure,
    value_u8, value_le16, value_le32, hpresent, hext, Bool.false_eq_true, if_false] at hval
  split_ifs at hval with h8 hversion hlen
  exact ⟨Int.not_lt.1 hlen, (Except.ok.inj hval).symm⟩

end Overlay

/-! ### The object -/

/-- The object has status 0 and carries what the iterator has located, and the type and the addresses
of the 802.11 header behind the radiotap header. -/
structure OverlayAgrees (m : Mem) (args : List (ℕ × ℕ × ℕ)) (obj : Dot11Rt) : Prop where
  status : obj.status = 0
  rate : ∃ p, args.filter (·.1 = IEEE80211_RADIOTAP_RATE) = [(IEEE80211_RADIOTAP_RATE, p, 1)] ∧
    obj.rate = (m.u8At p : ℚ) / 2
  cFreq : ∃ p, args.filter (·.1 = IEEE80211_RADIOTAP_CHANNEL) =
    [(IEEE80211_RADIOTAP_CHANNEL, p, 4)] ∧ obj.cFreq = m.le16At p
  rssi : ∃ p, args.filter (·.1 = IEEE80211_RADIOTAP_DBM_ANTSIGNAL) =
    [(IEEE80211_RADIOTAP_DBM_ANTSIGNAL, p, 1)] ∧ obj.rssi = toI8 ((m p).getD 0)
  noise : ∃ p, args.filter (·.1 = IEEE80211_RADIOTAP_DBM_ANTNOISE) =
    [(IEEE80211_RADIOTAP_DBM_ANTNOISE, p, 1)] ∧ obj.noise = toI8 ((m p).getD 0)
  type : obj.type = (m.u8At (m.le16At 2) / 4 % 4 : ℕ)
  subtype : obj.subtype = (m.u8At (m.le16At 2) / 16 : ℕ)
  rxMac : obj.rxMac = some (macStr (m.blockAt (m.le16At 2 + 4) 6))
  txMac : obj.txMac = some (macStr (m.blockAt (m.le16At 2 + 10) 6))

section Decoder

variable {b : JByteArray} {it : RadiotapIter} {args : List (ℕ × ℕ × ℕ)}

/-- The decoder reads inside a frame that has its radiotap header, 38 bytes after it and the text of
the SSID tag, and its object agrees with the iterator. -/
theorem overlay_decodes
    (hinit : run b.mem (ieee80211RadiotapIteratorInit b.data.length) = some (.ok it))
    (hpresent : b.mem.le32At 4 = 0x4008006f) (hrun : IterRun b.mem [] it args .enoent)
    (hlen : b.mem.le16At 2 + 38 + b.mem.u8At (b.mem.le16At 2 + 37) ≤ b.data.length) :
    Accepted b.mem 0 b.data.length ∧
      run b.mem (buffToDot11Rt 0 b.data.length) =
        some (value b.mem (buffToDot11Rt 0 b.data.length)) ∧
      OverlayAgrees b.mem args (value b.mem (buffToDot11Rt 0 b.data.length)).1 := by
  obtain ⟨-, rfl⟩ := iteratorInit_overlay hinit hpresent
  have hP : ∀ i, 0 ≤ i ∧ i < b.data.length → (b.mem i).isSome :=
    fun i hi => Mem.ofList_isSome.2 hi.2
  obtain ⟨h34, rfl⟩ := (iterRun_overlay fun h i hi => hP i ⟨by omega, by omega⟩).1 hrun
  have hn : toU32 b.data.length = b.data.length := toU32_natCast (by have := b.length_lt; omega)
  have hhdr : hdrAt b.mem 0 = b.mem.le16At 2 := Nat.zero_add _
  have hssid : ssidSetAt b.mem 0 = b.mem.le16At 2 + 36 := by
    rw [ssidSetAt, Nat.zero_add]
  have hacc : Accepted b.mem 0 b.data.length := by
    refine ⟨?_, hpresent⟩
    rw [hn, sizeofNexmonRadiotapHeader]
    omega
  have hinside : FrameInside b.mem 0 b.data.length := by
    rw [FrameInside, SsidInside, hhdr, hssid]
    refine ⟨by omega, ?_⟩
    intro _
    refine ⟨by omega, ?_⟩
    intro _
    exact ⟨by omega, .inl (by omega)⟩
  have hreads := (reads_buffToDot11Rt_iff (n := b.data.length) hP (by omega)).2
    ⟨by omega, fun _ => hinside⟩
  refine ⟨hacc, run_value (hreads.imp hP), ?_⟩
  rw [value_buffToDot11Rt hacc, hhdr]
  constructor
  case rate => exact ⟨17, rfl, rfl⟩
  case cFreq => exact ⟨18, rfl, rfl⟩
  case rssi => exact ⟨22, rfl, rfl⟩
  case noise => exact ⟨23, rfl, rfl⟩
  all_goals rfl

/-- **The overlay agrees with the iterator**, on every frame the iterator goes through without error
that is long enough for its SSID tag, iff `sprintf` does not overrun `buf`: the frame is not a beacon
whose SSID reaches 64 bytes. -/
theorem overlay_agrees_iff
    (hinit : run b.mem (ieee80211RadiotapIteratorInit b.data.length) = some (.ok it))
    (hpresent : b.mem.le32At 4 = 0x4008006f) (hrun : IterRun b.mem [] it args .enoent)
    (hlen : b.mem.le16At 2 + 38 + b.mem.u8At (b.mem.le16At 2 + 37) ≤ b.data.length) :
    (∃ r, run b.mem (buffToDot11Rt 0 b.data.length) = some r ∧
      (∀ s ∈ r.2, s.length + 1 ≤ 64) ∧ OverlayAgrees b.mem args r.1) ↔
    ¬ (IsBeacon b.mem 0 ∧ HasSsid b.mem 0 ∧ SsidReaches b.mem 0 64) := by
  obtain ⟨hacc, hvalue, hagrees⟩ := overlay_decodes hinit hpresent hrun hlen
  have hfits := printed_fits_iff (m := b.mem) (o := 0) (n := b.data.length)
  constructor
  · rintro ⟨r, hr, hfit, -⟩ hov
    rw [hvalue] at hr
    cases hr
    exact hfits.1 hfit ⟨hacc, hov⟩
  · intro h
    exact ⟨_, hvalue, hfits.2 fun hov => h hov.2, hagrees⟩

end Decoder

/-- An ordinary beacon. -/
theorem overlay_agrees_beacon :
    (∃ r, run (Mem.ofList (beaconFrame [0x41])) (buffToDot11Rt 0 79) = some r ∧
      (∀ s ∈ r.2, s.length + 1 ≤ 64) ∧
      OverlayAgrees (Mem.ofList (beaconFrame [0x41])) (overlayArgs 0) r.1) ↔
    ¬ (IsBeacon (Mem.ofList (beaconFrame [0x41])) 0 ∧
      HasSsid (Mem.ofList (beaconFrame [0x41])) 0 ∧
      SsidReaches (Mem.ofList (beaconFrame [0x41])) 0 64) := by
  have hbytes : 34 ≤ 40 → ∀ i < 34, (Mem.ofList (beaconFrame [0x41]) i).isSome :=
    fun _ i hi => Mem.ofList_isSome.2 (hi.trans (by decide))
  have hinit : run (Mem.ofList (beaconFrame [0x41])) (ieee80211RadiotapIteratorInit 79) =
      some (.ok (overlayIter 40 0 8 0x4008006f 0 8 0)) := rfl
  exact overlay_agrees_iff (b := ⟨beaconFrame [0x41], by decide⟩) hinit (by decide)
    ((iterRun_overlay hbytes).2 ⟨by decide, rfl⟩) (by decide)

/-- A beacon whose SSID has 64 bytes: the iterator goes through, and `sprintf` overruns `buf`. -/
theorem overlay_overruns :
    ¬ ∀ (b : JByteArray) (it : RadiotapIter) (args : List (ℕ × ℕ × ℕ)),
      run b.mem (ieee80211RadiotapIteratorInit b.data.length) = some (.ok it) →
      b.mem.le32At 4 = 0x4008006f → IterRun b.mem [] it args .enoent →
      b.mem.le16At 2 + 38 + b.mem.u8At (b.mem.le16At 2 + 37) ≤ b.data.length →
      ∃ r, run b.mem (buffToDot11Rt 0 b.data.length) = some r ∧
        (∀ s ∈ r.2, s.length + 1 ≤ 64) ∧ OverlayAgrees b.mem args r.1 := by
  intro hall
  let b : JByteArray := ⟨beaconFrame (List.replicate 64 0x41), by decide +kernel⟩
  have hbytes : 34 ≤ 40 → ∀ i < 34, (b.mem i).isSome :=
    fun _ i hi => Mem.ofList_isSome.2 (hi.trans (by decide +kernel))
  obtain ⟨r, hr, hfit, -⟩ := hall b (overlayIter 40 0 8 0x4008006f 0 8 0) (overlayArgs 0)
    (by decide +kernel) (by decide +kernel)
    ((iterRun_overlay hbytes).2 ⟨by decide +kernel, by decide +kernel⟩) (by decide +kernel)
  have hprinted : (run b.mem (buffToDot11Rt 0 b.data.length)).map
      (fun r => r.2.map List.length) = some [17, 17, 64] := by decide +kernel
  rw [hr, Option.map_some, Option.some.injEq] at hprinted
  obtain ⟨s, hs, h64⟩ := List.mem_map.1 (show 64 ∈ r.2.map List.length by rw [hprinted]; decide)
  have := hfit s hs
  omega

end LocTag
