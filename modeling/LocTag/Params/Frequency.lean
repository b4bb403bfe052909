import LocTag.Java

/-!
# Channels and frequencies

The conversions of `bcmwifi_channels.c` (`wf_mhz2channel`, `wf_channel2mhz` and the table lookups
`wf_freq2channel`, `wf_channel2freq`) and those of `CsiUtils.java`.  `-1` is the failure of the first
two, `0` that of the others.  `wfMhz2channel_eq_iff` says that the two arithmetic conversions of the C
code are inverse to each other, and the other four are compared with them.
-/

namespace LocTag

open Lib

def WF_CHAN_FACTOR_2_4_G : ℕ := 4814
def WF_CHAN_FACTOR_5_G : ℕ := 10000

/-- The start factor taken for a frequency if none is given. -/
def startFactorOf (freq startFactor : ℕ) : ℕ :=
  if startFactor = 0 then
    if 2400 ≤ freq ∧ freq ≤ 2500 then WF_CHAN_FACTOR_2_4_G
    else if 5000 ≤ freq ∧ freq ≤ 6000 then WF_CHAN_FACTOR_5_G
    else 0
  else startFactor

/-- `wf_mhz2channel` -/
def wfMhz2channel (freq startFactor : ℕ) : ℤ :=
  let startFactor := startFactorOf freq startFactor
  if freq = 2484 ∧ startFactor = WF_CHAN_FACTOR_2_4_G then 14
  else
    let base := startFactor / 2
    if freq < base ∨ freq > base + 1000 then -1
    else
      let offset := freq - base
      let ch := offset / 5
      if offset ≠ ch * 5 then -1
      else if startFactor = WF_CHAN_FACTOR_2_4_G ∧ (ch < 1 ∨ ch > 13) then -1
      else ch

/-- `wf_channel2mhz`; the sum is unsigned and returned as an `int`. -/
def wfChannel2mhz (ch startFactor : ℕ) : ℤ :=
  if (startFactor = WF_CHAN_FACTOR_2_4_G ∧ (ch < 1 ∨ ch > 14)) ∨ ch > 200 then -1
  else if startFactor = WF_CHAN_FACTOR_2_4_G ∧ ch = 14 then 2484
  else toI32 (ch * 5 + startFactor / 2)

/-- `chan_info`, without `BAND5G` -/
def chanInfo : List (ℕ × ℕ) :=
  [(1, 2412), (2, 2417), (3, 2422), (4, 2427), (5, 2432), (6, 2437), (7, 2442), (8, 2447),
    (9, 2452), (10, 2457), (11, 2462), (12, 2467), (13, 2472), (14, 2484)]

/-- `wf_freq2channel` -/
def wfFreq2channel (freq : ℕ) : ℕ := ((chanInfo.find? fun i => i.2 = freq).map (·.1)).getD 0

/-- `wf_channel2freq` -/
def wfChannel2freq (channel : ℕ) : ℕ := ((chanInfo.find? fun i => i.1 = channel).map (·.2)).getD 0

/-- `CsiUtils.chan2freq` -/
def chan2freq (chan : ℤ) : ℤ :=
  if 1 ≤ chan ∧ chan ≤ 13 then jint (2407 + jint (chan * 5))
  else if 34 ≤ chan ∧ chan ≤ 165 then jint (5000 + jint (chan * 5))
  else 0

/-- `CsiUtils.freq2chan` -/
def freq2chan (freq : ℤ) : ℤ :=
  if 2412 ≤ freq ∧ freq ≤ 2472 then Int.tdiv (jint (freq - 2407)) 5
  else if 5170 ≤ freq ∧ freq ≤ 5825 then Int.tdiv (jint (freq - 5000)) 5
  else 0

theorem toU32_toI32 {n : ℕ} (h : n < 4294967295) : toI32 n ≠ -1 ∧ toU32 (toI32 n) = n := by
  unfold toI32 toU32
  split <;> omega

/-- `wf_channel2mhz` succeeds with a frequency, taken for unsigned again. -/
theorem wfChannel2mhz_eq_iff {ch sf freq : ℕ} (hsf : sf < 4294967296) :
    wfChannel2mhz ch sf ≠ -1 ∧ toU32 (wfChannel2mhz ch sf) = freq ↔
      ch ≤ 200 ∧ (sf = 4814 → 1 ≤ ch ∧ ch ≤ 14) ∧
        freq = if sf = 4814 ∧ ch = 14 then 2484 else ch * 5 + sf / 2 := by
  unfold wfChannel2mhz WF_CHAN_FACTOR_2_4_G
  by_cases hfail : (sf = 4814 ∧ (ch < 1 ∨ ch > 14)) ∨ ch > 200
  · rw [if_pos hfail]
    refine iff_of_false (fun h => h.1 rfl) ?_
    rintro ⟨h200, h2g, -⟩
    omega
  · have hwrap : toI32 (ch * 5 + sf / 2) ≠ -1 ∧
        toU32 (toI32 (ch * 5 + sf / 2)) = ch * 5 + sf / 2 := toU32_toI32 (by omega)
    rw [if_neg hfail]
    split_ifs with h14
    · have h2484 : toU32 2484 = 2484 := rfl
      rw [h2484]
      omega
    · rw [hwrap.2, and_iff_right hwrap.1]
      omega

/-- **A frequency is that of a channel iff the channel is that of the frequency**, for every start
factor; the factor `0` stands for the one of the band the frequency is in. -/
theorem wfMhz2channel_eq_iff {freq sf : ℕ} (hsf : sf < 4294967296) (ch : ℕ) :
    wfMhz2channel freq sf = ch ↔
      wfChannel2mhz ch (startFactorOf freq sf) ≠ -1 ∧
        toU32 (wfChannel2mhz ch (startFactorOf freq sf)) = freq := by
  have hlt : startFactorOf freq sf < 4294967296 := by
    unfold startFactorOf WF_CHAN_FACTOR_2_4_G WF_CHAN_FACTOR_5_G
    split_ifs <;> omega
  rw [wfChannel2mhz_eq_iff hlt, wfMhz2channel]
  generalize startFactorOf freq sf = s
  simp only [WF_CHAN_FACTOR_2_4_G]
  by_cases hs : s = 4814
  · subst hs
    simp only [true_and, and_true, true_imp_iff]
    split_ifs <;> constructor <;> intro h <;> first | exact False.elim h | omega
  · simp only [hs, false_and, and_false, if_false, false_imp_iff, true_and]
    split_ifs <;> constructor <;> intro h <;> first | exact False.elim h | omega

/-- 36 at 5180 MHz -/
theorem wfMhz2channel_eq_iff_36 : wfMhz2channel 5180 0 = (36 : ℕ) ↔
    wfChannel2mhz 36 (startFactorOf 5180 0) ≠ -1 ∧
      toU32 (wfChannel2mhz 36 (startFactorOf 5180 0)) = 5180 :=
  wfMhz2channel_eq_iff (by decide) 36

/-- **The table is the arithmetic conversion of the 2.4 GHz band**, with `0` for a failure. -/
theorem table_agrees (freq ch : ℕ) :
    (wfFreq2channel freq : ℤ) = max 0 (wfMhz2channel freq WF_CHAN_FACTOR_2_4_G) ∧
      (wfChannel2freq ch : ℤ) = max 0 (wfChannel2mhz ch WF_CHAN_FACTOR_2_4_G) := by
  have hrange : ∀ i ∈ chanInfo, (1 ≤ i.1 ∧ i.1 ≤ 14) ∧ 2412 ≤ i.2 ∧ i.2 ≤ 2484 := by decide
  constructor
  · by_cases hfreq : 2412 ≤ freq ∧ freq ≤ 2484
    · obtain ⟨hlow, hhigh⟩ := hfreq
      interval_cases freq <;> rfl
    · have hnone : chanInfo.find? (fun i => i.2 = freq) = none := by
        simp only [List.find?_eq_none, decide_eq_true_eq]
        rintro i hi rfl
        exact hfreq (hrange i hi).2
      have hfail : wfMhz2channel freq WF_CHAN_FACTOR_2_4_G = -1 := by
        simp only [wfMhz2channel, startFactorOf, WF_CHAN_FACTOR_2_4_G]
        split_ifs <;> omega
      rw [wfFreq2channel, hnone, hfail]
      rfl
  · by_cases hch : 1 ≤ ch ∧ ch ≤ 14
    · obtain ⟨hlow, hhigh⟩ := hch
      interval_cases ch <;> rfl
    · have hnone : chanInfo.find? (fun i => i.1 = ch) = none := by
        simp only [List.find?_eq_none, decide_eq_true_eq]
        rintro i hi rfl
        exact hch (hrange i hi).1
      have hfail : wfChannel2mhz ch WF_CHAN_FACTOR_2_4_G = -1 := by
        rw [wfChannel2mhz, if_pos (.inl ⟨rfl, by omega⟩)]
      rw [wfChannel2freq, hnone, hfail]
      rfl

/-- Neither conversion of the app overflows. -/
theorem chan2freq_eq (ch : ℤ) : chan2freq ch =
    if 1 ≤ ch ∧ ch ≤ 13 then 2407 + ch * 5 else if 34 ≤ ch ∧ ch ≤ 165 then 5000 + ch * 5 else 0 := by
  unfold chan2freq
  simp only [jint_eq]
  split_ifs <;> omega

theorem freq2chan_eq (freq : ℤ) : freq2chan freq =
    if 2412 ≤ freq ∧ freq ≤ 2472 then (freq - 2407) / 5
    else if 5170 ≤ freq ∧ freq ≤ 5825 then (freq - 5000) / 5 else 0 := by
  have hdiv : ∀ x : ℤ, 0 ≤ x → x < 2147483648 → Int.tdiv (jint x) 5 = x / 5 := by
    intro x h0 hlt
    rw [jint_eq_self_iff.2 ⟨by omega, hlt⟩, Int.tdiv_eq_ediv_of_nonneg h0]
  unfold freq2chan
  split_ifs
  · exact hdiv _ (by omega) (by omega)
  · exact hdiv _ (by omega) (by omega)
  · rfl

/-- **The conversions of the app are the arithmetic ones**, `chan2freq` on the channels 1 to 13 and
34 to 165; `freq2chan` takes a frequency between two channels for the lower one. -/
theorem chan2freq_agrees :
    (∀ ch : ℤ, chan2freq ch ≠ 0 → freq2chan (chan2freq ch) = ch ∧
      chan2freq ch = wfChannel2mhz ch.toNat
        (if ch ≤ 13 then WF_CHAN_FACTOR_2_4_G else WF_CHAN_FACTOR_5_G)) ∧
    ∀ freq : ℤ, freq2chan freq ≠ 0 →
      chan2freq (freq2chan freq) ≤ freq ∧ freq < chan2freq (freq2chan freq) + 5 := by
  constructor
  · intro ch hch
    rw [freq2chan_eq, chan2freq_eq, wfChannel2mhz, toI32, WF_CHAN_FACTOR_2_4_G, WF_CHAN_FACTOR_5_G]
    rw [chan2freq_eq] at hch
    constructor
    · split_ifs at hch ⊢ <;> omega
    · split_ifs at hch ⊢ <;> omega
  · intro freq hfreq
    rw [chan2freq_eq, freq2chan_eq]
    rw [freq2chan_eq] at hfreq
    split_ifs at hfreq ⊢ <;> omega

end LocTag
