import LocTag.Params.Chanspec

/-!
# Printing chanspecs

The rest of `bcmwifi_channels.c`: `wf_chspec_ntoa`, the printer whose texts `wf_chspec_aton` reads,
and the functions that take a chanspec apart (`wf_chspec_valid`, `wf_chspec_ctlchan`,
`wf_chspec_ctlchspec`, `wf_chspec_primary40_chspec`) or put one together (`wf_channel2chspec`).

A chanspec is the disjunction of its four fields (`chspec_eq`), so two of them are equal iff their
fields are.  A printed text is a band, a channel and a suffix; `readHead` gives the three back
(`readHead_print`), but the band is printed by the center channel and read by the control channel.
`PrintsBack` says for which chanspecs that and the center are recovered.
-/

namespace LocTag

open Lib

def CH_80MHZ_APART : ℕ := 16
def CH_20MHZ_APART : ℕ := 4
def CHANSPEC_STR_LEN : ℕ := 20
def WL_CHANSPEC_CTL_SB_LUL : ℕ := 0x0200

/-- `wf_chspec_bw_str` -/
def wfChspecBwStr : List String := ["5", "10", "20", "40", "80", "160", "80+80", "na"]

def wfChspecBwMhz : List ℕ := [5, 10, 20, 40, 80, 160, 160]

/-! ### Fields -/

/-- `CHSPEC_CHANNEL` -/
def chspecChannel (chspec : ℕ) : ℕ := chspec &&& 0x00ff

/-- `CHSPEC_BAND` -/
def chspecBand (chspec : ℕ) : ℕ := chspec &&& 0xc000

/-- `CHSPEC_BW` -/
def chspecBw (chspec : ℕ) : ℕ := chspec &&& 0x3800

/-- `CHSPEC_CTL_SB` -/
def chspecCtlSb (chspec : ℕ) : ℕ := chspec &&& 0x0700

/-- A chanspec is made of its fields. -/
theorem chspec_eq {c : ℕ} (hc : c < 65536) :
    chspecChannel c ||| chspecBand c ||| chspecBw c ||| chspecCtlSb c = c := by
  simp only [chspecChannel, chspecBand, chspecBw, chspecCtlSb, ← Nat.and_or_distrib_left]
  exact (Nat.and_two_pow_sub_one_eq_mod c 16).trans (Nat.mod_eq_of_lt hc)

section Fields

variable {ch band bw sb : ℕ} (hch : ch &&& 0x00ff = ch) (hband : band &&& 0xc000 = band)
  (hbw : bw &&& 0x3800 = bw) (hsb : sb &&& 0x0700 = sb)

include hch hband hbw hsb

/-- The fields of a chanspec that is put together. -/
theorem fields_or : chspecChannel (ch ||| band ||| bw ||| sb) = ch ∧
    chspecBand (ch ||| band ||| bw ||| sb) = band ∧ chspecBw (ch ||| band ||| bw ||| sb) = bw ∧
    chspecCtlSb (ch ||| band ||| bw ||| sb) = sb := by
  rw [← hch, ← hband, ← hbw, ← hsb]
  simp [chspecChannel, chspecBand, chspecBw, chspecCtlSb, Nat.and_or_distrib_right, Nat.and_assoc]

theorem or_lt : ch ||| band ||| bw ||| sb < 65536 := by
  have hlt : ∀ {x m : ℕ}, x &&& m = x → m < 65536 → x < 2 ^ 16 := fun h hm =>
    h ▸ Nat.and_le_right.trans_lt hm
  have hch := hlt hch (by omega)
  have hband := hlt hband (by omega)
  have hbw := hlt hbw (by omega)
  have hsb := hlt hsb (by omega)
  exact Nat.or_lt_two_pow (Nat.or_lt_two_pow (Nat.or_lt_two_pow hch hband) hbw) hsb

/-- A chanspec is put together from its fields only. -/
theorem or_eq_iff {c : ℕ} (hc : c < 65536) : (ch ||| band ||| bw ||| sb) % 65536 = c ↔
    ch = chspecChannel c ∧ band = chspecBand c ∧ bw = chspecBw c ∧ sb = chspecCtlSb c := by
  rw [Nat.mod_eq_of_lt (or_lt hch hband hbw hsb)]
  constructor
  · rintro rfl
    obtain ⟨h1, h2, h3, h4⟩ := fields_or hch hband hbw hsb
    exact ⟨h1.symm, h2.symm, h3.symm, h4.symm⟩
  · rintro ⟨rfl, rfl, rfl, rfl⟩
    exact chspec_eq hc

end Fields

/-! ### Control channels -/

/-- `bw_chspec_to_mhz` -/
def bwChspecToMhz (chspec : ℕ) : ℕ := wfChspecBwMhz.getD (chspecBw chspec >>> 11) 0

/-- `center_chan_to_edge` of any `uint`: below 20 the subtraction wraps. -/
def centerChanToEdgeU (bw : ℕ) : ℕ := toU32 ((bw : ℤ) - 20) / 2 / 5 % 256

/-- `channel_to_ctl_chan` -/
def channelToCtlChan (centerCh bw sb : ℕ) : ℕ :=
  (toU32 ((centerCh : ℤ) - centerChanToEdgeU bw) % 256 + sb * 4) % 256

/-- `wf_chspec_ctlchan`; the channels of an 80+80 chanspec are indices, and one of the second is read
past the end of `wf_5g_80m_chans` (`none`). -/
def wfChspecCtlchan (chspec : ℕ) : Option ℕ :=
  if chspecBw chspec = WL_CHANSPEC_BW_20 then some (chspecChannel chspec)
  else
    let sb := chspecCtlSb chspec >>> 8
    if chspecBw chspec = WL_CHANSPEC_BW_8080 then
      if sb < 4 then wf5g80mChans[chspec &&& 0x000f]?.map (channelToCtlChan · 80 sb)
      else wf5g80mChans[chspec &&& 0x00f0]?.map (channelToCtlChan · 80 (sb - 4))
    else some (channelToCtlChan (chspecChannel chspec) (bwChspecToMhz chspec) sb)

/-- `wf_chspec_ctlchspec` -/
def wfChspecCtlchspec (chspec : ℕ) : Option ℕ :=
  if chspecBw chspec = WL_CHANSPEC_BW_20 then some chspec
  else (wfChspecCtlchan chspec).map fun ctlChan =>
    ctlChan ||| WL_CHANSPEC_BW_20 ||| chspecBand chspec

/-- `wf_chspec_primary40_chspec` -/
def wfChspecPrimary40Chspec (chspec : ℕ) : ℕ :=
  if chspecBw chspec = WL_CHANSPEC_BW_80 then
    let centerChan := chspecChannel chspec
    let sb := chspecCtlSb chspec
    let part : ℕ × ℤ :=
      if sb = WL_CHANSPEC_CTL_SB_LUL then (WL_CHANSPEC_CTL_SB_LLL, centerChan + CH_20MHZ_APART)
      else if sb = WL_CHANSPEC_CTL_SB_LUU then (WL_CHANSPEC_CTL_SB_LLU, centerChan + CH_20MHZ_APART)
      else (sb, centerChan - CH_20MHZ_APART)
    (WL_CHANSPEC_BAND_5G ||| WL_CHANSPEC_BW_40 ||| part.1 ||| toU32 part.2) % 65536
  else chspec

/-- The band of a channel where none is given. -/
def defaultBand (ch : ℕ) : ℕ :=
  if ch ≤ CH_MAX_2G_CHANNEL then WL_CHANSPEC_BAND_2G else WL_CHANSPEC_BAND_5G

/-- `wf_channel2chspec` -/
def wfChannel2chspec (ctlCh bw : ℕ) : ℕ :=
  let chspec := (defaultBand ctlCh ||| bw) % 65536
  let wide (center : Option (ℕ × ℕ)) := match center with
    | none => 0
    | some (ch, sb) => (chspec ||| ch ||| sb) % 65536
  if bw = WL_CHANSPEC_BW_40 then wide (findCenter wf5g40mChans ctlCh 40)
  else if bw = WL_CHANSPEC_BW_80 then wide (findCenter wf5g80mChans ctlCh 80)
  else if bw = WL_CHANSPEC_BW_160 then wide (findCenter wf5g160mChans ctlCh 160)
  else if bw = WL_CHANSPEC_BW_20 then (chspec ||| ctlCh) % 65536
  else 0

/-- `wf_chspec_valid` -/
def wfChspecValid (chspec : ℕ) : Bool :=
  let bw := chspecBw chspec
  let ch := chspecChannel chspec
  if wfChspecMalformed chspec then false
  else if chspecBand chspec = WL_CHANSPEC_BAND_2G then
    if bw = WL_CHANSPEC_BW_20 then decide (1 ≤ ch ∧ ch ≤ 14)
    else if bw = WL_CHANSPEC_BW_40 then decide (3 ≤ ch ∧ ch ≤ 11)
    else false
  else if chspecBand chspec = WL_CHANSPEC_BAND_5G then
    if bw = WL_CHANSPEC_BW_8080 then
      match wf5g80mChans[chspec &&& 0x000f]?, wf5g80mChans[chspec &&& 0x00f0]? with
      | some ch1, some ch2 => decide (ch2 > ch1 + CH_80MHZ_APART)
      | _, _ => false
    else if bw = WL_CHANSPEC_BW_20 then
      -- the 20 MHz channels are the sides of the 40 MHz ones, 165 and the ones of Japan
      wf5g40mChans.any (fun c => ch == lower20Sb c || ch == upper20Sb c) ||
        ch == 165 || ch == 34 || ch == 38 || ch == 42 || ch == 46
    else if bw = WL_CHANSPEC_BW_40 then wf5g40mChans.contains ch
    else if bw = WL_CHANSPEC_BW_80 then wf5g80mChans.contains ch
    else if bw = WL_CHANSPEC_BW_160 then wf5g160mChans.contains ch
    else false
  else false

/-! ### The printer -/

/-- The band at the head of a text, where it is not the default of the center channel. -/
def bandText (chspec : ℕ) : List Char :=
  if chspecBand chspec = WL_CHANSPEC_BAND_2G ∧ chspecChannel chspec > CH_MAX_2G_CHANNEL then
    "2g".toList
  else if chspecBand chspec = WL_CHANSPEC_BAND_5G ∧ chspecChannel chspec ≤ CH_MAX_2G_CHANNEL then
    "5g".toList
  else []

/-- The text of a chanspec before `snprintf` cuts it. -/
def chspecText (chspec ctlChan : ℕ) : List Char :=
  if chspecBw chspec = WL_CHANSPEC_BW_20 then bandText chspec ++ decimal ctlChan
  else if chspecBw chspec ≠ WL_CHANSPEC_BW_8080 then
    if chspecBw chspec = WL_CHANSPEC_BW_40 then
      bandText chspec ++ decimal ctlChan ++
        (if chspecCtlSb chspec = WL_CHANSPEC_CTL_SB_LLU then ['u'] else ['l'])
    else bandText chspec ++ decimal ctlChan ++ '/' ::
      (wfChspecBwStr.getD (chspecBw chspec >>> 11) "").toList
  else
    let chan1 := wf5g80mChans.getD (chspec &&& 0x000f) 0
    let chan2 := wf5g80mChans.getD ((chspec &&& 0x00f0) >>> 4) 0
    decimal ctlChan ++ "/80+80/".toList ++ decimal chan1 ++ '-' :: decimal chan2

/-- `wf_chspec_ntoa` -/
def wfChspecNtoa (chspec : ℕ) : Option (List Char) :=
  (wfChspecCtlchan chspec).map fun ctlChan =>
    (chspecText chspec ctlChan).take (CHANSPEC_STR_LEN - 1)

/-! ### Chanspecs that are not malformed -/

/-- What `wf_chspec_malformed` leaves. -/
structure ChspecOk (c : ℕ) : Prop where
  band : chspecBand c = WL_CHANSPEC_BAND_2G ∨ chspecBand c = WL_CHANSPEC_BAND_5G
  bw2g : chspecBand c = WL_CHANSPEC_BAND_2G →
    chspecBw c = WL_CHANSPEC_BW_20 ∨ chspecBw c = WL_CHANSPEC_BW_40
  bw : chspecBw c ∈ [WL_CHANSPEC_BW_20, WL_CHANSPEC_BW_40, WL_CHANSPEC_BW_80, WL_CHANSPEC_BW_160]
  channel : chspecBand c = WL_CHANSPEC_BAND_5G → chspecChannel c ≤ MAXCHANNEL
  sb20 : chspecBw c = WL_CHANSPEC_BW_20 → chspecCtlSb c = WL_CHANSPEC_CTL_SB_LLL
  sb40 : chspecBw c = WL_CHANSPEC_BW_40 → chspecCtlSb c ≤ WL_CHANSPEC_CTL_SB_LLU
  sb80 : chspecBw c = WL_CHANSPEC_BW_80 → chspecCtlSb c ≤ WL_CHANSPEC_CTL_SB_LUU

/-- The second channel of an 80+80 chanspec is a multiple of 16, so it is `0` or too large. -/
theorem plus80_malformed (c : ℕ) : c &&& 0x000f ≥ wf5g80mChans.length ∨
    c &&& 0x00f0 ≥ wf5g80mChans.length ∨ c &&& 0x00f0 ≤ c &&& 0x000f := by
  have hdvd : (c &&& 0x00f0) % 16 = 0 := by
    rw [show 16 = 2 ^ 4 from rfl, ← Nat.and_two_pow_sub_one_eq_mod, Nat.and_assoc]
    exact Nat.and_zero c
  by_cases h : (c &&& 0x00f0) = 0
  · exact .inr (.inr (by omega))
  · refine .inr (.inl ?_)
    show 6 ≤ c &&& 0x00f0
    omega

theorem ChspecOk.of_not_malformed {c : ℕ} (h : wfChspecMalformed c = false) : ChspecOk c := by
  obtain ⟨hch, hsb⟩ := Bool.or_eq_false_iff.1 h
  change (if chspecBand c = WL_CHANSPEC_BAND_2G then
      chspecBw c != WL_CHANSPEC_BW_20 && chspecBw c != WL_CHANSPEC_BW_40
    else if chspecBand c = WL_CHANSPEC_BAND_5G then
      if chspecBw c = WL_CHANSPEC_BW_8080 then _
      else if chspecBw c = WL_CHANSPEC_BW_20 ∨ chspecBw c = WL_CHANSPEC_BW_40 ∨
        chspecBw c = WL_CHANSPEC_BW_80 ∨ chspecBw c = WL_CHANSPEC_BW_160 then
        decide (chspecChannel c > MAXCHANNEL) else true
    else true) = false at hch
  change (if chspecBw c = WL_CHANSPEC_BW_20 then decide (chspecCtlSb c ≠ WL_CHANSPEC_CTL_SB_LLL)
    else if chspecBw c = WL_CHANSPEC_BW_40 then decide (chspecCtlSb c > WL_CHANSPEC_CTL_SB_LLU)
    else if chspecBw c = WL_CHANSPEC_BW_80 then decide (chspecCtlSb c > WL_CHANSPEC_CTL_SB_LUU)
    else false) = false at hsb
  have hbands : chspecBand c = WL_CHANSPEC_BAND_2G ∧
        (chspecBw c = WL_CHANSPEC_BW_20 ∨ chspecBw c = WL_CHANSPEC_BW_40) ∨
      chspecBand c = WL_CHANSPEC_BAND_5G ∧ chspecChannel c ≤ MAXCHANNEL ∧
        (chspecBw c = WL_CHANSPEC_BW_20 ∨ chspecBw c = WL_CHANSPEC_BW_40 ∨
          chspecBw c = WL_CHANSPEC_BW_80 ∨ chspecBw c = WL_CHANSPEC_BW_160) := by
    split_ifs at hch with h2 h5 h8080 hbw
    · refine .inl ⟨h2, ?_⟩
      simpa [or_iff_not_imp_left] using hch
    · exact absurd (decide_eq_false_iff_not.1 hch) (not_not.2 (plus80_malformed c))
    · exact .inr ⟨h5, by simpa using hch, hbw⟩
  have hsb20 : chspecBw c = WL_CHANSPEC_BW_20 → chspecCtlSb c = WL_CHANSPEC_CTL_SB_LLL := by
    intro hbw
    simpa [hbw] using hsb
  have hsb40 : chspecBw c = WL_CHANSPEC_BW_40 → chspecCtlSb c ≤ WL_CHANSPEC_CTL_SB_LLU := by
    intro hbw
    simpa [hbw, show WL_CHANSPEC_BW_40 ≠ WL_CHANSPEC_BW_20 by decide] using hsb
  have hsb80 : chspecBw c = WL_CHANSPEC_BW_80 → chspecCtlSb c ≤ WL_CHANSPEC_CTL_SB_LUU := by
    intro hbw
    simpa [hbw, show WL_CHANSPEC_BW_80 ≠ WL_CHANSPEC_BW_20 by decide,
      show WL_CHANSPEC_BW_80 ≠ WL_CHANSPEC_BW_40 by decide] using hsb
  rcases hbands with ⟨h2, hbw⟩ | ⟨h5, hle, hbw⟩
  · have hne : chspecBand c ≠ WL_CHANSPEC_BAND_5G := h2 ▸ by decide
    exact ⟨.inl h2, fun _ => hbw, by rcases hbw with h | h <;> simp [h], fun h => absurd h hne,
      hsb20, hsb40, hsb80⟩
  · have hne : chspecBand c ≠ WL_CHANSPEC_BAND_2G := h5 ▸ by decide
    exact ⟨.inr h5, fun h => absurd h hne, by simpa using hbw, fun _ => hle, hsb20, hsb40, hsb80⟩

/-! ### Reading a text that was printed -/

/-- The band that is read from the text of a chanspec with the control channel `ctl`. -/
def readBand (chspec ctl : ℕ) : ℕ :=
  if chspecBand chspec = defaultBand (chspecChannel chspec) then defaultBand ctl
  else chspecBand chspec

/-- What may follow the channel of a text. -/
def IsSuffix (s : List Char) : Prop :=
  (∀ x ∈ s.head?, digitIn 10 x = none) ∧ lowerHead s ≠ some 'g'

theorem isSuffix_nil : IsSuffix [] := by
  refine ⟨fun x hx => ?_, fun h => ?_⟩
  · cases hx
  · cases h

theorem isSuffix_cons {x : Char} (hx : digitIn 10 x = none) (hg : x.toLower ≠ 'g') (s : List Char) :
    IsSuffix (x :: s) := by
  refine ⟨?_, fun h => hg (Option.some.inj h)⟩
  rintro y ⟨⟩
  exact hx

theorem isSuffix_slash (s : List Char) : IsSuffix ('/' :: s) := isSuffix_cons rfl (by decide) s

theorem readUint_decimal {n : ℕ} (h : n < 4294967296) {s : List Char}
    (hs : ∀ x ∈ s.head?, digitIn 10 x = none) : readUint (decimal n ++ s) = some (n, s) :=
  strtoul_toDigits_append h hs

/-- A channel without a band. -/
theorem readChannel_decimal {ctl : ℕ} (h : ctl < 4294967296) {s : List Char} (hs : IsSuffix s) :
    readChannel (decimal ctl ++ s) = some (defaultBand ctl, ctl, s) := by
  rw [readChannel, readUint_decimal h hs.1]
  show (if lowerHead s = some 'g' then _ else _) = _
  rw [if_neg hs.2]
  rfl

/-- A channel with a band. -/
theorem readChannel_band_decimal {num band ctl : ℕ} (h : ctl < 4294967296) {s : List Char}
    (hs : IsSuffix s) (hnum : num = 2 ∧ band = WL_CHANSPEC_BAND_2G ∨
      num = 5 ∧ band = WL_CHANSPEC_BAND_5G) :
    readChannel (decimal num ++ 'g' :: (decimal ctl ++ s)) = some (band, ctl, s) := by
  have hg : ∀ x ∈ ('g' :: (decimal ctl ++ s)).head?, digitIn 10 x = none := by
    rintro x ⟨⟩
    rfl
  rw [readChannel, readUint_decimal (by omega) hg]
  have hbody : ∀ b : ℕ, ((readUint (decimal ctl ++ s)).bind fun r => some (b, r.1, r.2)) =
      some (b, ctl, s) := by
    intro b
    rw [readUint_decimal h hs.1]
    rfl
  rcases hnum with ⟨rfl, rfl⟩ | ⟨rfl, rfl⟩ <;> exact hbody _

theorem readChannel_print {c ctl : ℕ} (hc : ChspecOk c) (h : ctl < 4294967296) {s : List Char}
    (hs : IsSuffix s) :
    readChannel (bandText c ++ decimal ctl ++ s) = some (readBand c ctl, ctl, s) := by
  rw [List.append_assoc]
  unfold bandText readBand defaultBand
  by_cases hch : chspecChannel c ≤ CH_MAX_2G_CHANNEL
  · rw [if_neg fun h => absurd h.2 (Nat.not_lt.2 hch)]
    rcases hc.band with hb | hb
    · rw [if_neg fun h => absurd (hb.symm.trans h.1) (by decide), if_pos hch, if_pos hb]
      exact readChannel_decimal h hs
    · rw [if_pos ⟨hb, hch⟩, if_pos hch, if_neg fun h => absurd (hb.symm.trans h) (by decide), hb]
      exact readChannel_band_decimal h hs (.inr ⟨rfl, rfl⟩)
  · rw [if_neg (c := chspecBand c = WL_CHANSPEC_BAND_5G ∧ _) fun h => absurd h.2 hch]
    rcases hc.band with hb | hb
    · rw [if_pos ⟨hb, Nat.not_le.1 hch⟩, if_neg hch,
        if_neg fun h => absurd (hb.symm.trans h) (by decide), hb]
      exact readChannel_band_decimal h hs (.inl ⟨rfl, rfl⟩)
    · rw [if_neg fun h => absurd (hb.symm.trans h.1) (by decide), if_neg hch, if_pos hb]
      exact readChannel_decimal h hs

/-- A text with a bandwidth. -/
theorem readHead_slash {a : List Char} {band ctl mhz chspecBw : ℕ}
    (h : readChannel a = some (band, ctl, '/' :: decimal mhz))
    (hbw : chspecBwOf mhz = some chspecBw) :
    readHead a = .whole { band, ctlCh := ctl, bw := mhz, chspecBw } [] := by
  have hread : readUint (decimal mhz) = some (mhz, []) := by
    have := chspecBwOf_le hbw
    have := readUint_decimal (n := mhz) (by omega) isSuffix_nil.1
    rwa [List.append_nil] at this
  have hlower : ('/' : Char).toLower = '/' := rfl
  simp [readHead, h, hlower, hread, hbw, readSuffix, lowerHead]

/-! ### From the parts of a text to a chanspec -/

theorem aton_of_whole {a : List Char} {p : ChspecParts} (h : readHead a = .whole p []) (st : ℕ) :
    wfChspecAton st a = some (st, finishChspec p []) := by
  rw [wfChspecAton, h]

/-- The parts give a chanspec `c` that is not malformed. -/
theorem finishChspec_eq_iff {p : ChspecParts} {c : ℕ} (hc : wfChspecMalformed c = false) :
    finishChspec p [] = c ↔ ∃ ch sb, centerOf p = some (ch, sb) ∧
      (ch ||| p.band ||| p.chspecBw ||| sb) % 65536 = c := by
  have h0 : c ≠ 0 := by
    rintro rfl
    exact absurd hc (by decide)
  simp only [finishChspec, List.dropWhile_nil, ne_eq, not_true_eq_false, if_false]
  cases hcenter : centerOf p with
  | none => simp [h0.symm]
  | some center =>
    obtain ⟨ch, sb⟩ := center
    simp only [Option.some.injEq, Prod.mk.injEq]
    constructor
    · intro h
      refine ⟨ch, sb, ⟨rfl, rfl⟩, ?_⟩
      split_ifs at h
      · exact absurd h.symm h0
      · exact h
    · rintro ⟨_, _, ⟨rfl, rfl⟩, h⟩
      rw [h, hc]
      rfl

theorem findCenter_eq_some {chans : List ℕ} {ctl bw ch sb : ℕ}
    (h : findCenter chans ctl bw = some (ch, sb)) : ch ∈ chans ∧ ∃ k < bw / 20, sb = k * 256 := by
  obtain ⟨ch', hmem, h⟩ := List.exists_of_findSome?_eq_some h
  obtain ⟨k, hk, h⟩ := Option.map_eq_some_iff.1 h
  cases h
  exact ⟨hmem, k, channelToSb_lt hk, rfl⟩

/-- The center of a table is found from each of its control channels. -/
theorem findCenter_of_mem :
    (∀ ch ∈ wf5g40mChans, ∀ k < 2,
      findCenter wf5g40mChans (channelToCtlChan ch 40 k) 40 = some (ch, k * 256)) ∧
    (∀ ch ∈ wf5g80mChans, ∀ k < 4,
      findCenter wf5g80mChans (channelToCtlChan ch 80 k) 80 = some (ch, k * 256)) ∧
    ∀ ch ∈ wf5g160mChans, ∀ k < 8,
      findCenter wf5g160mChans (channelToCtlChan ch 160 k) 160 = some (ch, k * 256) := by
  decide +kernel

theorem and_ff_of_lt {ch : ℕ} (h : ch < 256) : ch &&& 0x00ff = ch :=
  (Nat.and_two_pow_sub_one_eq_mod ch 8).trans (Nat.mod_eq_of_lt h)

theorem chspecChannel_lt (c : ℕ) : chspecChannel c < 256 := Nat.and_le_right.trans_lt (by omega)

theorem defaultBand_cases (ch : ℕ) :
    defaultBand ch = WL_CHANSPEC_BAND_2G ∨ defaultBand ch = WL_CHANSPEC_BAND_5G := by
  unfold defaultBand
  split
  · exact .inl rfl
  · exact .inr rfl

theorem and_band {band : ℕ} (h : band = WL_CHANSPEC_BAND_2G ∨ band = WL_CHANSPEC_BAND_5G) :
    band &&& 0xc000 = band := by
  rcases h with rfl | rfl <;> rfl

/-- The sideband field is a multiple of 256. -/
theorem exists_ctlSb (c : ℕ) : ∃ k < 8, chspecCtlSb c = k * 256 ∧ chspecCtlSb c >>> 8 = k := by
  have h : c &&& (2 ^ 3 - 1) * 2 ^ 8 = c / 2 ^ 8 % 2 ^ 3 * 2 ^ 8 := by
    apply Nat.eq_of_testBit_eq
    intro i
    rw [Nat.testBit_and, Nat.testBit_mul_two_pow, Nat.testBit_mul_two_pow,
      Nat.testBit_mod_two_pow, Nat.testBit_div_two_pow, Nat.testBit_two_pow_sub_one]
    by_cases hi : 8 ≤ i
    · rw [Nat.sub_add_cancel hi, Bool.and_comm, Bool.and_assoc]
    · simp [hi]
  have h : chspecCtlSb c = c / 256 % 8 * 256 := h
  exact ⟨c / 256 % 8, by omega, h, by rw [h, Nat.shiftRight_eq_div_pow]; omega⟩

/-! ### Round trip -/

/-- The chanspecs that are read back from their text.  A 40 MHz one is not where the control channel
is on the other side of channel 14 than the center and the band is left out, or where it leaves the
channels that `LOWER_20_SB` and `UPPER_20_SB` know; a wider one is where its center is in the table. -/
def PrintsBack (c : ℕ) : Prop :=
  let ch := chspecChannel c
  (chspecBw c = WL_CHANSPEC_BW_40 →
    if chspecCtlSb c = WL_CHANSPEC_CTL_SB_LLU then
      ch < 254 ∧ ¬ (chspecBand c = WL_CHANSPEC_BAND_2G ∧ (ch = 13 ∨ ch = 14))
    else
      2 ≤ ch ∧ ch < 224 ∧ ¬ (chspecBand c = WL_CHANSPEC_BAND_5G ∧ (ch = 15 ∨ ch = 16)) ∨
        chspecBand c = WL_CHANSPEC_BAND_5G ∧ ch = 0) ∧
  (chspecBw c = WL_CHANSPEC_BW_80 → ch ∈ wf5g80mChans) ∧
  (chspecBw c = WL_CHANSPEC_BW_160 → ch ∈ wf5g160mChans)

section RoundTrip

variable {c : ℕ} (hc : c < 65536) (h : wfChspecMalformed c = false)

include hc h

/-- A 20 MHz chanspec is read back. -/
theorem finish_20 (hbw : chspecBw c = WL_CHANSPEC_BW_20) :
    finishChspec { band := readBand c (chspecChannel c), ctlCh := chspecChannel c } [] = c := by
  have hok := ChspecOk.of_not_malformed h
  have hband : readBand c (chspecChannel c) = chspecBand c := by
    unfold readBand
    split
    · rename_i heq
      exact heq.symm
    · rfl
  refine (finishChspec_eq_iff h).2 ⟨chspecChannel c, 0, rfl, ?_⟩
  rw [hband]
  show (chspecChannel c ||| chspecBand c ||| WL_CHANSPEC_BW_20 ||| 0) % 65536 = c
  refine (or_eq_iff (and_ff_of_lt (chspecChannel_lt c)) (and_band hok.band) rfl rfl hc).2 ?_
  exact ⟨rfl, rfl, hbw.symm, (hok.sb20 hbw).symm⟩

/-- A chanspec with its center in a table. -/
theorem finish_table {p : ChspecParts} {chans : List ℕ} {k : ℕ} (bw : ℕ)
    (hcenter : centerOf p = findCenter chans p.ctlCh bw) (hbw : p.chspecBw = chspecBw c)
    (hchans : ∀ ch ∈ chans, 14 < ch ∧ ch < 256) (hk : chspecCtlSb c = k * 256)
    (hbw' : bw / 20 ≤ 8)
    (hmem : ∀ ch ∈ chans, ch = chspecChannel c →
      findCenter chans p.ctlCh bw = some (ch, k * 256) ∧ p.band = chspecBand c)
    (hband : p.band = WL_CHANSPEC_BAND_2G ∨ p.band = WL_CHANSPEC_BAND_5G) :
    finishChspec p [] = c ↔ chspecChannel c ∈ chans := by
  rw [finishChspec_eq_iff h, hcenter, hbw]
  have hand : ∀ k < 8, k * 256 &&& 0x0700 = k * 256 := by decide
  constructor
  · rintro ⟨ch, sb, hfind, heq⟩
    obtain ⟨hch, j, hj, rfl⟩ := findCenter_eq_some hfind
    have hff := and_ff_of_lt (hchans ch hch).2
    have := (or_eq_iff hff (and_band hband) ?_ (hand j (by omega)) hc).1 heq
    · rw [← this.1]
      exact hch
    · rw [chspecBw, Nat.and_assoc, Nat.and_self]
  · intro hch
    obtain ⟨hfind, hb⟩ := hmem _ hch rfl
    refine ⟨_, _, hfind, ?_⟩
    rw [hb, ← hk, chspec_eq hc, Nat.mod_eq_of_lt hc]

/-- A chanspec with its center given by a sideband letter. -/
theorem finish_letter {p : ChspecParts} {ch sb : ℕ} (hcenter : centerOf p = some (ch, sb))
    (hch : ch < 256) (hbw : p.chspecBw = chspecBw c) (hsb : sb = chspecCtlSb c)
    (hband : p.band = WL_CHANSPEC_BAND_2G ∨ p.band = WL_CHANSPEC_BAND_5G) :
    finishChspec p [] = c ↔ ch = chspecChannel c ∧ p.band = chspecBand c := by
  have hbwand : chspecBw c &&& 0x3800 = chspecBw c := by rw [chspecBw, Nat.and_assoc, Nat.and_self]
  have hsband : chspecCtlSb c &&& 0x0700 = chspecCtlSb c := by
    rw [chspecCtlSb, Nat.and_assoc, Nat.and_self]
  have hiff := or_eq_iff (and_ff_of_lt hch) (and_band hband) hbwand hsband hc
  rw [finishChspec_eq_iff h, hcenter, hbw]
  subst hsb
  constructor
  · rintro ⟨_, _, ⟨⟩, heq⟩
    obtain ⟨h1, h2, -⟩ := hiff.1 heq
    exact ⟨h1, h2⟩
  · rintro ⟨h1, h2⟩
    exact ⟨_, _, rfl, hiff.2 ⟨h1, h2, rfl, rfl⟩⟩

end RoundTrip

/-- The control channel of a 40 MHz chanspec. -/
theorem channelToCtlChan_40 {ch : ℕ} (hch : ch < 256) (k : ℕ) :
    channelToCtlChan ch 40 k = (ch + 254 + k * 4) % 256 := by
  have hedge : centerChanToEdgeU 40 = 2 := rfl
  rw [channelToCtlChan, hedge, toU32]
  omega

/-- The band is read as it was unless it is left out and the control channel has another one. -/
theorem readBand_eq_iff {c ctl : ℕ} (hc : ChspecOk c) : readBand c ctl = chspecBand c ↔
    ¬ (chspecBand c = WL_CHANSPEC_BAND_2G ∧ chspecChannel c ≤ 14 ∧ 14 < ctl) ∧
      ¬ (chspecBand c = WL_CHANSPEC_BAND_5G ∧ 14 < chspecChannel c ∧ ctl ≤ 14) := by
  have hne : WL_CHANSPEC_BAND_2G ≠ WL_CHANSPEC_BAND_5G := by decide
  unfold readBand defaultBand CH_MAX_2G_CHANNEL
  rcases hc.band with hb | hb
  · by_cases hch : chspecChannel c ≤ 14 <;> by_cases hctl : ctl ≤ 14 <;>
      simp [hb, hch, hctl, hne, hne.symm, Nat.not_lt.2, Nat.not_le.1]
  · by_cases hch : chspecChannel c ≤ 14 <;> by_cases hctl : ctl ≤ 14 <;>
      simp [hb, hch, hctl, hne, hne.symm]

/-- What follows the channel in the text of a chanspec. -/
def suffixText (c : ℕ) : List Char :=
  if chspecBw c = WL_CHANSPEC_BW_20 then []
  else if chspecBw c = WL_CHANSPEC_BW_40 then
    if chspecCtlSb c = WL_CHANSPEC_CTL_SB_LLU then ['u'] else ['l']
  else if chspecBw c = WL_CHANSPEC_BW_80 then "/80".toList
  else "/160".toList

theorem isSuffix_suffixText (c : ℕ) : IsSuffix (suffixText c) := by
  unfold suffixText
  split_ifs
  · exact isSuffix_nil
  · exact isSuffix_cons rfl (by decide) _
  · exact isSuffix_cons rfl (by decide) _
  · exact isSuffix_slash _
  · exact isSuffix_slash _

section Text

variable {c : ℕ} (hok : ChspecOk c)

include hok

theorem chspecText_eq (ctl : ℕ) :
    chspecText c ctl = bandText c ++ decimal ctl ++ suffixText c := by
  unfold chspecText suffixText
  have hbw := hok.bw
  simp only [List.mem_cons, List.not_mem_nil, or_false] at hbw
  rcases hbw with hbw | hbw | hbw | hbw <;> rw [hbw]
  · exact (List.append_nil _).symm
  · rfl
  · rfl
  · rfl

/-- A text has nine characters at most, so `snprintf` cuts none. -/
theorem length_chspecText {ctl : ℕ} (h : ctl < 256) : (chspecText c ctl).length ≤ 9 := by
  have hband : (bandText c).length ≤ 2 := by
    unfold bandText
    split_ifs <;> decide
  have hsuffix : (suffixText c).length ≤ 4 := by
    unfold suffixText
    split_ifs <;> decide
  have hctl : (decimal ctl).length ≤ 3 :=
    (Nat.length_toDigits_le_iff (by omega) (by omega)).2 (by omega)
  rw [chspecText_eq hok, List.length_append, List.length_append]
  omega

/-- The control channel is one of those of the center. -/
theorem wfChspecCtlchan_eq : wfChspecCtlchan c =
    some (if chspecBw c = WL_CHANSPEC_BW_20 then chspecChannel c
      else channelToCtlChan (chspecChannel c) (bwChspecToMhz c) (chspecCtlSb c >>> 8)) := by
  have hbw := hok.bw
  simp only [List.mem_cons, List.not_mem_nil, or_false] at hbw
  unfold wfChspecCtlchan
  rcases hbw with hbw | hbw | hbw | hbw <;> rw [hbw] <;> rfl

theorem readHead_print {ctl : ℕ} (h : ctl < 4294967296) :
    readHead (chspecText c ctl) =
      .whole { band := readBand c ctl, ctlCh := ctl,
               bw := if chspecBw c = WL_CHANSPEC_BW_80 then 80
                else if chspecBw c = WL_CHANSPEC_BW_160 then 160 else 20,
               chspecBw := chspecBw c,
               sbUl := if chspecBw c = WL_CHANSPEC_BW_40 then
                  if chspecCtlSb c = WL_CHANSPEC_CTL_SB_LLU then some 'u' else some 'l'
                else none } [] := by
  have hread := readChannel_print hok h (isSuffix_suffixText c)
  rw [← chspecText_eq hok] at hread
  have hbw := hok.bw
  simp only [List.mem_cons, List.not_mem_nil, or_false] at hbw
  rcases hbw with hbw | hbw | hbw | hbw
  · simp only [suffixText, hbw] at hread ⊢
    rw [readHead, hread]
    rfl
  · simp only [suffixText, hbw] at hread ⊢
    rw [readHead, hread]
    by_cases hsb : chspecCtlSb c = WL_CHANSPEC_CTL_SB_LLU
    · rw [hsb]
      rfl
    · simp only [if_neg hsb]
      rfl
  · simp only [suffixText, hbw] at hread ⊢
    exact @readHead_slash _ _ _ 80 _ hread rfl
  · simp only [suffixText, hbw] at hread ⊢
    exact @readHead_slash _ _ _ 160 _ hread rfl

end Text

/-- The control channel of a 40 MHz chanspec is read back with its band and its center. -/
theorem center_40 {c k : ℕ} (hok : ChspecOk c) (hsb : chspecCtlSb c = k * 256)
    (hbw : chspecBw c = WL_CHANSPEC_BW_40) :
    (let ctl := channelToCtlChan (chspecChannel c) 40 k
     (if k = 1 then lower20Sb ctl else upper20Sb ctl) = chspecChannel c ∧
        readBand c ctl = chspecBand c) ↔
      PrintsBack c := by
  have hch := chspecChannel_lt c
  have hk : k ≤ 1 := by
    have := hok.sb40 hbw
    rw [hsb, WL_CHANSPEC_CTL_SB_LLU] at this
    omega
  have hn80 : WL_CHANSPEC_BW_40 ≠ WL_CHANSPEC_BW_80 := by decide
  have hn160 : WL_CHANSPEC_BW_40 ≠ WL_CHANSPEC_BW_160 := by decide
  have hllu : k * 256 = WL_CHANSPEC_CTL_SB_LLU ↔ k = 1 := by
    unfold WL_CHANSPEC_CTL_SB_LLU
    omega
  have h224 := hok.channel
  simp only [PrintsBack, hbw, hn80, hn160, IsEmpty.forall_iff, and_true, true_imp_iff, hsb, hllu,
    readBand_eq_iff hok, channelToCtlChan_40 hch, lower20Sb, upper20Sb, MAXCHANNEL,
    CH_10MHZ_APART] at h224 ⊢
  have hbands : ¬ (chspecBand c = WL_CHANSPEC_BAND_2G ∧ chspecBand c = WL_CHANSPEC_BAND_5G) := by
    rintro ⟨h2, h5⟩
    exact absurd (h2.symm.trans h5) (by decide)
  have hband := hok.band
  generalize chspecBand c = WL_CHANSPEC_BAND_2G at *
  split_ifs <;> omega

theorem lower20Sb_lt {ch : ℕ} (h : ch < 256) : lower20Sb ch < 256 := by
  unfold lower20Sb
  split <;> omega

theorem upper20Sb_lt {ch : ℕ} (h : ch < 256) : upper20Sb ch < 256 := by
  unfold upper20Sb MAXCHANNEL CH_10MHZ_APART
  split <;> omega

/-- The control channels of a table are 5 GHz channels. -/
theorem ctlChan_gt :
    (∀ ch ∈ wf5g80mChans, ∀ k < 4, 14 < channelToCtlChan ch 80 k) ∧
    ∀ ch ∈ wf5g160mChans, ∀ k < 8, 14 < channelToCtlChan ch 160 k := by
  decide

/-- What the parts that are read from a printed text give. -/
theorem finish_printed {c ctl k : ℕ} (hc : c < 65536) (h : wfChspecMalformed c = false)
    (hk : chspecCtlSb c = k * 256) (hk8 : k < 8)
    (hctl : ctl = if chspecBw c = WL_CHANSPEC_BW_20 then chspecChannel c
      else channelToCtlChan (chspecChannel c) (bwChspecToMhz c) k) :
    finishChspec { band := readBand c ctl, ctlCh := ctl,
                   bw := if chspecBw c = WL_CHANSPEC_BW_80 then 80
                    else if chspecBw c = WL_CHANSPEC_BW_160 then 160 else 20,
                   chspecBw := chspecBw c,
                   sbUl := if chspecBw c = WL_CHANSPEC_BW_40 then
                      if chspecCtlSb c = WL_CHANSPEC_CTL_SB_LLU then some 'u' else some 'l'
                    else none } [] = c ↔ PrintsBack c := by
  have hok := ChspecOk.of_not_malformed h
  have hband : readBand c ctl = WL_CHANSPEC_BAND_2G ∨ readBand c ctl = WL_CHANSPEC_BAND_5G := by
    unfold readBand
    split
    · exact defaultBand_cases ctl
    · exact hok.band
  -- the band of a 5 GHz chanspec, whose control channel is one of a table
  have h5g : chspecBw c ≠ WL_CHANSPEC_BW_20 → chspecBw c ≠ WL_CHANSPEC_BW_40 → 14 < ctl →
      readBand c ctl = chspecBand c := by
    intro h20 h40 hgt
    refine (readBand_eq_iff hok).2 ⟨fun h2 => ?_, fun h5 => by omega⟩
    rcases hok.bw2g h2.1 with hbw | hbw
    · exact h20 hbw
    · exact h40 hbw
  have hbw := hok.bw
  simp only [List.mem_cons, List.not_mem_nil, or_false] at hbw
  rcases hbw with hbw | hbw | hbw | hbw
  · rw [hbw, if_pos rfl] at hctl
    subst hctl
    have hback : PrintsBack c := by simp [PrintsBack, hbw, WL_CHANSPEC_BW_20, WL_CHANSPEC_BW_40,
      WL_CHANSPEC_BW_80, WL_CHANSPEC_BW_160]
    have hfinish := finish_20 hc h hbw
    simp only [hbw]
    exact iff_of_true hfinish hback
  · have hmhz : bwChspecToMhz c = 40 := by
      rw [bwChspecToMhz, hbw]
      rfl
    rw [hbw, hmhz, if_neg (by decide)] at hctl
    subst hctl
    rw [← center_40 hok hk hbw]
    have hlt := (Nat.mod_lt _ (by omega) : channelToCtlChan (chspecChannel c) 40 k < 256)
    have hk1 : k = 0 ∨ k = 1 := by
      have := hok.sb40 hbw
      rw [hk, WL_CHANSPEC_CTL_SB_LLU] at this
      omega
    rcases hk1 with rfl | rfl
    · refine finish_letter hc h ?_ (upper20Sb_lt hlt) rfl hk.symm hband
      simp only [hbw, hk]
      rfl
    · refine finish_letter hc h ?_ (lower20Sb_lt hlt) rfl hk.symm hband
      simp only [hbw, hk]
      rfl
  · have hmhz : bwChspecToMhz c = 80 := by
      rw [bwChspecToMhz, hbw]
      rfl
    have hk4 : k < 4 := by
      have := hok.sb80 hbw
      rw [hk, WL_CHANSPEC_CTL_SB_LUU] at this
      omega
    rw [hbw, hmhz, if_neg (by decide)] at hctl
    have hback : PrintsBack c ↔ chspecChannel c ∈ wf5g80mChans := by
      simp [PrintsBack, hbw, WL_CHANSPEC_BW_40, WL_CHANSPEC_BW_80, WL_CHANSPEC_BW_160]
    rw [hback]
    refine finish_table hc h 80 ?_ rfl (by decide) hk (by decide) ?_ hband
    · simp only [hbw]
      rfl
    · rintro ch hch rfl
      subst hctl
      exact ⟨findCenter_of_mem.2.1 _ hch k hk4,
        h5g (by rw [hbw]; decide) (by rw [hbw]; decide) (ctlChan_gt.1 _ hch k hk4)⟩
  · have hmhz : bwChspecToMhz c = 160 := by
      rw [bwChspecToMhz, hbw]
      rfl
    rw [hbw, hmhz, if_neg (by decide)] at hctl
    have hback : PrintsBack c ↔ chspecChannel c ∈ wf5g160mChans := by
      simp [PrintsBack, hbw, WL_CHANSPEC_BW_40, WL_CHANSPEC_BW_80, WL_CHANSPEC_BW_160]
    rw [hback]
    refine finish_table hc h 160 ?_ rfl (by decide) hk (by decide) ?_ hband
    · simp only [hbw]
      rfl
    · rintro ch hch rfl
      subst hctl
      exact ⟨findCenter_of_mem.2.2 _ hch k hk8,
        h5g (by rw [hbw]; decide) (by rw [hbw]; decide) (ctlChan_gt.2 _ hch k hk8)⟩

/-! ### Valid chanspecs -/

/-- The 20 MHz channels of 5 GHz. -/
def wf5g20mChans : List ℕ :=
  wf5g40mChans.flatMap (fun ch => [lower20Sb ch, upper20Sb ch]) ++ [165, 34, 38, 42, 46]

/-- Bands, bandwidths, numbers of sidebands and channels of the valid chanspecs. -/
def validGroups : List (ℕ × ℕ × ℕ × List ℕ) :=
  [(WL_CHANSPEC_BAND_2G, WL_CHANSPEC_BW_20, 1, List.range' 1 14),
    (WL_CHANSPEC_BAND_2G, WL_CHANSPEC_BW_40, 2, List.range' 3 9),
    (WL_CHANSPEC_BAND_5G, WL_CHANSPEC_BW_20, 1, wf5g20mChans),
    (WL_CHANSPEC_BAND_5G, WL_CHANSPEC_BW_40, 2, wf5g40mChans),
    (WL_CHANSPEC_BAND_5G, WL_CHANSPEC_BW_80, 4, wf5g80mChans),
    (WL_CHANSPEC_BAND_5G, WL_CHANSPEC_BW_160, 8, wf5g160mChans)]

theorem not_malformed_of_valid {c : ℕ} (h : wfChspecValid c = true) :
    wfChspecMalformed c = false := by
  unfold wfChspecValid at h
  by_contra hm
  simp [hm] at h

/-- A valid chanspec is one of a group. -/
theorem exists_group_of_valid {c : ℕ} (h : wfChspecValid c = true) :
    ∃ g ∈ validGroups, chspecBand c = g.1 ∧ chspecBw c = g.2.1 ∧
      (∃ k < g.2.2.1, chspecCtlSb c = k * 256) ∧ chspecChannel c ∈ g.2.2.2 := by
  have hm := not_malformed_of_valid h
  have hok := ChspecOk.of_not_malformed hm
  obtain ⟨k, hk8, hk, -⟩ := exists_ctlSb c
  have hsb1 : chspecBw c = WL_CHANSPEC_BW_20 → k < 1 := fun hbw => by
    have := hok.sb20 hbw
    rw [hk, WL_CHANSPEC_CTL_SB_LLL] at this
    omega
  have hsb2 : chspecBw c = WL_CHANSPEC_BW_40 → k < 2 := fun hbw => by
    have := hok.sb40 hbw
    rw [hk, WL_CHANSPEC_CTL_SB_LLU] at this
    omega
  have hsb4 : chspecBw c = WL_CHANSPEC_BW_80 → k < 4 := fun hbw => by
    have := hok.sb80 hbw
    rw [hk, WL_CHANSPEC_CTL_SB_LUU] at this
    omega
  unfold wfChspecValid at h
  simp only [hm, Bool.false_eq_true, if_false] at h
  unfold validGroups
  split_ifs at h with h2 h20 h40 h5 h8080 h20 h40 h80 h160
  · refine ⟨_, .head _, h2, h20, ⟨k, hsb1 h20, hk⟩, ?_⟩
    rw [List.mem_range'_1]
    have := of_decide_eq_true h
    omega
  · refine ⟨_, .tail _ (.head _), h2, h40, ⟨k, hsb2 h40, hk⟩, ?_⟩
    rw [List.mem_range'_1]
    have := of_decide_eq_true h
    omega
  · have hbw := hok.bw
    rw [h8080] at hbw
    exact absurd hbw (by decide)
  · refine ⟨_, .tail _ (.tail _ (.head _)), h5, h20, ⟨k, hsb1 h20, hk⟩, ?_⟩
    simpa [wf5g20mChans, or_assoc] using h
  · refine ⟨_, .tail _ (.tail _ (.tail _ (.head _))), h5, h40, ⟨k, hsb2 h40, hk⟩, ?_⟩
    simpa using h
  · refine ⟨_, .tail _ (.tail _ (.tail _ (.tail _ (.head _)))), h5, h80, ⟨k, hsb4 h80, hk⟩, ?_⟩
    simpa using h
  · refine ⟨_, .tail _ (.tail _ (.tail _ (.tail _ (.tail _ (.head _))))), h5, h160, ⟨k, hk8, hk⟩, ?_⟩
    simpa using h

/-- What is checked of every valid chanspec is true of all of them. -/
theorem forall_valid {P : ℕ → Prop} (hP : ∀ g ∈ validGroups, ∀ k < g.2.2.1, ∀ ch ∈ g.2.2.2,
    P (ch ||| g.1 ||| g.2.1 ||| k * 256)) {c : ℕ} (hc : c < 65536) (h : wfChspecValid c = true) :
    P c := by
  obtain ⟨g, hg, hband, hbw, ⟨k, hk, hsb⟩, hch⟩ := exists_group_of_valid h
  have hP := hP g hg k hk _ hch
  rwa [← hband, ← hbw, ← hsb, chspec_eq hc] at hP

instance (c : ℕ) : Decidable (PrintsBack c) := inferInstanceAs (Decidable (_ ∧ _ ∧ _))

theorem printsBack_of_valid {c : ℕ} (hc : c < 65536) (h : wfChspecValid c = true) :
    PrintsBack c := forall_valid (P := PrintsBack) (by decide +kernel) hc h

/-- **The control channel of a valid chanspec is a valid chanspec**, and so is the primary 40 MHz of
one of 80 MHz, which has the same control channel. -/
theorem wfChspecValid_ctlchspec {c : ℕ} (hc : c < 65536) (h : wfChspecValid c = true) :
    ∃ ctl ctlspec, wfChspecCtlchan c = some ctl ∧ wfChspecCtlchspec c = some ctlspec ∧
      (wfChspecValid ctlspec = true ∧ chspecBw ctlspec = WL_CHANSPEC_BW_20 ∧
        chspecBand ctlspec = chspecBand c ∧ wfChspecCtlchan ctlspec = some ctl) ∧
      (chspecBw c = WL_CHANSPEC_BW_80 →
        let c40 := wfChspecPrimary40Chspec c
        wfChspecValid c40 = true ∧ chspecBw c40 = WL_CHANSPEC_BW_40 ∧
          wfChspecCtlchan c40 = some ctl ∧ wfChspecCtlchspec c40 = some ctlspec) := by
  have hall := forall_valid (P := fun c =>
    ((wfChspecCtlchan c).any fun ctl => (wfChspecCtlchspec c).any fun ctlspec =>
      (wfChspecValid ctlspec = true ∧ chspecBw ctlspec = WL_CHANSPEC_BW_20 ∧
        chspecBand ctlspec = chspecBand c ∧ wfChspecCtlchan ctlspec = some ctl) ∧
      (chspecBw c = WL_CHANSPEC_BW_80 →
        let c40 := wfChspecPrimary40Chspec c
        wfChspecValid c40 = true ∧ chspecBw c40 = WL_CHANSPEC_BW_40 ∧
          wfChspecCtlchan c40 = some ctl ∧ wfChspecCtlchspec c40 = some ctlspec)) = true)
    (by decide +kernel) hc h
  obtain ⟨ctl, hctl, hall⟩ := (Option.any_eq_true _ _).1 hall
  obtain ⟨ctlspec, hctlspec, hall⟩ := (Option.any_eq_true _ _).1 hall
  exact ⟨ctl, ctlspec, hctl, hctlspec, of_decide_eq_true hall⟩

/-- 155/80 with the control channel 157 -/
theorem wfChspecValid_ctlchspec_157 :
    ∃ ctl ctlspec, wfChspecCtlchan 0xe29b = some ctl ∧ wfChspecCtlchspec 0xe29b = some ctlspec ∧
      (wfChspecValid ctlspec = true ∧ chspecBw ctlspec = WL_CHANSPEC_BW_20 ∧
        chspecBand ctlspec = chspecBand 0xe29b ∧ wfChspecCtlchan ctlspec = some ctl) ∧
      (chspecBw 0xe29b = WL_CHANSPEC_BW_80 →
        let c40 := wfChspecPrimary40Chspec 0xe29b
        wfChspecValid c40 = true ∧ chspecBw c40 = WL_CHANSPEC_BW_40 ∧
          wfChspecCtlchan c40 = some ctl ∧ wfChspecCtlchspec c40 = some ctlspec) :=
  wfChspecValid_ctlchspec (by decide) (by decide)

/-! ### Channels with a bandwidth -/

/-- The parts are a chanspec or `0`, which is malformed. -/
theorem finishChspec_nil (p : ChspecParts) : finishChspec p [] =
    let c := match centerOf p with
      | none => 0
      | some (ch, sb) => (ch ||| p.band ||| p.chspecBw ||| sb) % 65536
    if wfChspecMalformed c then 0 else c := by
  rw [finishChspec, List.dropWhile_nil, if_neg (not_not.2 rfl)]
  cases centerOf p with
  | none => exact (if_pos (by decide : wfChspecMalformed 0 = true)).symm
  | some center => rfl

theorem or_rotate (ch band bw sb : ℕ) : (ch ||| band ||| bw ||| sb) % 65536 =
    ((band ||| bw) % 65536 ||| ch ||| sb) % 65536 := by
  rw [show 65536 = 2 ^ 16 from rfl]
  simp only [Nat.or_mod_two_pow, Nat.mod_mod]
  rw [Nat.or_assoc (ch % 2 ^ 16), Nat.or_comm (ch % 2 ^ 16)]

/-- **`wf_channel2chspec` is what the text of a channel with a bandwidth is read as**, except that it
does not check that the chanspec is not malformed. -/
theorem wfChspecAton_slash (st : ℕ) {ctl mhz bw : ℕ} (hctl : ctl < 4294967296)
    (hbw : chspecBwOf mhz = some bw) :
    wfChspecAton st (decimal ctl ++ '/' :: decimal mhz) = some (st,
      if wfChspecMalformed (wfChannel2chspec ctl bw) then 0 else wfChannel2chspec ctl bw) := by
  rw [aton_of_whole (readHead_slash (readChannel_decimal hctl (isSuffix_slash _)) hbw),
    finishChspec_nil]
  have hwide : ∀ (center : Option (ℕ × ℕ)) (bw : ℕ), (match center with
        | none => 0
        | some (ch, sb) => (ch ||| defaultBand ctl ||| bw ||| sb) % 65536) =
      match center with
        | none => 0
        | some (ch, sb) => ((defaultBand ctl ||| bw) % 65536 ||| ch ||| sb) % 65536 := by
    intro center bw
    cases center with
    | none => rfl
    | some c => exact or_rotate c.1 (defaultBand ctl) bw c.2
  have hcongr := fun {c c' : ℕ} (h : c = c') =>
    congrArg (fun c => some (st, if wfChspecMalformed c = true then 0 else c)) h
  unfold chspecBwOf at hbw
  split_ifs at hbw with h20 h40 h80 h160 <;> obtain rfl := Option.some.inj hbw
  · refine hcongr ((or_rotate ctl (defaultBand ctl) WL_CHANSPEC_BW_20 0).trans ?_)
    rw [Nat.or_zero]
    rfl
  · subst h40
    exact hcongr (hwide (findCenter wf5g40mChans ctl 40) WL_CHANSPEC_BW_40)
  · subst h80
    exact hcongr (hwide (findCenter wf5g80mChans ctl 80) WL_CHANSPEC_BW_80)
  · subst h160
    exact hcongr (hwide (findCenter wf5g160mChans ctl 160) WL_CHANSPEC_BW_160)

/-- `36/80` -/
theorem wfChspecAton_slash_36 : wfChspecAton 0 (decimal 36 ++ '/' :: decimal 80) = some (0,
    if wfChspecMalformed (wfChannel2chspec 36 WL_CHANSPEC_BW_80) then 0
    else wfChannel2chspec 36 WL_CHANSPEC_BW_80) :=
  wfChspecAton_slash 0 (by decide) rfl

/-- **A valid chanspec is put together from its control channel and its bandwidth**, but for those of
40 MHz in the 2.4 GHz band, for which there is none. -/
theorem wfChannel2chspec_ctlchan {c : ℕ} (hc : c < 65536) (h : wfChspecValid c = true) :
    ∃ ctl, wfChspecCtlchan c = some ctl ∧ wfChannel2chspec ctl (chspecBw c) =
      if chspecBand c = WL_CHANSPEC_BAND_2G ∧ chspecBw c = WL_CHANSPEC_BW_40 then 0 else c := by
  have hall := forall_valid (P := fun c =>
    ((wfChspecCtlchan c).any fun ctl => wfChannel2chspec ctl (chspecBw c) =
      if chspecBand c = WL_CHANSPEC_BAND_2G ∧ chspecBw c = WL_CHANSPEC_BW_40 then 0 else c) = true)
    (by decide +kernel) hc h
  obtain ⟨ctl, hctl, hall⟩ := (Option.any_eq_true _ _).1 hall
  exact ⟨ctl, hctl, of_decide_eq_true hall⟩

/-- 155/80 with the control channel 157 -/
theorem wfChannel2chspec_ctlchan_157 : ∃ ctl, wfChspecCtlchan 0xe29b = some ctl ∧
    wfChannel2chspec ctl (chspecBw 0xe29b) =
      if chspecBand 0xe29b = WL_CHANSPEC_BAND_2G ∧ chspecBw 0xe29b = WL_CHANSPEC_BW_40 then 0
      else 0xe29b :=
  wfChannel2chspec_ctlchan (by decide) (by decide)

end LocTag
