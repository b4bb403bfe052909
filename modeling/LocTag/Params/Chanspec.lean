import LocTag.Lib.Words
import LocTag.Lib.Numerals

/-!
# Channel specifications

`wf_chspec_aton` of `bcmwifi_channels.c`, the parser of texts such as `36/80` and `6u`.

The pointer `plus80` the parser compares an `80+80` text with is a `static` local: it is moved by
every such comparison and never reset.  So the function has a state, the offset of `plus80` in
`"80/"`, and a call may read past that string (`none`).  `readHead` is the part of the parser before
the comparison.  The check at its end takes the second channel of an 80+80 text for too large, so
such texts are never accepted: a chanspec that is not `0` has been parsed without the state, and is
the same in all of them (`wfChspecAton_ne_zero`).
-/

namespace LocTag

open Lib

/-! ### `bcmwifi_channels.h`, with `D11AC_IOTYPES` -/

def CH_MAX_2G_CHANNEL : ℕ := 14
def MAXCHANNEL : ℕ := 224
def CH_10MHZ_APART : ℕ := 2
def WL_CHANSPEC_CTL_SB_LLL : ℕ := 0x0000
def WL_CHANSPEC_CTL_SB_LLU : ℕ := 0x0100
def WL_CHANSPEC_CTL_SB_LUU : ℕ := 0x0300
def WL_CHANSPEC_BW_20 : ℕ := 0x1000
def WL_CHANSPEC_BW_40 : ℕ := 0x1800
def WL_CHANSPEC_BW_80 : ℕ := 0x2000
def WL_CHANSPEC_BW_160 : ℕ := 0x2800
def WL_CHANSPEC_BW_8080 : ℕ := 0x3000
def WL_CHANSPEC_BAND_2G : ℕ := 0x0000
def WL_CHANSPEC_BAND_5G : ℕ := 0xc000

/-- `LOWER_20_SB` -/
def lower20Sb (channel : ℕ) : ℕ := if channel > CH_10MHZ_APART then channel - CH_10MHZ_APART else 0

/-- `UPPER_20_SB` -/
def upper20Sb (channel : ℕ) : ℕ :=
  if channel < MAXCHANNEL - CH_10MHZ_APART then channel + CH_10MHZ_APART else 0

def wf5g40mChans : List ℕ := [38, 46, 54, 62, 102, 110, 118, 126, 134, 142, 151, 159]
def wf5g80mChans : List ℕ := [42, 58, 106, 122, 138, 155]
def wf5g160mChans : List ℕ := [50, 114]

/-! ### Channels and side bands -/

def centerChanToEdge (bw : ℕ) : ℕ := (bw - 20) / 2 / 5 % 256

def channelLowEdge (centerCh bw : ℕ) : ℕ := toU32 ((centerCh : ℤ) - centerChanToEdge bw) % 256

/-- `channel_to_sb`, `none` for `-1`. -/
def channelToSb (centerCh ctlCh bw : ℕ) : Option ℕ :=
  let above := toU32 ((ctlCh : ℤ) - channelLowEdge centerCh bw)
  if above % 4 ≠ 0 then none
  else if above / 4 ≥ bw / 20 then none
  else some (above / 4)

/-- `channel_80mhz_to_id`, `none` for `-1`. -/
def channel80mhzToId (ch : ℕ) : Option ℕ := wf5g80mChans.idxOf? ch

/-- `wf_chspec_malformed`; `CHSPEC_CHAN2` masks the second channel of an 80+80 chanspec and does not
shift it. -/
def wfChspecMalformed (chanspec : ℕ) : Bool :=
  let band := chanspec &&& 0xc000
  let bw := chanspec &&& 0x3800
  let ch := chanspec &&& 0x00ff
  let sb := chanspec &&& 0x0700
  let badChannel :=
    if band = WL_CHANSPEC_BAND_2G then bw != WL_CHANSPEC_BW_20 && bw != WL_CHANSPEC_BW_40
    else if band = WL_CHANSPEC_BAND_5G then
      if bw = WL_CHANSPEC_BW_8080 then
        let ch1Id := chanspec &&& 0x000f
        let ch2Id := chanspec &&& 0x00f0
        decide (ch1Id ≥ wf5g80mChans.length ∨ ch2Id ≥ wf5g80mChans.length ∨ ch2Id ≤ ch1Id)
      else if bw = WL_CHANSPEC_BW_20 ∨ bw = WL_CHANSPEC_BW_40 ∨ bw = WL_CHANSPEC_BW_80 ∨
          bw = WL_CHANSPEC_BW_160 then decide (ch > MAXCHANNEL)
      else true
    else true
  let badSideband :=
    if bw = WL_CHANSPEC_BW_20 then decide (sb ≠ WL_CHANSPEC_CTL_SB_LLL)
    else if bw = WL_CHANSPEC_BW_40 then decide (sb > WL_CHANSPEC_CTL_SB_LLU)
    else if bw = WL_CHANSPEC_BW_80 then decide (sb > WL_CHANSPEC_CTL_SB_LUU)
    else false
  badChannel || badSideband

/-! ### The parser -/

/-- The variables of the parser once the text is read; `none` in `sbUl` for `'\0'`. -/
structure ChspecParts where
  band : ℕ
  ctlCh : ℕ
  bw : ℕ := 20
  chspecBw : ℕ := WL_CHANSPEC_BW_20
  sbUl : Option Char := none
  ch1 : ℕ := 0
  ch2 : ℕ := 0

/-- `read_uint` -/
def readUint (a : List Char) : Option (ℕ × List Char) := strtoul a 10

/-- `tolower(a[0])`, `none` at the end of the string. -/
def lowerHead (a : List Char) : Option Char := a.head?.map Char.toLower

/-- The band and the channel at the head of a text. -/
def readChannel (a : List Char) : Option (ℕ × ℕ × List Char) := do
  let (num, a) ← readUint a
  if lowerHead a = some 'g' then do
    let band ← (if num = 2 then some WL_CHANSPEC_BAND_2G
      else if num = 5 then some WL_CHANSPEC_BAND_5G else none)
    let (ctlCh, a) ← readUint (a.drop 1)
    pure (band, ctlCh, a)
  else pure (if num ≤ CH_MAX_2G_CHANNEL then WL_CHANSPEC_BAND_2G else WL_CHANSPEC_BAND_5G, num, a)

/-- The chanspec value of a bandwidth in MHz. -/
def chspecBwOf (bw : ℕ) : Option ℕ :=
  if bw = 20 then some WL_CHANSPEC_BW_20
  else if bw = 40 then some WL_CHANSPEC_BW_40
  else if bw = 80 then some WL_CHANSPEC_BW_80
  else if bw = 160 then some WL_CHANSPEC_BW_160
  else none

/-- What the head of a text is found to be, with the rest of the text: no chanspec, one that is read
to its end, or one that goes on with a `+`. -/
inductive ChspecHead where
  | invalid
  | whole (p : ChspecParts) (rest : List Char)
  | plus80 (p : ChspecParts) (rest : List Char)

/-- After the bandwidth: a sideband letter where the band needs one, or the `+` of 80+80. -/
def readSuffix (p : ChspecParts) (a : List Char) : ChspecHead :=
  let c := lowerHead a
  if (p.band = WL_CHANSPEC_BAND_2G ∧ p.bw = 40) ∧ (c = some 'u' ∨ c = some 'l') then
    .whole { p with sbUl := c } (a.drop 1)
  else if c = some '+' then .plus80 { p with chspecBw := WL_CHANSPEC_BW_8080 } (a.drop 1)
  else .whole p a

/-- The parser up to the string `plus80`. -/
def readHead (a : List Char) : ChspecHead :=
  match readChannel a with
  | none => .invalid
  | some (band, ctlCh, []) => .whole { band, ctlCh } []
  | some (band, ctlCh, c :: a) =>
    if c.toLower = 'u' ∨ c.toLower = 'l' then
      .whole { band, ctlCh, chspecBw := WL_CHANSPEC_BW_40, sbUl := some c.toLower } a
    else if c.toLower ≠ '/' then .invalid
    else match readUint a with
      | none => .invalid
      | some (bw, a) => match chspecBwOf bw with
        | none => .invalid
        | some chspecBw => readSuffix { band, ctlCh, bw, chspecBw } a

/-- `n` rounds of `*a++ != *plus80++`, with `plus80` at offset `st` of `"80/"`: its new offset and, if
all were equal, the rest of `a`.  A read past the end of a string has no meaning. -/
def matchPlus80 (st : ℕ) (a : List Char) : ℕ → Option (ℕ × Option (List Char))
  | 0 => some (st, some a)
  | n + 1 =>
    if st > 3 then none
    else match a with
      -- the NUL of `a` is equal to the NUL of `plus80` only, and then both strings are left
      | [] => if st = 3 then none else some (st + 1, none)
      | c :: a => if "80/".toList[st]? = some c then matchPlus80 (st + 1) a n else some (st + 1, none)

/-- The two channels of an 80+80 text. -/
def readPair (p : ChspecParts) (a : List Char) : Option (ChspecParts × List Char) := do
  let (ch1, a) ← readUint a
  match a with
  | '-' :: a => do
    let (ch2, a) ← readUint a
    pure ({ p with ch1, ch2 }, a)
  | _ => none

/-! ### The chanspec of the parts -/

/-- The center channel and the sideband bits of a 40, 80 or 160 MHz chanspec. -/
def findCenter (chans : List ℕ) (ctlCh bw : ℕ) : Option (ℕ × ℕ) :=
  chans.findSome? fun ch => (channelToSb ch ctlCh bw).map fun sb => (ch, sb * 256)

/-- The channel bits and the sideband bits of an 80+80 chanspec. -/
def centerPair (p : ChspecParts) : Option (ℕ × ℕ) := do
  let ch1Id ← channel80mhzToId p.ch1
  let ch2Id ← channel80mhzToId p.ch2
  if p.ch1 ≥ p.ch2 then none
  else
    let sb ← (channelToSb p.ch1 p.ctlCh p.bw).or
      ((channelToSb p.ch2 p.ctlCh p.bw).map (· + 4))
    pure (ch1Id ||| ch2Id * 16, sb * 256)

def centerOf (p : ChspecParts) : Option (ℕ × ℕ) :=
  match p.sbUl with
  | some c => some (if c = 'l' then (upper20Sb p.ctlCh, WL_CHANSPEC_CTL_SB_LLL)
      else (lower20Sb p.ctlCh, WL_CHANSPEC_CTL_SB_LLU))
  | none =>
    if p.chspecBw = WL_CHANSPEC_BW_20 then some (p.ctlCh, 0)
    else if p.chspecBw = WL_CHANSPEC_BW_40 then findCenter wf5g40mChans p.ctlCh p.bw
    else if p.chspecBw = WL_CHANSPEC_BW_80 then findCenter wf5g80mChans p.ctlCh p.bw
    else if p.chspecBw = WL_CHANSPEC_BW_160 then findCenter wf5g160mChans p.ctlCh p.bw
    else centerPair p

/-- `wf_chspec_aton` from `done_read` on. -/
def finishChspec (p : ChspecParts) (rest : List Char) : ℕ :=
  if rest.dropWhile (· = ' ') ≠ [] then 0
  else match centerOf p with
    | none => 0
    | some (ch, sb) =>
      let chspec := (ch ||| p.band ||| p.chspecBw ||| sb) % 65536
      if wfChspecMalformed chspec then 0 else chspec

/-- `wf_chspec_aton`, with the offset of `plus80` before and after. -/
def wfChspecAton (st : ℕ) (a : List Char) : Option (ℕ × ℕ) :=
  match readHead a with
  | .invalid => some (st, 0)
  | .whole p rest => some (st, finishChspec p rest)
  | .plus80 p rest =>
    match matchPlus80 st rest 3 with
    | none => none
    | some (st', none) => some (st', 0)
    | some (st', some rest) =>
      match readPair p rest with
      | none => some (st', 0)
      | some (p, rest) => some (st', finishChspec p rest)

/-! ### Texts that are accepted -/

theorem readChannel_band {a rest : List Char} {band ctlCh : ℕ}
    (h : readChannel a = some (band, ctlCh, rest)) :
    band = WL_CHANSPEC_BAND_2G ∨ band = WL_CHANSPEC_BAND_5G := by
  unfold readChannel at h
  obtain ⟨⟨num, a₁⟩, -, h⟩ := Option.bind_eq_some_iff.1 h
  simp only at h
  split at h
  · obtain ⟨b, hb, h⟩ := Option.bind_eq_some_iff.1 h
    obtain ⟨⟨ctl, a₂⟩, -, h⟩ := Option.bind_eq_some_iff.1 h
    cases h
    split at hb
    · exact .inl (Option.some.inj hb).symm
    · split at hb
      · exact .inr (Option.some.inj hb).symm
      · cases hb
  · cases h
    split
    · exact .inl rfl
    · exact .inr rfl

theorem chspecBwOf_le {bw c : ℕ} (h : chspecBwOf bw = some c) : bw ≤ 160 := by
  unfold chspecBwOf at h
  split_ifs at h <;> omega

/-- What is known of an 80+80 text when its `+` is read. -/
theorem readHead_plus80 {a rest : List Char} {p : ChspecParts} (h : readHead a = .plus80 p rest) :
    (p.chspecBw = WL_CHANSPEC_BW_8080 ∧ p.sbUl = none) ∧ p.bw ≤ 160 ∧
      (p.band = WL_CHANSPEC_BAND_2G ∨ p.band = WL_CHANSPEC_BAND_5G) := by
  unfold readHead at h
  split at h
  · cases h
  · cases h
  · rename_i band ctlCh c a₁ hch
    split_ifs at h
    split at h
    · cases h
    · split at h
      · cases h
      · rename_i bw a₂ _ _ chspecBw hbw
        unfold readSuffix at h
        simp only at h
        split_ifs at h
        cases h
        exact ⟨⟨rfl, rfl⟩, chspecBwOf_le hbw, readChannel_band hch⟩

theorem channelToSb_lt {c ctl bw sb : ℕ} (h : channelToSb c ctl bw = some sb) : sb < bw / 20 := by
  unfold channelToSb at h
  simp only at h
  split_ifs at h with h4 hlt
  cases h
  omega

theorem channel80mhzToId_eq_some {ch i : ℕ} (h : channel80mhzToId ch = some i) :
    i < 6 ∧ 42 ≤ ch ∧ (i = 0 → ch = 42) := by
  obtain ⟨hi, rfl, -⟩ := List.idxOf?_eq_some_iff.1 h
  have hi : i < 6 := hi
  interval_cases i <;> simp [wf5g80mChans]

/-- The bits of an 80+80 text. -/
theorem centerPair_eq_some {p : ChspecParts} {ch sb : ℕ} (h : centerPair p = some (ch, sb))
    (hbw : p.bw ≤ 160) :
    ∃ i < 6, ∃ j < 6, j ≠ 0 ∧ ∃ k < 12, ch = i ||| j * 16 ∧ sb = k * 256 := by
  unfold centerPair at h
  obtain ⟨i, hi, h⟩ := Option.bind_eq_some_iff.1 h
  obtain ⟨j, hj, h⟩ := Option.bind_eq_some_iff.1 h
  split_ifs at h with hle
  obtain ⟨k, hk, h⟩ := Option.bind_eq_some_iff.1 h
  cases h
  obtain ⟨hi6, hi42, -⟩ := channel80mhzToId_eq_some hi
  obtain ⟨hj6, -, hj0⟩ := channel80mhzToId_eq_some hj
  refine ⟨i, hi6, j, hj6, by omega, k, ?_, rfl, rfl⟩
  rcases Option.or_eq_some_iff.1 hk with h1 | ⟨-, h2⟩
  · have := channelToSb_lt h1
    omega
  · obtain ⟨k', hk', rfl⟩ := Option.map_eq_some_iff.1 h2
    have := channelToSb_lt hk'
    omega

/-- An 80+80 chanspec is malformed, since its second channel is taken unshifted. -/
theorem malformed_plus80 : ∀ i < 6, ∀ j < 6, j ≠ 0 → ∀ k < 12,
    ∀ band ∈ [WL_CHANSPEC_BAND_2G, WL_CHANSPEC_BAND_5G],
      wfChspecMalformed
        (((i ||| j * 16) ||| band ||| WL_CHANSPEC_BW_8080 ||| k * 256) % 65536) = true := by
  decide +kernel

theorem finishChspec_plus80 {a a₁ rest : List Char} {p : ChspecParts} {ch1 ch2 : ℕ}
    (h : readHead a = .plus80 p a₁) : finishChspec { p with ch1, ch2 } rest = 0 := by
  obtain ⟨⟨hbw, hsb⟩, h160, hband⟩ := readHead_plus80 h
  unfold finishChspec
  split
  · rfl
  · have hcenter : centerOf { p with ch1, ch2 } = centerPair { p with ch1, ch2 } := by
      simp only [centerOf, hsb, hbw]
      rfl
    rw [hcenter]
    split
    · rfl
    · rename_i ch sb hpair
      obtain ⟨i, hi, j, hj, hj0, k, hk, rfl, rfl⟩ := centerPair_eq_some hpair h160
      have hmem : p.band ∈ [WL_CHANSPEC_BAND_2G, WL_CHANSPEC_BAND_5G] := by simpa using hband
      have := malformed_plus80 i hi j hj hj0 k hk p.band hmem
      rw [← hbw] at this
      simp only [this, if_true]

/-- **A chanspec that is not `0` was read without `plus80`.** -/
theorem wfChspecAton_ne_zero {st st' c : ℕ} {a : List Char} (h : wfChspecAton st a = some (st', c))
    (hc : c ≠ 0) : st' = st ∧ ∀ st₂, wfChspecAton st₂ a = some (st₂, c) := by
  unfold wfChspecAton at h ⊢
  cases hhead : readHead a with
  | invalid =>
    rw [hhead] at h
    cases h
    exact absurd rfl hc
  | whole p rest =>
    rw [hhead] at h
    cases h
    exact ⟨rfl, fun _ => rfl⟩
  | plus80 p rest =>
    simp only [hhead] at h
    refine absurd ?_ hc
    split at h
    · cases h
    · cases h
      rfl
    · split at h
      · cases h
        rfl
      · rename_i p' rest' hpair
        obtain ⟨⟨ch1, a₁⟩, -, hpair⟩ := Option.bind_eq_some_iff.1 hpair
        simp only at hpair
        split at hpair
        · obtain ⟨⟨ch2, a₂⟩, -, hpair⟩ := Option.bind_eq_some_iff.1 hpair
          cases hpair
          cases h
          exact finishChspec_plus80 hhead
        · cases hpair

theorem finishChspec_lt (p : ChspecParts) (rest : List Char) : finishChspec p rest < 65536 := by
  unfold finishChspec
  split_ifs
  · omega
  · split
    · omega
    · simp only
      split_ifs <;> omega

/-- The result is a `chanspec_t`. -/
theorem wfChspecAton_lt {st st' c : ℕ} {a : List Char} (h : wfChspecAton st a = some (st', c)) :
    c < 65536 := by
  unfold wfChspecAton at h
  split at h
  · cases h
    omega
  · cases h
    exact finishChspec_lt _ _
  · split at h
    · cases h
    · cases h
      omega
    · split at h <;> cases h
      · omega
      · exact finishChspec_lt _ _

end LocTag
