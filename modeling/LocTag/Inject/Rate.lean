import LocTag.Root.Lines
import Mathlib.Data.Rat.Floor

/-!
# The rate of an injection

Four spinners of `InjectionFragment` choose the PHY and an MCS or a rate.  Their listeners write the
choice into the bit fields of `ipc.ratespec`, and show and hide each other; those of the two rate
spinners write without asking for the PHY.

`rateOk_step_iff`: a selection keeps the rate in `ratespec` the one shown iff a rate spinner is used
only while it is shown.
-/

namespace LocTag

open Lib

/-! ### `InjectPhyConf` -/

def RATES_RATE_MASK : BitVec 32 := 0x000000FF
def RATES_VHT_MCS_MASK : BitVec 32 := 0x0000000F
def RATES_VHT_MCS_SHIFT : ℕ := 0
def RATES_VHT_NSS_MASK : BitVec 32 := 0x000000F0
def RATES_VHT_NSS_SHIFT : ℕ := 4
def RATES_HT_MCS_MASK : BitVec 32 := 0x00000007
def RATES_HT_MCS_SHIFT : ℕ := 0
def RATES_ENCODING_MASK : BitVec 32 := 0x03000000
def RATES_OVERRIDE_RATE : BitVec 32 := 0x40000000
def RATES_OVERRIDE_MODE : BitVec 32 := 0x80000000
def RATES_ENCODE_RATE : BitVec 32 := 0x00000000
def RATES_ENCODE_HT : BitVec 32 := 0x01000000
def RATES_ENCODE_VHT : BitVec 32 := 0x02000000

namespace InjectPhyConf

/-- `new InjectPhyConf()` -/
def new : InjectPhyConf :=
  { delay := 10, period := 1000, number := 10, ratespec := (0xc1000000 : BitVec 32).toInt }

variable (ipc : InjectPhyConf)

def setInject (delay period number : ℤ) : InjectPhyConf := { ipc with delay, period, number }

/-- The second argument is not used. -/
def setHtMcs (mcs _nss : ℤ) : InjectPhyConf :=
  let ratespec := 0#32
  let ratespec := ratespec ||| (BitVec.ofInt 32 mcs <<< RATES_HT_MCS_SHIFT &&& RATES_HT_MCS_MASK)
  let ratespec := ratespec ||| (RATES_OVERRIDE_RATE ||| RATES_OVERRIDE_MODE ||| RATES_ENCODE_HT)
  { ipc with ratespec := ratespec.toInt }

/-- The second argument is not used here either. -/
def setVhtMcs (mcs _nss : ℤ) : InjectPhyConf :=
  let ratespec := 0#32
  let ratespec := ratespec ||| (BitVec.ofInt 32 mcs <<< RATES_VHT_MCS_SHIFT &&& RATES_VHT_MCS_MASK)
  let ratespec := ratespec ||| (1#32 <<< RATES_VHT_NSS_SHIFT &&& RATES_VHT_NSS_MASK)
  let ratespec := ratespec ||| (RATES_OVERRIDE_RATE ||| RATES_OVERRIDE_MODE ||| RATES_ENCODE_VHT)
  { ipc with ratespec := ratespec.toInt }

def setLegacyRate (rateIn500kbpsUnits : ℤ) : InjectPhyConf :=
  { ipc with ratespec := (BitVec.ofInt 32 rateIn500kbpsUnits &&& RATES_RATE_MASK).toInt }

end InjectPhyConf

/-! ### The spinners -/

/-- The items of `spinner_phy`. -/
inductive Phy where
  | HT
  | VHT
  | DSSS
  | OFDM
  deriving DecidableEq

/-- The items of `spinner_mcs`. -/
def mcsItem (i : Fin 8) : ℤ := i

/-- The items of `spinner_rateDsss`, in Mb/s. -/
def rateDsssItem (i : Fin 4) : ℚ := [1, 2, 11 / 2, 11].get i

/-- The items of `spinner_rateOfdm`, in Mb/s. -/
def rateOfdmItem (i : Fin 8) : ℚ := [6, 9, 12, 18, 24, 36, 48, 54].get i

/-- `Math.round(2*Float.parseFloat(..))`, which is exact for the items. -/
def rateIn500kbpsUnits (item : ℚ) : ℤ := ⌊2 * item + 1 / 2⌋

/-- The spinners with the items selected, which of them are shown, and the configuration. -/
structure RateForm where
  phy : Phy
  mcs : Fin 8
  rateDsss : Fin 4
  rateOfdm : Fin 8
  mcsVisible : Bool
  rateDsssVisible : Bool
  rateOfdmVisible : Bool
  ipc : InjectPhyConf

namespace RateForm

/-- The fragment when its view is made. -/
def created : RateForm :=
  { phy := .HT, mcs := 0, rateDsss := 0, rateOfdm := 0,
    mcsVisible := true, rateDsssVisible := false, rateOfdmVisible := false,
    ipc := (InjectPhyConf.new.setInject 0 1000 1).setHtMcs 1 0 }

variable (s : RateForm)

/-- The listener of `spinner_phy`. -/
def onPhySelected : RateForm :=
  match s.phy with
  | .HT => { s with
      rateDsssVisible := false, rateOfdmVisible := false, mcsVisible := true,
      ipc := s.ipc.setHtMcs (mcsItem s.mcs) 1 }
  | .VHT => { s with
      rateDsssVisible := false, rateOfdmVisible := false, mcsVisible := true,
      ipc := s.ipc.setVhtMcs (mcsItem s.mcs) 1 }
  | .DSSS => { s with
      rateDsssVisible := true, rateOfdmVisible := false, mcsVisible := false,
      ipc := s.ipc.setLegacyRate (rateIn500kbpsUnits (rateDsssItem s.rateDsss)) }
  | .OFDM => { s with
      rateDsssVisible := false, rateOfdmVisible := true, mcsVisible := false,
      ipc := s.ipc.setLegacyRate (rateIn500kbpsUnits (rateOfdmItem s.rateOfdm)) }

/-- The listener of `spinner_mcs`. -/
def onMcsSelected : RateForm :=
  match s.phy with
  | .HT => { s with ipc := s.ipc.setHtMcs (mcsItem s.mcs) 1 }
  | .VHT => { s with ipc := s.ipc.setVhtMcs (mcsItem s.mcs) 1 }
  | .DSSS | .OFDM => s

/-- The listener of `spinner_rateDsss`. -/
def onRateDsssSelected : RateForm :=
  { s with ipc := s.ipc.setLegacyRate (rateIn500kbpsUnits (rateDsssItem s.rateDsss)) }

/-- The listener of `spinner_rateOfdm`. -/
def onRateOfdmSelected : RateForm :=
  { s with ipc := s.ipc.setLegacyRate (rateIn500kbpsUnits (rateOfdmItem s.rateOfdm)) }

end RateForm

/-- An item of a spinner is selected, by the user or when the spinner is first laid out. -/
inductive SpinnerAct where
  | phy (phy : Phy)
  | mcs (i : Fin 8)
  | rateDsss (i : Fin 4)
  | rateOfdm (i : Fin 8)
  deriving DecidableEq

/-- The selection changes, and the listener is called. -/
def RateForm.step (s : RateForm) : SpinnerAct → RateForm
  | .phy phy => { s with phy }.onPhySelected
  | .mcs i => { s with mcs := i }.onMcsSelected
  | .rateDsss i => { s with rateDsss := i }.onRateDsssSelected
  | .rateOfdm i => { s with rateOfdm := i }.onRateOfdmSelected

/-! ### Rates -/

/-- What a user chooses: an MCS of HT or VHT, with the number of streams, or a rate in Mb/s. -/
inductive Rate where
  | ht (mcs : ℕ)
  | vht (mcs nss : ℕ)
  | legacy (mbps : ℚ)
  deriving DecidableEq

/-- The rate in a ratespec, by its bit fields. -/
def readRatespec (b : BitVec 32) : Option Rate :=
  if b &&& RATES_ENCODING_MASK = RATES_ENCODE_HT then some (.ht (b &&& RATES_HT_MCS_MASK).toNat)
  else if b &&& RATES_ENCODING_MASK = RATES_ENCODE_VHT then
    some (.vht (b &&& RATES_VHT_MCS_MASK).toNat
      ((b &&& RATES_VHT_NSS_MASK) >>> RATES_VHT_NSS_SHIFT).toNat)
  else if b &&& RATES_ENCODING_MASK = RATES_ENCODE_RATE then
    some (.legacy ((b &&& RATES_RATE_MASK).toNat / 2))
  else none

namespace InjectPhyConf

variable (ipc : InjectPhyConf)

/-- The rate configured. -/
def rate : Option Rate := readRatespec (BitVec.ofInt 32 ipc.ratespec)

theorem toNat_and_mask {b m : BitVec 32} {n : ℕ} (h : m.toNat = 2 ^ n - 1) :
    (b &&& m).toNat = b.toNat % 2 ^ n := by
  rw [BitVec.toNat_and, h, Nat.and_two_pow_sub_one_eq_mod]

/-- **What `setHtMcs` sets is read back**, but for the bits of an MCS beyond 7. -/
theorem rate_setHtMcs (mcs nss : ℤ) :
    (ipc.setHtMcs mcs nss).rate = some (.ht (toU32 mcs % 8)) := by
  have hencoding : ((BitVec.ofInt 32 mcs &&& RATES_HT_MCS_MASK) |||
      (RATES_OVERRIDE_RATE ||| RATES_OVERRIDE_MODE ||| RATES_ENCODE_HT)) &&& RATES_ENCODING_MASK =
      RATES_ENCODE_HT := field_of_disjoint (by decide)
  have hmcs : ((BitVec.ofInt 32 mcs &&& RATES_HT_MCS_MASK) |||
      (RATES_OVERRIDE_RATE ||| RATES_OVERRIDE_MODE ||| RATES_ENCODE_HT)) &&& RATES_HT_MCS_MASK =
      BitVec.ofInt 32 mcs &&& RATES_HT_MCS_MASK := field_self (by decide)
  have hvalue : (BitVec.ofInt 32 mcs &&& RATES_HT_MCS_MASK).toNat = toU32 mcs % 8 :=
    toNat_and_mask (n := 3) rfl
  rw [rate, setHtMcs]
  simp only [BitVec.ofInt_toInt, RATES_HT_MCS_SHIFT, BitVec.shiftLeft_zero, BitVec.zero_or]
  rw [readRatespec, if_pos hencoding, hmcs, hvalue]

theorem rate_setVhtMcs (mcs nss : ℤ) :
    (ipc.setVhtMcs mcs nss).rate = some (.vht (toU32 mcs % 16) 1) := by
  let others := (1#32 <<< RATES_VHT_NSS_SHIFT &&& RATES_VHT_NSS_MASK) |||
    (RATES_OVERRIDE_RATE ||| RATES_OVERRIDE_MODE ||| RATES_ENCODE_VHT)
  have hencoding : ((BitVec.ofInt 32 mcs &&& RATES_VHT_MCS_MASK) ||| others) &&&
      RATES_ENCODING_MASK = RATES_ENCODE_VHT :=
    (field_of_disjoint (by decide)).trans (by decide)
  have hmcs : ((BitVec.ofInt 32 mcs &&& RATES_VHT_MCS_MASK) ||| others) &&& RATES_VHT_MCS_MASK =
      BitVec.ofInt 32 mcs &&& RATES_VHT_MCS_MASK :=
    field_self (by decide)
  have hnss : ((BitVec.ofInt 32 mcs &&& RATES_VHT_MCS_MASK) ||| others) &&& RATES_VHT_NSS_MASK =
      others &&& RATES_VHT_NSS_MASK := field_of_disjoint (by decide)
  have hvalue : (BitVec.ofInt 32 mcs &&& RATES_VHT_MCS_MASK).toNat = toU32 mcs % 16 :=
    toNat_and_mask (n := 4) rfl
  rw [rate, setVhtMcs]
  simp only [BitVec.ofInt_toInt, RATES_VHT_MCS_SHIFT, BitVec.shiftLeft_zero, BitVec.zero_or,
    BitVec.or_assoc _ (1#32 <<< RATES_VHT_NSS_SHIFT &&& RATES_VHT_NSS_MASK)]
  have hone : ((others &&& RATES_VHT_NSS_MASK) >>> RATES_VHT_NSS_SHIFT).toNat = 1 := by decide
  rw [readRatespec, hencoding, if_neg (by decide), if_pos rfl, hmcs, hvalue, hnss, hone]

theorem rate_setLegacyRate (r : ℤ) :
    (ipc.setLegacyRate r).rate = some (.legacy ((toU32 r % 256 : ℕ) / 2)) := by
  have hencoding : BitVec.ofInt 32 r &&& RATES_RATE_MASK &&& RATES_ENCODING_MASK =
      RATES_ENCODE_RATE := by
    rw [BitVec.and_assoc]
    exact BitVec.and_zero
  have hvalue : (BitVec.ofInt 32 r &&& RATES_RATE_MASK &&& RATES_RATE_MASK).toNat =
      toU32 r % 256 := by
    rw [BitVec.and_assoc, BitVec.and_self]
    exact toNat_and_mask (n := 8) rfl
  rw [rate, setLegacyRate]
  simp only [BitVec.ofInt_toInt]
  rw [readRatespec, hencoding, if_neg (by decide), if_neg (by decide), if_pos rfl, hvalue]

end InjectPhyConf

/-! ### What is shown -/

namespace RateForm

variable (s : RateForm)

/-- The rate that the spinners in sight stand for. -/
def shown : Rate :=
  match s.phy with
  | .HT => .ht (mcsItem s.mcs).toNat
  | .VHT => .vht (mcsItem s.mcs).toNat 1
  | .DSSS => .legacy (rateDsssItem s.rateDsss)
  | .OFDM => .legacy (rateOfdmItem s.rateOfdm)

/-- The rate configured is the one shown, and the spinners in sight are those of the PHY. -/
structure RateOk : Prop where
  rate : s.ipc.rate = some s.shown
  mcs : s.mcsVisible = true ↔ s.phy = .HT ∨ s.phy = .VHT
  rateDsss : s.rateDsssVisible = true ↔ s.phy = .DSSS
  rateOfdm : s.rateOfdmVisible = true ↔ s.phy = .OFDM

/-- The rate spinners are used only while they are shown. -/
def StepOk (s : RateForm) : SpinnerAct → Prop
  | .phy _ | .mcs _ => True
  | .rateDsss _ => s.rateDsssVisible = true
  | .rateOfdm _ => s.rateOfdmVisible = true

/-- Items of MCSs have three bits. -/
theorem toU32_mcsItem (i : Fin 8) : toU32 (mcsItem i) % 8 = (mcsItem i).toNat ∧
    toU32 (mcsItem i) % 16 = (mcsItem i).toNat := by
  have hlt := i.isLt
  have hitem : mcsItem i = ((i : ℕ) : ℤ) := rfl
  rw [hitem, toU32_natCast (by omega)]
  omega

/-- Rates are counted in steps of 500 kb/s. -/
theorem rate_item (ipc : InjectPhyConf) {item : ℚ} {n : ℕ} (hitem : item = n / 2) (h : n < 256) :
    (ipc.setLegacyRate (rateIn500kbpsUnits item)).rate = some (.legacy item) := by
  have hunits : rateIn500kbpsUnits ((n : ℚ) / 2) = n := by
    rw [rateIn500kbpsUnits, mul_div_cancel₀ _ two_ne_zero, Int.floor_eq_iff]
    push_cast
    constructor <;> linarith
  rw [InjectPhyConf.rate_setLegacyRate, hitem, hunits, toU32_natCast (by omega),
    Nat.mod_eq_of_lt h]

theorem rate_rateDsssItem (ipc : InjectPhyConf) (i : Fin 4) :
    (ipc.setLegacyRate (rateIn500kbpsUnits (rateDsssItem i))).rate =
      some (.legacy (rateDsssItem i)) := by
  have hhalf : ∀ i, rateDsssItem i = (([2, 4, 11, 22].get i : ℕ) : ℚ) / 2 := by decide +kernel
  have hlt : ∀ i : Fin 4, [2, 4, 11, 22].get i < 256 := by decide
  exact rate_item ipc (hhalf i) (hlt i)

theorem rate_rateOfdmItem (ipc : InjectPhyConf) (i : Fin 8) :
    (ipc.setLegacyRate (rateIn500kbpsUnits (rateOfdmItem i))).rate =
      some (.legacy (rateOfdmItem i)) := by
  have hhalf : ∀ i, rateOfdmItem i =
      (([12, 18, 24, 36, 48, 72, 96, 108].get i : ℕ) : ℚ) / 2 := by decide +kernel
  have hlt : ∀ i : Fin 8, [12, 18, 24, 36, 48, 72, 96, 108].get i < 256 := by decide
  exact rate_item ipc (hhalf i) (hlt i)

/-- The two rate spinners have no item in common. -/
theorem rateDsssItem_ne (i : Fin 4) (j : Fin 8) : rateDsssItem i ≠ rateOfdmItem j := by
  revert i j
  decide +kernel

/-! ### Selections -/

variable {s : RateForm}

theorem rate_setHtMcs_mcsItem (ipc : InjectPhyConf) (i : Fin 8) :
    (ipc.setHtMcs (mcsItem i) 1).rate = some (.ht (mcsItem i).toNat) := by
  rw [InjectPhyConf.rate_setHtMcs, (toU32_mcsItem i).1]

theorem rate_setVhtMcs_mcsItem (ipc : InjectPhyConf) (i : Fin 8) :
    (ipc.setVhtMcs (mcsItem i) 1).rate = some (.vht (mcsItem i).toNat 1) := by
  rw [InjectPhyConf.rate_setVhtMcs, (toU32_mcsItem i).2]

/-- The listener of `spinner_phy` sets everything. -/
theorem rateOk_onPhySelected (s : RateForm) : s.onPhySelected.RateOk := by
  obtain ⟨phy, mcs, rateDsss, rateOfdm, _, _, _, ipc⟩ := s
  cases phy with
  | HT => refine ⟨rate_setHtMcs_mcsItem ipc mcs, ?_, ?_, ?_⟩ <;> simp [onPhySelected]
  | VHT => refine ⟨rate_setVhtMcs_mcsItem ipc mcs, ?_, ?_, ?_⟩ <;> simp [onPhySelected]
  | DSSS => refine ⟨rate_rateDsssItem ipc rateDsss, ?_, ?_, ?_⟩ <;> simp [onPhySelected]
  | OFDM => refine ⟨rate_rateOfdmItem ipc rateOfdm, ?_, ?_, ?_⟩ <;> simp [onPhySelected]

/-- The listener of `spinner_mcs` asks for the PHY. -/
theorem rateOk_onMcsSelected (h : s.RateOk) (i : Fin 8) :
    ({ s with mcs := i } : RateForm).onMcsSelected.RateOk := by
  obtain ⟨phy, mcs, rateDsss, rateOfdm, _, _, _, ipc⟩ := s
  cases phy with
  | HT => exact ⟨rate_setHtMcs_mcsItem ipc i, h.mcs, h.rateDsss, h.rateOfdm⟩
  | VHT => exact ⟨rate_setVhtMcs_mcsItem ipc i, h.mcs, h.rateDsss, h.rateOfdm⟩
  | DSSS => exact ⟨h.rate, h.mcs, h.rateDsss, h.rateOfdm⟩
  | OFDM => exact ⟨h.rate, h.mcs, h.rateDsss, h.rateOfdm⟩

/-- The listeners of the rate spinners write a rate whatever the PHY is. -/
theorem rateOk_setLegacyRate_iff (s' : RateForm) (h : s.RateOk) (hphy : s'.phy = s.phy)
    (hmcs : s'.mcsVisible = s.mcsVisible) (hdsss : s'.rateDsssVisible = s.rateDsssVisible)
    (hofdm : s'.rateOfdmVisible = s.rateOfdmVisible) {item : ℚ}
    (hrate : s'.ipc.rate = some (.legacy item)) : s'.RateOk ↔ s'.shown = .legacy item := by
  constructor
  · intro h'
    exact (Option.some.inj (hrate.symm.trans h'.rate)).symm
  · intro hshown
    refine ⟨by rw [hrate, hshown], ?_, ?_, ?_⟩
    · rw [hmcs, hphy]
      exact h.mcs
    · rw [hdsss, hphy]
      exact h.rateDsss
    · rw [hofdm, hphy]
      exact h.rateOfdm

/-- **The step lemma**: which selections keep the rate. -/
theorem rateOk_step_iff (h : s.RateOk) (a : SpinnerAct) : (s.step a).RateOk ↔ StepOk s a := by
  cases a with
  | phy phy => exact iff_of_true (rateOk_onPhySelected _) trivial
  | mcs i => exact iff_of_true (rateOk_onMcsSelected h i) trivial
  | rateDsss i =>
    have hstep := rateOk_setLegacyRate_iff (s.step (.rateDsss i)) h rfl rfl rfl rfl
      (rate_rateDsssItem s.ipc i)
    rw [hstep, StepOk, h.rateDsss]
    obtain ⟨phy, mcs, rateDsss, rateOfdm, _, _, _, ipc⟩ := s
    cases phy with
    | HT => simp [step, onRateDsssSelected, shown]
    | VHT => simp [step, onRateDsssSelected, shown]
    | DSSS => simp [step, onRateDsssSelected, shown]
    | OFDM => simp [step, onRateDsssSelected, shown, (rateDsssItem_ne i rateOfdm).symm]
  | rateOfdm i =>
    have hstep := rateOk_setLegacyRate_iff (s.step (.rateOfdm i)) h rfl rfl rfl rfl
      (rate_rateOfdmItem s.ipc i)
    rw [hstep, StepOk, h.rateOfdm]
    obtain ⟨phy, mcs, rateDsss, rateOfdm, _, _, _, ipc⟩ := s
    cases phy with
    | HT => simp [step, onRateOfdmSelected, shown]
    | VHT => simp [step, onRateOfdmSelected, shown]
    | DSSS => simp [step, onRateOfdmSelected, shown, rateDsssItem_ne rateDsss i]
    | OFDM => simp [step, onRateOfdmSelected, shown]

end RateForm

end LocTag
