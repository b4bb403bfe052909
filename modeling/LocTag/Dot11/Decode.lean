import LocTag.Java
import Mathlib.Data.Rat.Defs

/-!
# The decoder of captured 802.11 frames

`buffToDot11Rt` of `JNICsi.c`, over the structs of `nex_dot11rt.h` laid on the received bytes: the
radiotap header of the firmware at the start of the frame, the 802.11 header `it_len` bytes
further, the first tagged parameter of a beacon 36 bytes after that.

The C code reads through these structs wherever they point, so the decoder is a `Fetch`: which
indices it consults, and over which memory it ends, is for `Dot11.Bounds`.
-/

namespace LocTag

open Lib Lib.Fetch

/-! ### The structs of `nex_dot11rt.h` -/

/-- `struct nexmon_radiotap_header`, packed; `p` is its address. -/
def sizeofNexmonRadiotapHeader : ℕ := 40

def itLen (p : ℕ) : Fetch ℕ := le16 (p + 2)
def itPresent (p : ℕ) : Fetch ℕ := le32 (p + 4)
def dataRate (p : ℕ) : Fetch UInt8 := u8 (p + 17)
def chanFreq (p : ℕ) : Fetch ℕ := le16 (p + 18)
def dbmAntsignal (p : ℕ) : Fetch ℤ := do pure (toI8 (← u8 (p + 22)))
def dbmAntnoise (p : ℕ) : Fetch ℤ := do pure (toI8 (← u8 (p + 23)))

/-- The bit-fields of `struct ieee80211_hdr` lie from the low bits of its first byte upwards. -/
def hdrType (p : ℕ) : Fetch ℕ := do pure ((← u8 p).toNat / 4 % 4)
def hdrSubtype (p : ℕ) : Fetch ℕ := do pure ((← u8 p).toNat / 16)
def addr1 (p : ℕ) : Fetch (List UInt8) := block (p + 4) 6
def addr2 (p : ℕ) : Fetch (List UInt8) := block (p + 10) 6

/-- `struct tagged_parameter`: number, length, text. -/
def tagNum (p : ℕ) : Fetch UInt8 := u8 p
def tagLen (p : ℕ) : Fetch UInt8 := u8 (p + 1)
def tagBuf (p len : ℕ) : Fetch (List UInt8) := cstr (p + 2) len

/-! ### The Java object -/

/-- `Dot11Rt.java`, with the defaults of a new object; the rate is the exact value of the double,
`SSID` the C string handed to `NewStringUTF`. -/
structure Dot11Rt where
  status : ℤ := 0
  txMac : Option (List Char) := none
  rxMac : Option (List Char) := none
  rate : ℚ := 0
  cFreq : ℤ := 0
  rssi : ℤ := 0
  noise : ℤ := 0
  type : ℤ := 0
  subtype : ℤ := 0
  SSID : Option (List UInt8) := none
  deriving DecidableEq

/-- `Dot11Rt.toString`, where `newStringUTF` gives the text of the SSID's C string. -/
def Dot11Rt.toString (newStringUTF : List UInt8 → List Char) (obj : Dot11Rt) : List Char :=
  [','].intercalate [decimal obj.status, strArg obj.txMac, strArg obj.rxMac, fixed1 obj.rate,
    decimal obj.cFreq, decimal obj.rssi, decimal obj.noise, decimal obj.type, decimal obj.subtype,
    strArg (obj.SSID.map newStringUTF)]

/-- The text `sprintf(buf, "%.*s", ssid_set->len, ssid_set->buf)` prints, for a beacon whose first
tag is an SSID; `none` where `buf[0] = '\\0'` instead. -/
def ssidText (type subtype ssidSet : ℕ) : Fetch (Option (List UInt8)) :=
  if type = 0 ∧ subtype = 8 then do
    let num ← tagNum ssidSet
    if num = 0 then do
      let len ← tagLen ssidSet
      let text ← tagBuf ssidSet len.toNat
      pure (some text)
    else pure none
  else pure none

/-- `buffToDot11Rt` past its checks.  The second component lists what the calls of `sprintf`
print into `char buf[64]`, without the NUL. -/
def decodeDot11 (rhdr hdr ssidSet : ℕ) : Fetch (Dot11Rt × List (List UInt8)) := do
  let txMac ← addr2 hdr
  let rxMac ← addr1 hdr
  let rate ← dataRate rhdr
  let cFreq ← chanFreq rhdr
  let rssi ← dbmAntsignal rhdr
  let noise ← dbmAntnoise rhdr
  let type ← hdrType hdr
  let subtype ← hdrSubtype hdr
  let ssid ← ssidText type subtype ssidSet
  pure ({ status := 0, txMac := macStr txMac, rxMac := macStr rxMac, rate := (rate.toNat : ℚ) / 2,
          cFreq := cFreq, rssi := rssi, noise := noise, type := type, subtype := subtype,
          SSID := ssid.getD [] },
    [asciiBytes (macStr txMac), asciiBytes (macStr rxMac)] ++ ssid.toList)

/-- `buffToDot11Rt`.  The two pointers are computed from `it_len` before the length is checked;
`iLength` is compared as an unsigned integer. -/
def buffToDot11Rt (iOffset : ℕ) (iLength : ℤ) : Fetch (Dot11Rt × List (List UInt8)) := do
  let rhdr := iOffset
  let hdr := iOffset + (← itLen rhdr)
  let ssidSet := iOffset + (← itLen rhdr) + 0x24
  if toU32 iLength < sizeofNexmonRadiotapHeader then pure ({ status := 1 }, []) else do
    let present ← itPresent rhdr
    if present ≠ 0x4008006f then pure ({ status := 1 }, []) else decodeDot11 rhdr hdr ssidSet

/-! ### Values of the fields -/

section Values

variable {m : Mem} {p : ℕ}

@[simp] theorem value_itLen : value m (itLen p) = m.le16At (p + 2) := value_le16 _

@[simp] theorem value_itPresent : value m (itPresent p) = m.le32At (p + 4) := value_le32 _

@[simp] theorem value_hdrType : value m (hdrType p) = m.u8At p / 4 % 4 := by
  simp [hdrType, Mem.u8At]

@[simp] theorem value_hdrSubtype : value m (hdrSubtype p) = m.u8At p / 16 := by
  simp [hdrSubtype, Mem.u8At]

@[simp] theorem value_addr1 : value m (addr1 p) = m.blockAt (p + 4) 6 := value_block _ _

@[simp] theorem value_addr2 : value m (addr2 p) = m.blockAt (p + 10) 6 := value_block _ _

theorem value_ssidText {type subtype : ℕ} : value m (ssidText type subtype p) =
    if (type = 0 ∧ subtype = 8) ∧ m.u8At p = 0 then
      some (value m (cstr (p + 2) (m.u8At (p + 1)))) else none := by
  by_cases hb : type = 0 ∧ subtype = 8
  · simp only [ssidText, hb, and_self, if_true, true_and, tagNum, tagLen, tagBuf, value_bind,
      value_ite, value_pure, value_u8, ← Mem.u8At.eq_1]
    exact if_congr Mem.getD_eq_zero_iff rfl rfl
  · rw [ssidText, if_neg hb, if_neg fun h => hb h.1, value_pure]

end Values

end LocTag
