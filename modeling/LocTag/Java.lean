import LocTag.Lib.Words
import LocTag.Lib.Numerals
import LocTag.Lib.Records
import Mathlib.Algebra.Order.Floor.Ring
import Mathlib.Data.List.DropRight
import Mathlib.Data.Rat.Floor
import Mathlib.Tactic.Linarith

/-!
# Java values

Byte arrays, the wrapping of `int`, exceptions, and the texts that C and Java code print alike.
-/

namespace LocTag

open Lib

/-- A Java `byte[]`: its length is a non-negative `int`. -/
structure JByteArray where
  data : List UInt8
  length_lt : data.length < 2147483648

/-- The memory `GetByteArrayElements` gives access to. -/
def JByteArray.mem (b : JByteArray) : Mem := Mem.ofList b.data

/-- The `int` an arithmetic result wraps to. -/
def jint (x : ℤ) : ℤ := toI32 (toU32 x)

/-- `s.split(sep)` for a one-character separator: no separator gives the string itself, otherwise
empty strings at the end are left out. -/
def javaSplit (sep : Char) (s : List Char) : List (List Char) :=
  if sep ∈ s then (s.splitOn sep).rdropWhile List.isEmpty else [s]

/-- The exceptions the modelled code throws; only `io` is a checked one. -/
inductive JavaException where
  | nullPointer
  | arrayIndexOutOfBounds
  | numberFormat
  | negativeArraySize
  | outOfMemory
  | io
  deriving DecidableEq

/-- `%s` of a string, which may be `null`. -/
def strArg (s : Option (List Char)) : List Char := s.getD "null".toList

/-- `%.1f` of a number that is not negative. -/
def fixed1 (q : ℚ) : List Char :=
  let tenths := ⌊q * 10 + 1 / 2⌋.toNat
  Nat.toDigits 10 (tenths / 10) ++ '.' :: Nat.toDigits 10 (tenths % 10)

/-- The value of a number printed with `%.1f`. -/
def readFixed1 (s : List Char) : ℚ :=
  let whole := readDigits 10 0 s
  (whole.1 : ℚ) + ((readDigits 10 0 whole.2.tail).1 : ℚ) / 10

/-- `%02d` -/
def pad2 : ℤ → List Char
  | .ofNat n => (Nat.toDigits 10 n).leftpad 2 '0'
  | .negSucc n => '-' :: Nat.toDigits 10 (n + 1)

/-- `%02x` of a byte. -/
def hex2 (b : UInt8) : List Char := [Nat.digitChar (b.toNat / 16), Nat.digitChar (b.toNat % 16)]

/-- `MACSTR` of the six bytes of an address. -/
def macStr (a : List UInt8) : List Char := [':'].intercalate (a.map hex2)

/-- The bytes of an ASCII text. -/
def asciiBytes (s : List Char) : List UInt8 := s.map fun c => UInt8.ofNat c.toNat

theorem jint_eq (x : ℤ) : jint x = (x + 2147483648) % 4294967296 - 2147483648 := by
  unfold jint toI32 toU32
  split <;> omega

theorem jint_bounds (x : ℤ) : -2147483648 ≤ jint x ∧ jint x < 2147483648 := by
  rw [jint_eq]
  omega

/-- Nothing wraps exactly in the range of `int`. -/
theorem jint_eq_self_iff {x : ℤ} : jint x = x ↔ -2147483648 ≤ x ∧ x < 2147483648 := by
  rw [jint_eq]
  omega

/-- Wrapping the summands first changes nothing. -/
theorem jint_add_jint (x y : ℤ) : jint (jint x + y) = jint (x + y) := by
  rw [jint_eq, jint_eq, jint_eq]
  omega

/-- **A half-integer is printed with `%.1f` as it is.** -/
theorem readFixed1_fixed1 (n : ℕ) : readFixed1 (fixed1 ((n : ℚ) / 2)) = (n : ℚ) / 2 := by
  have htenths : ⌊(n : ℚ) / 2 * 10 + 1 / 2⌋.toNat = 5 * n := by
    have hfloor : ⌊(n : ℚ) / 2 * 10 + 1 / 2⌋ = ((5 * n : ℕ) : ℤ) := by
      rw [Int.floor_eq_iff]
      push_cast
      constructor <;> linarith
    rw [hfloor, Int.toNat_natCast]
  have hwhole : readDigits 10 0 (fixed1 ((n : ℚ) / 2)) =
      (5 * n / 10, '.' :: Nat.toDigits 10 (5 * n % 10)) := by
    simp only [fixed1, htenths]
    rw [readDigits_toDigits (by omega) (by omega), readDigits_of_not_digit (by rfl)]
  have htenth := readDigits_toDigits (by omega : 1 < 10) (by omega) (5 * n % 10) []
  rw [List.append_nil] at htenth
  simp only [readFixed1, hwhole, List.tail_cons, htenth, readDigits]
  have hsplit : ((5 * n : ℕ) : ℚ) = 10 * (5 * n / 10 : ℕ) + (5 * n % 10 : ℕ) := by
    exact_mod_cast (Nat.div_add_mod (5 * n) 10).symm
  push_cast at hsplit ⊢
  linarith

theorem not_mem_hex2 {c : Char} (hc : digitVal c = none) (b : UInt8) : c ∉ hex2 b := by
  have hb := b.toNat_lt
  have hhigh := digitChar_ne hc (by omega : b.toNat / 16 < 16)
  have hlow := digitChar_ne hc (by omega : b.toNat % 16 < 16)
  simp [hex2, hhigh, hlow]

/-- What no printed number and no address contains. -/
def Delimiter (c : Char) : Prop :=
  digitVal c = none ∧ c ≠ '-' ∧ c ≠ '.' ∧ c ≠ ':'

theorem Delimiter.not_mem_fixed1 {c : Char} (h : Delimiter c) (q : ℚ) : c ∉ fixed1 q := by
  have hdigits := not_mem_toDigits (by omega : 1 < 10) (by omega) h.1
  simp [fixed1, hdigits, h.2.2.1]

theorem Delimiter.not_mem_macStr {c : Char} (h : Delimiter c) (a : List UInt8) : c ∉ macStr a := by
  rw [macStr, mem_intercalate h.2.2.2]
  rintro ⟨f, hf, hc⟩
  obtain ⟨b, -, rfl⟩ := List.mem_map.1 hf
  exact not_mem_hex2 h.1 b hc

theorem not_mem_pad2 {c : Char} (hc : digitVal c = none) (hsign : c ≠ '-') (d : ℤ) :
    c ∉ pad2 d := by
  have hdigits := not_mem_toDigits (by omega : 1 < 10) (by omega) hc
  have hzero : c ≠ '0' := by
    rintro rfl
    cases hc
  cases d with
  | ofNat n => simp [pad2, List.leftpad, hdigits, hzero]
  | negSucc n => simp [pad2, hdigits, hsign]

theorem pad2_ne_nil (d : ℤ) : pad2 d ≠ [] := by
  cases d with
  | ofNat n =>
    obtain ⟨c, s, -, hs⟩ := toDigits_eq_cons (by omega : 1 < 10) n
    simp [pad2, List.leftpad, hs]
  | negSucc n => simp [pad2]

/-- A split without empty parts loses nothing. -/
theorem javaSplit_eq_splitOn {sep : Char} {s : List Char}
    (h : ∀ t ∈ s.splitOn sep, t ≠ []) :
    javaSplit sep s = s.splitOn sep := by
  unfold javaSplit
  split
  · apply List.rdropWhile_eq_self_iff.2
    intro hl
    simpa using h _ (List.getLast_mem hl)
  · rename_i hsep
    rw [List.splitOn_eq_singleton hsep]

theorem length_macStr : ∀ {a : List UInt8}, a.length = 6 → (macStr a).length = 17
  | [_, _, _, _, _, _], _ => rfl

end LocTag
