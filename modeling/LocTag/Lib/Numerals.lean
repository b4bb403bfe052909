import LocTag.Lib.Words
import Mathlib.Tactic.IntervalCases

/-!
# Numerals

Printing of integers (`%d`, `%x`, `%08x`) and their reading back by the `strtoul` and `strtol` of a
C library whose `long` has 32 bits.  Texts are lists of characters; a C string ends where its list
does.

A numeral is read by `readDigits`, digit by digit onto an accumulator.  What was printed is read
back (`readDigits_toDigits`), so `strtoul` of a printed integer is the integer modulo `2 ^ 32`
(`strtoul_decimal`, `strtoul_hexPad`).
-/

namespace LocTag.Lib

/-! ### Printing -/

/-- `%d` -/
def decimal : ℤ → List Char
  | .ofNat n => Nat.toDigits 10 n
  | .negSucc n => '-' :: Nat.toDigits 10 (n + 1)

/-- `%0wx` of an unsigned integer -/
def hexPad (w n : ℕ) : List Char := (Nat.toDigits 16 n).leftpad w '0'

/-! ### Reading -/

/-- The value of a digit or letter. -/
def digitVal (c : Char) : Option ℕ :=
  if '0' ≤ c ∧ c ≤ '9' then some (c.toNat - 48)
  else if 'a' ≤ c ∧ c ≤ 'z' then some (c.toNat - 87)
  else if 'A' ≤ c ∧ c ≤ 'Z' then some (c.toNat - 55)
  else none

/-- The value of a digit of base `b`. -/
def digitIn (b : ℕ) (c : Char) : Option ℕ := (digitVal c).filter (· < b)

/-- Reads the digits at the head of a text onto `acc`. -/
def readDigits (b acc : ℕ) : List Char → ℕ × List Char
  | [] => (acc, [])
  | c :: s => match digitIn b c with
    | some d => readDigits b (acc * b + d) s
    | none => (acc, c :: s)

/-- `isspace` of the C locale. -/
def isSpace (c : Char) : Bool := c ∈ [' ', '\t', '\n', '\x0b', '\x0c', '\r']

def readSign : List Char → Bool × List Char
  | '-' :: s => (true, s)
  | '+' :: s => (false, s)
  | s => (false, s)

/-- The base of a numeral and the numeral without its prefix; base `0` goes by the prefix. -/
def readBase (b : ℕ) (s : List Char) : ℕ × List Char :=
  match b, s with
  | 0, '0' :: x :: c :: t =>
    if (x = 'x' ∨ x = 'X') ∧ (digitIn 16 c).isSome then (16, c :: t) else (8, s)
  | 0, '0' :: _ => (8, s)
  | 0, _ => (10, s)
  | 16, '0' :: x :: c :: t =>
    if (x = 'x' ∨ x = 'X') ∧ (digitIn 16 c).isSome then (16, c :: t) else (16, s)
  | _, _ => (b, s)

/-- Sign and magnitude of the numeral at the head of a text, and what follows it; `none` if there
is no numeral. -/
def readNumeral (b : ℕ) (s : List Char) : Option (Bool × ℕ × List Char) :=
  let st := readSign (s.dropWhile isSpace)
  let bt := readBase b st.2
  match bt.2 with
  | [] => none
  | c :: _ =>
    if (digitIn bt.1 c).isSome then some (st.1, readDigits bt.1 0 bt.2) else none

/-- `strtoul`: the value and the text from `endptr` on; `none` where `endptr` stays at the start. -/
def strtoul (s : List Char) (b : ℕ) : Option (ℕ × List Char) :=
  (readNumeral b s).map fun r =>
    (if 4294967296 ≤ r.2.1 then 4294967295
      else if r.1 then (4294967296 - r.2.1) % 4294967296 else r.2.1, r.2.2)

/-- `strtol` -/
def strtol (s : List Char) (b : ℕ) : Option (ℤ × List Char) :=
  (readNumeral b s).map fun r =>
    (if r.1 then max (-2147483648) (-(r.2.1 : ℤ)) else min 2147483647 (r.2.1 : ℤ), r.2.2)

/-- The integer at the head of a text, `0` if there is none. -/
def readInt (s : List Char) : ℤ :=
  let st := readSign s
  let n := (readDigits 10 0 st.2).1
  if st.1 then -n else n

/-! ### Digits -/

/-- Where the digits and letters lie. -/
theorem digit_range {b : ℕ} {c : Char} (h : (digitIn b c).isSome) :
    48 ≤ c.toNat ∧ c.toNat ≤ 122 ∧ c ≠ '-' ∧ c ≠ '+' := by
  obtain ⟨d, hd⟩ := Option.isSome_iff_exists.1 h
  have hval := (Option.filter_eq_some_iff.1 hd).1
  have hle : ∀ x y : Char, x ≤ y ↔ x.toNat ≤ y.toNat := fun _ _ => Iff.rfl
  have hrange : 48 ≤ c.toNat ∧ c.toNat ≤ 122 := by
    simp only [digitVal, hle, Char.reduceToNat] at hval
    split_ifs at hval <;> omega
  refine ⟨hrange.1, hrange.2, ?_, ?_⟩ <;> rintro rfl <;> simp at hrange

theorem digitIn_isSome {b : ℕ} {c : Char} (h : (digitIn b c).isSome) :
    ∃ d < b, digitIn b c = some d := by
  obtain ⟨d, hd⟩ := Option.isSome_iff_exists.1 h
  exact ⟨d, by simpa using (Option.filter_eq_some_iff.1 hd).2, hd⟩

/-! ### Reading back -/

theorem digitVal_digitChar {d : ℕ} (h : d < 16) : digitVal (Nat.digitChar d) = some d := by
  interval_cases d <;> rfl

theorem digitIn_digitChar {b d : ℕ} (hb : b ≤ 16) (h : d < b) :
    digitIn b (Nat.digitChar d) = some d := by
  rw [digitIn, digitVal_digitChar (by omega), Option.filter_some, if_pos (by simpa using h)]

theorem readDigits_digitChar {b d : ℕ} (hb : b ≤ 16) (h : d < b) (acc : ℕ) (s : List Char) :
    readDigits b acc (Nat.digitChar d :: s) = readDigits b (acc * b + d) s := by
  rw [readDigits, digitIn_digitChar hb h]

/-- **The digits printed are read back.** -/
theorem readDigits_toDigits {b : ℕ} (h1 : 1 < b) (hb : b ≤ 16) (n : ℕ) (s : List Char) :
    readDigits b 0 (Nat.toDigits b n ++ s) = readDigits b n s := by
  induction n using Nat.strong_induction_on generalizing s with
  | _ n ih =>
    rw [Nat.toDigits_eq_if h1]
    split
    · rename_i hn
      simpa using readDigits_digitChar hb hn 0 s
    · rename_i hn
      have hlt : n / b < n := Nat.div_lt_self (by omega) h1
      rw [List.append_assoc, ih _ hlt, List.singleton_append,
        readDigits_digitChar hb (Nat.mod_lt n (by omega)), Nat.div_add_mod']

theorem readDigits_replicate_zero {b : ℕ} (h1 : 1 < b) (k : ℕ) (s : List Char) :
    readDigits b 0 (List.replicate k '0' ++ s) = readDigits b 0 s := by
  induction k with
  | zero => rfl
  | succ k ih =>
    have h0 : digitIn b '0' = some 0 := by
      rw [digitIn, show digitVal '0' = some 0 from rfl, Option.filter_some, if_pos (by simp; omega)]
    rw [List.replicate_succ, List.cons_append, readDigits, h0]
    simpa using ih

/-- A printed number starts with a digit. -/
theorem toDigits_eq_cons {b : ℕ} (h1 : 1 < b) (n : ℕ) :
    ∃ d s, d < b ∧ Nat.toDigits b n = Nat.digitChar d :: s := by
  induction n using Nat.strong_induction_on with
  | _ n ih =>
    rw [Nat.toDigits_eq_if h1]
    split
    · rename_i hn
      exact ⟨n, [], hn, rfl⟩
    · rename_i hn
      obtain ⟨d, s, hd, hs⟩ := ih _ (Nat.div_lt_self (by omega) h1 : n / b < n)
      exact ⟨d, s ++ [Nat.digitChar (n % b)], hd, by rw [hs, List.cons_append]⟩

/-- A number is printed with the digits of the base. -/
theorem exists_digitChar_of_mem_toDigits {b : ℕ} (h1 : 1 < b) {n : ℕ} {c : Char}
    (h : c ∈ Nat.toDigits b n) : ∃ d < b, c = Nat.digitChar d := by
  induction n using Nat.strong_induction_on with
  | _ n ih =>
    rw [Nat.toDigits_eq_if h1] at h
    split at h
    · rename_i hn
      exact ⟨n, hn, List.mem_singleton.1 h⟩
    · rcases List.mem_append.1 h with h | h
      · exact ih _ (Nat.div_lt_self (by omega) h1) h
      · exact ⟨n % b, Nat.mod_lt n (by omega), List.mem_singleton.1 h⟩

theorem digitChar_ne {c : Char} (hc : digitVal c = none) {d : ℕ} (hd : d < 16) :
    c ≠ Nat.digitChar d := by
  rintro rfl
  rw [digitVal_digitChar hd] at hc
  cases hc

/-- What is neither digit nor letter is in no printed number. -/
theorem not_mem_toDigits {b : ℕ} (h1 : 1 < b) (hb : b ≤ 16) {c : Char} (hc : digitVal c = none)
    (n : ℕ) : c ∉ Nat.toDigits b n := by
  intro h
  obtain ⟨d, hd, rfl⟩ := exists_digitChar_of_mem_toDigits h1 h
  exact digitChar_ne hc (by omega) rfl

theorem not_mem_hexPad {c : Char} (hc : digitVal c = none) (w n : ℕ) : c ∉ hexPad w n := by
  have hdigits := not_mem_toDigits (by omega : 1 < 16) le_rfl hc n
  have hzero := digitChar_ne hc (by omega : 0 < 16)
  simp only [hexPad, List.leftpad, List.mem_append, List.mem_replicate, not_or, not_and]
  exact ⟨fun _ => hzero, hdigits⟩

theorem not_mem_decimal {c : Char} (hc : digitVal c = none) (hsign : c ≠ '-') (x : ℤ) :
    c ∉ decimal x := by
  have hdigit := not_mem_toDigits (by omega : 1 < 10) (by omega) hc
  cases x with
  | ofNat n => exact hdigit n
  | negSucc n => simpa [decimal, hsign] using hdigit (n + 1)

/-- Where a numeral stops. -/
theorem readDigits_of_not_digit {b acc : ℕ} {c : Char} {s : List Char} (h : digitIn b c = none) :
    readDigits b acc (c :: s) = (acc, c :: s) := by
  rw [readDigits, h]

/-- The decimal digits are neither blank nor sign. -/
theorem digitChar_ten {d : ℕ} (h : d < 10) :
    isSpace (Nat.digitChar d) = false ∧ Nat.digitChar d ≠ '-' ∧ Nat.digitChar d ≠ '+' := by
  interval_cases d <;> decide

theorem readSign_digitChar {d : ℕ} (h : d < 10) (s : List Char) :
    readSign (Nat.digitChar d :: s) = (false, Nat.digitChar d :: s) := by
  interval_cases d <;> rfl

/-- **A printed integer is read back.** -/
theorem readInt_decimal (x : ℤ) : readInt (decimal x) = x := by
  have hread : ∀ n, readDigits 10 0 (Nat.toDigits 10 n) = (n, []) := by
    intro n
    have := readDigits_toDigits (by omega : 1 < 10) (by omega) n []
    rwa [List.append_nil] at this
  cases x with
  | ofNat n =>
    obtain ⟨d, s, hd, hs⟩ := toDigits_eq_cons (by omega : 1 < 10) n
    have hsign : readSign (decimal (.ofNat n)) = (false, Nat.toDigits 10 n) := by
      rw [decimal, hs, readSign_digitChar hd]
    simp only [readInt, hsign, hread, Bool.false_eq_true, if_false]
    rfl
  | negSucc n =>
    have hsign : readSign (decimal (.negSucc n)) = (true, Nat.toDigits 10 (n + 1)) := rfl
    simp only [readInt, hsign, hread, if_true]
    rfl

theorem readNumeral_natDecimal (n : ℕ) :
    readNumeral 10 (Nat.toDigits 10 n) = some (false, n, []) := by
  obtain ⟨d, s, hd, hs⟩ := toDigits_eq_cons (by omega : 1 < 10) n
  have hread := readDigits_toDigits (by omega : 1 < 10) (by omega) n []
  rw [List.append_nil, hs] at hread
  simp [readNumeral, hs, (digitChar_ten hd).1, readSign_digitChar hd, readBase,
    digitIn_digitChar (by omega : 10 ≤ 16) hd, hread, readDigits]

theorem readNumeral_negDecimal (n : ℕ) :
    readNumeral 10 ('-' :: Nat.toDigits 10 n) = some (true, n, []) := by
  obtain ⟨d, s, hd, hs⟩ := toDigits_eq_cons (by omega : 1 < 10) n
  have hread := readDigits_toDigits (by omega : 1 < 10) (by omega) n []
  rw [List.append_nil, hs] at hread
  simp [readNumeral, hs, show isSpace '-' = false from rfl, readSign, readBase,
    digitIn_digitChar (by omega : 10 ≤ 16) hd, hread, readDigits]

/-- A printed number is read up to what is no digit. -/
theorem strtoul_toDigits_append {n : ℕ} (h : n < 4294967296) {s : List Char}
    (hs : ∀ c ∈ s.head?, digitIn 10 c = none) :
    strtoul (Nat.toDigits 10 n ++ s) 10 = some (n, s) := by
  obtain ⟨d, t, hd, ht⟩ := toDigits_eq_cons (by omega : 1 < 10) n
  have hread : readDigits 10 0 (Nat.toDigits 10 n ++ s) = (n, s) := by
    rw [readDigits_toDigits (by omega) (by omega)]
    cases s with
    | nil => rfl
    | cons c s => exact readDigits_of_not_digit (hs c rfl)
  have hn : ¬ 4294967296 ≤ n := by omega
  rw [ht, List.cons_append] at hread
  simp [strtoul, readNumeral, ht, (digitChar_ten hd).1, readSign_digitChar hd, readBase,
    digitIn_digitChar (by omega : 10 ≤ 16) hd, hread, hn]

/-- **`strtoul` of a printed `int` is the `int` modulo `2 ^ 32`.** -/
theorem strtoul_decimal {x : ℤ} (h1 : -2147483648 ≤ x) (h2 : x < 2147483648) :
    strtoul (decimal x) 10 = some (toU32 x, []) := by
  cases x with
  | ofNat n =>
    have hn : ¬ 4294967296 ≤ n := by simp at h2; omega
    simp only [decimal, strtoul, readNumeral_natDecimal, Option.map_some, hn, if_false, toU32,
      Int.ofNat_eq_natCast, Bool.false_eq_true]
    congr 2
    omega
  | negSucc n =>
    have hn : ¬ 4294967296 ≤ n + 1 := by omega
    have hu : toU32 (Int.negSucc n) = (4294967296 - (n + 1)) % 4294967296 := by
      rw [toU32, Int.negSucc_eq]
      omega
    rw [decimal, strtoul, readNumeral_negDecimal, hu]
    simp [hn]

/-- **`strtoul` of `0x%08x`, in base `0`.** -/
theorem strtoul_hexPad {n : ℕ} (h : n < 4294967296) :
    strtoul ('0' :: 'x' :: hexPad 8 n) 0 = some (n, []) := by
  have hread : readDigits 16 0 (hexPad 8 n) = (n, []) := by
    have := readDigits_toDigits (by omega : 1 < 16) le_rfl n []
    rw [List.append_nil] at this
    rw [hexPad, List.leftpad, readDigits_replicate_zero (by omega), this, readDigits]
  obtain ⟨c, t, hc, ht⟩ : ∃ c t, (digitIn 16 c).isSome ∧ hexPad 8 n = c :: t := by
    obtain ⟨d, s, hd, hs⟩ := toDigits_eq_cons (by omega : 1 < 16) n
    rw [hexPad, List.leftpad, hs]
    rcases 8 - (Nat.digitChar d :: s).length with _ | k
    · exact ⟨_, _, by rw [digitIn_digitChar le_rfl hd]; rfl, rfl⟩
    · exact ⟨'0', _, rfl, rfl⟩
  have hn : ¬ 4294967296 ≤ n := by omega
  rw [ht] at hread
  simp [strtoul, readNumeral, ht, show isSpace '0' = false from rfl, readSign, readBase, hc, hread,
    hn]

/-- Only the number `0` is printed with a leading `0`. -/
theorem toDigits_succ_eq_cons {b : ℕ} (h1 : 1 < b) (n : ℕ) :
    ∃ d s, 0 < d ∧ d < b ∧ Nat.toDigits b (n + 1) = Nat.digitChar d :: s := by
  induction n using Nat.strong_induction_on with
  | _ n ih =>
    rw [Nat.toDigits_eq_if h1]
    split
    · rename_i hn
      exact ⟨n + 1, [], Nat.succ_pos n, hn, rfl⟩
    · rename_i hn
      obtain ⟨k, hk⟩ : ∃ k, (n + 1) / b = k + 1 :=
        ⟨(n + 1) / b - 1, by have := Nat.div_pos (Nat.not_lt.1 hn) (by omega); omega⟩
      have hlt : (n + 1) / b < n + 1 := Nat.div_lt_self (Nat.succ_pos n) h1
      obtain ⟨d, s, hpos, hd, hs⟩ := ih k (by omega)
      exact ⟨d, s ++ [Nat.digitChar ((n + 1) % b)], hpos, hd, by rw [hk, hs, List.cons_append]⟩

/-- A printed number has no prefix of another base. -/
theorem readBase_toDigits (n : ℕ) : ∃ b, (b = 8 ∨ b = 10) ∧
    readBase 0 (Nat.toDigits 10 n) = (b, Nat.toDigits 10 n) ∧
    readDigits b 0 (Nat.toDigits 10 n) = (n, []) := by
  cases n with
  | zero => exact ⟨8, .inl rfl, rfl, rfl⟩
  | succ n =>
    obtain ⟨d, s, hpos, hd, hs⟩ := toDigits_succ_eq_cons (by omega : 1 < 10) n
    have hread := readDigits_toDigits (by omega : 1 < 10) (by omega) (n + 1) []
    rw [List.append_nil] at hread
    refine ⟨10, .inr rfl, ?_, hread⟩
    rw [hs]
    interval_cases d <;> rfl

/-- **`strtol` of a printed `int`, in base `0`, is the `int`.** -/
theorem strtol_decimal {x : ℤ} (h1 : -2147483648 ≤ x) (h2 : x < 2147483648) :
    strtol (decimal x) 0 = some (x, []) := by
  have hnumeral : ∀ n, readNumeral 0 (Nat.toDigits 10 n) = some (false, n, []) ∧
      readNumeral 0 ('-' :: Nat.toDigits 10 n) = some (true, n, []) := by
    intro n
    obtain ⟨b, hb, hbase, hread⟩ := readBase_toDigits n
    obtain ⟨d, s, hd, hs⟩ := toDigits_eq_cons (by omega : 1 < 10) n
    rw [hs] at hbase hread ⊢
    have hdigit : (digitIn b (Nat.digitChar d)).isSome := by
      by_contra hnone
      rw [Option.not_isSome_iff_eq_none] at hnone
      rw [readDigits_of_not_digit hnone] at hread
      cases hread
    have hminus : readSign ('-' :: Nat.digitChar d :: s) = (true, Nat.digitChar d :: s) := rfl
    have hspace : isSpace '-' = false := rfl
    constructor
    · simp [readNumeral, (digitChar_ten hd).1, readSign_digitChar hd, hbase, hdigit, hread]
    · simp [readNumeral, hspace, hminus, hbase, hdigit, hread]
  cases x with
  | ofNat n =>
    simp only [decimal, strtol, (hnumeral n).1, Option.map_some, Bool.false_eq_true, if_false]
    rw [Int.ofNat_eq_natCast] at h2 ⊢
    rw [min_eq_right (by omega)]
  | negSucc n =>
    simp only [decimal, strtol, (hnumeral (n + 1)).2, Option.map_some, if_true]
    rw [max_eq_right (by omega), Int.negSucc_eq, Nat.cast_add, Nat.cast_one]

end LocTag.Lib
