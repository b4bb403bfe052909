import Mathlib.Data.List.Basic
import Mathlib.Tactic.IntervalCases

/-!
# Base64

The encoding of RFC 4648 with padding, `encode`, and its inverse, `decode`: three bytes are four
sextets, and a last group of one or two bytes is filled with `=`.
-/

namespace LocTag.Lib.Base64

/-- The character of a sextet. -/
def sextetChar (v : ℕ) : Char :=
  if v < 26 then Char.ofNat (65 + v)
  else if v < 52 then Char.ofNat (71 + v)
  else if v < 62 then Char.ofNat (v - 4)
  else if v = 62 then '+'
  else '/'

/-- The sextet of a character. -/
def charSextet (c : Char) : Option ℕ :=
  if 'A' ≤ c ∧ c ≤ 'Z' then some (c.toNat - 65)
  else if 'a' ≤ c ∧ c ≤ 'z' then some (c.toNat - 71)
  else if '0' ≤ c ∧ c ≤ '9' then some (c.toNat + 4)
  else if c = '+' then some 62
  else if c = '/' then some 63
  else none

def encode : List UInt8 → List Char
  | [] => []
  | [a] => [sextetChar (a.toNat / 4), sextetChar (a.toNat % 4 * 16), '=', '=']
  | [a, b] => [sextetChar (a.toNat / 4), sextetChar (a.toNat % 4 * 16 + b.toNat / 16),
      sextetChar (b.toNat % 16 * 4), '=']
  | a :: b :: c :: rest => sextetChar (a.toNat / 4) ::
      sextetChar (a.toNat % 4 * 16 + b.toNat / 16) ::
      sextetChar (b.toNat % 16 * 4 + c.toNat / 64) :: sextetChar (c.toNat % 64) :: encode rest

def decode : List Char → Option (List UInt8)
  | [] => some []
  | [w, x, '=', '='] => do
    let w ← charSextet w
    let x ← charSextet x
    pure [UInt8.ofNat (w * 4 + x / 16)]
  | [w, x, y, '='] => do
    let w ← charSextet w
    let x ← charSextet x
    let y ← charSextet y
    pure [UInt8.ofNat (w * 4 + x / 16), UInt8.ofNat (x % 16 * 16 + y / 4)]
  | w :: x :: y :: z :: rest => do
    let w ← charSextet w
    let x ← charSextet x
    let y ← charSextet y
    let z ← charSextet z
    let rest ← decode rest
    pure (UInt8.ofNat (w * 4 + x / 16) :: UInt8.ofNat (x % 16 * 16 + y / 4) ::
      UInt8.ofNat (y % 4 * 64 + z) :: rest)
  | _ => none

theorem charSextet_sextetChar {v : ℕ} (h : v < 64) : charSextet (sextetChar v) = some v := by
  interval_cases v <;> rfl

/-- No sextet is written as the padding or as the end of a line. -/
theorem sextetChar_ne {v : ℕ} (h : v < 64) : sextetChar v ≠ '=' ∧ sextetChar v ≠ '\n' := by
  interval_cases v <;> decide

theorem ofNat_eq {a : UInt8} {n : ℕ} (h : n = a.toNat) : UInt8.ofNat n = a := by
  rw [h, UInt8.ofNat_toNat]

theorem decode_cons {w x y z : ℕ} (hw : w < 64) (hx : x < 64) (hy : y < 64) (hz : z < 64)
    (rest : List Char) :
    decode (sextetChar w :: sextetChar x :: sextetChar y :: sextetChar z :: rest) =
      (decode rest).map fun bs => UInt8.ofNat (w * 4 + x / 16) ::
        UInt8.ofNat (x % 16 * 16 + y / 4) :: UInt8.ofNat (y % 4 * 64 + z) :: bs := by
  have hne := (sextetChar_ne hz).1
  rw [decode.eq_4 _ _ _ _ _ (by grind) (by grind)]
  simp only [charSextet_sextetChar hw, charSextet_sextetChar hx, charSextet_sextetChar hy,
    charSextet_sextetChar hz, Option.bind_eq_bind, Option.bind_some]
  cases decode rest <;> rfl

/-- **What was encoded is decoded.** -/
theorem decode_encode (bs : List UInt8) : decode (encode bs) = some bs := by
  induction bs using encode.induct with
  | case1 => rfl
  | case2 a =>
    have ha := a.toNat_lt
    simp only [encode, decode, charSextet_sextetChar (show a.toNat / 4 < 64 by omega),
      charSextet_sextetChar (show a.toNat % 4 * 16 < 64 by omega), Option.bind_eq_bind,
      Option.bind_some, Option.pure_def]
    rw [ofNat_eq (a := a) (by omega)]
  | case3 a b =>
    have ha := a.toNat_lt
    have hb := b.toNat_lt
    have hne := (sextetChar_ne (show b.toNat % 16 * 4 < 64 by omega)).1
    rw [encode, decode.eq_3 _ _ _ (by simpa using hne)]
    simp only [charSextet_sextetChar (show a.toNat / 4 < 64 by omega),
      charSextet_sextetChar (show a.toNat % 4 * 16 + b.toNat / 16 < 64 by omega),
      charSextet_sextetChar (show b.toNat % 16 * 4 < 64 by omega), Option.bind_eq_bind,
      Option.bind_some, Option.pure_def]
    rw [ofNat_eq (a := a) (by omega), ofNat_eq (a := b) (by omega)]
  | case4 a b c rest ih =>
    have ha := a.toNat_lt
    have hb := b.toNat_lt
    have hc := c.toNat_lt
    rw [encode, decode_cons (by omega) (by omega) (by omega) (by omega), ih, Option.map_some,
      ofNat_eq (a := a) (by omega), ofNat_eq (a := b) (by omega), ofNat_eq (a := c) (by omega)]

theorem newline_not_mem_encode (bs : List UInt8) : '\n' ∉ encode bs := by
  have hne : ∀ v < 64, '\n' ≠ sextetChar v := fun v hv => (sextetChar_ne hv).2.symm
  induction bs using encode.induct with
  | case1 => exact List.not_mem_nil
  | case2 a =>
    have ha := a.toNat_lt
    simp [encode, hne _ (show a.toNat / 4 < 64 by omega),
      hne _ (show a.toNat % 4 * 16 < 64 by omega)]
  | case3 a b =>
    have ha := a.toNat_lt
    have hb := b.toNat_lt
    simp [encode, hne _ (show a.toNat / 4 < 64 by omega),
      hne _ (show a.toNat % 4 * 16 + b.toNat / 16 < 64 by omega),
      hne _ (show b.toNat % 16 * 4 < 64 by omega)]
  | case4 a b c rest ih =>
    have ha := a.toNat_lt
    have hb := b.toNat_lt
    have hc := c.toNat_lt
    simp [encode, ih, hne _ (show a.toNat / 4 < 64 by omega),
      hne _ (show a.toNat % 4 * 16 + b.toNat / 16 < 64 by omega),
      hne _ (show b.toNat % 16 * 4 + c.toNat / 64 < 64 by omega),
      hne _ (show c.toNat % 64 < 64 by omega)]

end LocTag.Lib.Base64
