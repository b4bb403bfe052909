import LocTag.Lib.Fetch

/-!
# Machine integers and words in memory

Fixed-width integers as `ℕ` and `ℤ` with their conversions, and the little-endian words, blocks of
bytes and C strings of a memory: for each the program that reads it (`le16`, `le32`, `block`,
`cstr`) and, for statements, the value that is there (`Mem.u8At`, `Mem.le16At`, `Mem.le32At`).
`overwrite` stores into a buffer.
-/

namespace LocTag.Lib

/-! ### Conversions -/

/-- Conversion to a 32-bit unsigned integer. -/
def toU32 (x : ℤ) : ℕ := (x % 4294967296).toNat

/-- Conversion of a 32-bit word to a signed integer. -/
def toI32 (n : ℕ) : ℤ := if n % 4294967296 < 2147483648 then (n % 4294967296 : ℕ) else
  ((n % 4294967296 : ℕ) : ℤ) - 4294967296

/-- The signed value of a byte. -/
def toI8 (b : UInt8) : ℤ := if b.toNat < 128 then b.toNat else (b.toNat : ℤ) - 256

/-- The signed value of a 16-bit word. -/
def toI16 (n : ℕ) : ℤ := if n % 65536 < 32768 then (n % 65536 : ℕ) else ((n % 65536 : ℕ) : ℤ) - 65536

theorem toU32_natCast {n : ℕ} (h : n < 4294967296) : toU32 n = n := by
  unfold toU32; omega

/-- Conversion to a 16-bit unsigned integer. -/
def toU16 (x : ℤ) : ℕ := (x % 65536).toNat

theorem toU16_natCast {n : ℕ} (h : n < 65536) : toU16 n = n := by
  unfold toU16; omega

theorem toU16_toI16 {n : ℕ} (h : n < 65536) : toU16 (toI16 n) = n := by
  unfold toU16 toI16; split <;> omega

theorem toU32_lt (x : ℤ) : toU32 x < 4294967296 := by
  unfold toU32; omega

/-! ### Fields of a word -/

section Fields

variable {w : ℕ} {x m n c : BitVec w}

/-- A field has nothing of the others. -/
theorem field_of_disjoint (h : m &&& n = 0#w) : ((x &&& m) ||| c) &&& n = c &&& n := by
  rw [BitVec.and_or_distrib_right, BitVec.and_assoc, h, BitVec.and_zero, BitVec.zero_or]

/-- A field has what was put into it. -/
theorem field_self (h : c &&& m = 0#w) : ((x &&& m) ||| c) &&& m = x &&& m := by
  rw [BitVec.and_or_distrib_right, h, BitVec.or_zero, BitVec.and_assoc, BitVec.and_self]

end Fields

/-! ### The words of a memory -/

namespace Mem

variable (m : Mem)

/-- The byte at `i`, `0` where there is none. -/
def u8At (i : ℕ) : ℕ := ((m i).getD 0).toNat

/-- The little-endian 16-bit word at `i`. -/
def le16At (i : ℕ) : ℕ := m.u8At i + 256 * m.u8At (i + 1)

/-- The little-endian 32-bit word at `i`. -/
def le32At (i : ℕ) : ℕ := m.le16At i + 65536 * m.le16At (i + 2)

/-- The `n` bytes from `i` on. -/
def blockAt (i n : ℕ) : List UInt8 := (List.range n).map fun j => (m (i + j)).getD 0

/-- The memory that holds `l` from index `0` on. -/
def ofList (l : List UInt8) : Mem := fun i => l[i]?

variable {m}

theorem u8At_lt (i : ℕ) : m.u8At i < 256 := UInt8.toNat_lt _

theorem le16At_lt (i : ℕ) : m.le16At i < 65536 := by
  have h0 := u8At_lt (m := m) i
  have h1 := u8At_lt (m := m) (i + 1)
  unfold le16At
  omega

theorem getD_eq_zero_iff {i : ℕ} : (m i).getD 0 = 0 ↔ m.u8At i = 0 := by
  rw [u8At, ← UInt8.toNat_zero, UInt8.toNat_inj]

@[simp] theorem length_blockAt (i n : ℕ) : (m.blockAt i n).length = n := by
  simp [blockAt]

/-- A block is the blocks of its two parts. -/
theorem blockAt_add (i a b : ℕ) : m.blockAt i (a + b) = m.blockAt i a ++ m.blockAt (i + a) b := by
  simp only [blockAt, List.range_add, List.map_append, List.map_map]
  exact congrArg _ (List.map_congr_left fun j _ => by simp [Nat.add_assoc])

section Congr

variable {m' : Mem} {i j : ℕ}

/-! Two memories with the same bytes, from `i` on in one and from `j` on in the other. -/

theorem le16At_congr (h : ∀ k < 2, m (i + k) = m' (j + k)) : m.le16At i = m'.le16At j := by
  rw [le16At, le16At, u8At, u8At, u8At, u8At, h 1 (by omega)]
  exact congrArg (fun b : Option UInt8 => (b.getD 0).toNat + _) (h 0 (by omega))

theorem le32At_congr (h : ∀ k < 4, m (i + k) = m' (j + k)) : m.le32At i = m'.le32At j := by
  have hlow : m.le16At i = m'.le16At j := le16At_congr fun k hk => h k (by omega)
  have hhigh : m.le16At (i + 2) = m'.le16At (j + 2) := by
    apply le16At_congr
    intro k hk
    rw [Nat.add_assoc, Nat.add_assoc]
    exact h (2 + k) (by omega)
  rw [le32At, le32At, hlow, hhigh]

theorem blockAt_congr {n : ℕ} (h : ∀ k < n, m (i + k) = m' (j + k)) :
    m.blockAt i n = m'.blockAt j n := by
  apply List.map_congr_left
  intro k hk
  rw [h k (List.mem_range.1 hk)]

end Congr

theorem blockAt_ofList {l : List UInt8} {i n : ℕ} (h : i + n ≤ l.length) :
    (ofList l).blockAt i n = (l.drop i).take n := by
  apply List.ext_getElem
  · rw [length_blockAt, List.length_take, List.length_drop]
    omega
  · intro j hj _
    have hj : i + j < l.length := by
      rw [length_blockAt] at hj
      omega
    simp [blockAt, ofList, List.getElem?_eq_getElem hj]

theorem ofList_isSome {l : List UInt8} {i : ℕ} : (ofList l i).isSome ↔ i < l.length := by
  simp [ofList]

end Mem

/-! ### Buffers -/

section Buffers

variable {α : Type}

/-- `buf` with `l` stored from index `i` on. -/
def overwrite (buf : List α) (i : ℕ) (l : List α) : List α :=
  buf.take i ++ (l ++ buf.drop (i + l.length))

theorem length_overwrite {buf : List α} {i : ℕ} {l : List α} (h : i + l.length ≤ buf.length) :
    (overwrite buf i l).length = buf.length := by
  simp only [overwrite, List.length_append, List.length_take, List.length_drop]
  omega

/-- Up to the end of what was stored. -/
theorem take_overwrite (buf : List α) {i : ℕ} (l : List α) (h : i ≤ buf.length) :
    (overwrite buf i l).take (i + l.length) = buf.take i ++ l := by
  have hlen : (buf.take i ++ l).length = i + l.length := by
    rw [List.length_append, List.length_take, min_eq_left h]
  rw [overwrite, ← List.append_assoc, ← hlen, List.take_left]

end Buffers

/-! ### Words as bytes -/

/-- The bytes of a 16-bit word, the low one first. -/
def bytes16 (w : ℕ) : List UInt8 := [UInt8.ofNat w, UInt8.ofNat (w / 256)]

/-- The bytes of a 32-bit word, the low one first. -/
def bytes32 (w : ℕ) : List UInt8 := bytes16 w ++ bytes16 (w / 65536)

theorem bytes16_congr {v w : ℕ} (h : v % 65536 = w % 65536) : bytes16 v = bytes16 w := by
  simp only [bytes16, List.cons.injEq, ← UInt8.toNat_inj, UInt8.toNat_ofNat', and_true]
  omega

/-- **The bytes of the word at an index are those of the memory.** -/
theorem bytes16_le16At (m : Mem) (i : ℕ) : bytes16 (m.le16At i) = m.blockAt i 2 := by
  have h0 := Mem.u8At_lt (m := m) i
  have h1 := Mem.u8At_lt (m := m) (i + 1)
  have hb : ∀ j, (m j).getD 0 = UInt8.ofNat (m.u8At j) := fun j => (UInt8.ofNat_toNat).symm
  simp only [Mem.blockAt, List.range_succ, List.range_zero, List.nil_append, List.cons_append,
    List.map_cons, List.map_nil, Nat.add_zero, hb, bytes16, Mem.le16At, List.cons.injEq,
    ← UInt8.toNat_inj, UInt8.toNat_ofNat', and_true]
  omega

theorem bytes32_le32At (m : Mem) (i : ℕ) : bytes32 (m.le32At i) = m.blockAt i 4 := by
  have h := Mem.le16At_lt (m := m) i
  have hlow : bytes16 (m.le32At i) = bytes16 (m.le16At i) :=
    bytes16_congr (by unfold Mem.le32At; omega)
  have hhigh : m.le32At i / 65536 = m.le16At (i + 2) := by
    unfold Mem.le32At
    omega
  rw [bytes32, hlow, hhigh, bytes16_le16At, bytes16_le16At, ← Mem.blockAt_add]

namespace Fetch

/-- A little-endian 16-bit word. -/
def le16 (i : ℕ) : Fetch ℕ := do
  let b0 ← u8 i
  let b1 ← u8 (i + 1)
  pure (b0.toNat + 256 * b1.toNat)

/-- A little-endian 32-bit word. -/
def le32 (i : ℕ) : Fetch ℕ := do
  let w0 ← le16 i
  let w1 ← le16 (i + 2)
  pure (w0 + 65536 * w1)

/-- The `n` bytes from `i` on. -/
def block (i : ℕ) : ℕ → Fetch (List UInt8)
  | 0 => pure []
  | n + 1 => do
    let b ← u8 i
    let bs ← block (i + 1) n
    pure (b :: bs)

/-- The C string at `i`, up to its NUL and no further than `n` bytes: what `%.*s` prints. -/
def cstr (i : ℕ) : ℕ → Fetch (List UInt8)
  | 0 => pure []
  | n + 1 => do
    let b ← u8 i
    if b = 0 then pure [] else do
      let bs ← cstr (i + 1) n
      pure (b :: bs)

/-! ### Their values -/

section Values

variable {m : Mem}

@[simp] theorem value_le16 (i : ℕ) : value m (le16 i) = m.le16At i := by
  simp [le16, Mem.le16At, Mem.u8At]

@[simp] theorem value_le32 (i : ℕ) : value m (le32 i) = m.le32At i := by
  simp [le32, Mem.le32At]

@[simp] theorem value_block (i n : ℕ) : value m (block i n) = m.blockAt i n := by
  induction n generalizing i with
  | zero => rfl
  | succ n ih =>
    simp only [block, value_bind, value_u8, value_pure, ih, Mem.blockAt, List.range_succ_eq_map,
      List.map_cons, List.map_map, Nat.add_zero, List.cons.injEq, true_and]
    exact List.map_congr_left fun j _ => by simp [Nat.add_comm, Nat.add_left_comm]

/-- The string has `k` bytes or more iff it may and none of its first `k` is a NUL. -/
theorem le_length_cstr (k i n : ℕ) :
    k ≤ (value m (cstr i n)).length ↔ k ≤ n ∧ ∀ j < k, m.u8At (i + j) ≠ 0 := by
  induction n generalizing i k with
  | zero =>
    simp only [cstr, value_pure, List.length_nil, Nat.le_zero]
    constructor
    · intro h
      exact ⟨h, by omega⟩
    · intro h
      exact h.1
  | succ n ih =>
    rcases k with _ | k
    · simp
    simp only [cstr, value_bind, value_u8, value_ite, value_pure]
    split
    · rename_i h0
      simp only [List.length_nil, Nat.le_zero, Nat.add_one_ne_zero, false_iff, not_and, not_forall]
      exact fun _ => ⟨0, by omega, by simpa using Mem.getD_eq_zero_iff.1 h0⟩
    · rename_i h0
      rw [List.length_cons, Nat.add_le_add_iff_right, ih, Nat.add_le_add_iff_right]
      apply and_congr_right
      intro _
      constructor
      · intro h j hj
        rcases j with _ | j
        · simpa using fun e => h0 (Mem.getD_eq_zero_iff.2 e)
        · rw [show i + (j + 1) = i + 1 + j by ring]
          exact h j (by omega)
      · intro h j hj
        rw [show i + 1 + j = i + (j + 1) by ring]
        exact h (j + 1) (by omega)

end Values

/-! ### Their reads -/

section Reads

variable {m : Mem} {P : ℕ → Prop} (hP : ∀ i, P i → (m i).isSome)
include hP

theorem reads_le16 (i : ℕ) : Reads m (le16 i) P ↔ P i ∧ P (i + 1) := by
  simp [le16, reads_bind hP]

theorem reads_le32 (i : ℕ) :
    Reads m (le32 i) P ↔ (P i ∧ P (i + 1)) ∧ P (i + 2) ∧ P (i + 3) := by
  simp [le32, reads_bind hP, reads_le16 hP]

theorem reads_block (i n : ℕ) : Reads m (block i n) P ↔ ∀ j < n, P (i + j) := by
  induction n generalizing i with
  | zero => simp [block]
  | succ n ih =>
    simp only [block, reads_bind hP, reads_u8, reads_pure, ih, and_true]
    constructor
    · rintro ⟨h0, hs⟩ j hj
      rcases j with _ | j
      · exact h0
      · rw [show i + (j + 1) = i + 1 + j by ring]
        exact hs j (by omega)
    · intro h
      refine ⟨h 0 (by omega), ?_⟩
      intro j hj
      rw [show i + 1 + j = i + (j + 1) by ring]
      exact h (j + 1) (by omega)

/-- The bytes read of a string are those with no NUL before them. -/
theorem reads_cstr (i n : ℕ) :
    Reads m (cstr i n) P ↔ ∀ j < n, (∀ k < j, m.u8At (i + k) ≠ 0) → P (i + j) := by
  induction n generalizing i with
  | zero => simp [cstr]
  | succ n ih =>
    simp only [cstr, reads_bind hP, reads_u8, value_u8, reads_ite, reads_pure, implies_true,
      true_and, ih, and_true]
    have step : ∀ j, i + (j + 1) = i + 1 + j := fun j => by ring
    rw [Mem.getD_eq_zero_iff]
    constructor
    · rintro ⟨h0, hs⟩ j hj hk
      rcases j with _ | j
      · exact h0
      · rw [step]
        apply hs (hk 0 (by omega)) j (by omega)
        intro k hkj
        rw [← step]
        exact hk (k + 1) (by omega)
    · intro h
      refine ⟨h 0 (by omega) (by simp), ?_⟩
      intro hb j hj hk
      rw [← step]
      apply h (j + 1) (by omega)
      intro k hkj
      rcases k with _ | k
      · exact hb
      · rw [step]
        exact hk k (by omega)

end Reads

end Fetch

end LocTag.Lib
