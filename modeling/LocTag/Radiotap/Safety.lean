import LocTag.Radiotap.Iterator
import Mathlib.Tactic.IntervalCases

/-!
# What the radiotap iterator reads

The iterator over arbitrary bytes.  `w` are the present words of a header: word `k` is there if all
before it have bit 31 (`PresentWord`), and the initialization fails if one of them ends past the
header.  `IterOk` is what holds of the iterator between two rounds: it is at bit
`argIndex % 32` of a present word, and a namespace other than the one of radiotap has been entered
only with `nextNsData` set.

A round from such a state reads inside the header, is followed by fewer rounds (`roundsLeft`), and
returns arguments inside the header only (`nextRound_ok`).  So every call returns, and the successive
calls end (`iterator_safe`).
-/

namespace LocTag

open Lib Lib.Fetch

/-! ### The state between two rounds -/

/-- The `k`-th present word is there. -/
def PresentWord (w : ℕ → ℕ) (k : ℕ) : Prop := ∀ j < k, (w j).testBit IEEE80211_RADIOTAP_EXT

structure IterOk (w : ℕ → ℕ) (it : RadiotapIter) : Prop where
  word : ∃ k, it.nextBitmap = 8 + 4 * k ∧ PresentWord w k ∧
    it.bitmapShifter = w k / 2 ^ (it.argIndex % 32)
  arg : 8 ≤ it.arg
  nsData : ∀ data, it.nextNsData = some data → 8 ≤ data
  ns : it.nextNsData = none → it.currentNs = some .radiotap

/-- A bound on the rounds that are left. -/
def roundsLeft (it : RadiotapIter) : ℕ :=
  8 * (it.maxLength + 8 - it.nextBitmap) + (32 - it.argIndex % 32)

/-- The end of a round from a state with `n` rounds left. -/
def RoundOk (w : ℕ → ℕ) (maxLength n : ℕ) : IterRound → Prop
  | .again it => IterOk w it ∧ it.maxLength = maxLength ∧ roundsLeft it < n
  | .hit it => (IterOk w it ∧ it.maxLength = maxLength ∧ roundsLeft it < n) ∧
      8 ≤ it.thisArg ∧ it.thisArg + it.thisArgSize ≤ maxLength
  | .failed _ => True
  | .undefined => ∃ k, PresentWord w k ∧ (w k).testBit 18

theorem RoundOk.mono {w : ℕ → ℕ} {maxLength n n' : ℕ} {r : IterRound}
    (h : RoundOk w maxLength n r) (hn : n ≤ n') : RoundOk w maxLength n' r := by
  cases r with
  | again it => exact ⟨h.1, h.2.1, h.2.2.trans_le hn⟩
  | hit it => exact ⟨⟨h.1.1, h.1.2.1, h.1.2.2.trans_le hn⟩, h.2⟩
  | failed e => exact trivial
  | undefined => exact h

/-- The bit the iterator is at. -/
theorem shifter_odd_iff {x i : ℕ} : x / 2 ^ i % 2 = 1 ↔ x.testBit i := by
  rw [Nat.testBit_eq_decide_div_mod_eq, decide_eq_true_eq]

/-- The arguments of the radiotap namespace have an alignment, but for 18. -/
theorem eq_18_of_align_zero {i size : ℕ} (h : rtapNamespaceSizes[i]? = some ⟨0, size⟩) : i = 18 := by
  have hi : i < 23 := (List.getElem?_eq_some_iff.1 h).1
  interval_cases i <;> first | rfl | cases h

/-- The arguments without an alignment are not those of every present word. -/
theorem argIndex_of_align_zero {it : RadiotapIter} {size : ℕ}
    (h : argAlignSize it = some ⟨0, size⟩) :
    it.argIndex % 32 ≠ IEEE80211_RADIOTAP_RADIOTAP_NAMESPACE ∧
      it.argIndex % 32 ≠ IEEE80211_RADIOTAP_VENDOR_NAMESPACE ∧
        it.argIndex % 32 ≠ IEEE80211_RADIOTAP_EXT := by
  unfold argAlignSize at h
  split_ifs at h with hfixed hvendor
  · cases h
  · cases h
  · exact ⟨fun h29 => hfixed (.inl h29), hvendor, fun h31 => hfixed (.inr h31)⟩

theorem run_le32_of_le {m : Mem} {n i : ℕ} (hm : ∀ i < n, (m i).isSome) (hi : i + 4 ≤ n) :
    run m (le32 i) = some (m.le32At i) := by
  have hreads := (reads_le32 hm i).2 ⟨⟨by omega, by omega⟩, by omega, by omega⟩
  rw [run_value (hreads.imp hm), value_le32]

section Round

variable {m : Mem} {vns : List RadiotapNamespace} {w : ℕ → ℕ} {it : RadiotapIter}

/-- `next_entry` goes on to the next bit. -/
theorem IterOk.nextEntry (h : IterOk w it) (h31 : it.argIndex % 32 ≠ IEEE80211_RADIOTAP_EXT) :
    IterOk w (nextEntry it) ∧ roundsLeft (LocTag.nextEntry it) < roundsLeft it := by
  have hlt : it.argIndex % 32 < 31 := by
    unfold IEEE80211_RADIOTAP_EXT at h31
    omega
  have hmod : (it.argIndex + 1) % 32 = it.argIndex % 32 + 1 := by omega
  obtain ⟨k, hnext, hk, hbits⟩ := h.word
  constructor
  · refine ⟨⟨k, hnext, hk, ?_⟩, h.arg, h.nsData, h.ns⟩
    show it.bitmapShifter / 2 = w k / 2 ^ ((it.argIndex + 1) % 32)
    rw [hbits, hmod, Nat.div_div_eq_div_mul, ← pow_succ]
  · show 8 * (it.maxLength + 8 - it.nextBitmap) + (32 - (it.argIndex + 1) % 32) < roundsLeft it
    unfold roundsLeft
    omega

/-- Bit 31 of a present word leads to the next one. -/
theorem IterOk.ext (h : IterOk w it) (h31 : it.argIndex % 32 = IEEE80211_RADIOTAP_EXT)
    (hbit : it.bitmapShifter % 2 = 1) :
    ∃ k, it.nextBitmap = 8 + 4 * k ∧ PresentWord w (k + 1) := by
  obtain ⟨k, hnext, hk, hbits⟩ := h.word
  refine ⟨k, hnext, fun j hj => ?_⟩
  rcases Nat.lt_succ_iff_lt_or_eq.1 hj with hj | rfl
  · exact hk j hj
  · rw [hbits, shifter_odd_iff, h31] at hbit
    exact hbit

/-- The rest of a namespace is skipped. -/
theorem IterOk.skip (h : IterOk w it) {data : ℕ} (hdata : it.nextNsData = some data)
    (h31 : it.argIndex % 32 ≠ IEEE80211_RADIOTAP_EXT) :
    RoundOk w it.maxLength (roundsLeft it)
      (.again (LocTag.nextEntry { it with arg := data, currentNs := none })) := by
  let it₁ : RadiotapIter := { it with arg := data, currentNs := none }
  have hok : IterOk w it₁ := by
    refine ⟨h.word, h.nsData data hdata, h.nsData, fun hnone => ?_⟩
    rw [hdata] at hnone
    cases hnone
  obtain ⟨hnext, hrounds⟩ := hok.nextEntry h31
  exact ⟨hnext, rfl, hrounds⟩

variable (it)
variable (hm : ∀ i < it.maxLength, (m i).isSome)
  (hw : ∀ k, PresentWord w (k + 1) → 12 + 4 * k ≤ it.maxLength ∧ m.le32At (8 + 4 * k) = w (k + 1))

include hm

/-- A vendor namespace is read inside the header. -/
theorem enterVendor_ok (vns : List RadiotapNamespace) (h : IterOk w it) (hle : it.arg + 6 ≤ it.maxLength) :
    ∃ r, run m (enterVendor vns it) = some r ∧ ∃ ns data, 8 ≤ data ∧
      r.1 = { it with currentNs := ns, nextNsData := some data } := by
  have hreads : Reads m (enterVendor vns it) (· < it.maxLength) := by
    simp only [enterVendor, reads_bind hm, reads_u8, reads_le16 hm, reads_pure, and_true]
    omega
  have hdata : 8 ≤ it.arg + 6 + m.le16At (it.arg + 4) := by
    have := h.arg
    omega
  refine ⟨_, run_value (hreads.imp hm), ?_⟩
  simp only [enterVendor, value_bind, value_pure, value_le16]
  exact ⟨_, _, hdata, rfl⟩

include hw

/-- After an argument has been moved over. -/
theorem afterArg_ok (h : IterOk w it) (hbit : it.bitmapShifter % 2 = 1) (harg : 8 ≤ it.thisArg)
    (hsize : it.thisArg + it.thisArgSize ≤ it.maxLength) :
    ∃ r, run m (afterArg it) = some r ∧ RoundOk w it.maxLength (roundsLeft it) r := by
  unfold afterArg
  split
  · -- a vendor namespace
    rename_i h30
    have hne : it.argIndex % 32 ≠ IEEE80211_RADIOTAP_EXT := h30 ▸ by decide
    let it₁ : RadiotapIter := { it with
      resetOnExt := true, isRadiotapNs := false, thisArgIndex := IEEE80211_RADIOTAP_VENDOR_NAMESPACE }
    have hok : IterOk w it₁ := ⟨h.word, h.arg, h.nsData, h.ns⟩
    obtain ⟨hnext, hrounds⟩ := hok.nextEntry hne
    simp only
    split
    · exact ⟨_, run_pure _ _, ⟨hnext, rfl, hrounds⟩, harg, hsize⟩
    · exact ⟨_, run_pure _ _, hnext, rfl, hrounds⟩
  · split
    · -- back in the radiotap namespace
      rename_i h29
      have hne : it.argIndex % 32 ≠ IEEE80211_RADIOTAP_EXT := h29 ▸ by decide
      let it₁ : RadiotapIter := { it with
        resetOnExt := true, currentNs := some .radiotap, isRadiotapNs := true }
      have hok : IterOk w it₁ := ⟨h.word, h.arg, h.nsData, fun _ => rfl⟩
      obtain ⟨hnext, hrounds⟩ := hok.nextEntry hne
      exact ⟨_, run_pure _ _, hnext, rfl, hrounds⟩
    · split
      · -- the next present word
        rename_i h31
        obtain ⟨k, hnext, hk⟩ := h.ext h31 hbit
        obtain ⟨hle, hword⟩ := hw k hk
        have hread := run_le32_of_le hm (by omega : 8 + 4 * k + 4 ≤ it.maxLength)
        have hmod : (if it.resetOnExt then 0 else it.argIndex + 1) % 32 = 0 := by
          unfold IEEE80211_RADIOTAP_EXT at h31
          split <;> omega
        simp only [run_bind, hnext, hread, Option.bind_some, run_pure]
        refine ⟨_, rfl, ⟨⟨k + 1, ?_, hk, ?_⟩, h.arg, h.nsData, h.ns⟩, rfl, ?_⟩
        · show 8 + 4 * k + 4 = 8 + 4 * (k + 1)
          omega
        · show m.le32At (8 + 4 * k) = w (k + 1) / 2 ^ (_ % 32)
          rw [hmod, hword, pow_zero, Nat.div_one]
        · show 8 * (it.maxLength + 8 - (8 + 4 * k + 4)) + (32 - _ % 32) < roundsLeft it
          rw [hmod, roundsLeft, h31, hnext, IEEE80211_RADIOTAP_EXT]
          omega
      · -- an argument
        rename_i h31
        obtain ⟨hnext, hrounds⟩ := h.nextEntry h31
        exact ⟨_, run_pure _ _, ⟨hnext, rfl, hrounds⟩, harg, hsize⟩

/-- An argument of `size` bytes is moved over. -/
theorem takeArg_ok (h : IterOk w it) (hbit : it.bitmapShifter % 2 = 1) (size : ℕ) :
    ∃ r, run m (takeArg it size) = some r ∧ RoundOk w it.maxLength (roundsLeft it) r := by
  let it₁ : RadiotapIter := { it with
    thisArgIndex := it.argIndex, thisArg := it.arg, thisArgSize := size, arg := it.arg + size }
  have hok : IterOk w it₁ := ⟨h.word, h.arg.trans (Nat.le_add_right _ _), h.nsData, h.ns⟩
  unfold takeArg
  simp only
  split
  · exact ⟨_, run_pure _ _, trivial⟩
  · rename_i hle
    exact afterArg_ok it₁ hm hw hok hbit h.arg (Nat.not_lt.1 hle)

/-- An argument that is present, moved to its alignment. -/
theorem presentArg_ok (vns : List RadiotapNamespace) (h : IterOk w it) (hbit : it.bitmapShifter % 2 = 1) (align size : ℕ)
    (hsize : it.argIndex % 32 = IEEE80211_RADIOTAP_VENDOR_NAMESPACE → size = 6) :
    ∃ r, run m (presentArg vns it align size) = some r ∧
      RoundOk w it.maxLength (roundsLeft it) r := by
  obtain ⟨arg, harg, hpad⟩ : ∃ arg, 8 ≤ arg ∧
      (let pad := it.arg &&& (align - 1)
       if pad ≠ 0 then { it with arg := it.arg + (align - pad) } else it) = { it with arg } := by
    have := h.arg
    simp only
    split
    · exact ⟨_, by omega, rfl⟩
    · exact ⟨it.arg, h.arg, rfl⟩
  let it₁ : RadiotapIter := { it with arg }
  have hok : IterOk w it₁ := ⟨h.word, harg, h.nsData, h.ns⟩
  unfold presentArg
  simp only at hpad ⊢
  rw [hpad]
  split
  · rename_i h30
    split
    · exact ⟨_, run_pure _ _, trivial⟩
    · rename_i hle
      rw [hsize h30] at hle
      obtain ⟨entered, hrun, ns, data, hdata, hit⟩ :=
        enterVendor_ok it₁ hm vns hok (Nat.not_lt.1 hle)
      let it₂ : RadiotapIter := { it₁ with currentNs := ns, nextNsData := some data }
      have hok₂ : IterOk w it₂ := by
        refine ⟨h.word, harg, ?_, fun hnone => by cases hnone⟩
        rintro _ ⟨⟩
        exact hdata
      rw [run_bind, hrun, Option.bind_some, hit]
      exact takeArg_ok it₂ hm hw hok₂ hbit entered.2
  · exact takeArg_ok it₁ hm hw hok hbit size

/-- **A round stays inside the header**: from a state as it is between two rounds it reads bytes of
the header only, and it goes on to such a state, returns an argument of the header, fails, or has
met bit 18 of a present word before any vendor namespace. -/
theorem nextRound_ok (vns : List RadiotapNamespace) (h : IterOk w it) :
    ∃ r, run m (nextRound vns it) = some r ∧ RoundOk w it.maxLength (roundsLeft it) r := by
  unfold nextRound
  split
  · exact ⟨_, run_pure _ _, trivial⟩
  · rename_i hend
    split
    · rename_i hbit
      obtain ⟨hnext, hrounds⟩ := h.nextEntry fun h31 => hend ⟨h31, hbit⟩
      exact ⟨_, run_pure _ _, hnext, rfl, hrounds⟩
    · rename_i hbit
      have hbit : it.bitmapShifter % 2 = 1 := by omega
      cases hsize : argAlignSize it with
      | none =>
        have h31 : it.argIndex % 32 ≠ IEEE80211_RADIOTAP_EXT := by
          intro h31
          simp [argAlignSize, h31] at hsize
        simp only
        split
        · exact ⟨_, run_pure _ _, trivial⟩
        · rename_i hns
          cases hdata : it.nextNsData with
          | none => exact absurd (h.ns hdata) hns
          | some data =>
            have hskip := h.skip hdata h31
            rw [hdata] at hskip
            exact ⟨_, run_pure _ _, hskip⟩
      | some size =>
        obtain ⟨align, size⟩ := size
        cases align with
        | zero =>
          obtain ⟨h29, h30, h31⟩ := argIndex_of_align_zero hsize
          cases hdata : it.nextNsData with
          | none =>
            rw [argAlignSize, if_neg (not_or.2 ⟨h29, h31⟩), if_neg h30, h.ns hdata] at hsize
            obtain ⟨k, -, hk, hbits⟩ := h.word
            have h18 := eq_18_of_align_zero hsize
            rw [hbits, shifter_odd_iff, h18] at hbit
            exact ⟨_, run_pure _ _, k, hk, hbit⟩
          | some data =>
            have hskip := h.skip hdata h31
            rw [hdata] at hskip
            exact ⟨_, run_pure _ _, hskip⟩
        | succ align =>
          refine presentArg_ok it hm hw vns h hbit (align + 1) size fun h30 => ?_
          rw [argAlignSize, if_neg (by rw [h30]; decide), if_pos h30] at hsize
          cases hsize
          rfl

/-- **A call returns**: there are enough rounds in `n` if no more than `n` are left. -/
theorem next_ok (vns : List RadiotapNamespace) (n : ℕ) (h : IterOk w it) (hn : roundsLeft it ≤ n) :
    ∃ r, IterReturns m vns it r ∧ RoundOk w it.maxLength (roundsLeft it) r ∧
      ∀ it', r ≠ .again it' := by
  induction n generalizing it with
  | zero =>
    unfold roundsLeft at hn
    omega
  | succ n ih =>
    obtain ⟨r, hr, hok⟩ := nextRound_ok it hm hw vns h
    cases r with
    | again it₁ =>
      obtain ⟨h₁, hlen, hrounds⟩ := hok
      rw [← hlen] at hm hw ⊢
      obtain ⟨r, hret, hok, hne⟩ := ih it₁ hm hw h₁ (by omega)
      exact ⟨r, .of_again hr hret, hok.mono hrounds.le, hne⟩
    | hit it₁ => exact ⟨_, .of_hit hr, hok, fun _ h => by cases h⟩
    | failed e => exact ⟨_, .of_failed hr, trivial, fun _ h => by cases h⟩
    | undefined => exact ⟨_, ⟨1, by rw [nextLoop, run_bind, hr]; rfl⟩, hok, fun _ h => by cases h⟩

end Round

/-! ### All calls -/

/-- Successive calls of `next` return arguments, of which the offset and the size are listed, and end
with `r`, which is a failure or `undefined`. -/
inductive IterCalls (m : Mem) (vns : List RadiotapNamespace) :
    RadiotapIter → List (ℕ × ℕ) → IterRound → Prop
  | failed {it e} : IterReturns m vns it (.failed e) → IterCalls m vns it [] (.failed e)
  | undefined {it} : IterReturns m vns it .undefined → IterCalls m vns it [] .undefined
  | hit {it it' args r} : IterReturns m vns it (.hit it') → IterCalls m vns it' args r →
      IterCalls m vns it ((it'.thisArg, it'.thisArgSize) :: args) r

section Calls

variable {m : Mem} {w : ℕ → ℕ}

/-- **The calls end**, with arguments inside the header. -/
theorem calls_ok (vns : List RadiotapNamespace) (n : ℕ) (it : RadiotapIter)
    (hm : ∀ i < it.maxLength, (m i).isSome)
    (hw : ∀ k, PresentWord w (k + 1) →
      12 + 4 * k ≤ it.maxLength ∧ m.le32At (8 + 4 * k) = w (k + 1))
    (h : IterOk w it) (hn : roundsLeft it ≤ n) :
    ∃ args r, IterCalls m vns it args r ∧ args.length ≤ n ∧
      (∀ a ∈ args, 8 ≤ a.1 ∧ a.1 + a.2 ≤ it.maxLength) ∧
      (r = .undefined → ∃ k, PresentWord w k ∧ (w k).testBit 18) := by
  induction n generalizing it with
  | zero =>
    unfold roundsLeft at hn
    omega
  | succ n ih =>
    obtain ⟨r, hret, hok, hne⟩ := next_ok it hm hw vns _ h le_rfl
    cases r with
    | again it₁ => exact absurd rfl (hne it₁)
    | hit it₁ =>
      obtain ⟨⟨h₁, hlen, hrounds⟩, harg⟩ := hok
      rw [← hlen] at hm hw harg ⊢
      obtain ⟨args, r, hcalls, hlength, hargs, h18⟩ := ih it₁ hm hw h₁ (by omega)
      refine ⟨_, r, .hit hret hcalls, ?_, List.forall_mem_cons.2 ⟨harg, hargs⟩, h18⟩
      rw [List.length_cons]
      omega
    | failed e =>
      refine ⟨[], _, .failed hret, Nat.zero_le _, ?_, fun h => by cases h⟩
      intro a ha
      cases ha
    | undefined =>
      refine ⟨[], _, .undefined hret, Nat.zero_le _, ?_, fun _ => hok⟩
      intro a ha
      cases ha

end Calls

/-! ### From the initialization on -/

/-- The present words of a header. -/
def presentWords (m : Mem) (k : ℕ) : ℕ := m.le32At (4 + 4 * k)

section Init

variable {m : Mem}

/-- The extended present words are skipped inside the header. -/
theorem skipBitmaps_ok {itLen : ℕ} (a n : ℕ) (hm : ∀ i < itLen, (m i).isSome)
    (ha : a + 4 ≤ itLen) : ∃ r, run m (skipBitmaps itLen a n) = some r ∧
      ∀ a', r = .ok a' → a + 4 ≤ a' ∧
        ∀ k, (∀ j < k, (m.le32At (a + 4 * j)).testBit IEEE80211_RADIOTAP_EXT) →
          a + 4 * k + 4 ≤ itLen := by
  induction n generalizing a with
  | zero => exact ⟨_, run_pure _ _, fun a' h => by cases h⟩
  | succ n ih =>
    simp only [skipBitmaps, run_bind, run_le32_of_le hm ha, Option.bind_some]
    split
    · rename_i hbit
      split
      · exact ⟨_, run_pure _ _, fun a' h => by cases h⟩
      · obtain ⟨r, hr, hok⟩ := ih (a + 4) (by omega)
        refine ⟨r, hr, fun a' ha' => ?_⟩
        obtain ⟨hle, hwords⟩ := hok a' ha'
        refine ⟨by omega, fun k hk => ?_⟩
        rcases k with _ | k
        · omega
        · have := hwords k fun j hj => by
            have := hk (j + 1) (by omega)
            rwa [show a + 4 * (j + 1) = a + 4 + 4 * j by ring] at this
          omega
    · rename_i hbit
      refine ⟨_, run_pure _ _, ?_⟩
      rintro _ ⟨⟩
      refine ⟨le_rfl, fun k hk => ?_⟩
      rcases k with _ | k
      · omega
      · exact absurd (hk 0 (by omega)) hbit

/-- The iterator that the initialization leaves for a header of `itLen` bytes. -/
theorem iteratorStart_ok {itLen n : ℕ} (hm : ∀ i < n, (m i).isSome) (h8 : 8 ≤ n) (hn : itLen ≤ n) :
    ∃ r, run m (iteratorStart itLen) = some r ∧ ∀ it, r = .ok it →
      it.maxLength = itLen ∧ it.nextBitmap = 8 ∧ IterOk (presentWords m) it ∧
        ∀ k, PresentWord (presentWords m) (k + 1) → 12 + 4 * k ≤ itLen := by
  have hstart : ∃ r, run m (if (m.le32At 4).testBit IEEE80211_RADIOTAP_EXT then
        if 8 + 4 > itLen then pure (.error .einval) else skipBitmaps itLen 8 itLen
      else pure (.ok 8)) = some r ∧ ∀ a, r = .ok a → 8 ≤ a ∧
        ∀ k, PresentWord (presentWords m) (k + 1) → 12 + 4 * k ≤ itLen := by
    split
    · split
      · exact ⟨_, run_pure _ _, fun a h => by cases h⟩
      · obtain ⟨r, hr, hok⟩ := skipBitmaps_ok 8 itLen
          (fun i (hi : i < itLen) => hm i (by omega)) (by omega)
        refine ⟨r, hr, fun a ha => ?_⟩
        obtain ⟨hle, hwords⟩ := hok a ha
        refine ⟨by omega, fun k hk => ?_⟩
        have := hwords k fun j hj => by
          have := hk (j + 1) (by omega)
          rwa [presentWords, show 4 + 4 * (j + 1) = 8 + 4 * j by ring] at this
        omega
    · rename_i hbit
      refine ⟨_, run_pure _ _, ?_⟩
      rintro _ ⟨⟩
      refine ⟨le_rfl, fun k hk => absurd (hk 0 (by omega)) hbit⟩
  obtain ⟨r, hr, hok⟩ := hstart
  have hpresent := run_le32_of_le hm (by omega : 4 + 4 ≤ n)
  cases r with
  | error e =>
    refine ⟨.error e, ?_, fun it h => by cases h⟩
    simp only [iteratorStart, run_bind, hpresent, Option.bind_some, hr, run_pure]
    rfl
  | ok a =>
    obtain ⟨ha, hwords⟩ := hok a rfl
    have hrun : run m (iteratorStart itLen) = some (.ok
        { maxLength := itLen, argIndex := 0, arg := a, bitmapShifter := m.le32At 4,
          nextBitmap := 8, nextNsData := none, resetOnExt := false, currentNs := some .radiotap,
          isRadiotapNs := true, thisArg := a, thisArgIndex := 0, thisArgSize := 0 }) := by
      simp only [iteratorStart, run_bind, hpresent, Option.bind_some, hr, run_pure]
      rfl
    refine ⟨_, hrun, ?_⟩
    rintro _ ⟨⟩
    refine ⟨rfl, rfl, ⟨⟨0, rfl, ?_, (Nat.div_one _).symm⟩, ha, ?_, fun _ => rfl⟩, hwords⟩
    · intro j hj
      omega
    · rintro data ⟨⟩

/-- What the initialization leaves. -/
theorem init_ok {maxLength : ℤ} (hm : ∀ i : ℕ, (i : ℤ) < maxLength → (m i).isSome) :
    ∃ r, run m (ieee80211RadiotapIteratorInit maxLength) = some r ∧ ∀ it, r = .ok it →
      (it.maxLength : ℤ) ≤ maxLength ∧ it.nextBitmap = 8 ∧ IterOk (presentWords m) it ∧
        ∀ k, PresentWord (presentWords m) (k + 1) → 12 + 4 * k ≤ it.maxLength := by
  have hn : ∀ i < maxLength.toNat, (m i).isSome := fun i hi => hm i (by omega)
  unfold ieee80211RadiotapIteratorInit
  split
  · exact ⟨_, run_pure _ _, fun it h => by cases h⟩
  · rename_i h8
    obtain ⟨version, hversion⟩ := Option.isSome_iff_exists.1 (hn 0 (by omega))
    have hlen : run m (le16 2) = some (m.le16At 2) := by
      have hreads := (reads_le16 hn 2).2 ⟨by omega, by omega⟩
      rw [run_value (hreads.imp hn), value_le16]
    simp only [run_bind, run_u8, hversion, Option.bind_some]
    split
    · exact ⟨_, run_pure _ _, fun it h => by cases h⟩
    · simp only [run_bind, hlen, Option.bind_some]
      split
      · exact ⟨_, run_pure _ _, fun it h => by cases h⟩
      · rename_i hle
        obtain ⟨r, hr, hok⟩ := iteratorStart_ok hn (by omega) (by omega : m.le16At 2 ≤ _)
        refine ⟨r, hr, fun it hit => ?_⟩
        obtain ⟨hlen, hok⟩ := hok it hit
        rw [hlen]
        exact ⟨by omega, hok⟩

/-- **The iterator is safe on arbitrary bytes.**  The initialization reads bytes of the packet only.
The calls after it read the `it_len` bytes of the header only, end after `8 * it_len + 32` arguments
at most, and return arguments inside the header.  Only a present word with bit 18 set can make them
use `_next_ns_data` before it is set. -/
theorem iterator_safe (l : List UInt8) (vns : List RadiotapNamespace) :
    ∃ r, run (Mem.ofList l) (ieee80211RadiotapIteratorInit l.length) = some r ∧
      ∀ it, r = .ok it → it.maxLength ≤ l.length ∧
        ∃ args r, IterCalls (Mem.ofList (l.take it.maxLength)) vns it args r ∧
          args.length ≤ 8 * it.maxLength + 32 ∧
          (∀ a ∈ args, 8 ≤ a.1 ∧ a.1 + a.2 ≤ it.maxLength) ∧
          (r = .undefined → ∃ k, PresentWord (presentWords (Mem.ofList l)) k ∧
            (presentWords (Mem.ofList l) k).testBit 18) := by
  obtain ⟨r, hr, hok⟩ := @init_ok (Mem.ofList l) l.length fun i hi =>
    Mem.ofList_isSome.2 (by omega)
  refine ⟨r, hr, fun it hit => ?_⟩
  obtain ⟨hle, hnext, hok, hwords⟩ := hok it hit
  have hle : it.maxLength ≤ l.length := by omega
  have hlen : (l.take it.maxLength).length = it.maxLength := by
    rw [List.length_take, min_eq_left hle]
  refine ⟨hle, calls_ok vns _ it ?_ ?_ hok ?_⟩
  · intro i hi
    rw [Mem.ofList_isSome, hlen]
    exact hi
  · intro k hk
    have hin := hwords k hk
    refine ⟨hin, ?_⟩
    rw [presentWords, show 4 + 4 * (k + 1) = 8 + 4 * k by ring]
    apply Mem.le32At_congr
    intro j hj
    exact List.getElem?_take_of_lt (by omega)
  · rw [roundsLeft, hnext]
    omega

end Init

end LocTag
