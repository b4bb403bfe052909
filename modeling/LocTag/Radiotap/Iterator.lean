import LocTag.Lib.Words

/-!
# The radiotap iterator

`ieee80211_radiotap_iterator_init` and `ieee80211_radiotap_iterator_next` of `radiotap.c`.  Pointers
into the packet are offsets from the radiotap header, so an iterator is a record of numbers and the
two functions are programs that read bytes.

The loop of `next` is `nextLoop`, with fuel; `IterReturns` is its result when there is enough, and
there is one at most (`IterReturns.unique`).  `IterRun` are the results of successive calls.
-/

namespace LocTag

open Lib Lib.Fetch

/-! ### Namespaces -/

/-- `struct radiotap_align_size` -/
structure RadiotapAlignSize where
  align : ℕ
  size : ℕ
  deriving DecidableEq

/-- `struct ieee80211_radiotap_namespace` -/
structure RadiotapNamespace where
  alignSize : List RadiotapAlignSize
  oui : ℕ
  subns : ℕ
  deriving DecidableEq

/-- `rtap_namespace_sizes`; an argument left out of the table has alignment `0`. -/
def rtapNamespaceSizes : List RadiotapAlignSize :=
  [⟨8, 8⟩, ⟨1, 1⟩, ⟨1, 1⟩, ⟨2, 4⟩, ⟨2, 2⟩, ⟨1, 1⟩, ⟨1, 1⟩, ⟨2, 2⟩, ⟨2, 2⟩, ⟨2, 2⟩, ⟨1, 1⟩, ⟨1, 1⟩,
    ⟨1, 1⟩, ⟨1, 1⟩, ⟨2, 2⟩, ⟨2, 2⟩, ⟨1, 1⟩, ⟨1, 1⟩, ⟨0, 0⟩, ⟨1, 3⟩, ⟨4, 8⟩, ⟨2, 12⟩, ⟨8, 12⟩]

/-- What `current_namespace` points to: `radiotap_ns`, or one of the vendor namespaces. -/
inductive CurrentNs where
  | radiotap
  | vendor (ns : RadiotapNamespace)
  deriving DecidableEq

def CurrentNs.alignSize : CurrentNs → List RadiotapAlignSize
  | radiotap => rtapNamespaceSizes
  | vendor ns => ns.alignSize

def IEEE80211_RADIOTAP_RADIOTAP_NAMESPACE : ℕ := 29
def IEEE80211_RADIOTAP_VENDOR_NAMESPACE : ℕ := 30
def IEEE80211_RADIOTAP_EXT : ℕ := 31

/-! ### The iterator -/

/-- `struct ieee80211_radiotap_iterator`; `nextNsData` is not set before the first vendor
namespace. -/
structure RadiotapIter where
  maxLength : ℕ
  argIndex : ℕ
  arg : ℕ
  bitmapShifter : ℕ
  nextBitmap : ℕ
  nextNsData : Option ℕ
  resetOnExt : Bool
  currentNs : Option CurrentNs
  isRadiotapNs : Bool
  thisArg : ℕ
  thisArgIndex : ℕ
  thisArgSize : ℕ
  deriving DecidableEq

/-- The error codes. -/
inductive RadiotapError where
  | einval
  | enoent
  deriving DecidableEq

/-- Skips the extended present words from offset `arg` on; at most `n`. -/
def skipBitmaps (maxLength arg : ℕ) : ℕ → Fetch (Except RadiotapError ℕ)
  | 0 => pure (.error .einval)
  | n + 1 => do
    let present ← le32 arg
    if present.testBit IEEE80211_RADIOTAP_EXT then
      if arg + 4 + 4 > maxLength then pure (.error .einval) else skipBitmaps maxLength (arg + 4) n
    else pure (.ok (arg + 4))

/-- `ieee80211_radiotap_iterator_init` past the checks of the lengths. -/
def iteratorStart (itLen : ℕ) : Fetch (Except RadiotapError RadiotapIter) := do
  let present ← le32 4
  let start : Except RadiotapError ℕ ← (if present.testBit IEEE80211_RADIOTAP_EXT then
      if 8 + 4 > itLen then pure (.error .einval) else skipBitmaps itLen 8 itLen
    else pure (.ok 8))
  pure (start.map fun arg =>
    { maxLength := itLen, argIndex := 0, arg, bitmapShifter := present, nextBitmap := 8,
      nextNsData := none, resetOnExt := false, currentNs := some .radiotap, isRadiotapNs := true,
      thisArg := arg, thisArgIndex := 0, thisArgSize := 0 })

/-- `ieee80211_radiotap_iterator_init` -/
def ieee80211RadiotapIteratorInit (maxLength : ℤ) : Fetch (Except RadiotapError RadiotapIter) :=
  if maxLength < 8 then pure (.error .einval) else do
    let version ← u8 0
    if version ≠ 0 then pure (.error .einval) else do
      let itLen ← le16 2
      if maxLength < itLen then pure (.error .einval) else iteratorStart itLen

/-- `find_ns` -/
def findNs (vns : List RadiotapNamespace) (oui subns : ℕ) : Option CurrentNs :=
  (vns.find? fun ns => ns.oui = oui ∧ ns.subns = subns).map .vendor

/-- The end of a round: the next one, or a return. -/
inductive IterRound where
  | again (it : RadiotapIter)
  | hit (it : RadiotapIter)
  | failed (e : RadiotapError)
  | undefined
  deriving DecidableEq

/-- `next_entry:` -/
def nextEntry (it : RadiotapIter) : RadiotapIter :=
  { it with bitmapShifter := it.bitmapShifter / 2, argIndex := it.argIndex + 1 }

/-- The alignment and the size of the argument, `none` for one the namespace does not know. -/
def argAlignSize (it : RadiotapIter) : Option RadiotapAlignSize :=
  if it.argIndex % 32 = IEEE80211_RADIOTAP_RADIOTAP_NAMESPACE ∨
      it.argIndex % 32 = IEEE80211_RADIOTAP_EXT then some ⟨1, 0⟩
  else if it.argIndex % 32 = IEEE80211_RADIOTAP_VENDOR_NAMESPACE then some ⟨2, 6⟩
  else it.currentNs.bind fun ns => ns.alignSize[it.argIndex]?

/-- Reads a vendor namespace at `arg`, and the size of the argument it is. -/
def enterVendor (vns : List RadiotapNamespace) (it : RadiotapIter) :
    Fetch (RadiotapIter × ℕ) := do
  let b0 ← u8 it.arg
  let b1 ← u8 (it.arg + 1)
  let b2 ← u8 (it.arg + 2)
  let subns ← u8 (it.arg + 3)
  let vnslen ← le16 (it.arg + 4)
  let ns := findNs vns (b0.toNat * 65536 + b1.toNat * 256 + b2.toNat) subns.toNat
  let it := { it with currentNs := ns, nextNsData := some (it.arg + 6 + vnslen) }
  pure (it, if ns = none then 6 + vnslen else 6)

/-- The part of a round after the argument has been moved over. -/
def afterArg (it : RadiotapIter) : Fetch IterRound :=
  if it.argIndex % 32 = IEEE80211_RADIOTAP_VENDOR_NAMESPACE then
    let it := { it with resetOnExt := true, isRadiotapNs := false,
                        thisArgIndex := IEEE80211_RADIOTAP_VENDOR_NAMESPACE }
    if it.currentNs = none then pure (.hit (nextEntry it)) else pure (.again (nextEntry it))
  else if it.argIndex % 32 = IEEE80211_RADIOTAP_RADIOTAP_NAMESPACE then
    pure (.again (nextEntry { it with
      resetOnExt := true, currentNs := some .radiotap, isRadiotapNs := true }))
  else if it.argIndex % 32 = IEEE80211_RADIOTAP_EXT then do
    let present ← le32 it.nextBitmap
    pure (.again { it with
      bitmapShifter := present, nextBitmap := it.nextBitmap + 4,
      argIndex := if it.resetOnExt then 0 else it.argIndex + 1, resetOnExt := false })
  else pure (.hit (nextEntry it))

/-- The part of a round for an argument of `size` bytes at `arg`. -/
def takeArg (it : RadiotapIter) (size : ℕ) : Fetch IterRound :=
  let it := { it with thisArgIndex := it.argIndex, thisArg := it.arg, thisArgSize := size,
                      arg := it.arg + size }
  if it.arg > it.maxLength then pure (.failed .einval) else afterArg it

/-- The part of a round for an argument that is present, of alignment `align ≠ 0`. -/
def presentArg (vns : List RadiotapNamespace) (it : RadiotapIter) (align size : ℕ) :
    Fetch IterRound :=
  let pad := it.arg &&& (align - 1)
  let it := if pad ≠ 0 then { it with arg := it.arg + (align - pad) } else it
  if it.argIndex % 32 = IEEE80211_RADIOTAP_VENDOR_NAMESPACE then
    if it.arg + size > it.maxLength then pure (.failed .einval) else do
      let entered ← enterVendor vns it
      takeArg entered.1 entered.2
  else takeArg it size

/-- A round of the loop of `ieee80211_radiotap_iterator_next`. -/
def nextRound (vns : List RadiotapNamespace) (it : RadiotapIter) : Fetch IterRound :=
  if it.argIndex % 32 = IEEE80211_RADIOTAP_EXT ∧ it.bitmapShifter % 2 = 0 then
    pure (.failed .enoent)
  else if it.bitmapShifter % 2 = 0 then pure (.again (nextEntry it))
  else match argAlignSize it with
    | none =>
      if it.currentNs = some .radiotap then pure (.failed .enoent)
      else match it.nextNsData with
        | none => pure .undefined
        | some data => pure (.again (nextEntry { it with arg := data, currentNs := none }))
    | some ⟨0, _⟩ => match it.nextNsData with
      | none => pure .undefined
      | some data => pure (.again (nextEntry { it with arg := data, currentNs := none }))
    | some ⟨align, size⟩ => presentArg vns it align size

/-- `n` rounds at most; `none` if they do not suffice. -/
def nextLoop (vns : List RadiotapNamespace) (it : RadiotapIter) : ℕ → Fetch (Option IterRound)
  | 0 => pure none
  | n + 1 => do
    let r ← nextRound vns it
    match r with
    | .again it => nextLoop vns it n
    | r => pure (some r)

/-- `ieee80211_radiotap_iterator_next` returns over the memory `m`, with a hit or a failure. -/
def IterReturns (m : Mem) (vns : List RadiotapNamespace) (it : RadiotapIter) (r : IterRound) :
    Prop := ∃ n, run m (nextLoop vns it n) = some (some r)

/-- More rounds change nothing. -/
theorem run_nextLoop_mono {m : Mem} {vns : List RadiotapNamespace} {it : RadiotapIter}
    {r : IterRound} {n k : ℕ} (hnk : n ≤ k) (h : run m (nextLoop vns it n) = some (some r)) :
    run m (nextLoop vns it k) = some (some r) := by
  induction n generalizing it k with
  | zero => simp [nextLoop] at h
  | succ n ih =>
    obtain ⟨k, rfl⟩ : ∃ j, k = j + 1 := ⟨k - 1, by omega⟩
    simp only [nextLoop, run_bind] at h ⊢
    obtain ⟨r₁, hr₁, h⟩ := Option.bind_eq_some_iff.1 h
    rw [hr₁, Option.bind_some]
    cases r₁ with
    | again it₁ => exact ih (by omega) h
    | hit it₁ => exact h
    | failed e => exact h
    | undefined => exact h

/-- **A call of `next` has one result.** -/
theorem IterReturns.unique {m : Mem} {vns : List RadiotapNamespace} {it : RadiotapIter}
    {r r' : IterRound} (h : IterReturns m vns it r) (h' : IterReturns m vns it r') : r = r' := by
  obtain ⟨n, hn⟩ := h
  obtain ⟨k, hk⟩ := h'
  have hn := run_nextLoop_mono (le_max_left n k) hn
  rw [run_nextLoop_mono (le_max_right n k) hk] at hn
  exact (Option.some.inj (Option.some.inj hn)).symm

section Rounds

variable {m : Mem} {vns : List RadiotapNamespace} {it it₁ : RadiotapIter}

/-- A round that goes on. -/
theorem IterReturns.of_again {r : IterRound} (h : run m (nextRound vns it) = some (.again it₁))
    (hr : IterReturns m vns it₁ r) : IterReturns m vns it r := by
  obtain ⟨n, hn⟩ := hr
  exact ⟨n + 1, by rw [nextLoop, run_bind, h]; exact hn⟩

/-- Arguments that are not present are passed over. -/
theorem IterReturns.of_absent (it₁ : RadiotapIter) {r : IterRound} {k : ℕ}
    (hbits : it.bitmapShifter % 2 ^ k = 0)
    (hidx : it.argIndex % 32 + k ≤ 31)
    (hit : { it with bitmapShifter := it.bitmapShifter / 2 ^ k, argIndex := it.argIndex + k } = it₁)
    (hr : IterReturns m vns it₁ r) : IterReturns m vns it r := by
  induction k generalizing it with
  | zero =>
    rw [← hit] at hr
    simpa using hr
  | succ k ih =>
    have hdvd : 2 ^ (k + 1) ∣ it.bitmapShifter := Nat.dvd_of_mod_eq_zero hbits
    rw [pow_succ'] at hdvd
    have h2 : it.bitmapShifter % 2 = 0 := Nat.mod_eq_zero_of_dvd (dvd_of_mul_right_dvd hdvd)
    have h31 : it.argIndex % 32 ≠ IEEE80211_RADIOTAP_EXT :=
      (lt_of_lt_of_le (by omega) hidx : it.argIndex % 32 < 31).ne
    have hround : run m (nextRound vns it) = some (.again (nextEntry it)) := by
      simp [nextRound, h31, h2]
    apply IterReturns.of_again hround
    apply ih
    · exact Nat.mod_eq_zero_of_dvd (Nat.dvd_div_of_mul_dvd hdvd)
    · simp only [nextEntry]
      omega
    · rw [← hit]
      simp only [nextEntry, Nat.div_div_eq_div_mul, ← pow_succ', Nat.add_assoc, Nat.add_comm 1]

/-- A round that returns. -/
theorem IterReturns.of_hit (h : run m (nextRound vns it) = some (.hit it₁)) :
    IterReturns m vns it (.hit it₁) := ⟨1, by rw [nextLoop, run_bind, h]; rfl⟩

theorem IterReturns.of_failed {e : RadiotapError}
    (h : run m (nextRound vns it) = some (.failed e)) : IterReturns m vns it (.failed e) :=
  ⟨1, by rw [nextLoop, run_bind, h]; rfl⟩

/-- A round that moves over an argument returns it, or fails if it ends past the header. -/
theorem IterReturns.of_takeArg {size : ℕ}
    (h : run m (nextRound vns it) = run m (takeArg it₁ size)) (hidx : it₁.argIndex % 32 < 29) :
    IterReturns m vns it (if it₁.arg + size ≤ it₁.maxLength then
      .hit (nextEntry { it₁ with thisArgIndex := it₁.argIndex, thisArg := it₁.arg,
                                 thisArgSize := size, arg := it₁.arg + size })
      else .failed .einval) := by
  have h29 : it₁.argIndex % 32 ≠ IEEE80211_RADIOTAP_RADIOTAP_NAMESPACE := hidx.ne
  have h30 : it₁.argIndex % 32 ≠ IEEE80211_RADIOTAP_VENDOR_NAMESPACE := (hidx.trans (by decide)).ne
  have h31 : it₁.argIndex % 32 ≠ IEEE80211_RADIOTAP_EXT := (hidx.trans (by decide)).ne
  split
  · rename_i hle
    apply IterReturns.of_hit
    simp [h, takeArg, Nat.not_lt.2 hle, afterArg, h29, h30, h31]
  · rename_i hlt
    apply IterReturns.of_failed
    simp [h, takeArg, Nat.not_le.1 hlt]

end Rounds

/-- A call over a memory is the same over every memory that has its bytes. -/
theorem IterReturns.mono {m m' : Mem} (hle : ∀ i b, m i = some b → m' i = some b)
    {vns : List RadiotapNamespace} {it : RadiotapIter} {r : IterRound}
    (h : IterReturns m vns it r) : IterReturns m' vns it r :=
  h.imp fun _ hn => run_mono hle hn

/-- Successive calls of `next` return arguments, of which the index, the offset and the size are
listed, and then fail. -/
inductive IterRun (m : Mem) (vns : List RadiotapNamespace) :
    RadiotapIter → List (ℕ × ℕ × ℕ) → RadiotapError → Prop
  | failed {it e} : IterReturns m vns it (.failed e) → IterRun m vns it [] e
  | hit {it it' args e} : IterReturns m vns it (.hit it') → IterRun m vns it' args e →
      IterRun m vns it ((it'.thisArgIndex, it'.thisArg, it'.thisArgSize) :: args) e

/-- The arguments of a packet are determined. -/
theorem IterRun.unique {m : Mem} {vns : List RadiotapNamespace} {it : RadiotapIter}
    {args args' : List (ℕ × ℕ × ℕ)} {e e' : RadiotapError} (h : IterRun m vns it args e)
    (h' : IterRun m vns it args' e') : args = args' ∧ e = e' := by
  induction h generalizing args' e' with
  | failed hr =>
    cases h' with
    | failed hr' => exact ⟨rfl, IterRound.failed.inj (hr.unique hr')⟩
    | hit hr' _ => cases hr.unique hr'
  | hit hr _ ih =>
    cases h' with
    | failed hr' => cases hr.unique hr'
    | hit hr' hrest =>
      obtain rfl := IterRound.hit.inj (hr.unique hr')
      obtain ⟨rfl, rfl⟩ := ih hrest
      exact ⟨rfl, rfl⟩

/-- A run that ends well from a call that returns its argument if `c` and fails otherwise. -/
theorem IterRun.enoent_iff {m : Mem} {vns : List RadiotapNamespace} {it it₁ : RadiotapIter}
    {c : Prop} [Decidable c] {args : List (ℕ × ℕ × ℕ)}
    (hret : IterReturns m vns it (if c then .hit it₁ else .failed .einval)) :
    IterRun m vns it args .enoent ↔
      c ∧ ∃ rest, args = (it₁.thisArgIndex, it₁.thisArg, it₁.thisArgSize) :: rest ∧
        IterRun m vns it₁ rest .enoent := by
  by_cases hc : c
  · rw [if_pos hc] at hret
    constructor
    · intro h
      cases h with
      | failed hr => cases hret.unique hr
      | hit hr hrest =>
        obtain rfl := IterRound.hit.inj (hret.unique hr)
        exact ⟨hc, _, rfl, hrest⟩
    · rintro ⟨-, rest, rfl, hrest⟩
      exact .hit hret hrest
  · rw [if_neg hc] at hret
    constructor
    · intro h
      cases h with
      | failed hr => cases hret.unique hr
      | hit hr _ => cases hret.unique hr
    · intro h
      exact absurd h.1 hc

/-- A run from a call that fails. -/
theorem IterRun.failed_iff {m : Mem} {vns : List RadiotapNamespace} {it : RadiotapIter}
    {args : List (ℕ × ℕ × ℕ)} {e : RadiotapError} (hret : IterReturns m vns it (.failed e)) :
    IterRun m vns it args e ↔ args = [] := by
  constructor
  · intro h
    exact (h.unique (.failed hret)).1
  · rintro rfl
    exact .failed hret

theorem IterRun.mono {m m' : Mem} (hle : ∀ i b, m i = some b → m' i = some b)
    {vns : List RadiotapNamespace} {it : RadiotapIter} {args : List (ℕ × ℕ × ℕ)}
    {e : RadiotapError} (h : IterRun m vns it args e) : IterRun m' vns it args e := by
  induction h with
  | failed hr => exact .failed (hr.mono hle)
  | hit hr _ ih => exact .hit (hr.mono hle) ih

end LocTag
