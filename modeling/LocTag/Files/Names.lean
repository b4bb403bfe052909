import LocTag.Files.Invariant

/-!
# File names identify states

The name of a file can be entered again: `setFileName(getFilename())` gives the numbers and the
extension back, for every state that the constructor and the methods lead to and that has a number.
So two such states with one name are alike but for the cursor.

What it takes is `NameInv`: the numbers are `int`s that are not negative, and the extension has its
one dot in front.
-/

namespace LocTag

open Lib

namespace FileHandler

variable {T : DigitTables} {fh : FileHandler}

/-! ### Reading numbers back -/

theorem mem_pad2 {n : ℕ} {c : Char} (h : c ∈ pad2 n) : ∃ d < 10, c = Nat.digitChar d := by
  have h : c ∈ (Nat.toDigits 10 n).leftpad 2 '0' := h
  rw [List.leftpad, List.mem_append] at h
  rcases h with h | h
  · exact ⟨0, by omega, List.eq_of_mem_replicate h⟩
  · exact exists_digitChar_of_mem_toDigits (by omega) h

theorem isRegexDigit_digitChar {d : ℕ} (h : d < 10) : isRegexDigit T (Nat.digitChar d) = true := by
  interval_cases d <;> rfl

theorem characterDigit10_digitChar {d : ℕ} (h : d < 10) :
    characterDigit10 T (Nat.digitChar d) = some d := by
  interval_cases d <;> rfl

/-- Digits are read as C code reads them. -/
theorem parseDigits10_eq {s : List Char} (h : ∀ c ∈ s, ∃ d < 10, c = Nat.digitChar d) (acc : ℕ) :
    parseDigits10 T acc s = some (readDigits 10 acc s).1 := by
  induction s generalizing acc with
  | nil => rfl
  | cons c s ih =>
    obtain ⟨⟨d, hd, rfl⟩, hs⟩ := List.forall_mem_cons.1 h
    rw [parseDigits10, characterDigit10_digitChar hd, Option.bind_some,
      readDigits_digitChar (by omega) hd, ih hs]

/-- **A printed number is read back.** -/
theorem parseComponent_pad2 {d : ℤ} (h0 : 0 ≤ d) (hmax : d < 2147483648) :
    parseComponent T (pad2 d) = some d := by
  obtain ⟨n, rfl⟩ := Int.eq_ofNat_of_zero_le h0
  have hmatches : matchesDigits T (pad2 n) = true := by
    rw [matchesDigits, Bool.and_eq_true, List.all_eq_true]
    refine ⟨by simp [pad2_ne_nil], ?_⟩
    intro c hc
    obtain ⟨d, hd, rfl⟩ := mem_pad2 hc
    exact isRegexDigit_digitChar hd
  have hread : readDigits 10 0 (pad2 n) = (n, []) := by
    have := readDigits_toDigits (by omega : 1 < 10) (by omega) n []
    rw [List.append_nil] at this
    show readDigits 10 0 ((Nat.toDigits 10 n).leftpad 2 '0') = _
    rw [List.leftpad, readDigits_replicate_zero (by omega), this, readDigits]
  have hlt : n < 2147483648 := by omega
  rw [parseComponent, if_pos hmatches, parseInt, parseDigits10_eq fun c hc => mem_pad2 hc, hread,
    Option.bind_some, if_pos hlt]

/-! ### Reading names back -/

/-- What the state of a file name has to be to be read back. -/
structure NameInv (fh : FileHandler) : Prop where
  range : ∀ d ∈ fh.mFileNameComponents, 0 ≤ d ∧ d < 2147483648
  ext : ∃ t, fh.ext = '.' :: t ∧ '.' ∉ t

/-- The numbers of a name. -/
theorem parseComponents_getFilename (h : NameInv fh) (hne : fh.mFileNameComponents ≠ []) :
    parseComponents T fh.getFilename = some fh.mFileNameComponents := by
  obtain ⟨t, hext, ht⟩ := h.ext
  have hstem : stem fh.getFilename = ['/'].intercalate (fh.mFileNameComponents.map pad2) := by
    rw [stem, getFilename, hext, lastIndexOf_append ht]
    exact List.take_left
  have hsplit : (['/'].intercalate (fh.mFileNameComponents.map pad2)).splitOn '/' =
      fh.mFileNameComponents.map pad2 :=
    List.splitOn_intercalate '/' fh.slash_not_mem_numbers (by simpa using hne)
  have hparts : javaSplit '/' (stem fh.getFilename) = fh.mFileNameComponents.map pad2 := by
    rw [hstem, javaSplit_eq_splitOn (by rw [hsplit]; exact fh.numbers_ne_nil), hsplit]
  rw [parseComponents, hparts, mapM_eq_some_iff, List.forall₂_map_left_iff, List.forall₂_same]
  intro d hd
  exact parseComponent_pad2 (h.range d hd).1 (h.range d hd).2

/-- The extension of a name, whatever the current one. -/
theorem extAfter_getFilename (h : NameInv fh) (fh' : FileHandler) :
    fh'.extAfter fh.getFilename = fh.ext := by
  obtain ⟨t, hext, ht⟩ := h.ext
  rw [extAfter, getFilename, hext, lastIndexOf_append ht]
  exact List.drop_left

/-! ### The states of a run -/

/-- The states that the constructor and the methods lead to, exceptions included. -/
def Reached (T : DigitTables) (fh : FileHandler) : Prop :=
  ∃ filename fh₀, ∃ actions : List Action, construct T filename = some fh₀ ∧
    actions.foldl (step T) fh₀ = fh

theorem nameInv_setFileName (h : NameInv fh) (filename : List Char) :
    NameInv (fh.setFileName T filename).1 := by
  have hext : ∃ t, fh.extAfter filename = '.' :: t ∧ '.' ∉ t := by
    unfold extAfter
    cases hdot : lastIndexOf '.' filename with
    | none => exact h.ext
    | some dotPos =>
      obtain ⟨a, b, rfl, hb, rfl⟩ := exists_of_lastIndexOf hdot
      exact ⟨b, List.drop_left, hb⟩
  unfold setFileName
  cases hcomps : parseComponents T filename with
  | none => exact ⟨h.range, hext⟩
  | some comps => exact ⟨(parseComponents_eq_some hcomps).2, hext⟩

theorem nameInv_step (h : NameInv fh) (a : Action) : NameInv (fh.step T a) := by
  cases a with
  | setFileName filename => exact nameInv_setFileName h filename
  | moveFileNameCursor direction =>
    simp only [step, moveFileNameCursor]
    split_ifs
    · exact h
    · exact h
    · exact ⟨h.range, h.ext⟩
  | updateFileName increment =>
    simp only [step]
    cases hupdate : fh.updateFileName increment with
    | none => exact h
    | some fh' =>
      obtain ⟨v, -, rfl⟩ := Option.map_eq_some_iff.1 hupdate
      refine ⟨?_, h.ext⟩
      intro d hd
      rcases List.mem_or_eq_of_mem_set hd with hd | rfl
      · exact h.range d hd
      · simp only [jint_eq]
        split_ifs <;> omega

/-- **Every state reached can be read back.** -/
theorem Reached.nameInv (h : Reached T fh) : NameInv fh := by
  obtain ⟨filename, fh₀, actions, hconstruct, rfl⟩ := h
  have h0 : NameInv fh₀ := by
    have hinitial : NameInv initial := ⟨by simp [initial], "txt".toList, rfl, by simp⟩
    have hset := nameInv_setFileName (T := T) hinitial filename
    unfold construct at hconstruct
    split at hconstruct
    · rename_i fh' heq
      cases hconstruct
      rwa [heq] at hset
    · cases hconstruct
  clear hconstruct
  induction actions generalizing fh₀ with
  | nil => exact h0
  | cons a actions ih => exact ih _ (nameInv_step h0 a)

/-- **File names identify states**: the name of a state with a number is accepted and gives its
numbers and its extension back, with the cursor on the last number, so no other such state with
other numbers or another extension has this name. -/
theorem name_identifies (h : Reached T fh) (hne : fh.mFileNameComponents ≠ []) :
    fh.setFileName T fh.getFilename =
        ({ fh with mFileNameCursor := fh.mFileNameComponents.length - 1 }, none) ∧
      ∀ fh', Reached T fh' → fh'.mFileNameComponents ≠ [] → fh'.getFilename = fh.getFilename →
        fh'.mFileNameComponents = fh.mFileNameComponents ∧ fh'.ext = fh.ext := by
  have hcomps := parseComponents_getFilename (T := T) h.nameInv hne
  constructor
  · rw [setFileName, hcomps, extAfter_getFilename h.nameInv]
  · intro fh' h' hne' hname
    have hcomps' := parseComponents_getFilename (T := T) h'.nameInv hne'
    have hext' := extAfter_getFilename h'.nameInv fh
    rw [hname] at hcomps' hext'
    exact ⟨Option.some.inj (hcomps'.symm.trans hcomps),
      hext'.symm.trans (extAfter_getFilename h.nameInv fh)⟩

/-- The name of the fragments. -/
theorem name_identifies_default :
    (⟨[1, 1], 0, ".txt".toList⟩ : FileHandler).setFileName asciiDigits
        (⟨[1, 1], 0, ".txt".toList⟩ : FileHandler).getFilename =
      (⟨[1, 1], 1, ".txt".toList⟩, none) :=
  (name_identifies ⟨"01/01.txt".toList, ⟨[1, 1], 1, ".txt".toList⟩, [.moveFileNameCursor (-1)],
    by rfl, by rfl⟩ (by simp)).1

end FileHandler

end LocTag
