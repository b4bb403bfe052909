import LocTag.Files.FileHandler
import LocTag.Lib.Runs

/-!
# The representation of a file name

What the methods of `FileHandler` rely on (`RepOk`): there is a number, no number is negative, the
cursor points at one, and the name has a directory part that `createFile` can cut off.

The buttons of the app preserve it always, `setFileName` and the constructor for the names of
`NameOk` only (`repOk_step_iff`, `repOk_construct_iff`): a name such as `/` has no numbers, and one
without a slash has no directory part.  `repOk_run_iff` is the induction over whole runs.
-/

namespace LocTag

open Lib

/-! ### Paths -/

/-- The path of `new File(baseDir, child)`, by its names: repeated slashes and one at the end are left
out. -/
def pieces (path : List Char) : List (List Char) := (path.splitOn '/').filter fun s => !s.isEmpty

def fileAt (baseDir : List (List Char)) (child : List Char) : List (List Char) :=
  baseDir ++ pieces child

theorem pieces_append (a b : List Char) : pieces (a ++ '/' :: b) = pieces a ++ pieces b := by
  rw [pieces, List.splitOn_append_cons_self, List.filter_append]
  rfl

theorem pieces_of_not_mem {b : List Char} (hb : '/' ∉ b) (hne : b ≠ []) : pieces b = [b] := by
  rw [pieces, List.splitOn_eq_singleton hb]
  simp [hne]

theorem pieces_nil : pieces [] = [] := rfl

/-- A path that starts with a name has a piece. -/
theorem pieces_ne_nil {c : Char} (hc : c ≠ '/') (s : List Char) : pieces (c :: s) ≠ [] := by
  obtain ⟨x, xs, hx⟩ := List.exists_cons_of_ne_nil (List.splitOn_ne_nil '/' s)
  rw [pieces, List.splitOn_cons_eq_if_modifyHead, hx]
  simp [hc]

/-- What is in front of the last slash is the directory of a path that does not start with one, iff
there is a slash and the path does not end with it. -/
theorem directory_iff {f : List Char} (hne : f ≠ []) (hhead : f.head? ≠ some '/') :
    (∃ path, (lastIndexOf '/' f).map (fun i => f.take i) = some path ∧
      ∀ baseDir, fileAt baseDir path = (fileAt baseDir f).dropLast) ↔
    '/' ∈ f ∧ f.getLast? ≠ some '/' := by
  cases h : lastIndexOf '/' f with
  | none => simp [lastIndexOf_eq_none.1 h]
  | some i =>
    obtain ⟨a, b, rfl, hb, rfl⟩ := exists_of_lastIndexOf h
    simp only [Option.map_some, List.take_left, Option.some.injEq, exists_eq_left', fileAt,
      pieces_append]
    by_cases hbe : b = []
    · obtain ⟨c, a, rfl⟩ : ∃ c t, a = c :: t := by
        apply List.exists_cons_of_ne_nil
        rintro rfl
        exact hhead rfl
      have hc : c ≠ '/' := by simpa using hhead
      subst hbe
      -- the path is its own directory
      simp only [pieces_nil, List.append_nil]
      constructor
      · intro hdir
        have := congrArg List.length (hdir [])
        rw [List.nil_append, List.length_dropLast] at this
        have hpos := List.length_pos_of_ne_nil (pieces_ne_nil hc a)
        omega
      · rintro ⟨-, hlast⟩
        rw [List.getLast?_append_of_ne_nil _ (List.cons_ne_nil _ _)] at hlast
        exact absurd rfl hlast
    · rw [pieces_of_not_mem hb hbe]
      have hlast : (a ++ '/' :: b).getLast? ≠ some '/' := by
        rw [List.getLast?_append_of_ne_nil _ (by simp), List.getLast?_cons,
          List.getLast?_eq_some_getLast hbe]
        intro hl
        exact hb (by simpa using (Option.some.inj hl) ▸ List.getLast_mem hbe)
      constructor
      · intro _
        exact ⟨by simp, hlast⟩
      · intro _ baseDir
        rw [← List.append_assoc, List.dropLast_concat]

namespace FileHandler

/-! ### The invariant -/

/-- What the methods rely on. -/
structure RepOk (fh : FileHandler) : Prop where
  ne_nil : fh.mFileNameComponents ≠ []
  nonneg : ∀ d ∈ fh.mFileNameComponents, 0 ≤ d
  cursor_nonneg : 0 ≤ fh.mFileNameCursor
  cursor_lt : fh.mFileNameCursor < fh.mFileNameComponents.length
  update : ∀ increment, fh.updateFileName increment ≠ none
  spanned : fh.getSpannedFilename ≠ none
  directory : ∃ path, fh.createFilePath = some path ∧
    ∀ baseDir, fileAt baseDir path = (fileAt baseDir fh.getFilename).dropLast

/-- The buttons and the entry of a name. -/
inductive Action where
  | setFileName (filename : List Char)
  | moveFileNameCursor (direction : ℤ)
  | updateFileName (increment : ℤ)

/-- The object after an action, also where the method throws. -/
def step (T : DigitTables) (fh : FileHandler) : Action → FileHandler
  | .setFileName filename => (fh.setFileName T filename).1
  | .moveFileNameCursor direction => (fh.moveFileNameCursor direction).1
  | .updateFileName increment => (fh.updateFileName increment).getD fh

/-- The name keeps the invariant, whether it is accepted or not: an accepted one has a part, and the
name it makes has a slash, but none at its end. -/
def NameOk (T : DigitTables) (fh : FileHandler) (filename : List Char) : Prop :=
  (Accepts T filename → javaSplit '/' (stem filename) ≠ [] ∧
    (2 ≤ (javaSplit '/' (stem filename)).length ∨ '/' ∈ fh.extAfter filename)) ∧
  (¬ Accepts T filename →
    2 ≤ fh.mFileNameComponents.length ∨ '/' ∈ fh.extAfter filename) ∧
  (fh.extAfter filename).getLast? ≠ some '/'

instance (T : DigitTables) (fh : FileHandler) (filename : List Char) :
    Decidable (NameOk T fh filename) := by
  unfold NameOk
  infer_instance

/-- The actions that keep the invariant. -/
def StepOk (T : DigitTables) (fh : FileHandler) : Action → Prop
  | .setFileName filename => NameOk T fh filename
  | .moveFileNameCursor _ => True
  | .updateFileName _ => True

/-! ### What it comes to -/

section Shape

variable (fh : FileHandler)

theorem slash_not_mem_numbers : ∀ f ∈ fh.mFileNameComponents.map pad2, '/' ∉ f := by
  intro f hf
  obtain ⟨d, -, rfl⟩ := List.mem_map.1 hf
  exact not_mem_pad2 rfl (by simp) d

theorem numbers_ne_nil : ∀ f ∈ fh.mFileNameComponents.map pad2, f ≠ [] := by
  intro f hf
  obtain ⟨d, -, rfl⟩ := List.mem_map.1 hf
  exact pad2_ne_nil d

theorem slash_mem_getFilename :
    '/' ∈ fh.getFilename ↔ 2 ≤ fh.mFileNameComponents.length ∨ '/' ∈ fh.ext := by
  rw [getFilename, List.mem_append, sep_mem_intercalate fh.slash_not_mem_numbers, List.length_map]

theorem getLast?_getFilename :
    fh.getFilename.getLast? = some '/' ↔ fh.ext.getLast? = some '/' := by
  by_cases hext : fh.ext = []
  · have hnumbers := getLast?_intercalate_ne fh.slash_not_mem_numbers fh.numbers_ne_nil
    simp [getFilename, hext, hnumbers]
  · rw [getFilename, List.getLast?_append_of_ne_nil _ hext]

/-- A name with a number starts with a character of that number. -/
theorem head?_getFilename (hne : fh.mFileNameComponents ≠ []) :
    fh.getFilename ≠ [] ∧ fh.getFilename.head? ≠ some '/' := by
  obtain ⟨d, ds, hd⟩ := List.exists_cons_of_ne_nil hne
  obtain ⟨c, s, hc⟩ := List.exists_cons_of_ne_nil (pad2_ne_nil d)
  have hslash : c ≠ '/' := by
    rintro rfl
    exact not_mem_pad2 (c := '/') rfl (by simp) d (by rw [hc]; exact List.mem_cons_self)
  obtain ⟨t, ht⟩ : ∃ t, fh.getFilename = c :: t := by
    rw [getFilename, hd, List.map_cons, hc]
    cases ds with
    | nil => exact ⟨_, rfl⟩
    | cons e ds => exact ⟨_, by rw [List.map_cons, List.intercalate_cons_cons]; rfl⟩
  rw [ht]
  exact ⟨List.cons_ne_nil c t, by simpa using hslash⟩

/-- `getSpannedFilename` indexes within the list. -/
theorem getSpannedFilename_ne_none : fh.getSpannedFilename ≠ none := by
  rw [getSpannedFilename, ne_eq, Option.map_eq_none_iff, ← ne_eq, ← Option.isSome_iff_ne_none,
    mapM_isSome]
  intro i hi
  simp [get, List.mem_range.1 hi]

theorem updateFileName_ne_none :
    (∀ increment, fh.updateFileName increment ≠ none) ↔
      0 ≤ fh.mFileNameCursor ∧ fh.mFileNameCursor < fh.mFileNameComponents.length := by
  simp only [updateFileName, get, ne_eq, Option.map_eq_none_iff, forall_const]
  split
  · rename_i h0
    rw [List.getElem?_eq_none_iff]
    omega
  · simp_all

/-- **The invariant in terms of the fields.** -/
theorem repOk_iff : RepOk fh ↔ fh.mFileNameComponents ≠ [] ∧ (∀ d ∈ fh.mFileNameComponents, 0 ≤ d) ∧
    (0 ≤ fh.mFileNameCursor ∧ fh.mFileNameCursor < fh.mFileNameComponents.length) ∧
    (2 ≤ fh.mFileNameComponents.length ∨ '/' ∈ fh.ext) ∧ fh.ext.getLast? ≠ some '/' := by
  constructor
  · intro h
    obtain ⟨hne, hhead⟩ := fh.head?_getFilename h.ne_nil
    have hdir := (directory_iff hne hhead).1 h.directory
    rw [slash_mem_getFilename, ne_eq, getLast?_getFilename] at hdir
    exact ⟨h.ne_nil, h.nonneg, ⟨h.cursor_nonneg, h.cursor_lt⟩, hdir⟩
  · rintro ⟨hne, hnonneg, hcursor, hdir⟩
    obtain ⟨hfne, hhead⟩ := fh.head?_getFilename hne
    constructor
    case directory =>
      apply (directory_iff hfne hhead).2
      rwa [slash_mem_getFilename, ne_eq, getLast?_getFilename]
    case update => exact fh.updateFileName_ne_none.2 hcursor
    case spanned => exact fh.getSpannedFilename_ne_none
    case ne_nil => exact hne
    case nonneg => exact hnonneg
    case cursor_nonneg => exact hcursor.1
    case cursor_lt => exact hcursor.2

end Shape

/-! ### Steps -/

section Steps

variable {T : DigitTables} {fh : FileHandler}

/-- The name an accepted text makes. -/
theorem repOk_setFileName_accepted {filename : List Char} (h : Accepts T filename) :
    RepOk (fh.setFileName T filename).1 ↔ NameOk T fh filename := by
  obtain ⟨comps, hcomps⟩ := accepts_iff.1 h
  obtain ⟨hlen, hrange⟩ := parseComponents_eq_some hcomps
  have hne : comps ≠ [] ↔ javaSplit '/' (stem filename) ≠ [] := by
    rw [← List.length_pos_iff, ← List.length_pos_iff, hlen]
  have hnonneg : ∀ d ∈ comps, 0 ≤ d := fun d hd => (hrange d hd).1
  have hcursor : comps ≠ [] → 0 ≤ (comps.length : ℤ) - 1 ∧ (comps.length : ℤ) - 1 < comps.length := by
    intro hc
    have := List.length_pos_iff.2 hc
    omega
  rw [setFileName, hcomps, repOk_iff]
  simp only [NameOk, h, not_true_eq_false, false_implies, true_and, forall_const, hne, ← hlen]
  constructor
  · rintro ⟨hparts, -, -, hslash, hlast⟩
    exact ⟨⟨hparts, hslash⟩, hlast⟩
  · rintro ⟨⟨hparts, hslash⟩, hlast⟩
    exact ⟨hparts, hnonneg, hcursor (hne.2 hparts), hslash, hlast⟩

/-- A text that is rejected keeps the numbers. -/
theorem repOk_setFileName_rejected {filename : List Char} (hfh : RepOk fh)
    (h : ¬ Accepts T filename) :
    RepOk (fh.setFileName T filename).1 ↔ NameOk T fh filename := by
  have hnone : parseComponents T filename = none := by
    rw [accepts_iff, not_exists] at h
    exact Option.eq_none_iff_forall_ne_some.2 h
  obtain ⟨hne, hnonneg, hcursor, -⟩ := fh.repOk_iff.1 hfh
  rw [setFileName, hnone, repOk_iff]
  simp only [NameOk, h, false_implies, not_false_eq_true, true_and, forall_const]
  constructor
  · rintro ⟨-, -, -, hname⟩
    exact hname
  · intro hname
    exact ⟨hne, hnonneg, hcursor, hname⟩

theorem repOk_moveFileNameCursor (h : RepOk fh) (direction : ℤ) :
    RepOk (fh.moveFileNameCursor direction).1 := by
  obtain ⟨hne, hnonneg, -, hname⟩ := fh.repOk_iff.1 h
  unfold moveFileNameCursor
  simp only
  split_ifs with h0 hlen
  · exact h
  · exact h
  · rw [repOk_iff]
    exact ⟨hne, hnonneg, ⟨not_lt.1 h0, not_le.1 hlen⟩, hname⟩

theorem repOk_updateFileName (h : RepOk fh) (increment : ℤ) :
    RepOk ((fh.updateFileName increment).getD fh) := by
  obtain ⟨hne, hnonneg, hcursor, hname⟩ := fh.repOk_iff.1 h
  obtain ⟨fh', hfh'⟩ := Option.ne_none_iff_exists'.1 (h.update increment)
  rw [hfh', Option.getD_some]
  obtain ⟨v, -, rfl⟩ := Option.map_eq_some_iff.1 hfh'
  rw [repOk_iff]
  simp only [List.length_set]
  refine ⟨by simpa using hne, ?_, hcursor, hname⟩
  intro d hd
  rcases List.mem_or_eq_of_mem_set hd with hd | rfl
  · exact hnonneg d hd
  · split_ifs <;> omega

/-- **The step lemma**: which steps keep the invariant. -/
theorem repOk_step_iff (h : RepOk fh) (a : Action) : RepOk (fh.step T a) ↔ StepOk T fh a := by
  cases a with
  | setFileName filename =>
    by_cases hacc : Accepts T filename
    · exact repOk_setFileName_accepted hacc
    · exact repOk_setFileName_rejected h hacc
  | moveFileNameCursor direction => exact iff_of_true (repOk_moveFileNameCursor h direction) trivial
  | updateFileName increment => exact iff_of_true (repOk_updateFileName h increment) trivial

/-- The names a new object keeps the invariant with. -/
theorem repOk_construct_iff {filename : List Char} (h : construct T filename = some fh) :
    RepOk fh ↔ NameOk T initial filename := by
  unfold construct at h
  split at h
  · rename_i fh' hset
    cases h
    have hacc : Accepts T filename := by
      rw [accepts_iff]
      unfold setFileName at hset
      split at hset
      · cases hset
      · rename_i comps hcomps
        exact ⟨comps, hcomps⟩
    rw [← repOk_setFileName_accepted hacc, hset]
  · cases h

/-- **The invariant holds throughout a run**, from the constructor on, iff the name given to the
constructor and every name entered later are as `NameOk` asks. -/
theorem repOk_run_iff {filename : List Char} (h : construct T filename = some fh)
    (actions : List Action) :
    Always (step T) RepOk fh actions ↔
      NameOk T initial filename ∧ Meets (step T) (StepOk T) fh actions := by
  rw [always_iff_meets fun _ a hs => repOk_step_iff hs a, repOk_construct_iff h]

end Steps

/-- The name of the fragments, with the buttons pressed and another name entered. -/
theorem repOk_run_default :
    Always (step asciiDigits) RepOk ⟨[1, 1], 1, ".txt".toList⟩
      [.moveFileNameCursor (-1), .updateFileName 5, .setFileName "02/3".toList] := by
  have hmade : construct asciiDigits "01/01.txt".toList = some ⟨[1, 1], 1, ".txt".toList⟩ := by
    decide +kernel
  refine (repOk_run_iff hmade _).2 ⟨?_, trivial, trivial, ?_, trivial⟩
  · decide +kernel
  · show NameOk asciiDigits ⟨[6, 1], 0, ".txt".toList⟩ "02/3".toList
    decide +kernel

/-- A name of slashes only is accepted, and has no number. -/
theorem repOk_fails :
    ¬ ∀ (T : DigitTables) (filename : List Char) (fh : FileHandler) (actions : List Action),
      construct T filename = some fh → Always (step T) RepOk fh actions := by
  intro hall
  have h := hall asciiDigits ['/'] ⟨[], -1, ".txt".toList⟩ [] rfl
  exact h.ne_nil rfl

end FileHandler

end LocTag
