import LocTag.Files.Names
import Mathlib.Algebra.BigOperators.Group.List.Basic

/-!
# The files on the disk

`createFile` empties the file of the current name and opens it, `writeText` writes to the file opened
last, and `closeFile` closes it.  The buttons work all the while: they change the name, but not where
the lines of a session go.

`file_holds_last_session` says what every file holds after every run: what the last session with its
name wrote, or what it held before there was one.  `every_session_kept` is about a user who presses
the button `+` between sessions and never `-`: no session is overwritten.
-/

namespace LocTag

open Lib

/-! ### The files of a handler -/

/-- A path, by its names. -/
abbrev FilePath := List (List Char)

/-- A `FileHandler` with the file its writer was opened for, whether the writer is open still, and the
texts on the disk. -/
structure FileStore where
  fh : FileHandler
  baseDir : FilePath
  bw : Option (FilePath × Bool)
  disk : FilePath → Option (List Char)

namespace FileStore

/-- A new handler has no writer. -/
def new (fh : FileHandler) (baseDir : FilePath) (disk : FilePath → Option (List Char)) :
    FileStore :=
  { fh, baseDir, bw := none, disk }

variable (s : FileStore)

/-- `new File(baseDir, getFilename())` -/
def path : FilePath := fileAt s.baseDir s.fh.getFilename

/-- `closeFile` -/
def closeFile : FileStore := { s with bw := s.bw.map fun w => (w.1, false) }

/-- `createFile`, and whether it throws.  The storage may not be mounted, the name may have no
directory to cut off, and the file may not open, such as when the directory cannot be made. -/
def createFile (mounted opens : Bool) : FileStore × Bool :=
  let s := s.closeFile
  if !mounted then (s, true)
  else match s.fh.createFilePath with
    | none => (s, true)
    | some _ =>
      if opens then
        ({ s with bw := some (s.path, true), disk := Function.update s.disk s.path (some []) }, false)
      else (s, true)

/-- `writeText`, and whether it throws: there may be no writer, or a closed one. -/
def writeText (lines : List Char) : FileStore × Bool :=
  match s.bw with
  | some (path, true) =>
    ({ s with disk := Function.update s.disk path ((s.disk path).map (· ++ lines)) }, false)
  | _ => (s, true)

end FileStore

/-- What the buttons and the worker threads call. -/
inductive FileAct where
  | name (a : FileHandler.Action)
  | createFile (mounted opens : Bool)
  | writeText (lines : List Char)
  | closeFile

namespace FileStore

variable (T : DigitTables)

/-- The handler and the disk after a call, also where it throws. -/
def step (s : FileStore) : FileAct → FileStore
  | .name a => { s with fh := s.fh.step T a }
  | .createFile mounted opens => (s.createFile mounted opens).1
  | .writeText lines => (s.writeText lines).1
  | .closeFile => s.closeFile

/-- The call opens the file at the path, empty. -/
def Creates (p : FilePath) (s : FileStore) : FileAct → Prop
  | .createFile mounted opens => (s.createFile mounted opens).2 = false ∧ s.path = p
  | _ => False

instance (p : FilePath) (s : FileStore) (a : FileAct) : Decidable (Creates p s a) := by
  unfold Creates
  split <;> infer_instance

end FileStore

/-- What a session writes, from its `createFile` on: all that comes before the file is closed or the
next one is created. -/
def written : List FileAct → List Char
  | [] => []
  | .name _ :: acts => written acts
  | .createFile _ _ :: _ => []
  | .writeText lines :: acts => lines ++ written acts
  | .closeFile :: _ => []

namespace FileStore

variable {T : DigitTables} {s : FileStore} {p : FilePath} {acts : List FileAct}

/-! ### One call -/

/-- What `createFile` does. -/
theorem createFile_cases (s : FileStore) (mounted opens : Bool) :
    (s.createFile mounted opens = (s.closeFile, true)) ∨
      s.createFile mounted opens = ({ s with
        bw := some (s.path, true), disk := Function.update s.disk s.path (some []) }, false) := by
  unfold createFile
  cases mounted with
  | false => exact .inl rfl
  | true =>
    simp only [Bool.not_true, Bool.false_eq_true, if_false]
    split
    · exact .inl rfl
    · cases opens with
      | false => exact .inl rfl
      | true => exact .inr rfl

/-- What `writeText` does. -/
theorem writeText_cases (s : FileStore) (lines : List Char) :
    s.writeText lines = (s, true) ∨ ∃ p, s.bw = some (p, true) ∧ s.writeText lines = ({ s with
      disk := Function.update s.disk p ((s.disk p).map (· ++ lines)) }, false) := by
  unfold writeText
  split
  · rename_i p hbw
    exact .inr ⟨p, hbw, rfl⟩
  · exact .inl rfl

/-- The session at the path has its file open. -/
def Writing (p : FilePath) (s : FileStore) : Prop := s.bw = some (p, true)

theorem Creates.writing {a : FileAct} (h : Creates p s a) :
    (s.step T a).Writing p ∧ (s.step T a).disk p = some [] := by
  cases a with
  | createFile mounted opens =>
    obtain ⟨hthrows, rfl⟩ := h
    rw [step]
    rcases s.createFile_cases mounted opens with heq | heq
    · rw [heq] at hthrows
      cases hthrows
    · rw [heq]
      exact ⟨rfl, Function.update_self ..⟩
  | name a => exact h.elim
  | writeText lines => exact h.elim
  | closeFile => exact h.elim

/-- A file that is not open stays as it is. -/
theorem disk_step_of_not_writing {a : FileAct} (h : ¬ s.Writing p) (hnot : ¬ Creates p s a) :
    ¬ (s.step T a).Writing p ∧ (s.step T a).disk p = s.disk p := by
  cases a with
  | name a => exact ⟨h, rfl⟩
  | closeFile =>
    refine ⟨?_, rfl⟩
    simp [step, closeFile, Writing]
  | writeText lines =>
    rw [step]
    rcases s.writeText_cases lines with heq | ⟨path, hbw, heq⟩
    · rw [heq]
      exact ⟨h, rfl⟩
    · rw [heq]
      refine ⟨h, Function.update_of_ne ?_ ..⟩
      rintro rfl
      exact h hbw
  | createFile mounted opens =>
    rw [step]
    rcases s.createFile_cases mounted opens with heq | heq
    · rw [heq]
      refine ⟨?_, rfl⟩
      simp [closeFile, Writing]
    · have hne : s.path ≠ p := fun hp => hnot ⟨by rw [heq], hp⟩
      rw [heq]
      refine ⟨?_, Function.update_of_ne hne.symm ..⟩
      simp [Writing, hne]

/-! ### Runs -/

/-- **A file that no session opens** stays as it is. -/
theorem disk_run_of_not_writing (h : ¬ s.Writing p)
    (hmeets : Meets (step T) (fun s a => ¬ Creates p s a) s acts) :
    (acts.foldl (step T) s).disk p = s.disk p := by
  induction acts generalizing s with
  | nil => rfl
  | cons a acts ih =>
    obtain ⟨hwriting, hdisk⟩ := disk_step_of_not_writing (T := T) h hmeets.1
    rw [List.foldl_cons, ih hwriting hmeets.2, hdisk]

/-- What the session that has its file open writes from here on. -/
theorem disk_run_of_writing {t : List Char} (h : s.Writing p) (ht : s.disk p = some t)
    (hmeets : Meets (step T) (fun s a => ¬ Creates p s a) s acts) :
    (acts.foldl (step T) s).disk p = some (t ++ written acts) := by
  induction acts generalizing s t with
  | nil => rw [List.foldl_nil, ht, written, List.append_nil]
  | cons a acts ih =>
    obtain ⟨hnot, hmeets⟩ := hmeets
    rw [List.foldl_cons]
    cases a with
    | name a => exact ih h ht hmeets
    | writeText lines =>
      have hstep : s.step T (.writeText lines) =
          { s with disk := Function.update s.disk p (some (t ++ lines)) } := by
        have hbw : s.bw = some (p, true) := h
        simp only [step, writeText, hbw, ht]
        rfl
      rw [hstep] at hmeets ⊢
      have hdisk := Function.update_self p (some (t ++ lines)) s.disk
      rw [ih (s := { s with disk := Function.update s.disk p _ }) h hdisk hmeets, written,
        List.append_assoc]
    | closeFile =>
      have hclosed : ¬ (s.step T .closeFile).Writing p := by simp [step, closeFile, Writing]
      rw [disk_run_of_not_writing hclosed hmeets, written, List.append_nil]
      exact ht
    | createFile mounted opens =>
      -- the file is closed first, and is not the one created
      have hclosed : ¬ (s.step T (.createFile mounted opens)).Writing p ∧
          (s.step T (.createFile mounted opens)).disk p = s.disk p := by
        rw [step]
        rcases s.createFile_cases mounted opens with heq | heq
        · rw [heq]
          exact ⟨by simp [closeFile, Writing], rfl⟩
        · have hne : s.path ≠ p := fun hp => hnot ⟨by rw [heq], hp⟩
          rw [heq]
          exact ⟨by simp [Writing, hne], Function.update_of_ne hne.symm ..⟩
      rw [disk_run_of_not_writing hclosed.1 hmeets, hclosed.2, ht, written, List.append_nil]

/-- The file of a session that none with its name follows. -/
theorem disk_of_last {a : FileAct} (ha : Creates p s a)
    (hmeets : Meets (step T) (fun s a => ¬ Creates p s a) (s.step T a) acts) :
    ((a :: acts).foldl (step T) s).disk p = some (written acts) := by
  obtain ⟨hwriting, hempty⟩ := ha.writing (T := T)
  rw [List.foldl_cons, disk_run_of_writing hwriting hempty hmeets, List.nil_append]

/-- **Every file holds what the last session with its name wrote**, after every run of a new handler:
either no call of `createFile` opened it, and it is as it was before, or it has the text that followed
the last call that did. -/
theorem file_holds_last_session (T : DigitTables) (fh : FileHandler) (baseDir p : FilePath)
    (disk : FilePath → Option (List Char)) (acts : List FileAct) :
    (Meets (step T) (fun s a => ¬ Creates p s a) (new fh baseDir disk) acts ∧
      (acts.foldl (step T) (new fh baseDir disk)).disk p = disk p) ∨
    ∃ front a rest, acts = front ++ a :: rest ∧
      Creates p (front.foldl (step T) (new fh baseDir disk)) a ∧
      Meets (step T) (fun s a => ¬ Creates p s a)
        (step T (front.foldl (step T) (new fh baseDir disk)) a) rest ∧
      (acts.foldl (step T) (new fh baseDir disk)).disk p = some (written rest) := by
  have hnew : ¬ (new fh baseDir disk).Writing p := by simp [new, Writing]
  rcases @meets_or_last _ _ (step T) (fun s a => ¬ Creates p s a) (new fh baseDir disk) acts with
    hmeets | ⟨front, a, rest, rfl, ha, hmeets⟩
  · exact .inl ⟨hmeets, disk_run_of_not_writing hnew hmeets⟩
  · have ha := not_not.1 ha
    refine .inr ⟨front, a, rest, rfl, ha, hmeets, ?_⟩
    rw [List.foldl_append, disk_of_last ha hmeets]

end FileStore

/-! ### Names and paths -/

section Paths

/-- The parts of names that are joined by slashes, with something behind the last. -/
theorem splitOn_intercalate_append {f : List Char} {fs : List (List Char)} {e : List Char}
    (hfs : ∀ g ∈ f :: fs, '/' ∉ g ∧ g ≠ []) (he : '/' ∉ e) :
    ∀ g ∈ (['/'].intercalate (f :: fs) ++ e).splitOn '/', g ≠ [] := by
  induction fs generalizing f with
  | nil =>
    obtain ⟨hslash, hne⟩ := hfs f List.mem_cons_self
    have hnot : '/' ∉ f ++ e := by simp [hslash, he]
    rw [List.intercalate_singleton, List.splitOn_eq_singleton hnot]
    simp [hne]
  | cons f' fs ih =>
    obtain ⟨hf, hfs⟩ := List.forall_mem_cons.1 hfs
    have happend : ['/'].intercalate (f :: f' :: fs) ++ e =
        f ++ '/' :: (['/'].intercalate (f' :: fs) ++ e) := by
      rw [List.intercalate_cons_cons]
      simp
    rw [happend, List.splitOn_append_cons_self_of_not_mem hf.1, List.forall_mem_cons]
    exact ⟨hf.2, ih hfs⟩

/-- A path without empty parts is the one of its pieces. -/
theorem intercalate_pieces {f : List Char} (h : ∀ g ∈ f.splitOn '/', g ≠ []) :
    ['/'].intercalate (pieces f) = f := by
  have hpieces : pieces f = f.splitOn '/' := by
    rw [pieces, List.filter_eq_self]
    intro g hg
    simpa using h g hg
  rw [hpieces, List.intercalate_splitOn]

namespace FileHandler

variable {fh fh' : FileHandler}

theorem intercalate_pieces_getFilename (hne : fh.mFileNameComponents ≠ []) (hext : '/' ∉ fh.ext) :
    ['/'].intercalate (pieces fh.getFilename) = fh.getFilename := by
  apply intercalate_pieces
  obtain ⟨f, fs, hf⟩ := List.exists_cons_of_ne_nil (l := fh.mFileNameComponents.map pad2) (by simpa)
  rw [getFilename, hf]
  refine splitOn_intercalate_append ?_ hext
  intro g hg
  rw [← hf] at hg
  exact ⟨fh.slash_not_mem_numbers g hg, fh.numbers_ne_nil g hg⟩

/-- **Files of other numbers are other files.** -/
theorem numbers_of_fileAt (h : NameInv fh) (h' : NameInv fh')
    (hne : fh.mFileNameComponents ≠ []) (hne' : fh'.mFileNameComponents ≠ [])
    (hext : '/' ∉ fh.ext) (hext' : '/' ∉ fh'.ext) {baseDir : FilePath}
    (hfile : fileAt baseDir fh.getFilename = fileAt baseDir fh'.getFilename) :
    fh.mFileNameComponents = fh'.mFileNameComponents := by
  have hpieces := List.append_cancel_left hfile
  have hname : fh.getFilename = fh'.getFilename := by
    rw [← intercalate_pieces_getFilename hne hext, hpieces,
      intercalate_pieces_getFilename hne' hext']
  have hread := parseComponents_getFilename (T := asciiDigits) h hne
  rw [hname, parseComponents_getFilename h' hne'] at hread
  exact (Option.some.inj hread).symm

end FileHandler

end Paths

/-! ### Counting up -/

/-- The button `+`. -/
def FileAct.isPlus : FileAct → Bool
  | .name (.updateFileName increment) => increment = 1
  | _ => false

/-- The name is counted up only. -/
def FileAct.CountsUp : FileAct → Prop
  | .name (.setFileName _) => False
  | .name (.updateFileName increment) => increment = 1
  | _ => True

instance : DecidablePred FileAct.CountsUp := fun a => by
  unfold FileAct.CountsUp
  split <;> infer_instance

/-- There is a `+` before each `createFile`, since the one before; `counted` where there has been one
already. -/
def PlusBefore (counted : Bool) : List FileAct → Prop
  | [] => True
  | .name a :: acts => PlusBefore (counted || (FileAct.name a).isPlus) acts
  | .createFile _ _ :: acts => counted ∧ PlusBefore false acts
  | .writeText _ :: acts => PlusBefore counted acts
  | .closeFile :: acts => PlusBefore counted acts

/-- The handler can be counted up as often as there is a `+` in what follows. -/
structure FileStore.Room (s : FileStore) (acts : List FileAct) : Prop where
  rep : s.fh.RepOk
  range : ∀ d ∈ s.fh.mFileNameComponents, d + acts.countP FileAct.isPlus < 2147483648
  ext : ∃ t, s.fh.ext = '.' :: t ∧ '.' ∉ t
  slash : '/' ∉ s.fh.ext

namespace FileStore

variable {T : DigitTables} {s : FileStore} {a : FileAct} {acts : List FileAct}

/-- The numbers of the name added up. -/
def total (s : FileStore) : ℤ := s.fh.mFileNameComponents.sum

theorem Room.nameInv (h : s.Room acts) : s.fh.NameInv := by
  refine ⟨?_, h.ext⟩
  intro d hd
  have := h.range d hd
  exact ⟨h.rep.nonneg d hd, by omega⟩

/-- `+` adds one. -/
theorem updateFileName_one {fh : FileHandler} (h : fh.RepOk)
    (hmax : ∀ d ∈ fh.mFileNameComponents, d + 1 < 2147483648) :
    ∃ v i, fh.mFileNameComponents[i]? = some v ∧
      fh.updateFileName 1 =
        some { fh with mFileNameComponents := fh.mFileNameComponents.set i (v + 1) } := by
  obtain ⟨fh', hfh'⟩ := Option.ne_none_iff_exists'.1 (h.update 1)
  obtain ⟨v, hv, -⟩ := Option.map_eq_some_iff.1 hfh'
  have hget : fh.mFileNameComponents[fh.mFileNameCursor.toNat]? = some v := by
    rwa [FileHandler.get, if_pos h.cursor_nonneg] at hv
  have hmem := List.mem_of_getElem? hget
  have h0 := h.nonneg v hmem
  have hlt := hmax v hmem
  have hsum : jint (v + 1) = v + 1 := by
    rw [jint_eq]
    omega
  refine ⟨v, _, hget, ?_⟩
  have hnonneg : ¬ v + 1 < 0 := by omega
  simp only [FileHandler.updateFileName, hv, Option.map_some, hsum, hnonneg, if_false]

/-- Only the buttons change the name. -/
theorem step_fields : (s.step T a).baseDir = s.baseDir ∧
    ((∀ b, a ≠ .name b) → (s.step T a).fh = s.fh) := by
  cases a with
  | name a => exact ⟨rfl, fun h => absurd rfl (h a)⟩
  | closeFile => exact ⟨rfl, fun _ => rfl⟩
  | writeText lines =>
    rw [step]
    rcases s.writeText_cases lines with heq | ⟨path, -, heq⟩
    · rw [heq]
      exact ⟨rfl, fun _ => rfl⟩
    · rw [heq]
      exact ⟨rfl, fun _ => rfl⟩
  | createFile mounted opens =>
    rw [step]
    rcases s.createFile_cases mounted opens with heq | heq
    · rw [heq]
      exact ⟨rfl, fun _ => rfl⟩
    · rw [heq]
      exact ⟨rfl, fun _ => rfl⟩

/-- A call that does not count keeps the numbers. -/
theorem Room.of_numbers {s' : FileStore} (h : s.Room (a :: acts)) (hrep : s'.fh.RepOk)
    (hnumbers : s'.fh.mFileNameComponents = s.fh.mFileNameComponents) (hext : s'.fh.ext = s.fh.ext)
    (ha : a.isPlus = false) : s'.Room acts ∧ s'.total = s.total + if a.isPlus then 1 else 0 := by
  refine ⟨⟨hrep, ?_, by rw [hext]; exact h.ext, by rw [hext]; exact h.slash⟩, ?_⟩
  · intro d hd
    rw [hnumbers] at hd
    have := h.range d hd
    rwa [List.countP_cons_of_neg (by simp [ha])] at this
  · rw [total, hnumbers, ha, total]
    simp

/-- **The step lemma**: what a call does to the numbers. -/
theorem Room.step (h : s.Room (a :: acts)) (ha : a.CountsUp) :
    (s.step T a).Room acts ∧ (s.step T a).total = s.total + if a.isPlus then 1 else 0 := by
  cases a with
  | name b =>
    cases b with
    | setFileName filename => exact ha.elim
    | moveFileNameCursor direction =>
      refine h.of_numbers (FileHandler.repOk_moveFileNameCursor h.rep direction) ?_ ?_ rfl
      · simp only [FileStore.step, FileHandler.step, FileHandler.moveFileNameCursor]
        split_ifs <;> rfl
      · simp only [FileStore.step, FileHandler.step, FileHandler.moveFileNameCursor]
        split_ifs <;> rfl
    | updateFileName increment =>
      obtain rfl : increment = 1 := ha
      have hmax : ∀ d ∈ s.fh.mFileNameComponents,
          d + 1 + (acts.countP FileAct.isPlus : ℤ) < 2147483648 := by
        intro d hd
        have := h.range d hd
        rw [List.countP_cons_of_pos rfl] at this
        push_cast at this
        omega
      obtain ⟨v, i, hi, hupdate⟩ := updateFileName_one h.rep fun d hd => by
        have := hmax d hd
        omega
      have hrep : (s.fh.step T (.updateFileName 1)).RepOk :=
        FileHandler.repOk_updateFileName h.rep 1
      have hfh : s.fh.step T (.updateFileName 1) = { s.fh with
          mFileNameComponents := s.fh.mFileNameComponents.set i (v + 1) } := by
        rw [FileHandler.step, hupdate, Option.getD_some]
      rw [FileStore.step]
      rw [hfh] at hrep ⊢
      obtain ⟨hlt, hv⟩ := List.getElem?_eq_some_iff.1 hi
      refine ⟨⟨hrep, ?_, h.ext, h.slash⟩, ?_⟩
      · intro d hd
        rcases List.mem_or_eq_of_mem_set hd with hd | rfl
        · have := hmax d hd
          omega
        · exact hmax v (List.mem_of_getElem? hi)
      · simp only [total, List.sum_set', dif_pos hlt, hv]
        simp [FileAct.isPlus]
  | createFile mounted opens =>
    have hfh := (step_fields (T := T) (s := s) (a := .createFile mounted opens)).2 (by simp)
    exact h.of_numbers (by rw [hfh]; exact h.rep) (by rw [hfh]) (by rw [hfh]) rfl
  | writeText lines =>
    have hfh := (step_fields (T := T) (s := s) (a := .writeText lines)).2 (by simp)
    exact h.of_numbers (by rw [hfh]; exact h.rep) (by rw [hfh]) (by rw [hfh]) rfl
  | closeFile => exact h.of_numbers h.rep rfl rfl rfl

/-- **The run lemma** of the same. -/
theorem Room.run {front : List FileAct} (h : s.Room (front ++ acts))
    (hup : ∀ a ∈ front, a.CountsUp) : (front.foldl (FileStore.step T) s).Room acts := by
  induction front generalizing s with
  | nil => exact h
  | cons a front ih =>
    obtain ⟨ha, hup⟩ := List.forall_mem_cons.1 hup
    exact ih (h.step ha).1 hup

theorem exists_plusBefore {front : List FileAct} {counted : Bool}
    (h : PlusBefore counted (front ++ acts)) : ∃ counted, PlusBefore counted acts := by
  induction front generalizing counted with
  | nil => exact ⟨counted, h⟩
  | cons a front ih =>
    cases a with
    | name a => exact ih h
    | createFile mounted opens => exact ih h.2
    | writeText lines => exact ih h
    | closeFile => exact ih h

/-- Once counted up, the name is never again what it was. -/
theorem meets_of_plusBefore {s₀ : FileStore} (h₀ : s₀.Room []) {counted : Bool} (h : s.Room acts)
    (hup : ∀ a ∈ acts, a.CountsUp) (hplus : PlusBefore counted acts)
    (hbase : s.baseDir = s₀.baseDir) (htotal : s₀.total ≤ s.total)
    (hcounted : counted → s₀.total < s.total) :
    Meets (step T) (fun s a => ¬ Creates s₀.path s a) s acts := by
  induction acts generalizing s counted with
  | nil => trivial
  | cons a acts ih =>
    obtain ⟨ha, hupRest⟩ := List.forall_mem_cons.1 hup
    obtain ⟨hroom, hsum⟩ := h.step (T := T) ha
    have hbase' : (s.step T a).baseDir = s₀.baseDir := step_fields.1.trans hbase
    cases a with
    | name b =>
      refine ⟨id, ih hroom hupRest hplus hbase' ?_ ?_⟩
      · rw [hsum]
        split <;> omega
      · intro hc
        rw [hsum]
        rcases Bool.or_eq_true_iff.1 hc with hc | hc
        · have := hcounted hc
          split <;> omega
        · rw [if_pos hc]
          omega
    | createFile mounted opens =>
      refine ⟨?_, ih hroom hupRest hplus.2 hbase' (by rw [hsum]; simpa [FileAct.isPlus]) (by simp)⟩
      rintro ⟨-, hpath⟩
      -- the same file would have the same numbers
      rw [path, path, hbase] at hpath
      have hnumbers := FileHandler.numbers_of_fileAt h.nameInv h₀.nameInv h.rep.ne_nil h₀.rep.ne_nil
        h.slash h₀.slash hpath
      have := hcounted hplus.1
      rw [total, total, hnumbers] at this
      exact absurd this (lt_irrefl _)
    | writeText lines =>
      refine ⟨id, ih hroom hupRest hplus hbase' (by rw [hsum]; simpa [FileAct.isPlus]) ?_⟩
      intro hc
      rw [hsum]
      simpa [FileAct.isPlus] using hcounted hc
    | closeFile =>
      refine ⟨id, ih hroom hupRest hplus hbase' (by rw [hsum]; simpa [FileAct.isPlus]) ?_⟩
      intro hc
      rw [hsum]
      simpa [FileAct.isPlus] using hcounted hc

/-- **No session is overwritten** of a user who presses `+` between sessions, and no button that counts
down: at the end of the run, the file of every session has what the session wrote. -/
theorem every_session_kept (T : DigitTables) (fh : FileHandler) (baseDir : FilePath)
    (disk : FilePath → Option (List Char)) (acts : List FileAct)
    (hroom : (new fh baseDir disk).Room acts) (hup : ∀ a ∈ acts, a.CountsUp)
    (hplus : PlusBefore true acts) (front : List FileAct) (a : FileAct) (rest : List FileAct)
    (hacts : acts = front ++ a :: rest) (p : FilePath)
    (ha : Creates p (front.foldl (step T) (new fh baseDir disk)) a) :
    (acts.foldl (step T) (new fh baseDir disk)).disk p = some (written rest) := by
  subst hacts
  obtain ⟨hupFront, hup⟩ := List.forall_mem_append.1 hup
  obtain ⟨haUp, hupRest⟩ := List.forall_mem_cons.1 hup
  have hroom := hroom.run (T := T) hupFront
  obtain ⟨counted, hplus⟩ := exists_plusBefore hplus
  rw [List.foldl_append]
  generalize front.foldl (step T) (new fh baseDir disk) = s at ha hroom
  apply disk_of_last ha
  cases a with
  | createFile mounted opens =>
    obtain ⟨-, rfl⟩ := ha
    obtain ⟨hroom', htotal⟩ := hroom.step (T := T) haUp
    have h₀ : s.Room [] := by
      refine ⟨hroom.rep, ?_, hroom.ext, hroom.slash⟩
      intro d hd
      have := hroom.range d hd
      simp only [List.countP_nil]
      omega
    refine meets_of_plusBefore h₀ hroom' hupRest hplus.2 step_fields.1 ?_ (by simp)
    rw [htotal]
    simp [FileAct.isPlus]
  | name b => exact ha.elim
  | writeText lines => exact ha.elim
  | closeFile => exact ha.elim

/-- The handler of a fragment, with two sessions. -/
theorem every_session_kept_two :
    ([.createFile true true, .writeText "a".toList, .closeFile, .name (.updateFileName 1),
        .createFile true true, .writeText "b".toList].foldl (step FileHandler.asciiDigits)
      (new ⟨[1, 1], 1, ".txt".toList⟩ [] fun _ => none)).disk ["01".toList, "01.txt".toList] =
      some "a".toList := by
  refine every_session_kept FileHandler.asciiDigits ⟨[1, 1], 1, ".txt".toList⟩ [] (fun _ => none) _
    ?_ ?_ ?_ [] (.createFile true true) [.writeText "a".toList, .closeFile, .name (.updateFileName 1),
      .createFile true true, .writeText "b".toList] rfl _ ?_
  · refine ⟨(FileHandler.repOk_iff _).2 ?_, ?_, ⟨"txt".toList, rfl, by decide +kernel⟩, ?_⟩
    · decide +kernel
    · decide +kernel
    · decide +kernel
  · decide +kernel
  · exact ⟨rfl, rfl, trivial⟩
  · refine ⟨rfl, ?_⟩
    show fileAt [] (FileHandler.getFilename ⟨[1, 1], 1, ".txt".toList⟩) = _
    decide +kernel

end FileStore

end LocTag
