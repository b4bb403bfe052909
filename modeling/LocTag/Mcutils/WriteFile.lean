import LocTag.Inject.Frame

/-!
# Writing a file and reading it back

`writeFile` of `mcutils.c` opens with `O_WRONLY|O_CREAT`, which keeps what the file has, and writes
from its start: bytes of a longer file survive behind the new ones.  `givesBack_iff` says when
`readFile` returns what was written.
-/

namespace LocTag

open Lib

/-! ### `writeFile` -/

/-- What the system does on `open` and `write`: it refuses one of them, or stores as much as there
is room for. -/
inductive WriteOutcome where
  | openFails
  | writeFails
  | stores (room : ℕ)

/-- The files after `open(filepath, O_WRONLY|O_CREAT)`. -/
def openCreate (files : List Char → Option (List UInt8)) (filepath : List Char) :
    List Char → Option (List UInt8) :=
  Function.update files filepath (some ((files filepath).getD []))

/-- `writeFile(buf, size, filepath, ..)`: what it returns, and the files afterwards. -/
def writeFile (outcome : WriteOutcome) (files : List Char → Option (List UInt8)) (buf : List UInt8)
    (size : ℕ) (filepath : List Char) : ℤ × (List Char → Option (List UInt8)) :=
  match outcome with
  | .openFails => (-1, files)
  | .writeFails => (-2, openCreate files filepath)
  | .stores room =>
    let files := openCreate files filepath
    let stored := (buf.take size).take room
    (stored.length,
      Function.update files filepath (some (overwrite ((files filepath).getD []) 0 stored)))

/-- What `readFile` finds at a path. -/
def frameFileAt (files : List Char → Option (List UInt8)) (filepath : List Char) : FrameFile :=
  match files filepath with
  | none => .missing
  | some content => .readable content

/-! ### Writing -/

section Write

variable {outcome : WriteOutcome} {files : List Char → Option (List UInt8)} {buf : List UInt8}
  {filepath : List Char}

/-- Other files stay as they are. -/
theorem writeFile_other {size : ℕ} {other : List Char} (h : other ≠ filepath) :
    (writeFile outcome files buf size filepath).2 other = files other := by
  cases outcome with
  | openFails => rfl
  | writeFails => simp [writeFile, openCreate, h]
  | stores room => simp [writeFile, openCreate, h]

/-- **A file that was written whole** starts with the buffer; what a longer one had behind that is
still there. -/
theorem writeFile_content
    (hwritten : (writeFile outcome files buf buf.length filepath).1 = buf.length) :
    (writeFile outcome files buf buf.length filepath).2 filepath =
      some (buf ++ ((files filepath).getD []).drop buf.length) := by
  cases outcome with
  | openFails => simp [writeFile] at hwritten
  | writeFails => simp [writeFile] at hwritten
  | stores room =>
    have hstored : (buf.take buf.length).take room = buf := by
      rw [List.take_length]
      apply List.take_of_length_le
      simp only [writeFile, List.take_length, List.length_take, Nat.cast_inj] at hwritten
      omega
    simp only [writeFile, openCreate, hstored, overwrite, Function.update_self, Option.getD_some,
      List.take_zero, List.nil_append, Nat.zero_add]

end Write

/-! ### Reading back -/

/-- `readFile` into `dst` returns the size of the buffer, and puts its bytes and no others there. -/
def GivesBack (buf dst : List UInt8) (maxSize : ℕ) (file : FrameFile) : Prop :=
  readFileInto dst 0 maxSize file = ((buf.length : ℤ), overwrite dst 0 buf)

theorem take_append_eq_iff {α : Type} {l t : List α} {k : ℕ} (hk : l.length ≤ k) :
    (l ++ t).take k = l ↔ k = l.length ∨ t = [] := by
  rw [List.take_append, List.take_of_length_le hk, List.append_right_eq_self, List.take_eq_nil_iff]
  exact or_congr_left (by omega)

/-- What `readFile` gives of a file that is longer than the buffer. -/
theorem givesBack_append {buf tail dst : List UInt8} {maxSize : ℕ} (hmax : buf.length ≤ maxSize) :
    GivesBack buf dst maxSize (.readable (buf ++ tail)) ↔ maxSize = buf.length ∨ tail = [] := by
  rw [← take_append_eq_iff hmax]
  constructor
  · intro h
    have hlen : ((buf ++ tail).take maxSize).length = buf.length :=
      Nat.cast_inj.1 (congrArg Prod.fst h)
    rw [take_append_eq_iff hmax]
    rw [List.length_take, List.length_append] at hlen
    by_cases htail : tail = []
    · exact .inr htail
    · have hpos := List.length_pos_of_ne_nil htail
      exact .inl (by omega)
  · intro h
    simp only [GivesBack, readFileInto, h]

section ReadBack

variable {outcome : WriteOutcome} {files : List Char → Option (List UInt8)} {buf dst : List UInt8}
  {filepath : List Char} {maxSize : ℕ}

theorem givesBack_writeFile (hmax : buf.length ≤ maxSize)
    (hwritten : (writeFile outcome files buf buf.length filepath).1 = buf.length) :
    GivesBack buf dst maxSize
        (frameFileAt (writeFile outcome files buf buf.length filepath).2 filepath) ↔
      maxSize = buf.length ∨ ((files filepath).getD []).length ≤ buf.length := by
  rw [frameFileAt, writeFile_content hwritten, givesBack_append hmax, List.drop_eq_nil_iff]

/-- **What was written is read back** exactly where the buffer for it ends with it, or there was no
longer file before. -/
theorem givesBack_iff (hmax : buf.length ≤ maxSize)
    (hwritten : (writeFile outcome files buf buf.length filepath).1 = buf.length) :
    GivesBack buf dst maxSize
        (frameFileAt (writeFile outcome files buf buf.length filepath).2 filepath) ↔
      maxSize = buf.length ∨ ∀ old, files filepath = some old → old.length ≤ buf.length := by
  rw [givesBack_writeFile hmax hwritten]
  cases files filepath with
  | none => simp
  | some old => simp

end ReadBack

/-- A new file. -/
theorem givesBack_new :
    GivesBack [1, 2] [0, 0, 0] 3
        (frameFileAt (writeFile (.stores 65536) (fun _ => none) [1, 2] 2 "beacon.bin".toList).2
          "beacon.bin".toList) := by
  have hmax : ([1, 2] : List UInt8).length ≤ 3 := by simp
  apply (givesBack_iff hmax rfl).2
  right
  intro old hold
  cases hold

/-- One byte written over three. -/
theorem givesBack_longer :
    (writeFile (.stores 65536) (fun _ => some [1, 2, 3]) [9] 1 "beacon.bin".toList).1 = 1 ∧
      ¬ GivesBack [9] [0, 0, 0, 0] 4
        (frameFileAt (writeFile (.stores 65536) (fun _ => some [1, 2, 3]) [9] 1
          "beacon.bin".toList).2 "beacon.bin".toList) := by
  constructor
  · rfl
  · intro h
    have hmax : ([9] : List UInt8).length ≤ 4 := by simp
    have hsize := (givesBack_writeFile hmax rfl).1 h
    simp at hsize

end LocTag
