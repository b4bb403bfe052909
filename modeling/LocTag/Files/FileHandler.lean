import LocTag.Java

/-!
# The names of capture files

`FileHandler.java`: a file name is a list of numbers, printed with two digits at least and joined by
slashes, and an extension; a cursor points at the number that the buttons of the app count up and
down.

`setFileName` assigns the extension before it looks at the numbers, so a name it rejects can leave a
changed extension behind; `setFileName_atomic_iff` says exactly when it does not.
-/

namespace LocTag

open Lib

/-! ### Java library functions -/

/-- What the runtime's Unicode tables say of characters beyond ASCII: `\\d` of the regular expression
engine, and `Character.digit(c, 10)`. -/
structure DigitTables where
  regexDigit : Char → Bool
  digit : Char → Option ℕ

section JavaLib

variable (T : DigitTables)

/-- `\\d` -/
def isRegexDigit (c : Char) : Bool := if c.toNat < 128 then c.isDigit else T.regexDigit c

/-- `str.matches("\\d+")` -/
def matchesDigits (str : List Char) : Bool := !str.isEmpty && str.all (isRegexDigit T)

/-- `Character.digit(c, 10)` -/
def characterDigit10 (c : Char) : Option ℕ := if c.toNat < 128 then digitIn 10 c else T.digit c

def parseDigits10 (acc : ℕ) : List Char → Option ℕ
  | [] => some acc
  | c :: s => (characterDigit10 T c).bind fun d => parseDigits10 (acc * 10 + d) s

/-- `Integer.parseInt(str)` of a text without sign, `none` for a `NumberFormatException`. -/
def parseInt (str : List Char) : Option ℤ :=
  (parseDigits10 T 0 str).bind fun n => if n < 2147483648 then some (n : ℤ) else none

/-- `s.lastIndexOf(c)`, `none` for `-1`. -/
def lastIndexOf (c : Char) : List Char → Option ℕ
  | [] => none
  | x :: s => match lastIndexOf c s with
    | some i => some (i + 1)
    | none => if x = c then some 0 else none

end JavaLib

/-! ### The handler -/

/-- The fields of `FileHandler.java` that make the name. -/
structure FileHandler where
  mFileNameComponents : List ℤ
  mFileNameCursor : ℤ
  ext : List Char := ".txt".toList
  deriving DecidableEq

namespace FileHandler

variable (T : DigitTables) (fh : FileHandler)

/-- The body of the loop of `setFileName`. -/
def parseComponent (str : List Char) : Option ℤ :=
  if matchesDigits T str then parseInt T str else none

/-- `filename` without its extension. -/
def stem (filename : List Char) : List Char :=
  match lastIndexOf '.' filename with
  | some dotPos => filename.take dotPos
  | none => filename

/-- `this.ext` after its assignment in `setFileName`. -/
def extAfter (filename : List Char) : List Char :=
  match lastIndexOf '.' filename with
  | some dotPos => filename.drop dotPos
  | none => fh.ext

/-- `filenameComponents` after the loop, `none` where the loop throws. -/
def parseComponents (filename : List Char) : Option (List ℤ) :=
  (javaSplit '/' (stem filename)).mapM (parseComponent T)

/-- `setFileName`: the object afterwards, and the exception if one is thrown. -/
def setFileName (filename : List Char) : FileHandler × Option JavaException :=
  match parseComponents T filename with
  | none => ({ fh with ext := fh.extAfter filename }, some .numberFormat)
  | some comps =>
    ({ mFileNameComponents := comps, mFileNameCursor := comps.length - 1,
       ext := fh.extAfter filename }, none)

/-- The fields before the constructor runs. -/
def initial : FileHandler := { mFileNameComponents := [], mFileNameCursor := 0 }

/-- The object `new FileHandler(baseDir, category, filename)` makes, `none` where the constructor
throws. -/
def construct (filename : List Char) : Option FileHandler :=
  match initial.setFileName T filename with
  | (fh, none) => some fh
  | (_, some _) => none

/-- `mFileNameComponents.get(pos)`, `none` where it throws. -/
def get (pos : ℤ) : Option ℤ := if 0 ≤ pos then fh.mFileNameComponents[pos.toNat]? else none

/-- A number in the text `getSpannedFilename` formats, marked under the cursor. -/
def spannedNumber (i : ℕ) (d : ℤ) : List Char :=
  if i = fh.mFileNameCursor then
    "<font color='red'><b>".toList ++ pad2 d ++ "</b></font>".toList
  else pad2 d

/-- The text `getSpannedFilename` formats, `none` where it throws. -/
def getSpannedFilename : Option (List Char) :=
  ((List.range fh.mFileNameComponents.length).mapM fun i : ℕ =>
    (fh.get i).map (fh.spannedNumber i)).map fun parts => ['/'].intercalate parts ++ fh.ext

/-- `getFilename` -/
def getFilename : List Char := ['/'].intercalate (fh.mFileNameComponents.map pad2) ++ fh.ext

/-- `moveFileNameCursor` -/
def moveFileNameCursor (direction : ℤ) : FileHandler × ℤ :=
  let pos := jint (fh.mFileNameCursor + direction)
  if pos < 0 then (fh, -1)
  else if pos ≥ fh.mFileNameComponents.length then (fh, 1)
  else ({ fh with mFileNameCursor := pos }, 0)

/-- `updateFileName`, `none` where it throws. -/
def updateFileName (increment : ℤ) : Option FileHandler :=
  (fh.get fh.mFileNameCursor).map fun v =>
    let d := jint (v + increment)
    let d := if d < 0 then 0 else d
    { fh with mFileNameComponents := fh.mFileNameComponents.set fh.mFileNameCursor.toNat d }

/-- The directory part `createFile` takes of the name, `none` where `substring` throws. -/
def createFilePath : Option (List Char) :=
  (lastIndexOf '/' fh.getFilename).map fun i => fh.getFilename.take i

end FileHandler

/-! ### The last index of a character -/

section LastIndex

variable {c : Char} {s : List Char}

theorem lastIndexOf_eq_none : lastIndexOf c s = none ↔ c ∉ s := by
  induction s with
  | nil => simp [lastIndexOf]
  | cons x s ih =>
    rw [lastIndexOf, List.mem_cons, not_or, ← ih]
    cases lastIndexOf c s with
    | none => simp [eq_comm]
    | some i => simp

/-- The text behind the last `c` has no `c`. -/
theorem lastIndexOf_append {a b : List Char} (hb : c ∉ b) :
    lastIndexOf c (a ++ c :: b) = some a.length := by
  induction a with
  | nil => rw [List.nil_append, lastIndexOf, lastIndexOf_eq_none.2 hb]; simp
  | cons x a ih => rw [List.cons_append, lastIndexOf, ih]; rfl

theorem exists_of_lastIndexOf {i : ℕ} (h : lastIndexOf c s = some i) :
    ∃ a b, s = a ++ c :: b ∧ c ∉ b ∧ a.length = i := by
  induction s generalizing i with
  | nil => cases h
  | cons x s ih =>
    rw [lastIndexOf] at h
    split at h
    · rename_i j hj
      obtain ⟨a, b, rfl, hb, rfl⟩ := ih hj
      exact ⟨x :: a, b, rfl, hb, Option.some.inj h⟩
    · rename_i hnone
      split at h
      · rename_i hx
        exact ⟨[], s, by rw [hx, List.nil_append], lastIndexOf_eq_none.1 hnone, Option.some.inj h⟩
      · cases h

end LastIndex

/-! ### Errors of `setFileName` -/

namespace FileHandler

variable {T : DigitTables}

/-- The loop of `setFileName` goes through: the parts of the name before its extension are numbers,
of digits only and in the range of `int`. -/
def Accepts (T : DigitTables) (filename : List Char) : Prop :=
  ∀ str ∈ javaSplit '/' (stem filename), (parseComponent T str).isSome

instance (T : DigitTables) (filename : List Char) : Decidable (Accepts T filename) := by
  unfold Accepts
  infer_instance

theorem mapM_isSome {α β : Type} {f : α → Option β} {l : List α} :
    (l.mapM f).isSome ↔ ∀ a ∈ l, (f a).isSome := by
  induction l with
  | nil => simp
  | cons a l ih =>
    rw [List.forall_mem_cons, ← ih, List.mapM_cons]
    cases f a <;> cases l.mapM f <;> simp

theorem mapM_eq_some_iff {α β : Type} {f : α → Option β} {l : List α} {r : List β} :
    l.mapM f = some r ↔ List.Forall₂ (fun a b => f a = some b) l r := by
  induction l generalizing r with
  | nil => cases r <;> simp
  | cons a l ih =>
    rw [List.mapM_cons]
    constructor
    · intro h
      obtain ⟨b, hb, h⟩ := Option.bind_eq_some_iff.1 h
      obtain ⟨bs, hbs, h⟩ := Option.bind_eq_some_iff.1 h
      cases h
      exact .cons hb (ih.1 hbs)
    · intro h
      cases h with
      | cons hb hbs =>
        rw [hb, ih.2 hbs]
        rfl

theorem accepts_iff {filename : List Char} :
    Accepts T filename ↔ ∃ comps, parseComponents T filename = some comps := by
  rw [Accepts, ← mapM_isSome, ← Option.isSome_iff_exists]
  rfl

theorem parseComponent_eq_some {str : List Char} {d : ℤ} (h : parseComponent T str = some d) :
    0 ≤ d ∧ d < 2147483648 := by
  unfold parseComponent at h
  split at h
  · obtain ⟨n, -, hn⟩ := Option.bind_eq_some_iff.1 h
    split at hn
    · cases hn
      omega
    · cases hn
  · cases h

/-- The numbers of an accepted name: as many as it has parts, and each an `int` that is not
negative. -/
theorem parseComponents_eq_some {filename : List Char} {comps : List ℤ}
    (h : parseComponents T filename = some comps) :
    comps.length = (javaSplit '/' (stem filename)).length ∧
      ∀ d ∈ comps, 0 ≤ d ∧ d < 2147483648 := by
  have hparts := mapM_eq_some_iff.1 h
  refine ⟨hparts.length_eq.symm, ?_⟩
  have hrange := hparts.flip.imp fun d str hd => And.intro (parseComponent_eq_some hd) hd
  exact ((List.forall₂_and_left _ _).1 hrange).1

/-- What follows the last dot is the extension. -/
theorem extAfter_eq_iff {fh : FileHandler} {filename : List Char} :
    fh.extAfter filename = fh.ext ↔ '.' ∉ filename ∨
      ∃ a b, filename = a ++ '.' :: b ∧ '.' ∉ b ∧ fh.ext = '.' :: b := by
  unfold extAfter
  cases h : lastIndexOf '.' filename with
  | none => simp [lastIndexOf_eq_none.1 h]
  | some dotPos =>
    obtain ⟨a, b, rfl, hb, rfl⟩ := exists_of_lastIndexOf h
    simp only [List.drop_left]
    constructor
    · intro hext
      exact .inr ⟨a, b, rfl, hb, hext.symm⟩
    · rintro (hdot | ⟨a', b', hsplit, hb', hext⟩)
      · exact absurd (by simp) hdot
      · -- the last dot is the same in both splits
        have := lastIndexOf_append (a := a') hb'
        rw [← hsplit, lastIndexOf_append hb, Option.some.injEq] at this
        rw [hext]
        exact (List.append_inj hsplit this).2

/-- **`setFileName` is atomic on error** iff the name is accepted, has no extension, or has the
extension already set. -/
theorem setFileName_atomic_iff (T : DigitTables) (fh : FileHandler) (filename : List Char) :
    (∀ e, (fh.setFileName T filename).2 = some e → (fh.setFileName T filename).1 = fh) ↔
      Accepts T filename ∨ '.' ∉ filename ∨
        ∃ a b, filename = a ++ '.' :: b ∧ '.' ∉ b ∧ fh.ext = '.' :: b := by
  rw [← extAfter_eq_iff, accepts_iff]
  unfold setFileName
  cases parseComponents T filename with
  | some comps => simp
  | none =>
    simp only [Option.some.injEq, forall_eq', reduceCtorEq, exists_false, false_or]
    constructor
    · intro h
      exact congrArg ext h
    · intro h
      rw [h]

/-- Tables without digits beyond ASCII. -/
def asciiDigits : DigitTables := ⟨fun _ => false, fun _ => none⟩

/-- A name that is rejected changes the extension. -/
theorem setFileName_changes_ext :
    ¬ ∀ (T : DigitTables) (fh : FileHandler) (filename : List Char) (e : JavaException),
      (fh.setFileName T filename).2 = some e → (fh.setFileName T filename).1 = fh := by
  intro hall
  have h := hall asciiDigits ⟨[1, 1], 1, ".txt".toList⟩ "a.csv".toList
    .numberFormat rfl
  exact absurd (congrArg ext h) (by decide +kernel)

end FileHandler

end LocTag
