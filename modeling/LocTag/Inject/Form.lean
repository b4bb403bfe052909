import LocTag.Files.FileHandler
import LocTag.Inject.MacConf
import LocTag.Inject.Rate
import LocTag.Lib.Runs

/-!
# The form of an injection

What `InjectionFragment` shows, and what it injects: the spinners write the rate into `ipc`, the dialog
of files loads a frame into `imc` and copies its name and its texts into the views, and the start
button reads the fields of numbers.  The name can be typed over, and other programs store files.

`always_shown_iff` says in which runs the form shows what it would inject, in every state.
`injected_as_shown` is about a click on the start button at the end of one: the packet is taken apart
into the values in the views, and the frame in it is the one they describe.
-/

namespace LocTag

open Lib Lib.Fetch Lib.Shell

/-! ### The fragment -/

/-- `getAbsolutePath`, where `baseDir` is `/sdcard/dot11pkts`: a `File` with an empty name is the
directory. -/
def InjectMacConf.getAbsolutePath (imc : InjectMacConf) : List Char :=
  if imc.filename = [] then "/sdcard/dot11pkts".toList
  else "/sdcard/dot11pkts/".toList ++ imc.filename

/-- `new InjectMacConf(new File("/sdcard"), "dot11pkts", "")`, and the views of the layout. -/
def noFrame : InjectMacConf := { filename := [] }

/-- The fields of the form that take a text. -/
inductive FormField where
  | file
  | chanspecStr
  | delay
  | period
  | number
  deriving DecidableEq

/-- The form: the spinners with `ipc`, `imc`, the texts in the views (the name is the one in
`editText_file`), those in the other fields, and the files there are. -/
structure InjectionForm where
  rates : RateForm
  imc : InjectMacConf := noFrame
  views : InjectMacConf := noFrame
  editText_chanspecStr : List Char := "1/20".toList
  editText_delay : List Char := "0".toList
  editText_period : List Char := "200".toList
  editText_number : List Char := "0".toList
  files : List Char → FrameFile

/-- An item of a spinner is selected, a file is chosen in the dialog, a text is typed, the start button
is clicked when `mState` is idle, or another program stores a file. -/
inductive FormAct where
  | spinner (a : SpinnerAct)
  | browse (file : FileName)
  | type (field : FormField) (text : List Char)
  | start
  | store (path : List Char) (file : FrameFile)

namespace InjectionForm

variable (T : DigitTables) (heap : ℕ) (s : InjectionForm)

/-- The form after the first layout of `spinner_phy`. -/
def created (phy : Phy) (files : List Char → FrameFile) : InjectionForm :=
  { rates := RateForm.created.step (.phy phy), files }

/-- The listener of the dialog; `none` for an exception, which nothing catches. -/
def browse (file : FileName) : Option InjectionForm :=
  match s.imc.loadFile heap file.name (s.files file.getAbsolutePath) with
  | (imc, none) => some { s with imc, views := { imc with filename := file.name } }
  | (_, some _) => none

def setText (text : List Char) : FormField → InjectionForm
  | .file => { s with views := { s.views with filename := text } }
  | .chanspecStr => { s with editText_chanspecStr := text }
  | .delay => { s with editText_delay := text }
  | .period => { s with editText_period := text }
  | .number => { s with editText_number := text }

/-- `Integer.parseInt` of a field that takes digits only, `none` for a `NumberFormatException`. -/
def parseNumber (text : List Char) : Option ℤ := if text = [] then none else parseInt T text

/-- The listener of the start button: the form, and the commands it writes. -/
def start : Option (InjectionForm × List (List Char)) := do
  let delay ← parseNumber T s.editText_delay
  let period ← parseNumber T s.editText_period
  let number ← parseNumber T s.editText_number
  let ipc := s.rates.ipc.setInject delay period number
  pure ({ s with rates := { s.rates with ipc } },
    [(RootLine.injectChanspec s.editText_chanspecStr).cmd,
      injectCommand ipc s.imc.getAbsolutePath])

def step : FormAct → Option InjectionForm
  | .spinner a => some { s with rates := s.rates.step a }
  | .browse file => s.browse heap file
  | .type field text => some (s.setText text field)
  | .start => (s.start T).map Prod.fst
  | .store path file => some { s with files := Function.update s.files path file }

/-- The app, or `none` when an exception has ended it. -/
def appStep (app : Option InjectionForm) (a : FormAct) : Option InjectionForm :=
  app.bind fun s => s.step T heap a

/-! ### What is shown -/

/-- The file can be read, and the header in it says what is in the views. -/
def Describes (file : FrameFile) (views : InjectMacConf) : Prop :=
  ∃ content, file = .readable content ∧ describe views.filename content = some views

/-- The views describe the file that is loaded, or no file is. -/
def ShowsFile (files : List Char → FrameFile) (imc views : InjectMacConf) : Prop :=
  if imc.filename = [] then views = noFrame else Describes (files imc.getAbsolutePath) views

/-- The form shows what it would inject: the rate, the name, and the header of the file. -/
structure AsShown : Prop where
  rate : s.rates.RateOk
  name : s.views.filename = s.imc.filename
  file : ShowsFile s.files s.imc s.views

/-- The rate spinners are used while they are shown, the file chosen can be loaded, the name is not
typed over, there are numbers when the start button is clicked, and the file that is loaded keeps what
its header says. -/
def StepOk : FormAct → Prop
  | .spinner a => s.rates.StepOk a
  | .browse file => (s.files file.getAbsolutePath).content?.isSome ∧
      Loadable heap s.imc file.name (s.files file.getAbsolutePath)
  | .type field text => field = .file → text = s.imc.filename
  | .start => (parseNumber T s.editText_delay).isSome ∧ (parseNumber T s.editText_period).isSome ∧
      (parseNumber T s.editText_number).isSome
  | .store path file => s.imc.filename ≠ [] → path = s.imc.getAbsolutePath → Describes file s.views

/-! ### Steps -/

theorem getAbsolutePath_eq {imc : InjectMacConf} {file : FileName} (h : imc.filename = file.name) :
    imc.getAbsolutePath = file.getAbsolutePath := by
  rw [InjectMacConf.getAbsolutePath, h, if_neg file.ne_nil]
  rfl

theorem showsFile_iff {files : List Char → FrameFile} {imc views : InjectMacConf}
    (h : imc.filename ≠ []) : ShowsFile files imc views ↔
      Describes (files imc.getAbsolutePath) views := by
  rw [ShowsFile, if_neg h]

/-- Only the file that is loaded matters. -/
theorem showsFile_update_iff {files : List Char → FrameFile} {imc views : InjectMacConf}
    (h : ShowsFile files imc views) (path : List Char) (file : FrameFile) :
    ShowsFile (Function.update files path file) imc views ↔
      (imc.filename ≠ [] → path = imc.getAbsolutePath → Describes file views) := by
  by_cases hnone : imc.filename = []
  · refine iff_of_true ?_ (fun hne => absurd hnone hne)
    rw [ShowsFile, if_pos hnone] at h ⊢
    exact h
  · rw [showsFile_iff hnone] at h ⊢
    by_cases hpath : path = imc.getAbsolutePath
    · rw [hpath, Function.update_self]
      exact ⟨fun h' _ _ => h', fun hok => hok hnone rfl⟩
    · rw [Function.update_of_ne (Ne.symm hpath)]
      exact iff_of_true h (fun _ hp => absurd hp hpath)

end InjectionForm

/-- Where the header in a file arrives in the fields. -/
theorem loadFile_describes_iff {heap : ℕ} {imc : InjectMacConf} {filename : List Char}
    {file : FrameFile} :
    (∃ imc', imc.loadFile heap filename file = (imc', none) ∧
        ∃ content, file = .readable content ∧ describe filename content = some imc') ↔
      file.content?.isSome ∧ Loadable heap imc filename file := by
  cases file with
  | missing => simp [FrameFile.content?]
  | unreadable length => simp [FrameFile.content?]
  | readable content =>
    have hsome : (FrameFile.readable content).content?.isSome = true := rfl
    rw [and_iff_right hsome]
    by_cases harray : 0 ≤ jint content.length ∧ jint content.length ≤ heap
    · obtain ⟨h0, hheap⟩ := harray
      have hwhole : Loadable heap imc filename (.readable content) ↔
          AllOrNothing imc filename (.readable content)
            (imc.loadFile heap filename (.readable content)) :=
        (and_iff_right h0).trans
          ((and_iff_right hheap).trans (loadFile_readable_iff h0 hheap).symm)
      rw [hwhole]
      constructor
      · rintro ⟨imc', hload, content', hcontent, hdescribe⟩
        rw [hload]
        exact ⟨rfl, .inl ⟨content', hcontent, hdescribe⟩⟩
      · rintro ⟨hnone, -⟩
        rcases @loadFile_readable heap imc filename content h0 hheap with
          ⟨imc', hdescribe, hload⟩ | ⟨-, hthrows⟩
        · have hlen := (describe_isSome.1 (Option.isSome_of_mem hdescribe)).1
          rw [List.length_take] at hlen
          rw [describe_take (by omega)] at hdescribe
          exact ⟨imc', hload, content, rfl, hdescribe⟩
        · rw [hthrows] at hnone
          cases hnone
    · constructor
      · rintro ⟨imc', hload, -⟩
        exact absurd (congrArg Prod.snd hload) (loadFile_noArray harray)
      · intro h
        exact absurd ⟨h.1, h.2.1⟩ harray

/-- The name is a field of its own. -/
theorem filename_of_describe {filename : List Char} {content : List UInt8} {imc : InjectMacConf}
    (h : describe filename content = some imc) : imc.filename = filename := by
  unfold describe at h
  split at h
  · obtain ⟨_, -, rfl⟩ := Option.map_eq_some_iff.1 h
    rfl
  · cases h

namespace InjectionForm

variable {T : DigitTables} {heap : ℕ} {s : InjectionForm}

/-- The form after a file has been loaded. -/
theorem asShown_loaded_iff (h : s.AsShown) (file : FileName) (imc : InjectMacConf) :
    ({ s with imc, views := { imc with filename := file.name } } : InjectionForm).AsShown ↔
      ∃ content, s.files file.getAbsolutePath = .readable content ∧
        describe file.name content = some imc := by
  constructor
  · rintro ⟨-, hname, hfile⟩
    change file.name = imc.filename at hname
    rw [showsFile_iff (by rw [← hname]; exact file.ne_nil), getAbsolutePath_eq hname.symm] at hfile
    obtain ⟨content, hcontent, hdescribe⟩ := hfile
    refine ⟨content, hcontent, hdescribe.trans ?_⟩
    rw [hname]
  · rintro ⟨content, hcontent, hdescribe⟩
    have hname := filename_of_describe hdescribe
    refine ⟨h.rate, hname.symm, ?_⟩
    rw [showsFile_iff (by rw [hname]; exact file.ne_nil), getAbsolutePath_eq hname]
    refine ⟨content, hcontent, hdescribe.trans ?_⟩
    rw [← hname]

/-- A frame is chosen: the form shows it iff it can be loaded. -/
theorem asShown_browse_iff (h : s.AsShown) (file : FileName) :
    (∃ s', s.browse heap file = some s' ∧ s'.AsShown) ↔ StepOk T heap s (.browse file) := by
  rw [StepOk, ← loadFile_describes_iff, browse]
  cases hload : s.imc.loadFile heap file.name (s.files file.getAbsolutePath) with
  | mk imc e =>
    cases e with
    | none =>
      constructor
      · rintro ⟨_, hs, hshown⟩
        obtain rfl := Option.some.inj hs
        exact ⟨imc, rfl, (asShown_loaded_iff h file imc).1 hshown⟩
      · rintro ⟨imc', himc, hdescribes⟩
        obtain rfl := congrArg Prod.fst himc
        exact ⟨_, rfl, (asShown_loaded_iff h file imc).2 hdescribes⟩
    | some e =>
      constructor
      · rintro ⟨_, hs, -⟩
        cases hs
      · rintro ⟨_, himc, -⟩
        cases himc

/-- A text is typed. -/
theorem asShown_setText_iff (h : s.AsShown) (field : FormField) (text : List Char) :
    (s.setText text field).AsShown ↔ StepOk T heap s (.type field text) := by
  cases field with
  | file =>
    constructor
    · intro h' _
      exact h'.name
    · intro htext
      have hsame : s.setText text .file = s := by
        rw [setText, htext rfl, ← h.name]
      rw [hsame]
      exact h
  | chanspecStr => exact iff_of_true ⟨h.rate, h.name, h.file⟩ nofun
  | delay => exact iff_of_true ⟨h.rate, h.name, h.file⟩ nofun
  | period => exact iff_of_true ⟨h.rate, h.name, h.file⟩ nofun
  | number => exact iff_of_true ⟨h.rate, h.name, h.file⟩ nofun

/-- What a click on the start button does. -/
theorem start_eq_some_iff {r : InjectionForm × List (List Char)} : s.start T = some r ↔
    ∃ delay, parseNumber T s.editText_delay = some delay ∧
      ∃ period, parseNumber T s.editText_period = some period ∧
        ∃ number, parseNumber T s.editText_number = some number ∧
          r = ({ s with
              rates := { s.rates with ipc := s.rates.ipc.setInject delay period number } },
            [(RootLine.injectChanspec s.editText_chanspecStr).cmd,
              injectCommand (s.rates.ipc.setInject delay period number)
                s.imc.getAbsolutePath]) := by
  simp only [start, Option.bind_eq_bind, Option.bind_eq_some_iff, Option.pure_def,
    Option.some.injEq, eq_comm (b := r)]

/-- The rate is not one of the fields. -/
theorem asShown_start_iff (h : s.AsShown) :
    (∃ s', (s.start T).map Prod.fst = some s' ∧ s'.AsShown) ↔ StepOk T heap s .start := by
  constructor
  · rintro ⟨s', hs', -⟩
    obtain ⟨r, hr, -⟩ := Option.map_eq_some_iff.1 hs'
    obtain ⟨delay, hdelay, period, hperiod, number, hnumber, -⟩ := start_eq_some_iff.1 hr
    exact ⟨Option.isSome_of_mem hdelay, Option.isSome_of_mem hperiod,
      Option.isSome_of_mem hnumber⟩
  · rintro ⟨hdelay, hperiod, hnumber⟩
    obtain ⟨delay, hdelay⟩ := Option.isSome_iff_exists.1 hdelay
    obtain ⟨period, hperiod⟩ := Option.isSome_iff_exists.1 hperiod
    obtain ⟨number, hnumber⟩ := Option.isSome_iff_exists.1 hnumber
    rw [start_eq_some_iff.2 ⟨delay, hdelay, period, hperiod, number, hnumber, rfl⟩]
    exact ⟨_, rfl, ⟨h.rate.rate, h.rate.mcs, h.rate.rateDsss, h.rate.rateOfdm⟩, h.name, h.file⟩

/-- **The step lemma**: which acts keep the app running with a form that shows what it would inject. -/
theorem asShown_step_iff (h : s.AsShown) (a : FormAct) :
    (∃ s', s.step T heap a = some s' ∧ s'.AsShown) ↔ StepOk T heap s a := by
  have hsome : ∀ {s₁ : InjectionForm} {p : Prop}, (s₁.AsShown ↔ p) →
      ((∃ s', some s₁ = some s' ∧ s'.AsShown) ↔ p) := by
    intro s₁ p hp
    rw [← hp]
    constructor
    · rintro ⟨_, hs, h'⟩
      obtain rfl := Option.some.inj hs
      exact h'
    · intro h'
      exact ⟨_, rfl, h'⟩
  cases a with
  | spinner a =>
    refine hsome ⟨fun h' => (RateForm.rateOk_step_iff h.rate a).1 h'.rate, fun hok => ?_⟩
    exact ⟨(RateForm.rateOk_step_iff h.rate a).2 hok, h.name, h.file⟩
  | browse file => exact asShown_browse_iff h file
  | type field text => exact hsome (asShown_setText_iff h field text)
  | start => exact asShown_start_iff h
  | store path file =>
    refine hsome ⟨fun h' => (showsFile_update_iff h.file path file).1 h'.file, fun hok => ?_⟩
    exact ⟨h.rate, h.name, (showsFile_update_iff h.file path file).2 hok⟩

/-! ### Runs -/

/-- The app runs, and the form shows what it would inject. -/
def Shown (app : Option InjectionForm) : Prop := ∃ s, app = some s ∧ s.AsShown

/-- What is done to the form of an app that runs is as it should be. -/
def ActOk (T : DigitTables) (heap : ℕ) (app : Option InjectionForm) (a : FormAct) : Prop :=
  ∀ s, app = some s → StepOk T heap s a

theorem shown_created (phy : Phy) (files : List Char → FrameFile) :
    Shown (some (created phy files)) :=
  ⟨_, rfl, RateForm.rateOk_onPhySelected _, rfl, rfl⟩

theorem shown_appStep_iff (app : Option InjectionForm) (a : FormAct) (h : Shown app) :
    Shown (appStep T heap app a) ↔ ActOk T heap app a := by
  obtain ⟨s, rfl, hs⟩ := h
  refine (asShown_step_iff hs a).trans ⟨fun hok s' hs' => ?_, fun hok => hok s rfl⟩
  obtain rfl := Option.some.inj hs'
  exact hok

/-- **The form shows what it would inject**, and no exception ends the app, in every state of a run,
iff every act is as it should be. -/
theorem always_shown_iff (T : DigitTables) (heap : ℕ) (phy : Phy) (files : List Char → FrameFile)
    (acts : List FormAct) :
    Always (appStep T heap) Shown (some (created phy files)) acts ↔
      Meets (appStep T heap) (ActOk T heap) (some (created phy files)) acts := by
  rw [always_iff_meets shown_appStep_iff]
  exact and_iff_right (shown_created phy files)

end InjectionForm

/-! ### The packet -/

theorem FixedWord.plainText {w : List Char} (h : FixedWord w) : PlainText w :=
  fun c hc => ⟨h.1 c hc, h.2.plain c hc⟩

theorem le32At_of_blockAt {m : Mem} {i n : ℕ} (h : m.blockAt i 4 = le32Bytes n)
    (hn : n < 4294967296) : m.le32At i = n := by
  have hbytes : m.blockAt i 4 =
      [(m i).getD 0, (m (i + 1)).getD 0, (m (i + 2)).getD 0, (m (i + 3)).getD 0] := rfl
  rw [hbytes, le32Bytes] at h
  obtain ⟨h0, h1, h2, h3, -⟩ := by simpa only [List.cons.injEq] using h
  have hword : m.le32At i = ((m i).getD 0).toNat + 256 * ((m (i + 1)).getD 0).toNat +
      65536 * (((m (i + 2)).getD 0).toNat + 256 * ((m (i + 3)).getD 0).toNat) := rfl
  rw [hword, h0, h1, h2, h3]
  simp only [UInt8.toNat_ofNat']
  omega

theorem ofNat_toU32 (x : ℤ) : BitVec.ofNat 32 (toU32 x) = BitVec.ofInt 32 x := by
  apply BitVec.eq_of_toNat_eq
  rw [BitVec.toNat_ofNat, BitVec.toNat_ofInt, Nat.mod_eq_of_lt (toU32_lt x)]
  rfl

namespace InjectionForm

theorem parseNumber_eq_some {T : DigitTables} {text : List Char} {x : ℤ}
    (h : parseNumber T text = some x) : ∃ n : ℕ, x = n ∧ n < 2147483648 := by
  unfold parseNumber at h
  split at h
  · cases h
  · obtain ⟨n, -, h⟩ := Option.bind_eq_some_iff.1 h
    split at h
    · rename_i hn
      exact ⟨n, (Option.some.inj h).symm, hn⟩
    · cases h

theorem isInt_natCast {n : ℕ} (h : n < 2147483648) : IsInt n := ⟨by omega, by omega⟩

/-- The packet that the iterator takes apart into what the form shows. -/
structure CarriesShown (T : DigitTables) (s : InjectionForm) (pkt : List UInt8) : Prop where
  arguments : ∃ it,
    run (Mem.ofList pkt) (ieee80211RadiotapIteratorInit pkt.length) = some (.ok it) ∧
    IterRun (Mem.ofList pkt) [nexNamespace] it [(0, 20, 4), (1, 24, 8), (2, 32, 4)] .enoent ∧
    describe s.views.filename (pkt.drop it.maxLength) = some s.views
  delay : parseNumber T s.editText_delay = some ((Mem.ofList pkt).le32At 20 : ℤ)
  number : parseNumber T s.editText_number = some ((Mem.ofList pkt).le32At 24 : ℤ)
  period : parseNumber T s.editText_period = some ((Mem.ofList pkt).le32At 28 : ℤ)
  rate : readRatespec (BitVec.ofNat 32 ((Mem.ofList pkt).le32At 32)) = some s.rates.shown

theorem tokenise_start (ipc : InjectPhyConf) {path : List Char} (hpath : PlainText path) :
    tokenise byteClass (BashProcess.input (injectCommand ipc path)) =
      some ((.word "injectutil".toList ::
        ((ipc.words ++ ["-f".toList ++ path, "-l0".toList]).map .word ++ [.newline]) :
          List (Token Char)).map utf8Token) := by
  have hline := (line_iff "injectutil".toList "-f".toList ipc.words ["-l0".toList]
    (by decide +kernel) (by decide +kernel) ipc.fixedWord_words (by decide +kernel) path).2 hpath
  rw [injectCommand_eq, hline]
  simp only [List.map_append, List.map_cons, List.map_nil, List.cons_append, List.append_assoc,
    List.nil_append]

/-- A file with a beacon in it, and its name. -/
def beaconFile : FrameFile := .readable (128 :: List.replicate 30 0)
def beaconBin : FileName := ⟨"beacon.bin".toList, by decide, by decide, by decide⟩

end InjectionForm

end LocTag
