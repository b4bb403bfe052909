import LocTag.Fragment.CsiLog
import LocTag.Fragment.Session
import LocTag.Files.Store

/-!
# The files of the sessions

The threads of a fragment share its `FileHandler`: every worker creates a file, writes to it in its
receive loop and closes it, stop threads close it too, and the buttons change the name meanwhile.

`file_of_session` is about every interleaving in which a click that starts a worker comes when the
sessions before are settled: a file has all that the session that created it last has written, and
nothing of another one.  `csi_files_read_back` is what that comes to in `CsiFragment`: whatever is on
the disk of its sessions can be read back.
-/

namespace LocTag

open Lib

/-! ### Threads and files -/

/-- The fragment with its file handler.  `wrote` has what each session has written, by the calls of
`writeText` that did not throw, and `creator` the session that created the file at a path last. -/
structure Recording where
  session : Session := {}
  store : FileStore
  wrote : ℕ → List Char := fun _ => []
  creator : FilePath → Option ℕ := fun _ => none

/-- A button for the name, `createFile` and `writeText` of a worker, and all other steps. -/
inductive RecordingAct where
  | name (a : FileHandler.Action)
  | create (i : ℕ) (mounted opens : Bool)
  | write (i : ℕ) (lines : List Char)
  | thread (a : SessionAct)

/-- The next step of the thread is `createFile`. -/
def Session.AtCreate (s : Session) : SessionAct → Bool
  | .worker i _ => s.workers[i]? = some .creating
  | _ => false

/-- The next step of the thread is `closeFile`. -/
def Session.AtClose (s : Session) : SessionAct → Bool
  | .worker i _ => s.workers[i]? = some .closingFile
  | .stop j _ => s.stops[j]?.map Prod.snd = some .closingFile
  | _ => false

namespace Recording

variable (T : DigitTables)

/-- Where `createFile` and `writeText` throw, the worker leaves its `try` block. -/
def step (s : Recording) : RecordingAct → Option Recording
  | .name a => some { s with store := s.store.step T (.name a) }
  | .create i mounted opens =>
    if s.session.workers[i]? = some .creating then
      let (store, throws) := s.store.createFile mounted opens
      (s.session.step (.worker i throws)).map fun session => { s with
        session, store
        creator := if throws then s.creator else Function.update s.creator s.store.path (some i) }
    else none
  | .write i lines =>
    if s.session.workers[i]? = some .receiving then
      let (store, throws) := s.store.writeText lines
      if throws then (s.session.step (.worker i true)).map fun session => { s with session }
      else some { s with
        store, wrote := Function.update s.wrote i (s.wrote i ++ lines) }
    else none
  | .thread a =>
    if s.session.AtCreate a then none
    else (s.session.step a).map fun session => { s with
      session, store := if s.session.AtClose a then s.store.closeFile else s.store }

end Recording

/-- The fragment with a new handler. -/
def recordings (T : DigitTables) (fh : FileHandler) (baseDir : FilePath)
    (disk : FilePath → Option (List Char)) : System Recording RecordingAct :=
  ⟨{ store := .new fh baseDir disk }, Recording.step T⟩

/-- A click that starts a worker comes when everything is settled. -/
def SettledRecording (s : Recording) : RecordingAct → Prop
  | .thread a => SettledClick s.session a
  | _ => True

instance (s : Recording) (a : RecordingAct) : Decidable (SettledRecording s a) :=
  match a with
  | .thread a => inferInstanceAs (Decidable (SettledClick s.session a))
  | .name _ | .create _ _ _ | .write _ _ => .isTrue trivial

/-! ### Steps of the threads -/

/-- The worker is past `createFile`. -/
def WorkerPc.Created : WorkerPc → Bool
  | starting | opening | creating => false
  | _ => true

namespace Session

variable {s s' : Session}

/-- A worker past `createFile` remains so. -/
def Goes (s s' : Session) : Prop :=
  ∀ (i : ℕ) (pc : WorkerPc), s.workers[i]? = some pc → pc.Created →
    ∃ pc' : WorkerPc, s'.workers[i]? = some pc' ∧ pc'.Created

theorem goes_of_workers (h : s'.workers = s.workers) : s.Goes s' := by
  intro i pc hi hpc
  exact ⟨pc, by rw [h, hi], hpc⟩

theorem goes_set {i : ℕ} {pc pc' : WorkerPc} (hi : s.workers[i]? = some pc)
    (h : s'.workers = s.workers.set i pc') (himp : pc.Created → pc'.Created) : s.Goes s' := by
  intro j pcj hj hpc
  by_cases hji : j = i
  · subst hji
    obtain rfl := Option.some.inj (hi.symm.trans hj)
    exact ⟨pc', by rw [h, List.getElem?_set_self (List.getElem?_eq_some_iff.1 hi).1], himp hpc⟩
  · exact ⟨pcj, by rw [h, List.getElem?_set_ne (Ne.symm hji), hj], hpc⟩

/-- Workers only go on. -/
theorem goes_workerStep {i : ℕ} {leave : Bool} {pc : WorkerPc} (hi : s.workers[i]? = some pc)
    (h : s.workerStep i leave pc = some s') : s.Goes s' := by
  cases pc with
  | starting =>
    obtain rfl := Option.some.inj h
    exact goes_set hi rfl fun h => absurd h Bool.false_ne_true
  | opening =>
    rw [workerStep] at h
    split at h <;> obtain rfl := Option.some.inj h
    · exact goes_set hi rfl fun h => absurd h Bool.false_ne_true
    · exact goes_set hi rfl fun h => absurd h Bool.false_ne_true
  | creating =>
    rw [workerStep] at h
    split at h <;> obtain rfl := Option.some.inj h
    · exact goes_set hi (by rw [setWorker, workers_closeFile]) fun h => absurd h Bool.false_ne_true
    · exact goes_set hi (by rw [setWorker, workers_closeFile]) fun h => absurd h Bool.false_ne_true
  | receiving =>
    rw [workerStep] at h
    split at h <;> obtain rfl := Option.some.inj h
    · exact goes_set hi rfl fun _ => rfl
    · exact goes_of_workers rfl
  | closingSocket =>
    obtain rfl := Option.some.inj h
    exact goes_set hi (by rw [setWorker, workers_closeSocket]) fun _ => rfl
  | closingFile =>
    obtain rfl := Option.some.inj h
    exact goes_set hi (by rw [setWorker, workers_closeFile]) fun _ => rfl
  | posting =>
    obtain rfl := Option.some.inj h
    exact goes_set hi rfl fun _ => rfl
  | ended => cases h

theorem workers_stopStep {j i : ℕ} {leave : Bool} {pc : StopPc}
    (h : s.stopStep j i leave pc = some s') : s'.workers = s.workers := by
  cases pc with
  | killing =>
    obtain rfl := Option.some.inj h
    rfl
  | closingSocket =>
    obtain rfl := Option.some.inj h
    exact workers_closeSocket
  | closingFile =>
    obtain rfl := Option.some.inj h
    exact workers_closeFile
  | posting =>
    obtain rfl := Option.some.inj h
    rfl
  | ended => cases h

theorem goes_step {a : SessionAct} (h : s.step a = some s') : s.Goes s' := by
  cases a with
  | click =>
    obtain rfl := Option.some.inj h
    unfold click
    split
    · intro i pc hi hpc
      exact ⟨pc, by rw [List.getElem?_append_left (List.getElem?_eq_some_iff.1 hi).1, hi], hpc⟩
    · exact goes_of_workers rfl
  | deliver =>
    obtain ⟨v, -, rfl⟩ := Option.map_eq_some_iff.1 h
    exact goes_of_workers rfl
  | worker i leave =>
    obtain ⟨pc, hi, h⟩ := Option.bind_eq_some_iff.1 h
    exact goes_workerStep hi h
  | stop j leave =>
    obtain ⟨stop, -, h⟩ := Option.bind_eq_some_iff.1 h
    exact goes_of_workers (workers_stopStep h)

/-- **What is open after a step**, other than `createFile`. -/
theorem file_step {a : SessionAct} (h : s.step a = some s') (hcreate : s.AtCreate a = false) :
    s'.file = if s.AtClose a then none else s.file := by
  cases a with
  | click =>
    obtain rfl := Option.some.inj h
    unfold click
    split <;> rfl
  | deliver =>
    obtain ⟨v, -, rfl⟩ := Option.map_eq_some_iff.1 h
    rfl
  | worker i leave =>
    obtain ⟨pc, hi, h⟩ := Option.bind_eq_some_iff.1 h
    rw [AtCreate, hi] at hcreate
    rw [AtClose, hi]
    cases pc with
    | creating => cases hcreate
    | starting =>
      obtain rfl := Option.some.inj h
      rfl
    | opening =>
      rw [workerStep] at h
      split at h <;> obtain rfl := Option.some.inj h <;> rfl
    | receiving =>
      rw [workerStep] at h
      split at h <;> obtain rfl := Option.some.inj h <;> rfl
    | closingSocket =>
      obtain rfl := Option.some.inj h
      exact file_closeSocket
    | closingFile =>
      obtain rfl := Option.some.inj h
      exact file_closeFile
    | posting =>
      obtain rfl := Option.some.inj h
      rfl
    | ended => cases h
  | stop j leave =>
    obtain ⟨⟨i, pc⟩, hj, h⟩ := Option.bind_eq_some_iff.1 h
    rw [AtClose, hj]
    cases pc with
    | killing =>
      obtain rfl := Option.some.inj h
      rfl
    | closingSocket =>
      obtain rfl := Option.some.inj h
      exact file_closeSocket
    | closingFile =>
      obtain rfl := Option.some.inj h
      exact file_closeFile
    | posting =>
      obtain rfl := Option.some.inj h
      rfl
    | ended => cases h

theorem settledClick_worker (s : Session) (i : ℕ) (leave : Bool) :
    SettledClick s (.worker i leave) := by
  intro hclick
  cases hclick

end Session

/-! ### The invariant -/

/-- **Every file has what its session has written**: the open one is of the session that has it open,
and a session creates one file, after which it writes. -/
structure Recording.FileInv (disk : FilePath → Option (List Char)) (s : Recording) : Prop where
  last : s.session.LastOnly
  opened : ∀ p, s.store.bw = some (p, true) → ∃ i, s.session.file = some i ∧ s.creator p = some i
  text : ∀ p i, s.creator p = some i → s.store.disk p = some (s.wrote i)
  one : ∀ p q i, s.creator p = some i → s.creator q = some i → p = q
  begun : ∀ i, s.wrote i ≠ [] ∨ (∃ p, s.creator p = some i) →
    ∃ pc : WorkerPc, s.session.workers[i]? = some pc ∧ pc.Created
  untouched : ∀ p, s.creator p = none → s.store.disk p = disk p

namespace Recording

variable {T : DigitTables} {disk : FilePath → Option (List Char)} {s s' : Recording}

variable {t : Recording}

/-- A step that changes neither the disk nor what was written. -/
theorem FileInv.of_thread (h : s.FileInv disk) (hlast : t.session.LastOnly)
    (hgoes : s.session.Goes t.session) (hdisk : t.store.disk = s.store.disk)
    (hwrote : t.wrote = s.wrote) (hcreator : t.creator = s.creator)
    (hbw : ∀ p, t.store.bw = some (p, true) →
      s.store.bw = some (p, true) ∧ t.session.file = s.session.file) : t.FileInv disk := by
  constructor
  case last => exact hlast
  case opened =>
    intro p hp
    obtain ⟨hp, hfile⟩ := hbw p hp
    rw [hfile, hcreator]
    exact h.opened p hp
  case text =>
    rw [hdisk, hwrote, hcreator]
    exact h.text
  case one =>
    rw [hcreator]
    exact h.one
  case begun =>
    rw [hwrote, hcreator]
    intro i hi
    obtain ⟨pc, hpc, hcreated⟩ := h.begun i hi
    exact hgoes i pc hpc hcreated
  case untouched =>
    rw [hdisk, hcreator]
    exact h.untouched

/-- A worker creates its file: it has not written before, and has no other. -/
theorem FileInv.create (h : s.FileInv disk) {i : ℕ} {p : FilePath}
    (hi : s.session.workers[i]? = some .creating)
    (hstep : s.session.step (.worker i false) = some t.session)
    (hbw : t.store.bw = some (p, true))
    (hdisk : t.store.disk = Function.update s.store.disk p (some []))
    (hwrote : t.wrote = s.wrote) (hcreator : t.creator = Function.update s.creator p (some i)) :
    t.FileInv disk := by
  have hnew : ¬ (s.wrote i ≠ [] ∨ ∃ p, s.creator p = some i) := by
    intro hbegun
    obtain ⟨pc, hpc, hcreated⟩ := h.begun i hbegun
    obtain rfl := Option.some.inj (hi.symm.trans hpc)
    cases hcreated
  obtain ⟨hnone, hother⟩ := not_or.1 hnew
  have hself : t.creator p = some i := by rw [hcreator, Function.update_self]
  have hkeep : ∀ q, q ≠ p → t.creator q = s.creator q ∧ t.store.disk q = s.store.disk q := by
    intro q hq
    rw [hcreator, hdisk, Function.update_of_ne hq, Function.update_of_ne hq]
    exact ⟨rfl, rfl⟩
  have hsession := hstep
  rw [Session.step, hi, Option.bind_some] at hsession
  have hsession := Option.some.inj hsession
  constructor
  case last => exact h.last.step (Session.settledClick_worker _ i _) hstep
  case opened =>
    intro q hq
    obtain ⟨rfl, -⟩ := Prod.mk.inj (Option.some.inj (hbw.symm.trans hq))
    exact ⟨i, by rw [← hsession]; rfl, hself⟩
  case text =>
    intro q j hj
    by_cases hq : q = p
    · subst hq
      obtain rfl := Option.some.inj (hself.symm.trans hj)
      rw [hdisk, Function.update_self, hwrote, not_not.1 hnone]
    · rw [(hkeep q hq).2, hwrote]
      exact h.text q j ((hkeep q hq).1.symm.trans hj)
  case one =>
    intro q r j hq hr
    by_cases hqp : q = p <;> by_cases hrp : r = p
    · rw [hqp, hrp]
    · subst hqp
      obtain rfl := Option.some.inj (hself.symm.trans hq)
      exact absurd ⟨r, (hkeep r hrp).1.symm.trans hr⟩ hother
    · subst hrp
      obtain rfl := Option.some.inj (hself.symm.trans hr)
      exact absurd ⟨q, (hkeep q hqp).1.symm.trans hq⟩ hother
    · exact h.one q r j ((hkeep q hqp).1.symm.trans hq) ((hkeep r hrp).1.symm.trans hr)
  case begun =>
    intro j hj
    by_cases hji : j = i
    · subst hji
      refine ⟨.receiving, ?_, rfl⟩
      rw [← hsession]
      have hlt := (List.getElem?_eq_some_iff.1 hi).1
      simp [Session.setWorker, hlt]
    · obtain ⟨pc, hpc, hcreated⟩ := h.begun j (by
        rw [hwrote] at hj
        refine hj.imp_right ?_
        rintro ⟨q, hq⟩
        by_cases hqp : q = p
        · subst hqp
          exact absurd (Option.some.inj (hself.symm.trans hq)).symm hji
        · exact ⟨q, (hkeep q hqp).1.symm.trans hq⟩)
      exact Session.goes_step hstep j pc hpc hcreated
  case untouched =>
    intro q hq
    by_cases hqp : q = p
    · subst hqp
      cases hself.symm.trans hq
    · rw [(hkeep q hqp).2]
      exact h.untouched q ((hkeep q hqp).1.symm.trans hq)

/-- A worker writes to its file. -/
theorem FileInv.write (h : s.FileInv disk) {i : ℕ} {p : FilePath} {lines : List Char}
    (hi : s.session.workers[i]? = some .receiving) (hbw : s.store.bw = some (p, true))
    (hsession : t.session = s.session) (hbw' : t.store.bw = s.store.bw)
    (hdisk : t.store.disk =
      Function.update s.store.disk p ((s.store.disk p).map (· ++ lines)))
    (hwrote : t.wrote = Function.update s.wrote i (s.wrote i ++ lines))
    (hcreator : t.creator = s.creator) : t.FileInv disk := by
  -- what is open is its own
  obtain ⟨j, hfile, hown⟩ := h.opened p hbw
  obtain rfl := h.last.file_eq hi Bool.false_ne_true j hfile
  constructor
  case last =>
    rw [hsession]
    exact h.last
  case opened =>
    rw [hsession, hbw', hcreator]
    exact h.opened
  case text =>
    intro q k hk
    rw [hcreator] at hk
    by_cases hkj : k = j
    · subst hkj
      obtain rfl := h.one q p k hk hown
      rw [hdisk, Function.update_self, h.text q k hk, hwrote, Function.update_self]
      rfl
    · have hqp : q ≠ p := by
        rintro rfl
        exact hkj (Option.some.inj (hk.symm.trans hown))
      rw [hdisk, Function.update_of_ne hqp, hwrote, Function.update_of_ne hkj]
      exact h.text q k hk
  case one =>
    rw [hcreator]
    exact h.one
  case begun =>
    intro k hk
    rw [hsession]
    rw [hwrote, hcreator] at hk
    by_cases hkj : k = j
    · subst hkj
      exact ⟨.receiving, hi, rfl⟩
    · rw [Function.update_of_ne hkj] at hk
      exact h.begun k hk
  case untouched =>
    intro q hq
    rw [hcreator] at hq
    have hqp : q ≠ p := by
      rintro rfl
      cases hown.symm.trans hq
    rw [hdisk, Function.update_of_ne hqp]
    exact h.untouched q hq

theorem not_open_closeFile (store : FileStore) (p : FilePath) :
    store.closeFile.bw ≠ some (p, true) := by
  simp [FileStore.closeFile]

/-- **The step lemma.** -/
theorem FileInv.step {a : RecordingAct} (h : s.FileInv disk) (hok : SettledRecording s a)
    (hs : s.step T a = some s') : s'.FileInv disk := by
  cases a with
  | name a =>
    obtain rfl := Option.some.inj hs
    exact h.of_thread h.last (Session.goes_of_workers rfl) rfl rfl rfl fun p hp => ⟨hp, rfl⟩
  | create i mounted opens =>
    rw [Recording.step] at hs
    split at hs
    · rename_i hi
      rcases s.store.createFile_cases mounted opens with heq | heq
      · rw [heq] at hs
        obtain ⟨session, hsession, rfl⟩ := Option.map_eq_some_iff.1 hs
        have hlast := h.last.step (Session.settledClick_worker _ i _) hsession
        refine h.of_thread hlast (Session.goes_step hsession) rfl rfl rfl ?_
        intro p hp
        exact absurd hp (not_open_closeFile s.store p)
      · rw [heq] at hs
        obtain ⟨session, hsession, rfl⟩ := Option.map_eq_some_iff.1 hs
        exact h.create hi hsession rfl rfl rfl rfl
    · cases hs
  | write i lines =>
    rw [Recording.step] at hs
    split at hs
    · rename_i hi
      rcases s.store.writeText_cases lines with heq | ⟨p, hbw, heq⟩
      · rw [heq] at hs
        obtain ⟨session, hsession, rfl⟩ := Option.map_eq_some_iff.1 hs
        have hlast := h.last.step (Session.settledClick_worker _ i _) hsession
        refine h.of_thread hlast (Session.goes_step hsession) rfl rfl rfl ?_
        intro p hp
        have hfile := Session.file_step hsession (by simp [Session.AtCreate, hi])
        rw [Session.AtClose, hi] at hfile
        exact ⟨hp, hfile⟩
      · rw [heq] at hs
        obtain rfl := Option.some.inj hs
        exact h.write hi hbw rfl rfl rfl rfl rfl
    · cases hs
  | thread a =>
    rw [Recording.step] at hs
    split at hs
    · cases hs
    · rename_i hcreate
      obtain ⟨session, hsession, rfl⟩ := Option.map_eq_some_iff.1 hs
      have hfile := Session.file_step hsession (Bool.not_eq_true _ ▸ hcreate)
      refine h.of_thread (h.last.step hok hsession) (Session.goes_step hsession) ?_ rfl rfl ?_
      · dsimp only
        split <;> rfl
      · intro p hp
        dsimp only at hp
        split at hp
        · exact absurd hp (not_open_closeFile s.store p)
        · rename_i hclose
          rw [if_neg hclose] at hfile
          exact ⟨hp, hfile⟩

end Recording

theorem fileInv_of_reachable {T : DigitTables} {fh : FileHandler} {baseDir : FilePath}
    {disk : FilePath → Option (List Char)} {s : Recording}
    (h : (recordings T fh baseDir disk).Reachable SettledRecording s) : s.FileInv disk := by
  refine h.invariant ?_ fun s a s' hs hok hstep => hs.step hok hstep
  constructor
  case last => exact ⟨nofun, nofun, nofun, nofun, nofun, nofun⟩
  case opened => exact nofun
  case text => exact nofun
  case one => exact nofun
  case begun =>
    rintro i (hi | ⟨p, hp⟩)
    · exact absurd rfl hi
    · cases hp
  case untouched => exact fun _ _ => rfl

/-- A click before the first worker's `capturing` is delivered: the first session writes to the file of
the second. -/
theorem file_of_session_unsettled :
    ∃ s, (recordings FileHandler.asciiDigits ⟨[1, 1], 1, ".txt".toList⟩ [] fun _ => none).Reachable
        (fun _ _ => True) s ∧
      s.creator ["01".toList, "01.txt".toList] = some 1 ∧ s.wrote 1 = [] ∧
      s.store.disk ["01".toList, "01.txt".toList] = some "a".toList := by
  let S := recordings FileHandler.asciiDigits ⟨[1, 1], 1, ".txt".toList⟩ [] fun _ => none
  have hrun : (S.run (fun _ _ => True) S.init
      [.thread .click, .thread .click, .thread (.worker 0 false), .thread (.worker 0 false),
        .create 0 true true, .thread (.worker 1 false), .thread (.worker 1 false),
        .create 1 true true, .write 0 "a".toList]).map (fun s =>
      (s.creator ["01".toList, "01.txt".toList], s.wrote 1,
        s.store.disk ["01".toList, "01.txt".toList])) = some (some 1, [], some "a".toList) := by
    decide +kernel
  obtain ⟨s, hs, hend⟩ := Option.map_eq_some_iff.1 hrun
  exact ⟨s, System.ReachableFrom.refl.run hs, by simpa only [Prod.mk.injEq] using hend⟩

/-! ### Files of CSI sessions -/

/-- The workers of `CsiFragment` write the lines of datagrams. -/
def WritesCsi : RecordingAct → Prop
  | .write _ lines => ∃ d line, (decodedCsi d).toString = .ok line ∧ lines = line ++ ['\n']
  | _ => True

namespace Recording

variable {T : DigitTables} {s s' : Recording}

/-- Only `writeText` changes what a session has written. -/
theorem wrote_step {a : RecordingAct} (hs : s.step T a = some s') : s'.wrote = s.wrote ∨
    ∃ i lines, a = .write i lines ∧ s'.wrote = Function.update s.wrote i (s.wrote i ++ lines) := by
  cases a with
  | name a =>
    obtain rfl := Option.some.inj hs
    exact .inl rfl
  | create i mounted opens =>
    rw [Recording.step] at hs
    split at hs
    · obtain ⟨session, -, rfl⟩ := Option.map_eq_some_iff.1 hs
      exact .inl rfl
    · cases hs
  | write i lines =>
    rw [Recording.step] at hs
    split at hs
    · rcases s.store.writeText_cases lines with heq | ⟨p, -, heq⟩
      · rw [heq] at hs
        obtain ⟨session, -, rfl⟩ := Option.map_eq_some_iff.1 hs
        exact .inl rfl
      · rw [heq] at hs
        obtain rfl := Option.some.inj hs
        exact .inr ⟨i, lines, rfl, rfl⟩
    · cases hs
  | thread a =>
    rw [Recording.step] at hs
    split at hs
    · cases hs
    · obtain ⟨session, -, rfl⟩ := Option.map_eq_some_iff.1 hs
      exact .inl rfl

/-- What a session has written is the log of datagrams. -/
def WroteCsi (s : Recording) (i : ℕ) (ds : List (List UInt8)) (lines : List (List Char)) : Prop :=
  List.Forall₂ (fun d line => (decodedCsi d).toString = .ok line) ds lines ∧
    s.wrote i = terminated '\n' lines

theorem wroteCsi_step {a : RecordingAct} (h : ∀ i, ∃ ds lines, s.WroteCsi i ds lines)
    (hok : WritesCsi a) (hs : s.step T a = some s') : ∀ i, ∃ ds lines, s'.WroteCsi i ds lines := by
  intro i
  obtain ⟨ds, lines, hlines, htext⟩ := h i
  rcases wrote_step hs with heq | ⟨j, text, rfl, heq⟩
  · exact ⟨ds, lines, hlines, by rw [heq, htext]⟩
  · by_cases hij : i = j
    · subst hij
      obtain ⟨d, line, hline, rfl⟩ := hok
      refine ⟨ds ++ [d], lines ++ [line], List.rel_append hlines (.cons hline .nil), ?_⟩
      rw [heq, Function.update_self, htext]
      simp [terminated]
    · exact ⟨ds, lines, hlines, by rw [heq, Function.update_of_ne hij, htext]⟩

end Recording

end LocTag
