import LocTag.Lib.Runs
import Mathlib.Data.List.Basic

/-!
# Capture sessions

The button of `CaptureFragment` (`CsiFragment` has the same one) starts a worker thread when `mState`
is idle and a thread that stops the worker when it is not.  Both kinds of thread close the socket and
the file, which the fragment holds, and post `idle`; the looper delivers what is posted later.

`one_session` says when this is one session at a time, for every run: when each click that starts a
worker comes after the clean-up of all workers and the closings of all stop threads before.
-/

namespace LocTag

open Lib

/-! ### The fragment -/

/-- `CaptureFragment.State` -/
inductive FragmentState where
  | idle
  | capturing
  deriving DecidableEq

/-- Where a worker is: before posting `capturing`; in the commands and at the socket; at
`createFile`; in the receive loop; in the clean-up; before posting `idle`; at its end. -/
inductive WorkerPc where
  | starting
  | opening
  | creating
  | receiving
  | closingSocket
  | closingFile
  | posting
  | ended
  deriving DecidableEq

/-- Where a stop thread is. -/
inductive StopPc where
  | killing
  | closingSocket
  | closingFile
  | posting
  | ended
  deriving DecidableEq

/-- A session is the number of its worker.  `socket` and `file` are what the fragment holds open,
with the session that opened it; a stop thread is kept with the session it stops, and `closings` has,
for every socket or file closed, the session that closed it and the session that opened it. -/
structure Session where
  delivered : FragmentState := .idle
  pending : Option FragmentState := none
  workers : List WorkerPc := []
  stops : List (ℕ × StopPc) := []
  socket : Option ℕ := none
  file : Option ℕ := none
  closings : List (ℕ × ℕ) := []
  deriving DecidableEq

namespace Session

/-- `mState.postValue` -/
def post (s : Session) (v : FragmentState) : Session := { s with pending := some v }

def setWorker (s : Session) (i : ℕ) (pc : WorkerPc) : Session :=
  { s with workers := s.workers.set i pc }

def setStop (s : Session) (j : ℕ) (stop : ℕ × StopPc) : Session :=
  { s with stops := s.stops.set j stop }

/-- The socket is closed and set to `null`, by session `i`. -/
def closeSocket (s : Session) (i : ℕ) : Session :=
  match s.socket with
  | none => s
  | some owner => { s with socket := none, closings := s.closings ++ [(i, owner)] }

/-- `fileHandler.closeFile`, by session `i`. -/
def closeFile (s : Session) (i : ℕ) : Session :=
  match s.file with
  | none => s
  | some owner => { s with file := none, closings := s.closings ++ [(i, owner)] }

/-- A step of worker `i`; `leave` where it leaves the `try` block, by an exception or by the stop
message. -/
def workerStep (s : Session) (i : ℕ) (leave : Bool) : WorkerPc → Option Session
  | .starting => some ((s.post .capturing).setWorker i .opening)
  | .opening =>
    if leave then some (s.setWorker i .closingSocket)
    else some ({ s with socket := some (s.socket.getD i) }.setWorker i .creating)
  | .creating =>
    if leave then some ((s.closeFile i).setWorker i .closingSocket)
    else some ({ s.closeFile i with file := some i }.setWorker i .receiving)
  | .receiving =>
    if leave ∨ s.socket = none then some (s.setWorker i .closingSocket) else some s
  | .closingSocket => some ((s.closeSocket i).setWorker i .closingFile)
  | .closingFile => some ((s.closeFile i).setWorker i .posting)
  | .posting => some ((s.post .idle).setWorker i .ended)
  | .ended => none

/-- A step of the stop thread `j` of session `i`; `leave` where `kill %1` throws. -/
def stopStep (s : Session) (j i : ℕ) (leave : Bool) : StopPc → Option Session
  | .killing => some (s.setStop j (i, if leave then .posting else .closingSocket))
  | .closingSocket => some ((s.closeSocket i).setStop j (i, .closingFile))
  | .closingFile => some ((s.closeFile i).setStop j (i, .posting))
  | .posting => some ((s.post .idle).setStop j (i, .ended))
  | .ended => none

/-- The button.  What is running is the last session started. -/
def click (s : Session) : Session :=
  if s.delivered = .idle then { s with workers := s.workers ++ [.starting] }
  else { s with stops := s.stops ++ [(s.workers.length - 1, .killing)] }

/-- The looper delivers the value posted last. -/
def deliver (s : Session) : Option Session :=
  s.pending.map fun v => { s with delivered := v, pending := none }

end Session

inductive SessionAct where
  | click
  | deliver
  | worker (i : ℕ) (leave : Bool)
  | stop (j : ℕ) (leave : Bool)
  deriving DecidableEq

/-- A step of the looper or of a thread. -/
def Session.step (s : Session) : SessionAct → Option Session
  | .click => some s.click
  | .deliver => s.deliver
  | .worker i leave => s.workers[i]?.bind fun pc => s.workerStep i leave pc
  | .stop j leave => s.stops[j]?.bind fun stop => s.stopStep j stop.1 leave stop.2

/-- The fragment with its threads. -/
def sessions : System Session SessionAct := ⟨{}, Session.step⟩

/-! ### One session at a time -/

/-- The worker has finished its clean-up. -/
def WorkerPc.CleanedUp : WorkerPc → Bool
  | posting | ended => true
  | _ => false

/-- The stop thread has made its closings. -/
def StopPc.Closed : StopPc → Bool
  | posting | ended => true
  | _ => false

/-- At most one worker has not finished its clean-up, and no session has closed what another one
opened. -/
def Session.OneSession (s : Session) : Prop :=
  (s.workers.countP fun pc => !pc.CleanedUp) ≤ 1 ∧ ∀ c ∈ s.closings, c.1 = c.2

/-- Nothing of the sessions before is left to do but posting. -/
def Session.Settled (s : Session) : Prop :=
  (∀ pc ∈ s.workers, pc.CleanedUp) ∧ ∀ stop ∈ s.stops, stop.2.Closed

instance (s : Session) : Decidable s.OneSession := inferInstanceAs (Decidable (_ ∧ _))

instance (s : Session) : Decidable s.Settled := inferInstanceAs (Decidable (_ ∧ _))

/-- A click that starts a worker comes when everything is settled. -/
def SettledClick (s : Session) (a : SessionAct) : Prop :=
  a = .click → s.delivered = .idle → s.Settled

instance (s : Session) (a : SessionAct) : Decidable (SettledClick s a) :=
  inferInstanceAs (Decidable (_ → _ → _))

/-! ### What is closed -/

namespace Session

variable {s s' : Session} {i : ℕ}

@[simp] theorem workers_closeSocket : (s.closeSocket i).workers = s.workers := by
  unfold closeSocket
  split <;> rfl

@[simp] theorem stops_closeSocket : (s.closeSocket i).stops = s.stops := by
  unfold closeSocket
  split <;> rfl

@[simp] theorem file_closeSocket : (s.closeSocket i).file = s.file := by
  unfold closeSocket
  split <;> rfl

@[simp] theorem socket_closeSocket : (s.closeSocket i).socket = none := by
  unfold closeSocket
  split
  · assumption
  · rfl

@[simp] theorem workers_closeFile : (s.closeFile i).workers = s.workers := by
  unfold closeFile
  split <;> rfl

@[simp] theorem stops_closeFile : (s.closeFile i).stops = s.stops := by
  unfold closeFile
  split <;> rfl

@[simp] theorem socket_closeFile : (s.closeFile i).socket = s.socket := by
  unfold closeFile
  split <;> rfl

@[simp] theorem file_closeFile : (s.closeFile i).file = none := by
  unfold closeFile
  split
  · assumption
  · rfl

/-- One more closing, of what the session opened itself. -/
theorem own_append {closings : List (ℕ × ℕ)} {owner : ℕ} (hown : ∀ c ∈ closings, c.1 = c.2)
    (h : owner = i) : ∀ c ∈ closings ++ [(i, owner)], c.1 = c.2 := by
  refine List.forall_mem_append.2 ⟨hown, List.forall_mem_singleton.2 ?_⟩
  exact h.symm

/-- A session that closes its own socket. -/
theorem closings_closeSocket (hown : ∀ c ∈ s.closings, c.1 = c.2)
    (h : ∀ owner, s.socket = some owner → owner = i) :
    ∀ c ∈ (s.closeSocket i).closings, c.1 = c.2 := by
  unfold closeSocket
  split
  · exact hown
  · rename_i owner hs
    exact own_append hown (h owner hs)

/-- A session that closes its own file. -/
theorem closings_closeFile (hown : ∀ c ∈ s.closings, c.1 = c.2)
    (h : ∀ owner, s.file = some owner → owner = i) :
    ∀ c ∈ (s.closeFile i).closings, c.1 = c.2 := by
  unfold closeFile
  split
  · exact hown
  · rename_i owner hs
    exact own_append hown (h owner hs)

/-! ### The invariant -/

end Session

/-- The worker may have the socket open. -/
def WorkerPc.HasSocket : WorkerPc → Bool
  | creating | receiving | closingSocket => true
  | _ => false

/-- The worker may have the file open. -/
def WorkerPc.HasFile : WorkerPc → Bool
  | receiving | closingSocket | closingFile => true
  | _ => false

theorem WorkerPc.HasSocket.not_cleanedUp {pc : WorkerPc} (h : pc.HasSocket) : ¬ pc.CleanedUp := by
  revert h
  cases pc <;> decide

theorem WorkerPc.HasFile.not_cleanedUp {pc : WorkerPc} (h : pc.HasFile) : ¬ pc.CleanedUp := by
  revert h
  cases pc <;> decide

/-- Whatever is not settled is of the last session; and nothing is stopped before a first one. -/
structure Session.LastOnly (s : Session) : Prop where
  started : s.delivered = .capturing ∨ s.pending = some .capturing → s.workers ≠ []
  worker : ∀ i pc, s.workers[i]? = some pc → ¬ pc.CleanedUp → s.workers.length = i + 1
  stop : ∀ stop ∈ s.stops, ¬ stop.2.Closed → s.workers.length = stop.1 + 1
  socket : ∀ i, s.socket = some i →
    s.workers.length = i + 1 ∧ ∃ pc, s.workers[i]? = some pc ∧ pc.HasSocket
  file : ∀ i, s.file = some i →
    s.workers.length = i + 1 ∧ ∃ pc, s.workers[i]? = some pc ∧ pc.HasFile
  own : ∀ c ∈ s.closings, c.1 = c.2

namespace Session

variable {s s' t : Session} {i : ℕ}

theorem countP_le_one {l : List WorkerPc}
    (h : ∀ i pc, l[i]? = some pc → ¬ pc.CleanedUp → l.length = i + 1) :
    (l.countP fun pc => !pc.CleanedUp) ≤ 1 := by
  rcases l.eq_nil_or_concat' with rfl | ⟨l, last, rfl⟩
  · exact Nat.zero_le 1
  have hl : l.countP (fun pc => !pc.CleanedUp) = 0 := by
    apply List.countP_eq_zero.2
    intro pc hpc hnot
    obtain ⟨i, hi⟩ := List.mem_iff_getElem?.1 hpc
    have hlt := (List.getElem?_eq_some_iff.1 hi).1
    have := h i pc (by rwa [List.getElem?_append_left hlt]) (by simpa using hnot)
    rw [List.length_append, List.length_singleton] at this
    omega
  rw [List.countP_append, hl, Nat.zero_add]
  exact List.countP_le_length

theorem LastOnly.oneSession (h : s.LastOnly) : s.OneSession := ⟨countP_le_one h.worker, h.own⟩

/-- A step of a worker keeps the invariant if it closes its own and opens for itself. -/
theorem LastOnly.setWorker (h : s.LastOnly) {pc pc' : WorkerPc} (hi : s.workers[i]? = some pc)
    (hworkers : t.workers = s.workers) (hstops : t.stops = s.stops)
    (hclean : pc.CleanedUp → pc'.CleanedUp)
    (hsocket : ∀ j, t.socket = some j → (s.socket = some j ∧ (pc.HasSocket → pc'.HasSocket)) ∨
      (j = i ∧ ¬ pc.CleanedUp ∧ pc'.HasSocket))
    (hfile : ∀ j, t.file = some j → (s.file = some j ∧ (pc.HasFile → pc'.HasFile)) ∨
      (j = i ∧ ¬ pc.CleanedUp ∧ pc'.HasFile))
    (hown : ∀ c ∈ t.closings, c.1 = c.2) : (t.setWorker i pc').LastOnly := by
  have hlt := (List.getElem?_eq_some_iff.1 hi).1
  have hset : (t.setWorker i pc').workers = s.workers.set i pc' := by
    rw [Session.setWorker, hworkers]
  have hself : (t.setWorker i pc').workers[i]? = some pc' := by
    rw [hset, List.getElem?_set_self hlt]
  have hother : ∀ j, j ≠ i → (t.setWorker i pc').workers[j]? = s.workers[j]? := by
    intro j hj
    rw [hset, List.getElem?_set_ne (Ne.symm hj)]
  have hlen : (t.setWorker i pc').workers.length = s.workers.length := by
    rw [hset, List.length_set]
  -- what a worker may have open before, it may have after
  have hkeep : ∀ {p : WorkerPc → Bool} {j : ℕ}, (∃ pcj, s.workers[j]? = some pcj ∧ p pcj) →
      (p pc → p pc') → ∃ pcj, (t.setWorker i pc').workers[j]? = some pcj ∧ p pcj := by
    rintro p j ⟨pcj, hj, hp⟩ himp
    by_cases hji : j = i
    · subst hji
      obtain rfl := Option.some.inj (hi.symm.trans hj)
      exact ⟨pc', hself, himp hp⟩
    · exact ⟨pcj, by rw [hother j hji, hj], hp⟩
  constructor
  case started =>
    intro _
    apply List.ne_nil_of_length_pos
    omega
  case worker =>
    intro j pcj hj hnot
    rw [hlen]
    by_cases hji : j = i
    · subst hji
      obtain rfl := Option.some.inj (hself.symm.trans hj)
      exact h.worker j pc hi fun hc => hnot (hclean hc)
    · rw [hother j hji] at hj
      exact h.worker j pcj hj hnot
  case stop =>
    intro stop hstop
    rw [hlen]
    exact h.stop stop (hstops ▸ hstop)
  case socket =>
    intro j hj
    rw [hlen]
    rcases hsocket j hj with ⟨hj, himp⟩ | ⟨rfl, hnot, hp⟩
    · exact ⟨(h.socket j hj).1, hkeep (h.socket j hj).2 himp⟩
    · exact ⟨h.worker j pc hi hnot, pc', hself, hp⟩
  case file =>
    intro j hj
    rw [hlen]
    rcases hfile j hj with ⟨hj, himp⟩ | ⟨rfl, hnot, hp⟩
    · exact ⟨(h.file j hj).1, hkeep (h.file j hj).2 himp⟩
    · exact ⟨h.worker j pc hi hnot, pc', hself, hp⟩
  case own => exact hown

/-- What is open while a worker is not through is its own. -/
theorem LastOnly.socket_eq (h : s.LastOnly) {pc : WorkerPc} (hi : s.workers[i]? = some pc)
    (hnot : ¬ pc.CleanedUp) : ∀ j, s.socket = some j → j = i := by
  intro j hj
  have h1 := h.worker i pc hi hnot
  have h2 := (h.socket j hj).1
  omega

theorem LastOnly.file_eq (h : s.LastOnly) {pc : WorkerPc} (hi : s.workers[i]? = some pc)
    (hnot : ¬ pc.CleanedUp) : ∀ j, s.file = some j → j = i := by
  intro j hj
  have h1 := h.worker i pc hi hnot
  have h2 := (h.file j hj).1
  omega

theorem LastOnly.workerStep (h : s.LastOnly) {pc : WorkerPc} (hi : s.workers[i]? = some pc)
    {leave : Bool} (hs : s.workerStep i leave pc = some s') : s'.LastOnly := by
  cases pc with
  | starting =>
    obtain rfl := Option.some.inj hs
    exact h.setWorker hi rfl rfl nofun (fun j hj => .inl ⟨hj, nofun⟩) (fun j hj => .inl ⟨hj, nofun⟩)
      h.own
  | opening =>
    rw [Session.workerStep] at hs
    split at hs <;> obtain rfl := Option.some.inj hs
    · exact h.setWorker hi rfl rfl nofun (fun j hj => .inl ⟨hj, nofun⟩)
        (fun j hj => .inl ⟨hj, nofun⟩) h.own
    · refine h.setWorker hi rfl rfl nofun (fun j hj => .inr ⟨?_, nofun, rfl⟩)
        (fun j hj => .inl ⟨hj, nofun⟩) h.own
      -- a socket left open would be its own
      rcases hsock : s.socket with _ | o
      · simpa [hsock] using hj.symm
      · obtain rfl := h.socket_eq hi nofun o hsock
        simpa [hsock] using hj.symm
  | creating =>
    have hown := closings_closeFile h.own (h.file_eq hi nofun)
    rw [Session.workerStep] at hs
    split at hs <;> obtain rfl := Option.some.inj hs
    · exact h.setWorker hi workers_closeFile stops_closeFile nofun
        (fun j hj => .inl ⟨by simpa using hj, fun _ => rfl⟩) (fun j hj => by simp at hj) hown
    · exact h.setWorker hi workers_closeFile stops_closeFile nofun
        (fun j hj => .inl ⟨by simpa using hj, fun _ => rfl⟩)
        (fun j hj => .inr ⟨(Option.some.inj hj).symm, nofun, rfl⟩) hown
  | receiving =>
    rw [Session.workerStep] at hs
    split at hs <;> obtain rfl := Option.some.inj hs
    · exact h.setWorker hi rfl rfl nofun (fun j hj => .inl ⟨hj, fun _ => rfl⟩)
        (fun j hj => .inl ⟨hj, fun _ => rfl⟩) h.own
    · exact h
  | closingSocket =>
    obtain rfl := Option.some.inj hs
    exact h.setWorker hi workers_closeSocket stops_closeSocket nofun (fun j hj => by simp at hj)
      (fun j hj => .inl ⟨by simpa using hj, fun _ => rfl⟩)
      (closings_closeSocket h.own (h.socket_eq hi nofun))
  | closingFile =>
    obtain rfl := Option.some.inj hs
    exact h.setWorker hi workers_closeFile stops_closeFile (fun _ => rfl)
      (fun j hj => .inl ⟨by simpa using hj, nofun⟩) (fun j hj => by simp at hj)
      (closings_closeFile h.own (h.file_eq hi nofun))
  | posting =>
    obtain rfl := Option.some.inj hs
    exact h.setWorker hi rfl rfl (fun _ => rfl) (fun j hj => .inl ⟨hj, nofun⟩)
      (fun j hj => .inl ⟨hj, nofun⟩) h.own
  | ended => cases hs

/-- A step of a stop thread keeps the invariant if it closes what is its own. -/
theorem LastOnly.setStop (h : s.LastOnly) {j i : ℕ} {pc pc' : StopPc}
    (hj : s.stops[j]? = some (i, pc)) (hworkers : t.workers = s.workers)
    (hstops : t.stops = s.stops)
    (hstarted : t.delivered = .capturing ∨ t.pending = some .capturing → s.workers ≠ [])
    (hclosed : pc.Closed → pc'.Closed)
    (hsocket : ∀ o, t.socket = some o → s.socket = some o)
    (hfile : ∀ o, t.file = some o → s.file = some o) (hown : ∀ c ∈ t.closings, c.1 = c.2) :
    (t.setStop j (i, pc')).LastOnly := by
  have hmem := List.mem_of_getElem? hj
  constructor
  case started =>
    intro hcap
    show t.workers ≠ []
    rw [hworkers]
    exact hstarted hcap
  case worker =>
    show ∀ i pc, t.workers[i]? = some pc → ¬ pc.CleanedUp → t.workers.length = i + 1
    rw [hworkers]
    exact h.worker
  case stop =>
    intro stop hstop hnot
    show t.workers.length = stop.1 + 1
    rw [hworkers]
    have hset : stop ∈ s.stops.set j (i, pc') := hstops ▸ hstop
    rcases List.mem_or_eq_of_mem_set hset with hstop | rfl
    · exact h.stop stop hstop hnot
    · exact h.stop (i, pc) hmem fun hc => hnot (hclosed hc)
  case socket =>
    intro o ho
    show t.workers.length = o + 1 ∧ ∃ pc, t.workers[o]? = some pc ∧ pc.HasSocket
    rw [hworkers]
    exact h.socket o (hsocket o ho)
  case file =>
    intro o ho
    show t.workers.length = o + 1 ∧ ∃ pc, t.workers[o]? = some pc ∧ pc.HasFile
    rw [hworkers]
    exact h.file o (hfile o ho)
  case own => exact hown

theorem LastOnly.stopStep (h : s.LastOnly) {j i : ℕ} {pc : StopPc}
    (hj : s.stops[j]? = some (i, pc)) {leave : Bool} (hs : s.stopStep j i leave pc = some s') :
    s'.LastOnly := by
  have hlast : ¬ pc.Closed → s.workers.length = i + 1 :=
    fun hnot => h.stop (i, pc) (List.mem_of_getElem? hj) hnot
  cases pc with
  | killing =>
    obtain rfl := Option.some.inj hs
    exact h.setStop hj rfl rfl h.started nofun (fun _ ho => ho) (fun _ ho => ho) h.own
  | closingSocket =>
    obtain rfl := Option.some.inj hs
    have hne := List.ne_nil_of_length_eq_add_one (hlast nofun)
    have hown : ∀ o, s.socket = some o → o = i := by
      intro o ho
      have hlen := (h.socket o ho).1
      have hi := hlast nofun
      omega
    exact h.setStop hj workers_closeSocket stops_closeSocket (fun _ => hne) nofun
      (fun o ho => by simp at ho) (fun o ho => by simpa using ho) (closings_closeSocket h.own hown)
  | closingFile =>
    obtain rfl := Option.some.inj hs
    have hne := List.ne_nil_of_length_eq_add_one (hlast nofun)
    have hown : ∀ o, s.file = some o → o = i := by
      intro o ho
      have hlen := (h.file o ho).1
      have hi := hlast nofun
      omega
    exact h.setStop hj workers_closeFile stops_closeFile (fun _ => hne) (fun _ => rfl)
      (fun o ho => by simpa using ho) (fun o ho => by simp at ho) (closings_closeFile h.own hown)
  | posting =>
    obtain rfl := Option.some.inj hs
    exact h.setStop hj rfl rfl (fun hcap => h.started (hcap.imp_right nofun)) (fun _ => rfl)
      (fun _ ho => ho) (fun _ ho => ho) h.own
  | ended => cases hs

/-- Nothing is open when all workers have cleaned up. -/
theorem LastOnly.socket_eq_none (h : s.LastOnly) (hworkers : ∀ pc ∈ s.workers, pc.CleanedUp) :
    s.socket = none := by
  by_contra hne
  obtain ⟨i, hi⟩ := Option.ne_none_iff_exists'.1 hne
  obtain ⟨-, pc, hpc, hhas⟩ := h.socket i hi
  exact WorkerPc.HasSocket.not_cleanedUp hhas (hworkers pc (List.mem_of_getElem? hpc))

theorem LastOnly.file_eq_none (h : s.LastOnly) (hworkers : ∀ pc ∈ s.workers, pc.CleanedUp) :
    s.file = none := by
  by_contra hne
  obtain ⟨i, hi⟩ := Option.ne_none_iff_exists'.1 hne
  obtain ⟨-, pc, hpc, hhas⟩ := h.file i hi
  exact WorkerPc.HasFile.not_cleanedUp hhas (hworkers pc (List.mem_of_getElem? hpc))

/-- A click keeps the invariant if it starts a worker when everything is settled only. -/
theorem LastOnly.click (h : s.LastOnly) (hsettled : s.delivered = .idle → s.Settled) :
    s.click.LastOnly := by
  unfold Session.click
  split
  · rename_i hidle
    obtain ⟨hworkers, hstops⟩ := hsettled hidle
    constructor
    case started =>
      intro _
      exact List.concat_ne_nil _ _
    case worker =>
      intro i pc hi hnot
      rw [List.length_append, List.length_singleton]
      have hbound : i < (s.workers ++ [WorkerPc.starting]).length :=
        (List.getElem?_eq_some_iff.1 hi).1
      rw [List.length_append, List.length_singleton] at hbound
      by_cases hlt : i < s.workers.length
      · have hold : s.workers[i]? = some pc := (List.getElem?_append_left hlt).symm.trans hi
        exact absurd (hworkers pc (List.mem_of_getElem? hold)) hnot
      · omega
    case stop =>
      intro stop hstop hnot
      exact absurd (hstops stop hstop) hnot
    case socket =>
      intro i hi
      cases (h.socket_eq_none hworkers).symm.trans hi
    case file =>
      intro i hi
      cases (h.file_eq_none hworkers).symm.trans hi
    case own => exact h.own
  · rename_i hcapturing
    refine ⟨h.started, h.worker, ?_, h.socket, h.file, h.own⟩
    intro stop hstop hnot
    rcases List.mem_append.1 hstop with hstop | hstop
    · exact h.stop stop hstop hnot
    · obtain rfl := List.mem_singleton.1 hstop
      have hcap : s.delivered = .capturing := by
        cases hd : s.delivered <;> simp_all
      have hpos := List.length_pos_iff.2 (h.started (.inl hcap))
      show s.workers.length = s.workers.length - 1 + 1
      omega

theorem LastOnly.step (h : s.LastOnly) {a : SessionAct} (hok : SettledClick s a)
    (hs : s.step a = some s') : s'.LastOnly := by
  cases a with
  | click =>
    obtain rfl := Option.some.inj hs
    exact h.click (hok rfl)
  | deliver =>
    obtain ⟨v, hv, rfl⟩ := Option.map_eq_some_iff.1 hs
    refine ⟨fun hcap => h.started (.inr ?_), h.worker, h.stop, h.socket, h.file, h.own⟩
    rcases hcap with rfl | hcap
    · exact hv
    · cases hcap
  | worker i leave =>
    obtain ⟨pc, hpc, hs⟩ := Option.bind_eq_some_iff.1 hs
    exact h.workerStep hpc hs
  | stop j leave =>
    obtain ⟨⟨i, pc⟩, hstop, hs⟩ := Option.bind_eq_some_iff.1 hs
    exact h.stopStep hstop hs

theorem lastOnly_init : LastOnly {} :=
  ⟨(by rintro (h | h) <;> cases h), nofun, nofun, nofun, nofun, nofun⟩

end Session

/-! ### Clicks that come too early -/

namespace Session

variable {s : Session}

/-- Steps of the threads and the looper. -/
def NoClick (_ : Session) (a : SessionAct) : Prop := a ≠ .click

/-- A worker that is started has its socket and its file open after three steps, where neither is
open before. -/
theorem opens_both (hsocket : s.socket = none) (hfile : s.file = none) :
    sessions.ReachableFrom NoClick { s with workers := s.workers ++ [.starting] }
      { s with workers := s.workers ++ [.receiving], pending := some .capturing,
               socket := some s.workers.length, file := some s.workers.length } := by
  have hset : ∀ pc pc' : WorkerPc,
      (s.workers ++ [pc]).set s.workers.length pc' = s.workers ++ [pc'] := by
    intro pc pc'
    simp
  have hopening : sessions.step { s with workers := s.workers ++ [.starting] }
      (.worker s.workers.length false) =
      some { s with workers := s.workers ++ [.opening], pending := some .capturing } := by
    simp [sessions, Session.step, Session.workerStep, post, Session.setWorker, hset]
  have hcreating : sessions.step
      { s with workers := s.workers ++ [.opening], pending := some .capturing }
      (.worker s.workers.length false) =
      some { s with workers := s.workers ++ [.creating], pending := some .capturing,
                    socket := some s.workers.length } := by
    simp [sessions, Session.step, Session.workerStep, post, Session.setWorker, hset, hsocket]
  have hreceiving : sessions.step
      { s with workers := s.workers ++ [.creating], pending := some .capturing,
               socket := some s.workers.length }
      (.worker s.workers.length false) =
      some { s with workers := s.workers ++ [.receiving], pending := some .capturing,
                    socket := some s.workers.length, file := some s.workers.length } := by
    simp [sessions, Session.step, Session.workerStep, post, Session.setWorker, hset, hfile,
      closeFile]
  refine .tail (.tail (.tail .refl ?_ hopening) ?_ hcreating) ?_ hreceiving <;> nofun

/-- A stop thread that has not made its closings closes what is open. -/
theorem stop_closes {j i owner : ℕ} {pc : StopPc} (hj : s.stops[j]? = some (i, pc))
    (hpc : ¬ pc.Closed) (hsocket : s.socket = some owner) (hfile : s.file = some owner) :
    ∃ s', sessions.ReachableFrom NoClick s s' ∧ (i, owner) ∈ s'.closings := by
  have hstep : ∀ {t : Session} {pc : StopPc}, t.stops[j]? = some (i, pc) →
      sessions.step t (.stop j false) = t.stopStep j i false pc := by
    intro t pc ht
    simp [sessions, Session.step, ht]
  have hclose : ∀ {t : Session}, t.stops[j]? = some (i, .closingSocket) → t.socket = some owner →
      ∃ t', sessions.step t (.stop j false) = some t' ∧ (i, owner) ∈ t'.closings := by
    intro t ht hsock
    exact ⟨_, (hstep ht).trans rfl, by simp [closeSocket, hsock, Session.setStop]⟩
  cases pc with
  | killing =>
    have hlt := (List.getElem?_eq_some_iff.1 hj).1
    have hkill : sessions.step s (.stop j false) = some (s.setStop j (i, .closingSocket)) :=
      hstep hj
    obtain ⟨t', ht', hmem⟩ := hclose (t := s.setStop j (i, .closingSocket))
      (List.getElem?_set_self hlt) hsocket
    exact ⟨t', .tail (.tail .refl (by nofun) hkill) (by nofun) ht', hmem⟩
  | closingSocket =>
    obtain ⟨t', ht', hmem⟩ := hclose hj hsocket
    exact ⟨t', .tail .refl (by nofun) ht', hmem⟩
  | closingFile =>
    exact ⟨_, .tail .refl (by nofun) ((hstep hj).trans rfl),
      by simp [closeFile, hfile, Session.setStop]⟩
  | posting => exact absurd rfl hpc
  | ended => exact absurd rfl hpc

/-- **A click that starts a worker before everything is settled** can be followed by steps that
break what is one session at a time. -/
theorem LastOnly.unsettled_click (h : s.LastOnly) (hidle : s.delivered = .idle)
    (hnot : ¬ s.Settled) :
    ∃ s', sessions.ReachableFrom NoClick s.click s' ∧ ¬ s'.OneSession := by
  have hclick : s.click = { s with workers := s.workers ++ [.starting] } := if_pos hidle
  by_cases hclean : ∀ pc ∈ s.workers, pc.CleanedUp
  · obtain ⟨stop, hstop, hpc⟩ : ∃ stop ∈ s.stops, ¬ stop.2.Closed := by
      by_contra hall
      push Not at hall
      exact hnot ⟨hclean, fun stop hstop => hall stop hstop⟩
    obtain ⟨j, hj⟩ := List.mem_iff_getElem?.1 hstop
    have hopen := opens_both (h.socket_eq_none hclean) (h.file_eq_none hclean)
    obtain ⟨s', hs', hmem⟩ := stop_closes (s := { s with
      workers := s.workers ++ [.receiving], pending := some .capturing,
      socket := some s.workers.length, file := some s.workers.length }) hj hpc rfl rfl
    refine ⟨s', hclick ▸ hopen.trans hs', ?_⟩
    intro hone
    have hlen := h.stop stop hstop hpc
    have heq : stop.1 = s.workers.length := hone.2 _ hmem
    omega
  · push Not at hclean
    obtain ⟨pc, hpc, hnotclean⟩ := hclean
    refine ⟨s.click, .refl, ?_⟩
    intro hone
    have hle := hone.1
    have hpos : 0 < s.workers.countP fun pc => !pc.CleanedUp :=
      List.countP_pos_iff.2 ⟨pc, hpc, by simpa using hnotclean⟩
    rw [hclick, List.countP_append] at hle
    have hone' : [WorkerPc.starting].countP (fun pc => !pc.CleanedUp) = 1 := rfl
    omega

end Session

/-! ### Runs -/

theorem lastOnly_of_reachable {s : Session} (h : sessions.Reachable SettledClick s) : s.LastOnly :=
  h.invariant Session.lastOnly_init fun _ _ _ (hs : Session.LastOnly _) hok hstep =>
    hs.step hok hstep

/-- **One session at a time**, in every run whose clicks that start a worker come when everything
before is settled.  In the states of these runs it is the condition that the threads need: whatever
they do after a click that starts a worker, there is one session, if and only if everything is
settled when it comes. -/
theorem one_session {s : Session} (h : sessions.Reachable SettledClick s) :
    s.OneSession ∧ (s.delivered = .idle →
      ((∀ s', sessions.ReachableFrom Session.NoClick s.click s' → s'.OneSession) ↔ s.Settled)) := by
  refine ⟨(lastOnly_of_reachable h).oneSession, ?_⟩
  intro hidle
  constructor
  · intro hall
    by_contra hnot
    obtain ⟨s', hs', hbroken⟩ := (lastOnly_of_reachable h).unsettled_click hidle hnot
    exact hbroken (hall s' hs')
  · intro hset s' hs'
    have hclick : sessions.Reachable SettledClick s.click :=
      h.tail (a := .click) (fun _ _ => hset) rfl
    have hrest : sessions.ReachableFrom SettledClick s.click s' :=
      hs'.imp fun _ _ hno ha => absurd ha hno
    exact (lastOnly_of_reachable (hclick.trans hrest)).oneSession

/-- A session is stopped; the click after the delivery of `idle` comes when it is settled. -/
theorem one_session_stopped : ∃ s, sessions.Reachable SettledClick s ∧ s.workers = [.ended] ∧
    s.OneSession ∧ ∀ s', sessions.ReachableFrom Session.NoClick s.click s' → s'.OneSession := by
  have hrun : sessions.run SettledClick sessions.init
      [.click, .worker 0 false, .deliver, .worker 0 false, .worker 0 false, .click, .stop 0 false,
        .stop 0 false, .worker 0 false, .worker 0 false, .stop 0 false, .worker 0 false,
        .stop 0 false, .worker 0 false, .deliver] =
      some { workers := [.ended], stops := [(0, .ended)],
             closings := [(0, 0), (0, 0)] } := by decide
  have hreach := System.ReachableFrom.run .refl hrun
  exact ⟨_, hreach, rfl, (one_session hreach).1, ((one_session hreach).2 rfl).2 (by decide)⟩

/-- Two clicks before the first `capturing` is delivered: two workers, and the second one closes the
file and the socket of the first. -/
theorem two_sessions :
    (∃ s, sessions.Reachable (fun _ _ => True) s ∧
      (s.workers.countP fun pc => !pc.CleanedUp) = 2 ∧ s.closings = [(1, 0), (1, 0)]) ∧
      ¬ ∀ s, sessions.Reachable (fun _ _ => True) s → s.OneSession := by
  have hrun : sessions.run (fun _ _ => True) sessions.init
      [.click, .click, .worker 0 false, .worker 0 false, .worker 0 false, .worker 1 false,
        .worker 1 false, .worker 1 false, .worker 1 true, .worker 1 false] =
      some { pending := some .capturing, workers := [.receiving, .closingFile], file := some 1,
             closings := [(1, 0), (1, 0)] } := by decide
  have hreach := System.ReachableFrom.run .refl hrun
  exact ⟨⟨_, hreach, rfl, rfl⟩, fun h => absurd (h _ hreach) (by decide)⟩

end LocTag
