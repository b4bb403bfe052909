import LocTag.Inject.Countdown

/-!
# The timers of injections

The start button of `InjectionFragment` schedules a timer with a countdown when `mState` is idle, and
cancels the timer that the field `timer` refers to when it is not.  The task of a timer runs on a
thread of its own; its last run cancels the timer of the field, too, and posts idle.  What is posted
is delivered by the looper later, so a second click may come before.

`one_timer` is about the runs whose clicks that start an injection come when the posts before have
been delivered and no task is in its last run: then there is one timer at a time, and each posts a
part of the countdown it would post alone.  `timer_left_running` is about the others: a timer that
the field no longer refers to is never cancelled.
-/

namespace LocTag

open Lib

/-! ### The fragment -/

/-- `InjectionFragment.State` -/
inductive InjectionState where
  | idle
  | injecting
  deriving DecidableEq

/-- Where the task of a timer is: waiting for its next run, or in its last one, before
`timer.cancel()` or before it posts idle. -/
inductive TaskPc where
  | waiting
  | cancelling
  | posting
  deriving DecidableEq

/-- A timer and its task, which started at `start` and has posted `posts`. -/
structure TimerTask where
  start : ℤ
  seconds2 : ℤ
  cancelled : Bool := false
  pc : TaskPc := .waiting
  posts : List TickPost := []

/-- Where the looper is: between two messages, in a click that has posted `injecting`, or in one that
has cancelled the timer. -/
inductive LooperPc where
  | ready
  | starting (ipc : InjectPhyConf)
  | stopping

/-- The fragment with its timers, which are numbered; `rooted` if `bp` is not `null`.  `cancels` has,
for every `timer.cancel()` of a task, the task and the timer. -/
structure Injection where
  rooted : Bool := false
  delivered : InjectionState := .idle
  pending : Option InjectionState := none
  looper : LooperPc := .ready
  timer : Option ℕ := none
  tasks : List TimerTask := []
  cancels : List (ℕ × ℕ) := []

namespace Injection

/-- `mState.postValue` -/
def post (s : Injection) (v : InjectionState) : Injection := { s with pending := some v }

/-- The task `k` is changed. -/
def modify (s : Injection) (k : ℕ) (f : TimerTask → TimerTask) : Injection :=
  { s with tasks := s.tasks.modify k f }

/-- `Timer.cancel` of timer `k` -/
def cancel (s : Injection) (k : ℕ) : Injection := s.modify k fun t => { t with cancelled := true }

/-- The first part of a click on the start button. -/
def click (s : Injection) (ipc : InjectPhyConf) : Injection :=
  if !s.rooted then s
  else if s.delivered = .idle then { s.post .injecting with looper := .starting ipc }
  else { (match s.timer with
    | none => s
    | some k => s.cancel k) with looper := .stopping }

/-- The rest of a click; `throws` where a command cannot be written. -/
def finishClick (s : Injection) (throws : Bool) : Option Injection :=
  match s.looper with
  | .ready => none
  | .stopping => some { s.post .idle with looper := .ready }
  | .starting ipc =>
    if throws then some { s with looper := .ready }
    else match ipc.timer? with
      | none => some { s with looper := .ready }
      | some seconds2 => some { s with
          looper := .ready
          timer := some s.tasks.length
          tasks := s.tasks ++ [{ start := seconds2, seconds2 }] }

/-- `TimerTask.run` up to the check of `seconds2`. -/
def tickTask (t : TimerTask) : TimerTask :=
  let r := timerRun t.seconds2
  { t with
    seconds2 := r.1
    posts := t.posts ++ [r.2]
    pc := if r.2.idle then .cancelling else .waiting }

/-- The steps of a last run. -/
def endStep (s : Injection) (k : ℕ) : TaskPc → Option Injection
  | .waiting => none
  | .cancelling => s.timer.map fun j =>
    { (s.cancel j).modify k fun t => { t with pc := .posting } with cancels := s.cancels ++ [(k, j)] }
  | .posting => some ((s.post .idle).modify k fun t => { t with pc := .waiting })

end Injection

inductive InjectionAct where
  | root
  | click (ipc : InjectPhyConf)
  | finishClick (throws : Bool)
  | deliver
  | tick (k : ℕ)
  | endStep (k : ℕ)

/-- A step of the looper or of the thread of a timer. -/
def Injection.step (s : Injection) : InjectionAct → Option Injection
  | .root => match s.looper with
    | .ready => some { s with rooted := true }
    | _ => none
  | .click ipc => match s.looper with
    | .ready => some (s.click ipc)
    | _ => none
  | .finishClick throws => s.finishClick throws
  | .deliver => match s.looper with
    | .ready => s.pending.map fun v => { s with delivered := v, pending := none }
    | _ => none
  | .tick k => s.tasks[k]?.bind fun t =>
    if !t.cancelled ∧ t.pc = .waiting then some (s.modify k Injection.tickTask) else none
  | .endStep k => s.tasks[k]?.bind fun t => s.endStep k t.pc

/-- The fragment with its timers. -/
def injections : System Injection InjectionAct := ⟨{}, Injection.step⟩

/-! ### One timer at a time -/

namespace Injection

/-- The state that was posted last. -/
def shown (s : Injection) : InjectionState := s.pending.getD s.delivered

/-- A click is starting an injection. -/
def Starting (s : Injection) : Prop := ∃ ipc, s.looper = .starting ipc

/-- No start is to be delivered, and no task is in its last run. -/
def Settled (s : Injection) : Prop :=
  s.pending ≠ some .injecting ∧ ∀ t ∈ s.tasks, t.pc = .waiting

end Injection

/-- A click that starts an injection comes when everything is settled. -/
def SettledStart (s : Injection) (a : InjectionAct) : Prop :=
  (∃ ipc, a = .click ipc) → s.delivered = .idle → s.Settled

/-- The task has posted a part of its countdown, and not the end of it if it is to run again. -/
def TimerTask.OnTime (t : TimerTask) : Prop :=
  Partly timerRun (fun post => post.idle) t.start t.posts t.seconds2 ∧
    (t.cancelled = false → t.pc = .waiting → ∀ post ∈ t.posts, ¬ post.idle)

/-- The invariant of the runs whose clicks come in time: a timer that is not cancelled is the one of
the field, while `injecting` is shown; a last run is of the timer of the field, too. -/
structure Injection.OneTimer (s : Injection) : Prop where
  live : ∀ (k : ℕ) (t : TimerTask), s.tasks[k]? = some t → t.cancelled = false →
    s.timer = some k ∧ s.shown = .injecting ∧ s.looper = .ready
  ending : ∀ (k : ℕ) (t : TimerTask), s.tasks[k]? = some t → t.pc ≠ .waiting →
    s.timer = some k ∧ ¬ s.Starting ∧ (t.pc = .posting → t.cancelled = true)
  starting : s.Starting → s.pending = some .injecting
  own : ∀ c ∈ s.cancels, c.1 = c.2
  onTime : ∀ t ∈ s.tasks, t.OnTime

namespace Injection

variable {s s' : Injection} {k : ℕ} {t : TimerTask}

/-- A task after one is added. -/
theorem concat_eq_some {tasks : List TimerTask} {new : TimerTask} {j : ℕ}
    (h : (tasks ++ [new])[j]? = some t) : tasks[j]? = some t ∨ j = tasks.length ∧ t = new := by
  have hlt := (List.getElem?_eq_some_iff.1 h).1
  rw [List.length_append, List.length_singleton] at hlt
  rcases Nat.lt_succ_iff_lt_or_eq.1 hlt with hlt | rfl
  · exact .inl (by rwa [List.getElem?_append_left hlt] at h)
  · rw [List.getElem?_concat_length] at h
    exact .inr ⟨rfl, (Option.some.inj h).symm⟩

/-- A task after one of them is changed. -/
theorem modify_eq_some {f : TimerTask → TimerTask} {j : ℕ} {t' : TimerTask}
    (h : (s.modify k f).tasks[j]? = some t') :
    (j = k ∧ ∃ t, s.tasks[k]? = some t ∧ t' = f t) ∨ (j ≠ k ∧ s.tasks[j]? = some t') := by
  rw [modify, List.getElem?_modify] at h
  obtain ⟨t, ht, rfl⟩ := Option.map_eq_some_iff.1 h
  by_cases hjk : k = j
  · subst hjk
    exact .inl ⟨rfl, t, ht, if_pos rfl⟩
  · exact .inr ⟨Ne.symm hjk, ht.trans (congrArg some (if_neg hjk).symm)⟩

/-- What is true of the tasks but one, and of that one when it is changed. -/
theorem forall_modify {P : TimerTask → Prop} {f : TimerTask → TimerTask}
    (h : ∀ t ∈ s.tasks, P t) (hf : ∀ t, s.tasks[k]? = some t → P (f t)) :
    ∀ t ∈ (s.modify k f).tasks, P t := by
  intro t ht
  obtain ⟨j, hj⟩ := List.mem_iff_getElem?.1 ht
  rcases modify_eq_some hj with ⟨-, t₀, ht₀, rfl⟩ | ⟨-, hold⟩
  · exact hf t₀ ht₀
  · exact h t (List.mem_of_getElem? hold)

/-- While idle is shown, or within a click, no timer runs. -/
theorem OneTimer.cancelled (h : s.OneTimer) (hquiet : s.shown = .idle ∨ s.looper ≠ .ready) :
    ∀ t ∈ s.tasks, t.cancelled = true := by
  intro t ht
  obtain ⟨k, hk⟩ := List.mem_iff_getElem?.1 ht
  by_contra hlive
  obtain ⟨-, hshown, hready⟩ := h.live k t hk (by simpa using hlive)
  rcases hquiet with hidle | hbusy
  · cases hidle.symm.trans hshown
  · exact hbusy hready

/-- A state in which no timer runs keeps the invariant under what a click or a post changes. -/
theorem OneTimer.of_cancelled (h : s.OneTimer) (htasks : s'.tasks = s.tasks)
    (hcancelled : ∀ t ∈ s.tasks, t.cancelled = true) (htimer : s'.timer = s.timer)
    (hcancels : s'.cancels = s.cancels) (hstarting : s'.Starting → s'.pending = some .injecting)
    (hending : s'.Starting → ∀ t ∈ s.tasks, t.pc = .waiting) : s'.OneTimer := by
  constructor
  case live =>
    intro k t hk hlive
    rw [htasks] at hk
    rw [hcancelled t (List.mem_of_getElem? hk)] at hlive
    cases hlive
  case ending =>
    intro k t hk hpc
    rw [htasks] at hk
    obtain ⟨htimer', -, hposting⟩ := h.ending k t hk hpc
    refine ⟨htimer.trans htimer', fun hs => ?_, hposting⟩
    exact hpc (hending hs t (List.mem_of_getElem? hk))
  case starting => exact hstarting
  case own => exact hcancels ▸ h.own
  case onTime => exact htasks ▸ h.onTime

/-- The timer of the field is cancelled. -/
theorem OneTimer.cancelTimer (h : s.OneTimer) (hk : s.timer = some k) :
    (s.cancel k).OneTimer ∧ ∀ t ∈ (s.cancel k).tasks, t.cancelled = true := by
  have hnone : ∀ t ∈ (s.cancel k).tasks, t.cancelled = true := by
    intro t ht
    obtain ⟨j, hj⟩ := List.mem_iff_getElem?.1 ht
    rcases modify_eq_some hj with ⟨-, t₀, -, rfl⟩ | ⟨hjk, hold⟩
    · rfl
    · by_contra hlive
      have htimer := (h.live j t hold (by simpa using hlive)).1
      exact hjk (Option.some.inj (htimer.symm.trans hk))
  refine ⟨?_, hnone⟩
  constructor
  case live =>
    intro j t hj hlive
    rw [hnone t (List.mem_of_getElem? hj)] at hlive
    cases hlive
  case ending =>
    intro j t hj hpc
    rcases modify_eq_some hj with ⟨rfl, t₀, ht₀, rfl⟩ | ⟨-, hold⟩
    · obtain ⟨htimer, hnot, -⟩ := h.ending j t₀ ht₀ hpc
      exact ⟨htimer, hnot, fun _ => rfl⟩
    · exact h.ending j t hold hpc
  case starting => exact h.starting
  case own => exact h.own
  case onTime =>
    refine forall_modify h.onTime fun t ht => ?_
    exact ⟨(h.onTime t (List.mem_of_getElem? ht)).1, fun hlive => by cases hlive⟩

theorem OneTimer.click (h : s.OneTimer) (ipc : InjectPhyConf)
    (hsettled : s.delivered = .idle → s.Settled) : (s.click ipc).OneTimer := by
  have hnot : ∀ s' : Injection, s'.looper = .stopping → ¬ s'.Starting := by
    rintro s' hs' ⟨ipc, hipc⟩
    rw [hs'] at hipc
    cases hipc
  unfold Injection.click
  split
  · exact h
  · split
    · rename_i hidle
      obtain ⟨hpending, hwaiting⟩ := hsettled hidle
      have hshown : s.shown = .idle := by
        rw [shown, hidle]
        cases hp : s.pending with
        | none => rfl
        | some v => cases v <;> simp_all
      exact h.of_cancelled rfl (h.cancelled (.inl hshown)) rfl rfl (fun _ => rfl) fun _ => hwaiting
    · cases htimer : s.timer with
      | none =>
        have hnone : ∀ t ∈ s.tasks, t.cancelled = true := by
          intro t ht
          obtain ⟨k, hk⟩ := List.mem_iff_getElem?.1 ht
          by_contra hlive
          cases htimer.symm.trans (h.live k t hk (by simpa using hlive)).1
        exact h.of_cancelled rfl hnone rfl rfl (fun hs => absurd hs (hnot _ rfl))
          fun hs => absurd hs (hnot _ rfl)
      | some k =>
        obtain ⟨hcancel, hnone⟩ := h.cancelTimer htimer
        exact hcancel.of_cancelled rfl hnone rfl rfl (fun hs => absurd hs (hnot _ rfl))
          fun hs => absurd hs (hnot _ rfl)

/-- What the rest of a click does. -/
theorem finishClick_cases {throws : Bool} (hs : s.finishClick throws = some s') :
    (s.looper = .stopping ∧ s' = { s.post .idle with looper := .ready }) ∨
      (s.Starting ∧ (s' = { s with looper := .ready } ∨ ∃ seconds2, s' = { s with
        looper := .ready, timer := some s.tasks.length,
        tasks := s.tasks ++ [{ start := seconds2, seconds2 }] })) := by
  unfold Injection.finishClick at hs
  split at hs
  · cases hs
  · rename_i hl
    exact .inl ⟨hl, (Option.some.inj hs).symm⟩
  · rename_i ipc hl
    refine .inr ⟨⟨ipc, hl⟩, ?_⟩
    split at hs
    · exact .inl (Option.some.inj hs).symm
    · split at hs
      · exact .inl (Option.some.inj hs).symm
      · exact .inr ⟨_, (Option.some.inj hs).symm⟩

theorem OneTimer.finishClick (h : s.OneTimer) {throws : Bool}
    (hs : s.finishClick throws = some s') : s'.OneTimer := by
  have hready : ∀ s' : Injection, s'.looper = .ready → ¬ s'.Starting := by
    rintro s' hs' ⟨ipc, hipc⟩
    rw [hs'] at hipc
    cases hipc
  have hbusy : s.looper ≠ .ready := by
    intro hl
    rw [Injection.finishClick, hl] at hs
    cases hs
  have hnone := h.cancelled (.inr hbusy)
  obtain ⟨-, rfl⟩ | ⟨hstarting, rfl | ⟨seconds2, rfl⟩⟩ := finishClick_cases hs
  · exact h.of_cancelled rfl hnone rfl rfl (fun hs => absurd hs (hready _ rfl))
      fun hs => absurd hs (hready _ rfl)
  · exact h.of_cancelled rfl hnone rfl rfl (fun hs => absurd hs (hready _ rfl))
      fun hs => absurd hs (hready _ rfl)
  constructor
  case live =>
    intro k t hk hlive
    rcases concat_eq_some hk with hold | ⟨rfl, rfl⟩
    · rw [hnone t (List.mem_of_getElem? hold)] at hlive
      cases hlive
    · exact ⟨rfl, congrArg (·.getD s.delivered) (h.starting hstarting), rfl⟩
  case ending =>
    intro k t hk hpc
    rcases concat_eq_some hk with hold | ⟨rfl, rfl⟩
    · exact absurd hstarting (h.ending k t hold hpc).2.1
    · exact absurd rfl hpc
  case starting => exact fun hs => absurd hs (hready _ rfl)
  case own => exact h.own
  case onTime =>
    refine List.forall_mem_append.2 ⟨h.onTime, List.forall_mem_singleton.2 ?_⟩
    exact ⟨.start, fun _ _ post hpost => by cases hpost⟩

/-- A run of a task. -/
theorem OneTimer.tick (h : s.OneTimer) (hk : s.tasks[k]? = some t) (hlive : t.cancelled = false)
    (hwaiting : t.pc = .waiting) : (s.modify k tickTask).OneTimer := by
  obtain ⟨htimer, hshown, hready⟩ := h.live k t hk hlive
  have hnot : ¬ s.Starting := by
    rintro ⟨ipc, hipc⟩
    rw [hready] at hipc
    cases hipc
  constructor
  case live =>
    intro j t' hj hlive'
    rcases modify_eq_some hj with ⟨rfl, t₀, ht₀, rfl⟩ | ⟨-, hold⟩
    · exact ⟨htimer, hshown, hready⟩
    · exact h.live j t' hold hlive'
  case ending =>
    intro j t' hj hpc
    rcases modify_eq_some hj with ⟨rfl, t₀, ht₀, rfl⟩ | ⟨-, hold⟩
    · refine ⟨htimer, hnot, fun hposting => ?_⟩
      simp only [tickTask] at hposting
      split at hposting <;> cases hposting
    · exact h.ending j t' hold hpc
  case starting => exact h.starting
  case own => exact h.own
  case onTime =>
    refine forall_modify h.onTime fun t₀ ht₀ => ?_
    obtain rfl := Option.some.inj (hk.symm.trans ht₀)
    obtain ⟨hposts, hgo⟩ := h.onTime t (List.mem_of_getElem? hk)
    have hgo := hgo hlive hwaiting
    refine ⟨hposts.more hgo, fun _ hpc post hpost => ?_⟩
    rcases List.mem_append.1 hpost with hpost | hpost
    · exact hgo post hpost
    · obtain rfl := List.mem_singleton.1 hpost
      intro hidle
      simp only [tickTask, hidle, if_true] at hpc
      cases hpc

/-- A task goes on in its last run while no timer runs. -/
theorem OneTimer.setPc (h : s.OneTimer) (hnone : ∀ t ∈ s.tasks, t.cancelled = true)
    (htimer : s.timer = some k) (hnot : ¬ s.Starting) (pc : TaskPc)
    (htasks : s'.tasks = (s.modify k fun t => { t with pc }).tasks) (htimer' : s'.timer = s.timer)
    (hlooper : s'.looper = s.looper) (hown : ∀ c ∈ s'.cancels, c.1 = c.2) : s'.OneTimer := by
  have hnone' : ∀ t ∈ s'.tasks, t.cancelled = true := by
    rw [htasks]
    exact forall_modify hnone fun t ht => hnone t (List.mem_of_getElem? ht)
  have hnot' : ¬ s'.Starting := by
    rwa [Starting, hlooper]
  constructor
  case live =>
    intro j t hj hlive
    rw [hnone' t (List.mem_of_getElem? hj)] at hlive
    cases hlive
  case ending =>
    intro j t hj hpc
    refine ⟨?_, hnot', fun _ => hnone' t (List.mem_of_getElem? hj)⟩
    rw [htasks] at hj
    rw [htimer']
    rcases modify_eq_some hj with ⟨rfl, -⟩ | ⟨-, hold⟩
    · exact htimer
    · exact (h.ending j t hold hpc).1
  case starting => exact fun hs => absurd hs hnot'
  case own => exact hown
  case onTime =>
    rw [htasks]
    refine forall_modify h.onTime fun t ht => ?_
    have hmem := List.mem_of_getElem? ht
    refine ⟨(h.onTime t hmem).1, fun hlive => ?_⟩
    cases (hnone t hmem).symm.trans hlive

/-- A step of a last run. -/
theorem OneTimer.endStep (h : s.OneTimer) (hk : s.tasks[k]? = some t)
    (hs : s.endStep k t.pc = some s') : s'.OneTimer := by
  cases hpc : t.pc with
  | waiting =>
    rw [hpc] at hs
    cases hs
  | cancelling =>
    obtain ⟨htimer, hnot, -⟩ := h.ending k t hk (by rw [hpc]; decide)
    obtain ⟨hcancel, hnone⟩ := h.cancelTimer htimer
    rw [hpc] at hs
    simp only [Injection.endStep, htimer, Option.map_some] at hs
    obtain rfl := Option.some.inj hs
    refine hcancel.setPc hnone htimer hnot .posting rfl rfl rfl ?_
    exact List.forall_mem_append.2 ⟨h.own, List.forall_mem_singleton.2 rfl⟩
  | posting =>
    obtain ⟨htimer, hnot, hcancelled⟩ := h.ending k t hk (by rw [hpc]; decide)
    have hnone : ∀ t ∈ s.tasks, t.cancelled = true := by
      intro t' ht'
      obtain ⟨j, hj⟩ := List.mem_iff_getElem?.1 ht'
      by_contra hlive
      have hlive := h.live j t' hj (by simpa using hlive)
      obtain rfl := Option.some.inj (htimer.symm.trans hlive.1)
      obtain rfl := Option.some.inj (hk.symm.trans hj)
      simp_all
    rw [hpc] at hs
    obtain rfl := Option.some.inj hs
    exact h.setPc hnone htimer hnot .waiting rfl rfl rfl h.own

theorem OneTimer.step (h : s.OneTimer) {a : InjectionAct} (hok : SettledStart s a)
    (hs : s.step a = some s') : s'.OneTimer := by
  cases a with
  | root =>
    simp only [Injection.step] at hs
    split at hs
    · obtain rfl := Option.some.inj hs
      exact ⟨h.live, h.ending, h.starting, h.own, h.onTime⟩
    · cases hs
  | click ipc =>
    simp only [Injection.step] at hs
    split at hs
    · obtain rfl := Option.some.inj hs
      exact h.click ipc (hok ⟨ipc, rfl⟩)
    · cases hs
  | finishClick throws => exact h.finishClick hs
  | deliver =>
    simp only [Injection.step] at hs
    split at hs
    · rename_i hready
      obtain ⟨v, hv, rfl⟩ := Option.map_eq_some_iff.1 hs
      have hshown : s.shown = v := by rw [shown, hv, Option.getD_some]
      refine ⟨fun k t hk hlive => ?_, h.ending, ?_, h.own, h.onTime⟩
      · obtain ⟨htimer, hinjecting, -⟩ := h.live k t hk hlive
        exact ⟨htimer, hshown.symm.trans hinjecting, hready⟩
      · rintro ⟨ipc, hipc⟩
        cases hready.symm.trans hipc
    · cases hs
  | tick k =>
    obtain ⟨t, ht, hs⟩ := Option.bind_eq_some_iff.1 hs
    split at hs
    · rename_i hrun
      obtain rfl := Option.some.inj hs
      exact h.tick ht (by simpa using hrun.1) hrun.2
    · cases hs
  | endStep k =>
    obtain ⟨t, ht, hs⟩ := Option.bind_eq_some_iff.1 hs
    exact h.endStep ht hs

theorem oneTimer_init : OneTimer {} := by
  refine ⟨nofun, nofun, ?_, nofun, nofun⟩
  rintro ⟨ipc, hipc⟩
  cases hipc

end Injection

/-- Timer `k` is not cancelled. -/
def Injection.Running (s : Injection) (k : ℕ) : Prop :=
  ∃ t, s.tasks[k]? = some t ∧ t.cancelled = false

/-- **One timer at a time**, in every run whose clicks that start an injection come when everything is
settled: one timer at most is running, and none once idle has been posted; a task cancels its own
timer only; and what a task has posted is the beginning of its countdown. -/
theorem one_timer {s : Injection} (h : injections.Reachable SettledStart s) :
    (∀ i j, s.Running i → s.Running j → i = j) ∧
      (s.shown = .idle → ∀ k, ¬ s.Running k) ∧
      (∀ c ∈ s.cancels, c.1 = c.2) ∧
      ∀ t ∈ s.tasks, ∀ posts, TimerRun t.start posts → t.posts <+: posts := by
  have hone : s.OneTimer := h.invariant Injection.oneTimer_init
    fun _ _ _ (hs : Injection.OneTimer _) hok hstep => hs.step hok hstep
  refine ⟨?_, ?_, hone.own, ?_⟩
  · rintro i j ⟨ti, hti, hlivei⟩ ⟨tj, htj, hlivej⟩
    exact Option.some.inj ((hone.live i ti hti hlivei).1.symm.trans (hone.live j tj htj hlivej).1)
  · rintro hidle k ⟨t, ht, hlive⟩
    cases hidle.symm.trans (hone.live k t ht hlive).2.1
  · intro t ht posts hposts
    exact (hone.onTime t ht).1.isPrefix hposts

theorem timerRun_zero : timerRun 0 = (-1, tickPost (-1)) := by
  have hlast : jint (0 - 1) = -1 := by decide
  rw [timerRun, hlast]

/-- One injection that counts down to its end. -/
theorem one_timer_once : ∃ s, injections.Reachable SettledStart s ∧ s.shown = .idle ∧
    s.tasks.length = 1 ∧ (∀ i j, s.Running i → s.Running j → i = j) ∧
      (s.shown = .idle → ∀ k, ¬ s.Running k) ∧ (∀ c ∈ s.cancels, c.1 = c.2) ∧
      ∀ t ∈ s.tasks, ∀ posts, TimerRun t.start posts → t.posts <+: posts := by
  classical
  let s : Injection := { rooted := true, timer := some 0, cancels := [(0, 0)],
                         tasks := [{ start := 0, seconds2 := -1, cancelled := true,
                                     posts := [tickPost (-1)] }] }
  have hipc : InjectPhyConf.timer? ⟨0, 0, 1, 0⟩ = some 0 := by decide
  have hrun : injections.run SettledStart injections.init
      [.root, .click ⟨0, 0, 1, 0⟩, .finishClick false, .deliver, .tick 0, .endStep 0, .endStep 0,
        .deliver] = some s := by
    simp [System.run, injections, Injection.step, Injection.click, Injection.finishClick, s,
      Injection.tickTask, Injection.endStep, Injection.post, Injection.modify, Injection.cancel,
      hipc, timerRun_zero, tickPost, SettledStart, Injection.Settled]
  have hreach := System.ReachableFrom.run .refl hrun
  exact ⟨s, hreach, rfl, rfl, one_timer hreach⟩

/-! ### Clicks that come too early -/

namespace Injection

variable {s s' : Injection} {k : ℕ}

/-- A timer that the field does not refer to goes on running. -/
def LeftRunning (s : Injection) (k : ℕ) : Prop := s.Running k ∧ s.timer ≠ some k

theorem Running.modify (h : s.Running k) {j : ℕ} {f : TimerTask → TimerTask}
    (hf : j = k → ∀ t : TimerTask, t.cancelled = false → (f t).cancelled = false) :
    (s.modify j f).Running k := by
  obtain ⟨t, ht, hlive⟩ := h
  refine ⟨if j = k then f t else t, ?_, ?_⟩
  · rw [Injection.modify, List.getElem?_modify, ht]
    rfl
  · split
    · rename_i hjk
      exact hf hjk t hlive
    · exact hlive

theorem LeftRunning.step (h : s.LeftRunning k) {a : InjectionAct} (hs : s.step a = some s') :
    s'.LeftRunning k := by
  obtain ⟨hrun, htimer⟩ := h
  have hcancel : ∀ j, s.timer = some j → (s.cancel j).Running k := fun j hj =>
    hrun.modify fun hjk => absurd (hjk ▸ hj) htimer
  cases a with
  | root =>
    simp only [Injection.step] at hs
    split at hs
    · obtain rfl := Option.some.inj hs
      exact ⟨hrun, htimer⟩
    · cases hs
  | click ipc =>
    simp only [Injection.step] at hs
    split at hs
    · obtain rfl := Option.some.inj hs
      unfold Injection.click
      split
      · exact ⟨hrun, htimer⟩
      · split
        · exact ⟨hrun, htimer⟩
        · cases hj : s.timer with
          | none => exact ⟨hrun, htimer⟩
          | some j => exact ⟨hcancel j hj, htimer⟩
    · cases hs
  | finishClick throws =>
    obtain ⟨-, rfl⟩ | ⟨-, rfl | ⟨seconds2, rfl⟩⟩ := finishClick_cases hs
    · exact ⟨hrun, htimer⟩
    · exact ⟨hrun, htimer⟩
    · obtain ⟨t, ht, hlive⟩ := hrun
      have hlt := (List.getElem?_eq_some_iff.1 ht).1
      refine ⟨⟨t, ?_, hlive⟩, fun heq => ?_⟩
      · exact (List.getElem?_append_left hlt).trans ht
      · have := Option.some.inj heq
        omega
  | deliver =>
    simp only [Injection.step] at hs
    split at hs
    · obtain ⟨v, hv, rfl⟩ := Option.map_eq_some_iff.1 hs
      exact ⟨hrun, htimer⟩
    · cases hs
  | tick j =>
    obtain ⟨t, ht, hs⟩ := Option.bind_eq_some_iff.1 hs
    split at hs
    · obtain rfl := Option.some.inj hs
      exact ⟨hrun.modify fun _ _ hlive => hlive, htimer⟩
    · cases hs
  | endStep j =>
    obtain ⟨t, ht, hs⟩ := Option.bind_eq_some_iff.1 hs
    cases hpc : t.pc with
    | waiting =>
      rw [hpc] at hs
      cases hs
    | cancelling =>
      rw [hpc] at hs
      obtain ⟨i, hi, rfl⟩ := Option.map_eq_some_iff.1 hs
      exact ⟨(hcancel i hi).modify fun _ _ hlive => hlive, htimer⟩
    | posting =>
      rw [hpc] at hs
      obtain rfl := Option.some.inj hs
      exact ⟨hrun.modify fun _ _ hlive => hlive, htimer⟩

end Injection

/-- **A timer that the field no longer refers to is never cancelled**, whatever is clicked and
whichever task runs; while its task waits, it can run again. -/
theorem timer_left_running {s s' : Injection} {k : ℕ} (h : s.LeftRunning k)
    (hreach : injections.ReachableFrom (fun _ _ => True) s s') :
    s'.LeftRunning k ∧ ∀ t, s'.tasks[k]? = some t → t.pc = .waiting →
      s'.step (.tick k) = some (s'.modify k Injection.tickTask) := by
  have hleft : s'.LeftRunning k := by
    induction hreach with
    | refl => exact h
    | tail _ _ hstep ih => exact ih.step hstep
  refine ⟨hleft, fun t ht hpc => ?_⟩
  obtain ⟨⟨t', ht', hlive⟩, -⟩ := hleft
  obtain rfl := Option.some.inj (ht.symm.trans ht')
  simp [Injection.step, ht, hlive, hpc]

/-- Two clicks before the first `injecting` is delivered: the first task cancels the timer of the
second one and posts idle, and goes on running. -/
theorem timer_left_running_twice : ∃ s s', injections.Reachable (fun _ _ => True) s ∧
    injections.ReachableFrom (fun _ _ => True) s s' ∧ s'.delivered = .idle ∧
    s'.cancels = [(0, 1)] ∧ s'.LeftRunning 0 ∧
    ∀ t, s'.tasks[0]? = some t → t.pc = .waiting →
      s'.step (.tick 0) = some (s'.modify 0 Injection.tickTask) := by
  let ipc : InjectPhyConf := ⟨0, 0, 1, 0⟩
  let s : Injection := { rooted := true, pending := some .injecting, timer := some 1,
                         tasks := [{ start := 0, seconds2 := 0 }, { start := 0, seconds2 := 0 }] }
  let s' : Injection := { rooted := true, timer := some 1, cancels := [(0, 1)],
                          tasks := [{ start := 0, seconds2 := -1, posts := [tickPost (-1)] },
                            { start := 0, seconds2 := 0, cancelled := true }] }
  have hipc : InjectPhyConf.timer? ⟨0, 0, 1, 0⟩ = some 0 := by decide
  have hclicks : injections.run (fun _ _ => True) injections.init
      [.root, .click ipc, .finishClick false, .click ipc, .finishClick false] = some s := by
    simp [System.run, injections, Injection.step, Injection.click, Injection.finishClick, ipc, s,
      Injection.post, hipc]
  have hticks : injections.run (fun _ _ => True) s [.tick 0, .endStep 0, .endStep 0, .deliver] =
      some s' := by
    simp [System.run, injections, Injection.step, Injection.tickTask, Injection.endStep, s, s',
      Injection.post, Injection.modify, Injection.cancel, timerRun_zero, tickPost]
  have hreach := System.ReachableFrom.run .refl hticks
  have hleft : s.LeftRunning 0 := ⟨⟨_, rfl, rfl⟩, by decide⟩
  exact ⟨s, s', System.ReachableFrom.run .refl hclicks, hreach, rfl, rfl,
    timer_left_running hleft hreach⟩

end LocTag
