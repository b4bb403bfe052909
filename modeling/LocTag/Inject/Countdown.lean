import LocTag.Inject.Injectutil
import LocTag.Java
import LocTag.Lib.Runs

/-!
# The countdown of an injection

The `TimerTask` that `InjectionFragment` schedules every half second while the firmware injects: it
counts the ticks down, shows the time that is left, and cancels itself and posts idle at the end.

The number of ticks is computed in `int`; `countsDown_iff` says for which forms that is the number
there should be.
-/

namespace LocTag

open Lib

/-! ### The task -/

/-- `int seconds2 = (ipc.delay/1000+ipc.number*ipc.period/1000)*2` -/
def InjectPhyConf.seconds2 (ipc : InjectPhyConf) : ℤ :=
  jint (jint (ipc.delay.tdiv 1000 + (jint (ipc.number * ipc.period)).tdiv 1000) * 2)

/-- `TimeUnit.SECONDS.toHours` and `toMinutes`. -/
def toHours (seconds : ℤ) : ℤ := seconds.tdiv 3600
def toMinutes (seconds : ℤ) : ℤ := seconds.tdiv 60

/-- `String.format("%02d:%02d:%02d", ..)` -/
def clockText (hh mm ss : ℤ) : List Char := pad2 hh ++ ':' :: (pad2 mm ++ ':' :: pad2 ss)

/-- What a tick posts: the time that is left, and whether the timer is cancelled and the state idle. -/
structure TickPost where
  leftTime : List Char
  idle : Bool

/-- The post of a tick that leaves `seconds2`. -/
def tickPost (seconds2 : ℤ) : TickPost :=
  let seconds := seconds2.tdiv 2
  { leftTime := clockText (toHours seconds) (toMinutes seconds - toHours seconds * 60)
      (seconds - toMinutes seconds * 60)
    idle := decide (seconds2 ≤ 0) }

/-- `TimerTask.run` -/
def timerRun (seconds2 : ℤ) : ℤ × TickPost :=
  let seconds2 := jint (seconds2 - 1)
  (seconds2, tickPost seconds2)

/-- The timer a click on the start button schedules. -/
def InjectPhyConf.timer? (ipc : InjectPhyConf) : Option ℤ :=
  if 0 ≤ ipc.number then some ipc.seconds2 else none

/-- The posts of a timer until it is cancelled. -/
def TimerRun (seconds2 : ℤ) (posts : List TickPost) : Prop :=
  Until timerRun (fun post => post.idle) seconds2 posts

/-! ### A tick -/

/-- The text shows a time: hours, minutes and seconds in their ranges. -/
def Shows (text : List Char) (seconds : ℤ) : Prop :=
  ∃ hh mm ss, text = clockText hh mm ss ∧ 0 ≤ hh ∧ 0 ≤ mm ∧ mm < 60 ∧ 0 ≤ ss ∧ ss < 60 ∧
    3600 * hh + 60 * mm + ss = seconds

/-- **A tick shows half of what is left.** -/
theorem shows_tickPost {r : ℤ} (h : -1 ≤ r) : Shows (tickPost r).leftTime (max r 0 / 2) := by
  have hseconds : r.tdiv 2 = max r 0 / 2 := by
    rcases lt_or_ge r 0 with hneg | hpos
    · obtain rfl : r = -1 := by omega
      rfl
    · rw [max_eq_left hpos, Int.tdiv_eq_ediv_of_nonneg hpos]
  have h0 : 0 ≤ max r 0 / 2 := by omega
  refine ⟨_, _, _, rfl, ?_⟩
  rw [hseconds, toHours, toMinutes, Int.tdiv_eq_ediv_of_nonneg h0, Int.tdiv_eq_ediv_of_nonneg h0]
  omega

theorem timerRun_eq {s : ℤ} (hlow : -2147483648 < s) (hhigh : s ≤ 2147483648) :
    timerRun s = (s - 1, tickPost (s - 1)) := by
  have hwrap : jint (s - 1) = s - 1 := jint_eq_self_iff.2 (by omega)
  rw [timerRun, hwrap]

/-! ### A run -/

/-- What the ticks of a timer post: the last one at 0, or at once. -/
def tickPosts (s : ℤ) : List TickPost :=
  (List.range (max 1 s).toNat).map fun k : ℕ => tickPost (s - (k + 1))

/-- **The timer ticks as often as it should**, once at least. -/
theorem timerRun_tickPosts {s : ℤ} (hlow : -2147483648 < s) (hhigh : s ≤ 2147483648) :
    TimerRun s (tickPosts s) := by
  obtain ⟨n, hn⟩ : ∃ n : ℕ, (max 1 s).toNat = n + 1 := ⟨(max 1 s).toNat - 1, by omega⟩
  induction n generalizing s with
  | zero =>
    have hposts : tickPosts s = [(timerRun s).2] := by
      rw [tickPosts, hn, timerRun_eq hlow hhigh]
      simp
    rw [hposts]
    apply Until.last
    rw [timerRun_eq hlow hhigh]
    simp only [tickPost, decide_eq_true_eq]
    omega
  | succ n ih =>
    have hposts : tickPosts s = (timerRun s).2 :: tickPosts (timerRun s).1 := by
      have htail : (max 1 (s - 1)).toNat = n + 1 := by omega
      have hshift : ∀ k : ℕ, tickPost (s - ((k + 1 : ℕ) + 1)) = tickPost (s - 1 - (k + 1)) := by
        intro k
        congr 1
        push_cast
        ring
      rw [timerRun_eq hlow hhigh, tickPosts, hn, List.range_succ_eq_map, List.map_cons,
        List.map_map, tickPosts, htail, Nat.cast_zero, zero_add]
      exact congrArg _ (List.map_congr_left fun k _ => hshift k)
    rw [hposts]
    apply Until.next
    · rw [timerRun_eq hlow hhigh]
      simp only [tickPost, decide_eq_true_eq]
      omega
    · rw [timerRun_eq hlow hhigh]
      exact ih (by omega) (by omega) (by omega)

theorem length_tickPosts (s : ℤ) : ((tickPosts s).length : ℤ) = max 1 s := by
  rw [tickPosts, List.length_map, List.length_range]
  omega

/-! ### The number of ticks -/

section Total

variable {ipc : InjectPhyConf}

/-- Twice the seconds of the injection, in exact arithmetic. -/
def InjectPhyConf.total (ipc : InjectPhyConf) : ℤ :=
  2 * (ipc.delay / 1000 + ipc.number * ipc.period / 1000)

theorem tdiv_thousand (x : ℤ) : x - 1000 < 1000 * x.tdiv 1000 ∧ 1000 * x.tdiv 1000 < x + 1000 := by
  have hdiv := Int.mul_tdiv_add_tmod x 1000
  have hlow := Int.lt_tmod_of_pos x (by omega : (0 : ℤ) < 1000)
  have hhigh := Int.tmod_lt_of_pos x (by omega : (0 : ℤ) < 1000)
  omega

/-- Only the product can wrap. -/
theorem seconds2_eq (hdelay : IsInt ipc.delay) (h0 : 0 ≤ ipc.delay) :
    ipc.seconds2 = 2 * (ipc.delay / 1000 + (jint (ipc.number * ipc.period)).tdiv 1000) := by
  obtain ⟨-, hd⟩ := hdelay
  have hq := tdiv_thousand (jint (ipc.number * ipc.period))
  have hrange := jint_bounds (ipc.number * ipc.period)
  have hsum : jint (ipc.delay / 1000 + (jint (ipc.number * ipc.period)).tdiv 1000) =
      ipc.delay / 1000 + (jint (ipc.number * ipc.period)).tdiv 1000 :=
    jint_eq_self_iff.2 (by omega)
  rw [InjectPhyConf.seconds2, Int.tdiv_eq_ediv_of_nonneg h0, hsum, jint_eq_self_iff.2 (by omega),
    mul_comm]

theorem seconds2_bounds (hdelay : IsInt ipc.delay) (h0 : 0 ≤ ipc.delay) :
    -2147483648 < ipc.seconds2 ∧ ipc.seconds2 ≤ 2147483648 := by
  have hq := tdiv_thousand (jint (ipc.number * ipc.period))
  have hrange := jint_bounds (ipc.number * ipc.period)
  obtain ⟨-, hd⟩ := hdelay
  rw [seconds2_eq ⟨by omega, hd⟩ h0]
  omega

/-- **The code computes the exact number, or too small a one.** -/
theorem seconds2_total (hdelay : IsInt ipc.delay) (h0 : 0 ≤ ipc.delay)
    (hproduct : 0 ≤ ipc.number * ipc.period) :
    (ipc.number * ipc.period < 2147483648 ∧ ipc.seconds2 = ipc.total) ∨
      (2147483648 ≤ ipc.number * ipc.period ∧ max 1 ipc.seconds2 < ipc.total) := by
  rw [seconds2_eq hdelay h0, InjectPhyConf.total]
  rcases lt_or_ge (ipc.number * ipc.period) 2147483648 with hlt | hge
  · have hwrap : jint (ipc.number * ipc.period) = ipc.number * ipc.period :=
      jint_eq_self_iff.2 (by omega)
    left
    rw [hwrap, Int.tdiv_eq_ediv_of_nonneg hproduct]
    exact ⟨hlt, rfl⟩
  · have hwrap : jint (ipc.number * ipc.period) ≤ ipc.number * ipc.period - 4294967296 := by
      rw [jint_eq]
      omega
    have hq := tdiv_thousand (jint (ipc.number * ipc.period))
    right
    omega

end Total

/-- The timer ticks as often as the injection lasts, once at least, and every tick shows the time that
is left after it. -/
def CountsDown (ipc : InjectPhyConf) : Prop :=
  ∃ seconds2 posts, ipc.timer? = some seconds2 ∧ TimerRun seconds2 posts ∧
    (posts.length : ℤ) = max 1 ipc.total ∧
    ∀ (k : ℕ) (post : TickPost), posts[k]? = some post →
      Shows post.leftTime (max (ipc.total - ((k : ℤ) + 1)) 0 / 2)

/-- The posts of a timer that starts at the right number. -/
theorem shows_tickPosts {s : ℤ} {k : ℕ} {post : TickPost} (h0 : 0 ≤ s)
    (hpost : (tickPosts s)[k]? = some post) :
    Shows post.leftTime (max (s - ((k : ℤ) + 1)) 0 / 2) := by
  rw [tickPosts, List.getElem?_map, Option.map_eq_some_iff] at hpost
  obtain ⟨j, hj, rfl⟩ := hpost
  obtain ⟨hk, rfl⟩ := List.getElem?_eq_some_iff.1 hj
  rw [List.length_range] at hk
  rw [List.getElem_range]
  exact shows_tickPost (by omega)

section CountsDown

variable {ipc : InjectPhyConf}

theorem countsDown_of_lt (hdelay : IsInt ipc.delay) (hdelay0 : 0 ≤ ipc.delay)
    (hperiod0 : 0 ≤ ipc.period) (hnumber0 : 0 ≤ ipc.number)
    (hlt : ipc.number * ipc.period < 2147483648) : CountsDown ipc := by
  have hproduct := mul_nonneg hnumber0 hperiod0
  obtain ⟨hlow, hhigh⟩ := seconds2_bounds hdelay hdelay0
  obtain ⟨-, htotal⟩ | ⟨hge, -⟩ := seconds2_total hdelay hdelay0 hproduct
  · have h0 : 0 ≤ ipc.seconds2 := by
      rw [htotal, InjectPhyConf.total]
      omega
    refine ⟨_, _, if_pos hnumber0, timerRun_tickPosts hlow hhigh, ?_, ?_⟩
    · rw [length_tickPosts, htotal]
    · intro k post hpost
      rw [← htotal]
      exact shows_tickPosts h0 hpost
  · omega

/-- Otherwise the timer stops early: the number it starts from is smaller than the exact one. -/
theorem not_countsDown_of_ge (hdelay : IsInt ipc.delay) (hdelay0 : 0 ≤ ipc.delay)
    (hperiod0 : 0 ≤ ipc.period) (hnumber0 : 0 ≤ ipc.number)
    (hge : 2147483648 ≤ ipc.number * ipc.period) : ¬ CountsDown ipc := by
  have hproduct := mul_nonneg hnumber0 hperiod0
  have htimer : ipc.timer? = some ipc.seconds2 := if_pos hnumber0
  obtain ⟨hlow, hhigh⟩ := seconds2_bounds hdelay hdelay0
  obtain ⟨hlt, -⟩ | ⟨-, htotal⟩ := seconds2_total hdelay hdelay0 hproduct
  · omega
  · rintro ⟨seconds2, posts, hstart, hposts, hlength, -⟩
    obtain rfl := Option.some.inj (htimer.symm.trans hstart)
    rw [hposts.unique (timerRun_tickPosts hlow hhigh), length_tickPosts] at hlength
    omega

/-- **The countdown is right** exactly where the product of the form is an `int`. -/
theorem countsDown_iff (hdelay : IsInt ipc.delay) (hdelay0 : 0 ≤ ipc.delay)
    (hperiod0 : 0 ≤ ipc.period) (hnumber0 : 0 ≤ ipc.number) :
    CountsDown ipc ↔ ipc.number * ipc.period < 2147483648 := by
  constructor
  · intro h
    by_contra hge
    exact not_countsDown_of_ge hdelay hdelay0 hperiod0 hnumber0 (by omega) h
  · exact countsDown_of_lt hdelay hdelay0 hperiod0 hnumber0

/-- The values the form starts with. -/
theorem countsDown_default : CountsDown ⟨10, 1000, 10, -1056964608⟩ := by
  apply (countsDown_iff _ _ _ _).2
  · norm_num
  · constructor <;> norm_num
  · norm_num
  · norm_num
  · norm_num

/-- 46341 frames every 46341 ms, almost 25 days: the timer ticks once. -/
theorem countsDown_wraps : ¬ CountsDown ⟨0, 46341, 46341, -1056964608⟩ := by
  apply not_countsDown_of_ge
  · constructor <;> norm_num
  · norm_num
  · norm_num
  · norm_num
  · norm_num

end CountsDown

end LocTag
