import LouisNet.Lib.CLib
import LouisNet.Timers.TimerDescriptor

set_option relaxedAutoImplicit false
set_option autoImplicit false

/-!
# Delays on the clock

A `Timestamp` is a number of nanoseconds in 64 bits with a sign, and its operators are those of
`std::chrono`, which check nothing. A delay goes through the sum in `runAfter`, `runEvery` or
`Timer::restart` into the expiration of a timer, and from there through the difference in
`resetTimerfd` to the descriptor. Sums and differences wrap around here, as they do on the machine;
the language leaves them undefined. As long as no sum wraps these are the functions of the
scheduler.

## Main definitions

* `LouisNet.Timers.Timestamp`, `LouisNet.Timers.ClockTimer` — times and timers as in the source.
* `LouisNet.Timers.itValue`, `LouisNet.Timers.resetTimerfd` — how the descriptor is set.
* `LouisNet.Timers.OnTime` — an expiration that does not end a delay early.
* `LouisNet.Timers.NotEarly` — a delay from a time that never ends early.

## Main results

* `LouisNet.Timers.toTimer_restart`, `LouisNet.Timers.resetTimerfd_eq` — what the functions over
  integers do is what these do.
* `LouisNet.Timers.notEarly_iff` — a delay never ends early exactly if the sum does not wrap.
-/

namespace LouisNet.Timers

open Lib

/-! ## Times -/

/-- `Timestamp::Duration`, a number of nanoseconds. -/
abbrev Duration : Type := Int64

/-- `Timestamp`. -/
structure Timestamp where
  timePoint_ : Duration := 0
  deriving DecidableEq, Repr

namespace Timestamp

/-- `Timestamp::operator+`. -/
instance : HAdd Timestamp Duration Timestamp := ⟨fun t duration => ⟨t.timePoint_ + duration⟩⟩

/-- `Timestamp::operator-` of two times. -/
instance : HSub Timestamp Timestamp Duration := ⟨fun t rhs => t.timePoint_ - rhs.timePoint_⟩

/-- `Timestamp::operator<=`. -/
instance : LE Timestamp := ⟨fun t rhs => t.timePoint_ ≤ rhs.timePoint_⟩

instance : DecidableLE Timestamp := fun t rhs =>
  inferInstanceAs (Decidable (t.timePoint_ ≤ rhs.timePoint_))

/-- The nanoseconds since the epoch. -/
def toInt (t : Timestamp) : ℤ := t.timePoint_.toInt

theorem toInt_lt (t : Timestamp) : t.toInt < 2 ^ 63 := t.timePoint_.toInt_lt

theorem le_iff_toInt_le {t rhs : Timestamp} : t ≤ rhs ↔ t.toInt ≤ rhs.toInt :=
  Int64.le_iff_toInt_le

/-- A sum below `2 ^ 63` is exact. -/
theorem toInt_add_of_lt {t : Timestamp} {d : Duration} (ht : 0 ≤ t.toInt) (hd : 0 ≤ d.toInt)
    (h : t.toInt + d.toInt < 2 ^ 63) : (t + d).toInt = t.toInt + d.toInt :=
  Lib.toInt_add_of_lt ht hd h

/-- A sum from `2 ^ 63` on is `2 ^ 64` too small. -/
theorem toInt_add_of_le {t : Timestamp} {d : Duration} (h : 2 ^ 63 ≤ t.toInt + d.toInt) :
    (t + d).toInt = t.toInt + d.toInt - 2 ^ 64 :=
  Lib.toInt_add_of_le h

/-- A difference of two times is exact within the range. -/
theorem toInt_sub_of_mem {t rhs : Timestamp} (hle : -2 ^ 63 ≤ t.toInt - rhs.toInt)
    (hlt : t.toInt - rhs.toInt < 2 ^ 63) : (t - rhs).toInt = t.toInt - rhs.toInt :=
  Lib.toInt_sub_of_mem hle hlt

end Timestamp

/-! ## Timers -/

/-- `Timer`, with the times of the source. -/
structure ClockTimer where
  expiration_ : Option Timestamp := none
  repeat_ : Bool := false
  interval_ : Duration := 0
  id_ : ℕ := 0
  deriving DecidableEq, Repr

namespace ClockTimer

/-- The constructor of `Timer`. -/
def new (expiration : Timestamp) (interval : Duration) (id : ℕ) : ClockTimer where
  expiration_ := some expiration
  repeat_ := decide (interval > 0)
  interval_ := interval
  id_ := id

/-- `Timer::restart`. -/
def restart (timer : ClockTimer) (now : Timestamp) : ClockTimer :=
  { timer with
    expiration_ := if timer.repeat_ = true then some (now + timer.interval_) else none }

/-- The timer that `EventLoop::runAfter` has `addTimer` make. -/
def runAfter (now : Timestamp) (delay : Duration) (id : ℕ) : ClockTimer := new (now + delay) 0 id

/-- The timer that `EventLoop::runEvery` has `addTimer` make. -/
def runEvery (now : Timestamp) (interval : Duration) (id : ℕ) : ClockTimer :=
  new (now + interval) interval id

/-- The timer over integers. -/
def toTimer (timer : ClockTimer) : Timer where
  expiration_ := timer.expiration_.map Timestamp.toInt
  repeat_ := timer.repeat_
  interval_ := timer.interval_.toInt
  id_ := timer.id_

/-- A timer is made as over integers. -/
theorem toTimer_new (expiration : Timestamp) (interval : Duration) (id : ℕ) :
    (new expiration interval id).toTimer = .new expiration.toInt interval.toInt id := by
  have hrepeat : (interval > 0) ↔ interval.toInt > 0 := Int64.lt_iff_toInt_lt
  simp [toTimer, new, Timer.new, hrepeat]

/-- A timer is restarted as over integers, unless the sum wraps. -/
theorem toTimer_restart {timer : ClockTimer} {now : Timestamp} (hnow : 0 ≤ now.toInt)
    (hinterval : 0 ≤ timer.interval_.toInt) (h : now.toInt + timer.interval_.toInt < 2 ^ 63) :
    (timer.restart now).toTimer = timer.toTimer.restart now.toInt := by
  have hsum := Timestamp.toInt_add_of_lt hnow hinterval h
  cases hrepeat : timer.repeat_ with
  | false => simp [toTimer, restart, Timer.restart, hrepeat]
  | true => simp [toTimer, restart, Timer.restart, hrepeat, hsum]

end ClockTimer

/-! ## The descriptor -/

/-- The `it_value` that `resetTimerfd` computes. -/
def itValue (expiration now : Timestamp) : Timespec :=
  let duration := expiration - now
  let duration := if duration ≤ 0 then 100000000 else duration
  { tv_sec := (duration / 1000000000).toInt
    tv_nsec := (duration % 1000000000).toInt }

/-- `resetTimerfd`. -/
def resetTimerfd (timerfd : Timerfd) (expiration now : Timestamp) : Timerfd :=
  timerfd.settime now.toInt (itValue expiration now)

/-- The fields are those of the conversion over integers. -/
theorem itValue_eq_ofDuration (expiration now : Timestamp) :
    itValue expiration now = Timespec.ofDuration
      (if (expiration - now).toInt ≤ 0 then 100000000 else (expiration - now).toInt) := by
  have hle (duration : Duration) : duration ≤ 0 ↔ duration.toInt ≤ 0 := Int64.le_iff_toInt_le
  simp only [itValue, Timespec.ofDuration, hle, Int64.toInt_mod,
    Int64.toInt_div_of_ne_right _ 1000000000 (by decide)]
  split_ifs <;> rfl

/-- **The scheduler sets the descriptor in 64 bits**, also when the difference wraps. -/
theorem resetTimerfd_eq {τ π : Type*} [LinearOrder π] (s : TimerScheduler τ π)
    {expiration now : Timestamp} (hclock : s.clock = now.toInt) :
    resetTimerfd s.timerfd_ expiration now = (s.resetTimerfd expiration.toInt).timerfd_ := by
  have hsub : (expiration - now).toInt = (expiration.toInt - now.toInt).bmod (2 ^ 64) :=
    Int64.toInt_sub _ _
  rw [resetTimerfd, itValue_eq_ofDuration, hsub, TimerScheduler.resetTimerfd, hclock]

/-- Fields that `timerfd_settime` accepts, and that do not disarm the descriptor. -/
structure Timespec.Arms (spec : Timespec) : Prop where
  nsec_nonneg : 0 ≤ spec.tv_nsec
  nsec_lt : spec.tv_nsec < 1000000000
  sec_nonneg : 0 ≤ spec.tv_sec
  ne_zero : ¬(spec.tv_sec = 0 ∧ spec.tv_nsec = 0)

/-- The nanoseconds that the fields denote. -/
def Timespec.nanoseconds (spec : Timespec) : ℤ := spec.tv_sec * 1000000000 + spec.tv_nsec

/-- The fields of a positive duration arm the descriptor. -/
theorem Timespec.arms_ofDuration {duration : ℤ} (h : 0 < duration) :
    (Timespec.ofDuration duration).Arms := by
  have hdiv : duration.tdiv 1000000000 = duration / 1000000000 := Int.tdiv_eq_ediv_of_nonneg h.le
  have hmod : duration.tmod 1000000000 = duration % 1000000000 := Int.tmod_eq_emod_of_nonneg h.le
  constructor
  · show 0 ≤ duration.tmod 1000000000
    omega
  · show duration.tmod 1000000000 < 1000000000
    omega
  · show 0 ≤ duration.tdiv 1000000000
    omega
  · show ¬(duration.tdiv 1000000000 = 0 ∧ duration.tmod 1000000000 = 0)
    omega

/-- The fields denote the duration. -/
theorem Timespec.nanoseconds_ofDuration (duration : ℤ) :
    (Timespec.ofDuration duration).nanoseconds = duration :=
  Int.tdiv_mul_add_tmod duration 1000000000

/-- **The descriptor is never disarmed**, and its fields are always accepted. -/
theorem arms_itValue (expiration now : Timestamp) : (itValue expiration now).Arms := by
  rw [itValue_eq_ofDuration]
  refine Timespec.arms_ofDuration ?_
  split_ifs with hle
  · norm_num
  · exact not_le.mp hle

/-- The descriptor is set to an expiration that comes after the epoch and after now. -/
theorem nanoseconds_itValue {expiration now : Timestamp} (hnow : 0 ≤ now.toInt)
    (h : 0 < expiration.toInt - now.toInt) :
    (itValue expiration now).nanoseconds = expiration.toInt - now.toInt := by
  have hlt := expiration.toInt_lt
  have hsub : (expiration - now).toInt = expiration.toInt - now.toInt :=
    Timestamp.toInt_sub_of_mem (by omega) (by omega)
  rw [itValue_eq_ofDuration, hsub, if_neg (not_le.mpr h), Timespec.nanoseconds_ofDuration]

/-- At the time of a delay the descriptor is set to the delay, even if the expiration wraps: the
difference wraps back. -/
theorem nanoseconds_itValue_add (now : Timestamp) {d : Duration} (hd : 0 < d.toInt) :
    (itValue (now + d) now).nanoseconds = d.toInt := by
  have hsub : now + d - now = d := by
    show now.timePoint_ + d - now.timePoint_ = d
    rw [Int64.add_comm, Int64.add_sub_cancel]
  rw [itValue_eq_ofDuration, hsub, if_neg (not_le.mpr hd), Timespec.nanoseconds_ofDuration]

/-! ## Delays -/

/-- An expiration that does not end early a delay from `now`: it is not before `now`, the
descriptor can be set to it at any time of the clock, and it has not passed before the delay
has. -/
structure OnTime (now : Timestamp) (d : Duration) (expiration : Timestamp) : Prop where
  le : now ≤ expiration
  arms : ∀ clock : Timestamp, 0 ≤ clock.toInt → (itValue expiration clock).Arms
  denotes : ∀ clock : Timestamp, 0 ≤ clock.toInt → 0 < expiration.toInt - clock.toInt →
    (itValue expiration clock).nanoseconds = expiration.toInt - clock.toInt
  passed : ∀ clock : Timestamp, expiration ≤ clock → now.toInt + d.toInt ≤ clock.toInt

/-- A delay from `now` that never ends early: the timers of `runAfter` and `runEvery`, and one with
that interval that is restarted, expire on time. -/
structure NotEarly (now : Timestamp) (d : Duration) : Prop where
  runAfter : ∀ id, ∃ e ∈ (ClockTimer.runAfter now d id).expiration_, OnTime now d e
  runEvery : ∀ id, ∃ e ∈ (ClockTimer.runEvery now d id).expiration_, OnTime now d e
  restart : ∀ timer : ClockTimer, timer.repeat_ = true → timer.interval_ = d →
    ∃ e ∈ (timer.restart now).expiration_, OnTime now d e

/-- All three compute one sum. -/
theorem notEarly_iff_onTime {now : Timestamp} {d : Duration} :
    NotEarly now d ↔ OnTime now d (now + d) := by
  refine ⟨fun h => ?_, fun h => ⟨fun id => ⟨_, rfl, h⟩, fun id => ⟨_, rfl, h⟩, ?_⟩⟩
  · obtain ⟨e, he, h⟩ := h.runAfter 0
    rwa [Option.some.inj he]
  · rintro timer hrepeat rfl
    exact ⟨_, if_pos hrepeat, h⟩

/-- A timer that is on time is not extracted before its delay has passed. -/
theorem OnTime.not_early {π : Type*} [LinearOrder π] {now expiration clock : Timestamp}
    {d : Duration} (h : OnTime now d expiration) {p : π}
    (hbefore : TimerScheduler.beforeUpperBound clock.toInt (toLex (expiration.toInt, p)) = true) :
    now.toInt + d.toInt ≤ clock.toInt := by
  refine h.passed clock (Timestamp.le_iff_toInt_le.mpr ?_)
  have hle := of_decide_eq_true hbefore
  rcases Prod.Lex.le_iff.mp hle with hlt | ⟨heq, -⟩
  · exact hlt.le
  · exact heq.le

/-- **A delay never ends early exactly if its sum does not wrap**: for every time and every duration
that are not negative, the expiration that `runAfter`, `runEvery` and `restart` compute is not
before that time, and `resetTimerfd` sets the descriptor to it, exactly if the time and the duration
together are below `2 ^ 63` nanoseconds.

**Proof sketch.** A sum below the bound is exact, and a difference of two times that are not
negative never wraps. Any other sum is `2 ^ 64` too small, and so negative. -/
theorem notEarly_iff {now : Timestamp} {d : Duration} (hnow : 0 ≤ now.toInt) (hd : 0 ≤ d.toInt) :
    NotEarly now d ↔ now.toInt + d.toInt < 2 ^ 63 := by
  rw [notEarly_iff_onTime]
  constructor
  · intro h
    by_contra hwrap
    have hsum := Timestamp.toInt_add_of_le (not_lt.mp hwrap)
    have hle := Timestamp.le_iff_toInt_le.mp h.le
    have hlt := d.toInt_lt
    omega
  · intro hlt
    have hsum := Timestamp.toInt_add_of_lt hnow hd hlt
    refine ⟨Timestamp.le_iff_toInt_le.mpr (by omega), fun clock _ => arms_itValue _ _,
      fun clock hclock h => nanoseconds_itValue hclock h, fun clock hle => ?_⟩
    rw [← hsum]
    exact Timestamp.le_iff_toInt_le.mp hle

/-- A delay of a second and a half, an hour after the epoch. -/
theorem notEarly_iff_hour :
    NotEarly ⟨3600000000000⟩ 1500000000 ∧
      itValue ⟨3601500000000⟩ ⟨3600000000000⟩ = ⟨1, 500000000⟩ :=
  ⟨(notEarly_iff (by decide +kernel) (by decide +kernel)).mpr (by decide +kernel),
    by decide +kernel⟩

/-- A delay of `Duration::max()` one nanosecond after the epoch: the expiration is the earliest time
there is. The descriptor is set to the delay, but the timer is the first in `timers_`, and at any
time of the clock it has expired. -/
theorem not_notEarly_max :
    ¬ NotEarly ⟨1⟩ Int64.maxValue ∧
      (ClockTimer.runAfter ⟨1⟩ Int64.maxValue 1).expiration_ = some ⟨Int64.minValue⟩ ∧
      itValue ⟨Int64.minValue⟩ ⟨1⟩ = ⟨9223372036, 854775807⟩ ∧
      TimerScheduler.beforeUpperBound 1 (toLex (Int64.minValue.toInt, (0 : ℕ))) = true := by
  refine ⟨fun h => ?_, by decide +kernel, by decide +kernel, by decide +kernel⟩
  have hle := (notEarly_iff_onTime.mp h).le
  exact absurd hle (by decide +kernel)

end LouisNet.Timers
