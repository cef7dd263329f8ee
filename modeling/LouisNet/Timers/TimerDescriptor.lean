import LouisNet.Lib.CLib
import LouisNet.Timers.TimerPlaces

set_option relaxedAutoImplicit false
set_option autoImplicit false

/-!
# When the timer descriptor fires

The descriptor of the scheduler fires once for each time it is set, so somebody has to set it again
as long as timers are pending. `addTimerInLoop` sets it only for a timer that is not later than the
others, `cancelTimerInLoop` never does, and the call at the end of `reset` makes up for whatever the
callbacks did. The time of the last call of `resetTimerfd` is kept in a record of the run.

The difference that `resetTimerfd` computes wraps around when an expiration is more than `2 ^ 63`
nanoseconds in the past, which is where a sum that has wrapped leaves it. The descriptor is then set
to a time that is centuries away, and all timers wait for it.

## Main definitions

* `LouisNet.Timers.TimerScheduler.resets` — the expiration for which a step calls `resetTimerfd`.
* `LouisNet.Timers.TimerScheduler.lastReset` — the record of the last such call.
* `LouisNet.Timers.TimerScheduler.Armed` — the descriptor fires in time for the earliest timer.
* `LouisNet.Timers.TimerScheduler.NoOverflow` — no time that a step computes overflows.

## Main results

* `LouisNet.Timers.TimerScheduler.timerfd_armed` — outside `handleRead` the descriptor is readable
  or set, early enough for the earliest timer or for 100 milliseconds after it was set, as long as
  nothing overflows.
* `LouisNet.Timers.TimerScheduler.not_armed_of_overflow` — an overflow sets it too late.
* `LouisNet.Timers.TimerScheduler.deadline_addTimerInLoop` — how far adding a timer can move the
  deadline.
-/

namespace LouisNet.Timers

open Lib Reactor

namespace TimerScheduler

variable {τ π : Type*} [LinearOrder π] {s s' : TimerScheduler τ π} {p : π} {e : ℤ}

/-! ## The earliest timer -/

/-- Where fewer timers are pending, the earliest of them is not earlier. -/
theorem exists_earliest_le (h : ∀ e p, s'.Pending e p → s.Pending e p) (he : s'.earliest = some e) :
    ∃ e₀ ≤ e, s.earliest = some e₀ := by
  obtain ⟨⟨p, hp⟩, -⟩ := earliest_eq_some_iff.mp he
  cases hs : s.earliest with
  | none => exact absurd (h e p hp) (earliest_eq_none_iff.mp hs e p)
  | some e₀ => exact ⟨e₀, (earliest_eq_some_iff.mp hs).2 e p (h e p hp), rfl⟩

/-- A timer with an expiration is pending when `addTimerInLoop` returns, and the others as before. -/
theorem pending_addTimerInLoop (id : ℕ) (he : (s.object p).expiration_ = some e) {e' : ℤ} {q : π} :
    (s.addTimerInLoop id p).Pending e' q ↔ (e' = e ∧ q = p) ∨ s.Pending e' q := by
  obtain ⟨fd, hs'⟩ := addTimerInLoop_eq id he
  rw [Pending, hs', SortedMap.find?_emplace_unit, toLex_inj, Prod.mk.injEq, Pending]

/-- `addTimerInLoop` finds out whether its timer becomes the earliest. -/
def earliestChanged (s : TimerScheduler τ π) (expiration : ℤ) : Bool :=
  s.earliest.all fun first => expiration ≤ first

/-- A timer that is not later than the others becomes the earliest. -/
theorem earliest_addTimerInLoop (id : ℕ) (he : (s.object p).expiration_ = some e) :
    (s.addTimerInLoop id p).earliest =
      if s.earliestChanged e = true then some e else s.earliest := by
  cases hs : s.earliest with
  | none =>
    rw [if_pos (by rw [earliestChanged, hs]; rfl), earliest_eq_some_iff]
    refine ⟨⟨p, (pending_addTimerInLoop id he).mpr (.inl ⟨rfl, rfl⟩)⟩, fun e' q hq => ?_⟩
    rcases (pending_addTimerInLoop id he).mp hq with ⟨rfl, -⟩ | hq
    · exact le_rfl
    · exact absurd hq (earliest_eq_none_iff.mp hs e' q)
  | some first =>
    obtain ⟨⟨p₀, hp₀⟩, hmin⟩ := earliest_eq_some_iff.mp hs
    have hchanged : s.earliestChanged e = decide (e ≤ first) := by rw [earliestChanged, hs]; rfl
    rw [hchanged]
    split_ifs with hle
    · rw [decide_eq_true_iff] at hle
      refine earliest_eq_some_iff.mpr
        ⟨⟨p, (pending_addTimerInLoop id he).mpr (.inl ⟨rfl, rfl⟩)⟩, fun e' q hq => ?_⟩
      rcases (pending_addTimerInLoop id he).mp hq with ⟨rfl, -⟩ | hq
      · exact le_rfl
      · exact hle.trans (hmin e' q hq)
    · rw [decide_eq_true_iff] at hle
      refine earliest_eq_some_iff.mpr
        ⟨⟨p₀, (pending_addTimerInLoop id he).mpr (.inr hp₀)⟩, fun e' q hq => ?_⟩
      rcases (pending_addTimerInLoop id he).mp hq with ⟨rfl, -⟩ | hq
      · omega
      · exact hmin e' q hq

/-! ## Setting the descriptor -/

/-- A positive duration is split into valid fields. -/
theorem settime_ofDuration (fd : Timerfd) (clock : ℤ) {duration : ℤ} (h : 0 < duration) :
    fd.settime clock (Timespec.ofDuration duration) =
      { deadline := some (clock + duration), readable := false } := by
  have hdiv : duration.tdiv 1000000000 = duration / 1000000000 := Int.tdiv_eq_ediv_of_nonneg h.le
  have hmod : duration.tmod 1000000000 = duration % 1000000000 := Int.tmod_eq_emod_of_nonneg h.le
  simp only [Timerfd.settime, Timespec.ofDuration, hdiv, hmod]
  rw [if_neg (by omega), if_neg (by omega)]
  congr 2
  omega

/-- The deadline that `resetTimerfd` sets. -/
def newDeadline (s : TimerScheduler τ π) (expiration : ℤ) : ℤ :=
  if (expiration - s.clock).bmod (2 ^ 64) ≤ 0 then s.clock + 100000000
  else s.clock + (expiration - s.clock).bmod (2 ^ 64)

/-- `resetTimerfd` sets the descriptor and discards an expiry that was not read. -/
theorem timerfd_resetTimerfd (s : TimerScheduler τ π) (e : ℤ) :
    (s.resetTimerfd e).timerfd_ = { deadline := some (s.newDeadline e), readable := false } := by
  rw [resetTimerfd, newDeadline]
  dsimp only
  split_ifs with hduration
  · rw [settime_ofDuration _ _ (by norm_num)]
  · rw [settime_ofDuration _ _ (not_le.mp hduration)]

/-- The deadline set is not later than that of the timer, or than 100 milliseconds from now, unless
the difference underflows. -/
theorem newDeadline_le (s : TimerScheduler τ π) {e : ℤ} (h : -2 ^ 63 ≤ e - s.clock) :
    s.newDeadline e ≤ max e (s.clock + 100000000) := by
  rw [newDeadline]
  split_ifs
  · exact le_max_right _ _
  · have hle := bmod_le_self h
    exact le_max_of_le_left (by omega)

/-- A timer that is not yet due has its own deadline set, if the difference does not overflow. -/
theorem newDeadline_of_lt (s : TimerScheduler τ π) {e : ℤ} (h : s.clock < e)
    (hlt : e - s.clock < 2 ^ 63) : s.newDeadline e = e := by
  have hexact : (e - s.clock).bmod (2 ^ 64) = e - s.clock :=
    Int.bmod_eq_of_le (by omega) (by omega)
  rw [newDeadline, hexact, if_neg (by omega)]
  omega

/-- When the difference underflows, the deadline set is `2 ^ 64` nanoseconds too late. -/
theorem newDeadline_of_overflow (s : TimerScheduler τ π) {e : ℤ} (h : -2 ^ 64 < e - s.clock)
    (hlt : e - s.clock < -2 ^ 63) : s.newDeadline e = e + 2 ^ 64 := by
  have hwrapped : (e - s.clock).bmod (2 ^ 64) = e - s.clock + 2 ^ 64 := by
    rw [← Int.add_bmod_right]
    exact Int.bmod_eq_of_le (by omega) (by omega)
  rw [newDeadline, hwrapped, if_neg (by omega)]
  omega

/-- `addTimerInLoop` sets the descriptor for a timer that becomes the earliest. -/
theorem timerfd_addTimerInLoop (id : ℕ) (he : (s.object p).expiration_ = some e) :
    (s.addTimerInLoop id p).timerfd_ =
      if s.earliestChanged e = true then { deadline := some (s.newDeadline e), readable := false }
      else s.timerfd_ := by
  simp only [addTimerInLoop, check, he]
  by_cases hchanged : s.earliestChanged e = true
  · rw [if_pos hchanged, ← timerfd_resetTimerfd]
    refine (congrArg timerfd_ (if_pos hchanged)).trans ?_
    rfl
  · rw [if_neg hchanged]
    refine (congrArg timerfd_ (if_neg hchanged)).trans ?_
    rfl

/-! ## No timer is forgotten -/

/-- The expiration for which `addTimerInLoop` calls `resetTimerfd`. -/
def addResets (s : TimerScheduler τ π) (timer : π) : Option ℤ :=
  (s.object timer).expiration_.filter s.earliestChanged

/-- The expiration for which a step calls `resetTimerfd`. -/
def resets [DecidableEq τ] (s : TimerScheduler τ π) : Step τ π → Option ℤ
  | .add t =>
    match s.call t with
    | .stored timer => if t = .loop then s.addResets timer else none
    | _ => none
  | .runTask =>
    match s.tasks_ with
    | .addTimerInLoop _ timer :: _ => s.addResets timer
    | _ => none
  | .addAgain =>
    match s.pc with
    | .adding _ _ timer _ => s.addResets timer
    | _ => none
  | .endReset => s.earliest
  | _ => none

/-- The sum that `Timer::restart` computes in a step. -/
def restartSum [DecidableEq τ] (s : TimerScheduler τ π) : Step τ π → Option ℤ
  | .resetTimer =>
    match s.pc with
    | .resetting now _ (timer :: _) =>
      if s.restarts timer = true then some (now + (s.object timer).interval_) else none
    | _ => none
  | _ => none

/-- **No time that a step computes overflows**: no expiration for which the descriptor is set is
more than `2 ^ 63` nanoseconds in the past, and the next expiration of a timer that repeats is below
`2 ^ 63`. -/
def NoOverflow [DecidableEq τ] (s : TimerScheduler τ π) (a : Step τ π) : Prop :=
  (∀ e ∈ s.resets a, -2 ^ 63 ≤ e - s.clock) ∧ ∀ sum ∈ s.restartSum a, sum < 2 ^ 63

instance [DecidableEq τ] (s : TimerScheduler τ π) (a : Step τ π) : Decidable (s.NoOverflow a) :=
  inferInstanceAs (Decidable (_ ∧ _))

/-- The record of a run: the time of the last call of `resetTimerfd`. -/
def lastReset [DecidableEq τ] (t : Option ℤ) (s : TimerScheduler τ π) (a : Step τ π) : Option ℤ :=
  if (s.resets a).isSome = true then some s.clock else t

/-- The descriptor is readable, or it is set to a deadline that is not later than the earliest timer
or than 100 milliseconds after the last call of `resetTimerfd`. -/
def Armed (s : TimerScheduler τ π) (t : Option ℤ) : Prop :=
  ∀ e, s.earliest = some e → s.timerfd_.readable = true ∨
    ∃ deadline, s.timerfd_.deadline = some deadline ∧
      ∃ t' ∈ t, deadline ≤ max e (t' + 100000000)

variable {t : Option ℤ}

/-- A descriptor that was just set for the earliest timer fires in time, unless the difference has
underflowed. -/
theorem armed_of_set (he : s.earliest = some e)
    (hfd : s.timerfd_ = { deadline := some (s.newDeadline e), readable := false })
    (hno : -2 ^ 63 ≤ e - s.clock) : Armed s (some s.clock) := by
  intro e' he'
  obtain rfl : e = e' := Option.some.inj (he.symm.trans he')
  exact .inr ⟨_, by rw [hfd], s.clock, rfl, s.newDeadline_le hno⟩

/-- **A descriptor that was set with an overflow is set too late**, for the earliest timer and for
all others that are due before. -/
theorem not_armed_of_overflow (he : s.earliest = some e)
    (hfd : s.timerfd_ = { deadline := some (s.newDeadline e), readable := false })
    (h : 100000000 - 2 ^ 64 < e - s.clock) (hlt : e - s.clock < -2 ^ 63) :
    ¬ Armed s (some s.clock) := by
  intro harmed
  rcases harmed e he with hreadable | ⟨deadline, hdeadline, t', ht', hle⟩
  · rw [hfd] at hreadable
    cases hreadable
  · obtain rfl : s.clock = t' := Option.some.inj ht'
    obtain rfl : s.newDeadline e = deadline := by
      rw [hfd] at hdeadline
      exact Option.some.inj hdeadline
    rw [s.newDeadline_of_overflow (by omega) hlt] at hle
    omega

/-- A descriptor that fires in time for some timers fires in time for fewer of them. -/
theorem Armed.anti (h : Armed s t) (hpending : ∀ e p, s'.Pending e p → s.Pending e p)
    (hfd : s'.timerfd_ = s.timerfd_) : Armed s' t := by
  intro e he
  obtain ⟨e₀, hle, he₀⟩ := exists_earliest_le hpending he
  rw [hfd]
  refine (h e₀ he₀).imp_right ?_
  rintro ⟨deadline, hdeadline, t', ht', hmax⟩
  exact ⟨deadline, hdeadline, t', ht', hmax.trans (max_le_max_right _ hle)⟩

/-- `addTimerInLoop` sets the descriptor whenever its timer would be late otherwise. -/
theorem Armed.addTimerInLoop (h : Armed s t) (id : ℕ) (he : (s.object p).expiration_ = some e)
    (hno : ∀ e ∈ s.addResets p, -2 ^ 63 ≤ e - s.clock) :
    Armed (s.addTimerInLoop id p) (if (s.addResets p).isSome = true then some s.clock else t) := by
  have hresets : s.addResets p = if s.earliestChanged e = true then some e else none := by
    rw [addResets, he]
    rfl
  have hearliest := earliest_addTimerInLoop id he
  have hfd := timerfd_addTimerInLoop id he
  rw [hresets] at hno ⊢
  split_ifs at hearliest hfd hno ⊢ with hchanged hsome
  · have hclock : (s.addTimerInLoop id p).clock = s.clock := by
      obtain ⟨fd, hs'⟩ := addTimerInLoop_eq id he
      rw [hs']
    rw [← hclock] at hno ⊢
    exact armed_of_set hearliest (by rw [hfd, newDeadline, newDeadline, hclock]) (hno e rfl)
  · exact absurd rfl hsome
  · contradiction
  · intro e' he'
    rw [hfd]
    exact h e' (hearliest.symm.trans he')

/-- Time passes: the descriptor stays set, or becomes readable. -/
theorem Armed.elapse (h : Armed s t) (now : ℤ) :
    Armed { s with clock := now, timerfd_ := s.timerfd_.elapse now } t := by
  intro e he
  dsimp only
  rw [Timerfd.elapse]
  split_ifs
  · exact .inl rfl
  · exact h e he

/-- The call at the end of `reset` is made if any timer is pending. -/
theorem step_endReset_eq_some [DecidableEq τ] (h : s.step .endReset = some s') :
    s' = match s.earliest with
      | some nextExpiration => { s.resetTimerfd nextExpiration with pc := .idle }
      | none => { s with pc := .idle } := by
  obtain ⟨-, h⟩ := assert_eq_some_iff.mp h
  unfold loopStep at h
  split at h <;> try contradiction
  cases hearliest : s.earliest with
  | some nextExpiration =>
    rw [hearliest] at h
    exact (Option.some.inj h).symm
  | none =>
    rw [hearliest] at h
    exact (Option.some.inj h).symm

variable [DecidableEq τ]

/-- A call of `addTimer` that returns on the loop thread has executed `addTimerInLoop`. -/
theorem Armed.returnId (h : Armed s t) (hplaced : Placed s) {c : Thread τ}
    (hc : s.call c = .stored p) (hno : s.NoOverflow (.add c)) :
    Armed (s.returnId c p) (lastReset t s (.add c)) := by
  obtain ⟨place, hl⟩ := hplaced
  have hplace : place p = .call c := hl.call (by simp [hc, Call.timer?])
  obtain ⟨e, he⟩ := hl.expiration (hl.mem_created (p := p) (by simp [hplace]))
  by_cases hloop : c = .loop
  · subst hloop
    have hresets : s.resets (.add .loop) = s.addResets p := by simp [resets, hc]
    have hdifference := hno.1
    rw [hresets] at hdifference
    rw [lastReset, hresets, TimerScheduler.returnId, runInLoop, if_pos rfl]
    exact Armed.addTimerInLoop (s := { s with call := Function.update s.call .loop .idle }) h
      (s.object p).id_ he hdifference
  · have hrecord : lastReset t s (.add c) = t := by simp [lastReset, resets, hc, hloop]
    rw [hrecord, TimerScheduler.returnId, runInLoop, if_neg hloop]
    exact h

omit [DecidableEq τ] in
/-- `cancelTimerInLoop` leaves the descriptor, and fewer timers are pending after it. -/
theorem Armed.cancelTimerInLoop (h : Armed s t) (hplaced : Placed s) (timerId : TimerId π) :
    Armed (s.cancelTimerInLoop timerId) t := by
  obtain ⟨place, hl⟩ := hplaced
  refine h.anti (fun e p hp => pending_of_cancelTimerInLoop hp) ?_
  obtain ⟨p, e, -, -, hs'⟩ | ⟨-, hs'⟩ := hl.cancelTimerInLoop_cases timerId
  · rw [hs']
  · rw [hs']

/-- The loop thread executes a functor of the queue. -/
theorem Armed.exec (h : Armed s t) (hplaced : Placed s) {task : Task π} {tasks : List (Task π)}
    (htasks : s.tasks_ = task :: tasks) (hno : s.NoOverflow .runTask) :
    Armed (exec { s with tasks_ := tasks } task) (lastReset t s .runTask) := by
  cases task with
  | addTimerInLoop id p =>
    obtain ⟨place, hl⟩ := hplaced
    have hplace : place p = .queue := hl.queue (by simp [htasks, Task.timer?])
    obtain ⟨e, he⟩ := hl.expiration (hl.mem_created (p := p) (by simp [hplace]))
    have hresets : s.resets .runTask = s.addResets p := by simp [resets, htasks]
    have hdifference := hno.1
    rw [hresets] at hdifference
    rw [lastReset, hresets]
    exact Armed.addTimerInLoop (s := { s with tasks_ := tasks }) h id he hdifference
  | cancelTimerInLoop timerId =>
    have hrecord : lastReset t s .runTask = t := by simp [lastReset, resets, htasks]
    have htaken : Placed { s with tasks_ := tasks } := by
      obtain ⟨place, hl⟩ := hplaced
      exact ⟨place, hl.dequeue (htasks ▸ List.sublist_cons_self _ _)⟩
    rw [hrecord]
    exact Armed.cancelTimerInLoop (s := { s with tasks_ := tasks }) h htaken timerId

/-- The return from `handleRead` sets the descriptor for the earliest timer. -/
theorem armed_endReset (hstep : s.step .endReset = some s') (hno : s.NoOverflow .endReset) :
    Armed s' (lastReset t s .endReset) := by
  have hdifference : ∀ e ∈ s.earliest, -2 ^ 63 ≤ e - s.clock := hno.1
  rw [step_endReset_eq_some hstep, lastReset, resets]
  cases hearliest : s.earliest with
  | none =>
    intro e he
    exact absurd (hearliest.symm.trans he) (by simp)
  | some nextExpiration =>
    rw [Option.isSome_some, if_pos rfl]
    exact armed_of_set hearliest (s.timerfd_resetTimerfd nextExpiration)
      (hdifference nextExpiration hearliest)

/-- **Every step outside `handleRead` keeps the descriptor set**, and the return from `handleRead`
sets it. -/
theorem Armed.step (h : s.pc = .idle → Armed s t) (hplaced : Placed s) {a : Step τ π}
    (hstep : s.step a = some s') (hno : s.NoOverflow a) :
    s'.pc = .idle → Armed s' (lastReset t s a) := by
  cases next_of_step hstep with
  | load c p expiration interval hcall hnew => exact h
  | store c p hc => exact h
  | add c p hc =>
    intro hpc
    rw [TimerScheduler.returnId, (runInLoop_kept _ _ _).pc] at hpc
    exact (h hpc).returnId hplaced hc hno
  | cancel c timerId hcall =>
    intro hpc
    rw [(runInLoop_kept _ _ _).pc] at hpc
    rw [runInLoop]
    split_ifs
    · exact (h hpc).cancelTimerInLoop hplaced timerId
    · exact h hpc
  | tick now hclock => exact fun hpc => (h hpc).elapse now
  | release p hp => exact h
  | runTask task tasks hpc htasks =>
    exact fun _ => (h hpc).exec hplaced htasks hno
  | handleRead hpc => exact fun hpc' => absurd hpc' (by simp [handleRead_eq])
  | runTimer now ran todo p hpc => exact fun hpc' => absurd hpc' (by simp)
  | endTimers now ran hpc => exact fun hpc' => absurd hpc' (by simp)
  | restart now done todo p hpc hrestarts => exact fun hpc' => absurd hpc' (by simp)
  | skip now done todo p hpc hrestarts => exact fun hpc' => absurd hpc' (by simp)
  | addAgain now done todo p hpc =>
    intro hpc'
    rw [(addTimerInLoop_frame _ _ p).pc] at hpc'
    cases hpc'
  | endReset now done fd hpc =>
    exact fun _ => armed_endReset hstep hno

/-- **No pending timer is forgotten**: in every run in which no time overflows, in every state
outside `handleRead` in which a timer is pending, the descriptor is readable, or it is set to a
deadline that is not later than the earliest of the timers or than 100 milliseconds after the last
call of `resetTimerfd`, whichever is later.

**Proof sketch.** Outside `handleRead` a timer that becomes the earliest sets the descriptor, and
all other steps leave it set for a timer that is not later than the earliest. Inside `handleRead`
nothing needs to hold, because its last call of `resetTimerfd` is for the earliest timer left. -/
theorem timerfd_armed {as : List (Step τ π)}
    (h : run (observed step lastReset) (({} : TimerScheduler τ π), none) as = some (s, t))
    (hno : Along (observed step lastReset) (fun x a => x.1.NoOverflow a)
      (({} : TimerScheduler τ π), none) as)
    (hpc : s.pc = .idle) (he : s.earliest = some e) :
    s.timerfd_.readable = true ∨ ∃ deadline, s.timerfd_.deadline = some deadline ∧
      ∃ t' ∈ t, deadline ≤ max e (t' + 100000000) := by
  have hinv := Along.invariant
    (I := fun x : TimerScheduler τ π × Option ℤ =>
      Placed x.1 ∧ (x.1.pc = .idle → Armed x.1 x.2))
    (fun {x a y} hstep hno hI => by
      obtain ⟨hstep, hy⟩ := observed_eq_some_iff.mp hstep
      rw [hy]
      exact ⟨hI.1.step hstep, Armed.step hI.2 hI.1 hstep hno⟩)
    hno h ⟨⟨_, located_init⟩, fun _ e he => absurd he (by simp [earliest, SortedMap.empty])⟩
  exact hinv.2 hpc e he

/-- A timer that repeats runs; its callback adds a later timer, and a timer that is due by then is
added after the return from `handleRead`. -/
def repeatedRun : List (Step Empty ℕ) :=
  [.load .loop 0 10 5, .store .loop, .add .loop, .tick 20, .handleRead, .runTimer,
    .load .loop 1 40 0, .store .loop, .add .loop, .endTimers, .resetTimer, .addAgain, .endReset,
    .tick 22, .load .loop 2 21 0, .store .loop, .add .loop]

/-- The timer that is due is the earliest, and the descriptor is set to 100 milliseconds later. -/
theorem timerfd_armed_repeatedRun : ∃ s : TimerScheduler Empty ℕ,
    run (observed step lastReset) ({}, none) repeatedRun = some (s, some 22) ∧
    s.earliest = some 21 ∧ s.timerfd_ = { deadline := some 100000022, readable := false } ∧
    (s.timerfd_.readable = true ∨ ∃ deadline, s.timerfd_.deadline = some deadline ∧
      ∃ t' ∈ some (22 : ℤ), deadline ≤ max 21 (t' + 100000000)) := by
  have hrun : (run (observed step lastReset) (({} : TimerScheduler Empty ℕ), none)
      repeatedRun).map (fun x => (x.2, x.1.pc, x.1.earliest, x.1.timerfd_)) =
      some (some 22, .idle, some 21, ⟨some 100000022, false⟩) := by decide
  obtain ⟨⟨s, t⟩, hs, hfields⟩ := Option.map_eq_some_iff.mp hrun
  simp only [Prod.mk.injEq] at hfields
  obtain ⟨rfl, hpc, hearliest, hfd⟩ := hfields
  exact ⟨s, hs, hearliest, hfd, timerfd_armed hs (by decide) hpc hearliest⟩

/-- A timer is pending, and one nanosecond after the epoch `runAfter` is called with
`Duration::max()`: its sum wraps around. -/
def overflowRun : List (Step Empty ℕ) :=
  [.tick 1, .load .loop 0 1000000000 0, .store .loop, .add .loop,
    .load .loop 1 ((1 + (2 ^ 63 - 1) : ℤ).bmod (2 ^ 64)) 0, .store .loop, .add .loop]

/-- The new timer is the earliest there can be, and the difference in `resetTimerfd` wraps back: the
descriptor is set to centuries from now, and the timer that is due in a second waits for it. -/
theorem not_armed_overflowRun : ∃ s : TimerScheduler Empty ℕ,
    run (observed step lastReset) ({}, none) overflowRun = some (s, some 1) ∧ s.pc = .idle ∧
    s.earliest = some (-2 ^ 63) ∧ s.Pending 1000000000 0 ∧
    ¬ (s.timerfd_.readable = true ∨ ∃ deadline, s.timerfd_.deadline = some deadline ∧
      ∃ t' ∈ some (1 : ℤ), deadline ≤ max (-2 ^ 63) (t' + 100000000)) := by
  have hrun : (run (observed step lastReset) (({} : TimerScheduler Empty ℕ), none)
      overflowRun).map (fun x => (x.2, x.1.pc, x.1.earliest,
        x.1.timers_.find? (toLex (1000000000, 0)), x.1.timerfd_)) =
      some (some 1, .idle, some (-2 ^ 63), some (), ⟨some (2 ^ 63), false⟩) := by decide
  obtain ⟨⟨s, t⟩, hs, hfields⟩ := Option.map_eq_some_iff.mp hrun
  simp only [Prod.mk.injEq] at hfields
  obtain ⟨rfl, hpc, hearliest, hpending, hfd⟩ := hfields
  exact ⟨s, hs, hpc, hearliest, hpending, by simp [hfd]⟩

/-! ## Adding a timer -/

omit [DecidableEq τ]

/-- **How far adding a timer moves the deadline**: with timers pending and the descriptor set to a
deadline, it is still set after `addTimerInLoop`. A timer that is later than the earliest leaves the
deadline; one that is not yet due moves it at most to the earliest of the pending timers, so that
no pending timer is delayed; no timer moves it beyond that and 100 milliseconds from now. The time
between the expiration and now must fit 64 bits. -/
theorem deadline_addTimerInLoop {first deadline : ℤ} (id : ℕ) (hfirst : s.earliest = some first)
    (hdeadline : s.timerfd_.deadline = some deadline) (he : (s.object p).expiration_ = some e)
    (hno : -2 ^ 63 ≤ e - s.clock) (hno' : e - s.clock < 2 ^ 63) :
    ∃ deadline', (s.addTimerInLoop id p).timerfd_.deadline = some deadline' ∧
      deadline' ≤ max (max deadline first) (s.clock + 100000000) ∧
      (first < e → deadline' = deadline) ∧
      (s.clock < e → deadline' ≤ max deadline first) := by
  have hfd := timerfd_addTimerInLoop id he
  have hchanged : s.earliestChanged e = decide (e ≤ first) := by rw [earliestChanged, hfirst]; rfl
  rw [hchanged] at hfd
  split_ifs at hfd with hle
  · rw [decide_eq_true_iff] at hle
    refine ⟨s.newDeadline e, by rw [hfd], ?_, fun hlt => absurd hle (not_le.mpr hlt), fun hlt => ?_⟩
    · exact (s.newDeadline_le hno).trans (max_le_max_right _ (hle.trans (le_max_right _ _)))
    · rw [s.newDeadline_of_lt hlt hno']
      exact hle.trans (le_max_right _ _)
  · refine ⟨deadline, by rw [hfd, hdeadline], ?_, fun _ => rfl, fun _ => le_max_left _ _⟩
    exact (le_max_left _ _).trans (le_max_left _ _)

/-- A timer is pending, the descriptor is set for it, and another timer is made that is due. -/
def dueRun : List (Step Empty ℕ) :=
  [.load .loop 0 10 0, .store .loop, .add .loop, .load .loop 1 0 0, .store .loop]

/-- Of two timers the earlier one is cancelled, and one between them is made. -/
def cancelledRun : List (Step Empty ℕ) :=
  [.load .loop 0 10 0, .store .loop, .add .loop, .load .loop 1 100 0, .store .loop, .add .loop,
    .cancel .loop ⟨1, some 0⟩, .load .loop 2 50 0, .store .loop]

/-- A timer that is later than the pending one leaves the deadline. -/
theorem deadline_addTimerInLoop_later : ∃ s : TimerScheduler Empty ℕ,
    run step {} [.load .loop 0 10 0, .store .loop, .add .loop, .load .loop 1 30 0,
      .store .loop] = some s ∧
    ∃ deadline', (s.addTimerInLoop 2 1).timerfd_.deadline = some deadline' ∧
      deadline' ≤ max (max 10 10) (s.clock + 100000000) ∧ ((10 : ℤ) < 30 → deadline' = 10) ∧
      (s.clock < 30 → deadline' ≤ max 10 10) := by
  have hrun : (run step ({} : TimerScheduler Empty ℕ) [.load .loop 0 10 0, .store .loop,
      .add .loop, .load .loop 1 30 0, .store .loop]).map
      (fun s => (s.earliest, s.timerfd_.deadline, (s.object 1).expiration_, s.clock)) =
      some (some 10, some 10, some 30, 0) := by decide
  obtain ⟨s, hs, hfields⟩ := Option.map_eq_some_iff.mp hrun
  simp only [Prod.mk.injEq] at hfields
  obtain ⟨hfirst, hdeadline, he, hclock⟩ := hfields
  exact ⟨s, hs, deadline_addTimerInLoop 2 hfirst hdeadline he (by omega) (by omega)⟩

/-- The deadline can move to a later time: a timer that is due sets the descriptor to 100
milliseconds from now, past the timer that it was set for; and after the earliest timer is cancelled
the descriptor is set anew for one between it and the next. -/
theorem deadline_lt_addTimerInLoop :
    (∃ s : TimerScheduler Empty ℕ, run step {} dueRun = some s ∧
      s.earliest = some 10 ∧ s.timerfd_.deadline = some 10 ∧ (s.object 1).expiration_ = some 0 ∧
      ¬ ∃ deadline', (s.addTimerInLoop 2 1).timerfd_.deadline = some deadline' ∧
        deadline' ≤ 10) ∧
    (∃ s : TimerScheduler Empty ℕ, run step {} cancelledRun = some s ∧
      s.earliest = some 100 ∧ s.timerfd_.deadline = some 10 ∧ (s.object 2).expiration_ = some 50 ∧
      ¬ ∃ deadline', (s.addTimerInLoop 3 2).timerfd_.deadline = some deadline' ∧
        deadline' ≤ 10) := by
  constructor
  · have hrun : (run step ({} : TimerScheduler Empty ℕ) dueRun).map
        (fun s => (s.earliest, s.timerfd_.deadline, (s.object 1).expiration_,
          (s.addTimerInLoop 2 1).timerfd_.deadline)) =
        some (some 10, some 10, some 0, some 100000000) := by decide
    obtain ⟨s, hs, hfields⟩ := Option.map_eq_some_iff.mp hrun
    simp only [Prod.mk.injEq] at hfields
    obtain ⟨hfirst, hdeadline, he, hadded⟩ := hfields
    exact ⟨s, hs, hfirst, hdeadline, he, by simp [hadded]⟩
  · have hrun : (run step ({} : TimerScheduler Empty ℕ) cancelledRun).map
        (fun s => (s.earliest, s.timerfd_.deadline, (s.object 2).expiration_,
          (s.addTimerInLoop 3 2).timerfd_.deadline)) =
        some (some 100, some 10, some 50, some 50) := by decide
    obtain ⟨s, hs, hfields⟩ := Option.map_eq_some_iff.mp hrun
    simp only [Prod.mk.injEq] at hfields
    obtain ⟨hfirst, hdeadline, he, hadded⟩ := hfields
    exact ⟨s, hs, hfirst, hdeadline, he, by simp [hadded]⟩

end TimerScheduler

end LouisNet.Timers
