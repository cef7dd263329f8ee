import LouisNet.Lib.SortedMap
import LouisNet.Reactor.EventLoop

set_option relaxedAutoImplicit false
set_option autoImplicit false

/-!
# The timer scheduler

The class `TimerScheduler` of `src/timer/TimerScheduler.cc` with `Timer.h` and `TimerId.h`, in
steps that other threads may come between: a call of `addTimer` loads `nextId_`, stores to it and
hands `addTimerInLoop` to the loop, which executes it at once on its own thread and from its queue
otherwise. The loop thread goes through `handleRead` callback by callback; what a callback calls
are the steps between its start and the next step of the loop thread.

Timer objects have names of an ordered type, whose order is that of the pointers in `timers_`.
An assertion of the source is recorded with its outcome and execution goes on, as it does in a
release build. Time is an integer number of nanoseconds. The difference in `resetTimerfd` wraps
around in 64 bits, as it does on the machine; the sum in `Timer::restart` does not, and a result
about runs in which it might says so.

## Main definitions

* `LouisNet.Timers.TimerScheduler` — the scheduler, its `timerfd` and the calls in progress.
* `LouisNet.Timers.TimerScheduler.addTimerInLoop`,
  `LouisNet.Timers.TimerScheduler.cancelTimerInLoop`,
  `LouisNet.Timers.TimerScheduler.extractExpiredTimers` — the operations on the two containers.
* `LouisNet.Timers.TimerScheduler.step` — one step of one thread.
* `LouisNet.Timers.TimerScheduler.Next` — what a step does.
-/

namespace LouisNet.Timers

open Lib Reactor

/-! ## Timers and their descriptor -/

/-- `Timer`. The callback is code of the user. -/
structure Timer where
  expiration_ : Option ℤ := none
  repeat_ : Bool := false
  interval_ : ℤ := 0
  id_ : ℕ := 0
  deriving DecidableEq, Repr

/-- The constructor of `Timer`. -/
def Timer.new (expiration interval : ℤ) (id : ℕ) : Timer where
  expiration_ := some expiration
  repeat_ := decide (interval > 0)
  interval_ := interval
  id_ := id

/-- `Timer::restart`. -/
def Timer.restart (timer : Timer) (now : ℤ) : Timer :=
  { timer with
    expiration_ := if timer.repeat_ = true then some (now + timer.interval_) else none }

/-- `TimerId`: an id with a weak pointer to the timer. -/
structure TimerId (π : Type*) where
  id : ℕ := 0
  timer : Option π := none
  deriving DecidableEq, Repr

/-- A `timerfd`: the deadline at which it becomes readable, and whether it is. -/
structure Timerfd where
  deadline : Option ℤ := none
  readable : Bool := false
  deriving DecidableEq, Repr

/-- The fields of `it_value`. -/
structure Timespec where
  tv_sec : ℤ
  tv_nsec : ℤ
  deriving DecidableEq, Repr

/-- The conversion of a duration in `resetTimerfd`. -/
def Timespec.ofDuration (duration : ℤ) : Timespec where
  tv_sec := duration.tdiv 1000000000
  tv_nsec := duration.tmod 1000000000

/-- `timerfd_settime` with a relative time and no period: invalid fields are refused, zero disarms,
and an expiry that was not read is discarded. -/
def Timerfd.settime (fd : Timerfd) (clock : ℤ) (spec : Timespec) : Timerfd :=
  if spec.tv_sec < 0 ∨ spec.tv_nsec < 0 ∨ spec.tv_nsec ≥ 1000000000 then fd
  else if spec.tv_sec = 0 ∧ spec.tv_nsec = 0 then { deadline := none, readable := false }
  else { deadline := some (clock + spec.tv_sec * 1000000000 + spec.tv_nsec), readable := false }

/-- The passage of time: the descriptor fires once, at its deadline. -/
def Timerfd.elapse (fd : Timerfd) (clock : ℤ) : Timerfd :=
  if ∃ deadline ∈ fd.deadline, deadline ≤ clock then { deadline := none, readable := true } else fd

/-! ## The state -/

/-- The pairs in `timers_`, in lexicographic order. -/
abbrev Entry (π : Type*) := ℤ ×ₗ π

/-- The functors that the scheduler hands to the loop. -/
inductive Task (π : Type*) where
  | addTimerInLoop (id : ℕ) (timer : π)
  | cancelTimerInLoop (timerId : TimerId π)
  deriving DecidableEq, Repr

/-- The timer that a functor holds a shared pointer to. -/
def Task.timer? {π : Type*} : Task π → Option π
  | .addTimerInLoop _ timer => some timer
  | .cancelTimerInLoop _ => none

/-- Where a thread is in a call of `addTimer`. -/
inductive Call (π : Type*) where
  /-- in no call -/
  | idle
  /-- the timer was made with an id loaded from `nextId_`, which is still to be stored -/
  | loaded (timer : π)
  /-- the id was stored, and `runInLoop` is still to be called -/
  | stored (timer : π)
  deriving DecidableEq, Repr

/-- The timer that a call holds. -/
def Call.timer? {π : Type*} : Call π → Option π
  | .idle => none
  | .loaded timer => some timer
  | .stored timer => some timer

/-- Where the loop thread is. -/
inductive Pc (π : Type*) where
  /-- outside `handleRead` -/
  | idle
  /-- running the callbacks of the batch: those started, and those still to be started -/
  | calling (now : ℤ) (ran todo : List π)
  /-- in `reset`: the timers done, and those still to be looked at -/
  | resetting (now : ℤ) (done todo : List π)
  /-- in `reset`, at the call of `addTimerInLoop` for a timer -/
  | adding (now : ℤ) (done : List π) (timer : π) (todo : List π)
  deriving DecidableEq, Repr

/-- The callbacks of the batch that have not been started. -/
def Pc.todo {π : Type*} : Pc π → List π
  | .calling _ _ todo => todo
  | _ => []

/-- The timers of the batch that may still be added again. -/
def Pc.batch {π : Type*} : Pc π → List π
  | .idle => []
  | .calling _ ran todo => ran ++ todo
  | .resetting _ _ todo => todo
  | .adding _ _ timer todo => timer :: todo

/-- The timers in `expiredTimers`. -/
def Pc.expiredTimers {π : Type*} : Pc π → List π
  | .idle => []
  | .calling _ ran todo => ran ++ todo
  | .resetting _ done todo => done ++ todo
  | .adding _ done timer todo => done ++ timer :: todo

/-- The timers that may still be added again are in `expiredTimers`. -/
theorem Pc.batch_subset_expiredTimers {π : Type*} (pc : Pc π) : pc.batch ⊆ pc.expiredTimers := by
  cases pc <;> simp [Pc.batch, Pc.expiredTimers]

/-- The loop thread runs code of the user, which may call the scheduler. -/
def Pc.userCode {π : Type*} : Pc π → Bool
  | .idle => true
  | .calling _ ran _ => !ran.isEmpty
  | _ => false

/-- What happens to the timers. -/
inductive Event (π : Type*) where
  /-- `addTimer` returns the id of a timer -/
  | returned (timer : π)
  /-- `cancelTimerInLoop` has been executed -/
  | cancelled (timerId : TimerId π)
  /-- the callback of a timer is started -/
  | started (timer : π)
  deriving DecidableEq, Repr

/-- The assertions of the source, and the accesses to the value of an `optional`. -/
inductive Check where
  /-- in `addTimerInLoop`, the two containers have one size -/
  | addSizes
  /-- in `addTimerInLoop`, `timers_.emplace` inserts -/
  | timersInserted
  /-- in `addTimerInLoop`, `activeTimers_.emplace` inserts -/
  | activeInserted
  /-- in `cancelTimerInLoop`, the timer found is the timer of the id -/
  | sameTimer
  /-- in `extractExpiredTimers`, the two containers have one size -/
  | extractSizes
  /-- in `extractExpiredTimers`, the first timer that stays has not expired -/
  | upperBound
  /-- `expiration.value()` does not throw -/
  | value
  deriving DecidableEq, Repr

/-- `TimerScheduler`, with the threads that call it, the clock and the queue of the loop. -/
structure TimerScheduler (τ π : Type*) [LinearOrder π] where
  timers_ : SortedMap (Entry π) Unit := .empty
  activeTimers_ : SortedMap ℕ π := .empty
  cancelingTimers_ : SortedMap ℕ (Option π) := .empty
  nextId_ : ℕ := 0
  callingExpiredTimers_ : Bool := false
  timerfd_ : Timerfd := {}
  clock : ℤ := 0
  tasks_ : List (Task π) := []
  /-- The timer objects. -/
  object : π → Timer := fun _ => {}
  /-- The objects made, oldest first. -/
  created : List π := []
  /-- The objects whose ids `addTimer` has returned, oldest first. -/
  returned : List π := []
  /-- The objects destroyed. -/
  released : List π := []
  call : Thread τ → Call π := fun _ => .idle
  pc : Pc π := .idle
  /-- What happened so far, oldest first. -/
  log : List (Event π) := []
  /-- The assertions evaluated so far, with their outcomes. -/
  checks : List (Check × Bool) := []

namespace TimerScheduler

variable {τ π : Type*} [LinearOrder π]

/-! ## The functions of the loop thread -/

/-- Record the outcome of an assertion. -/
def check (s : TimerScheduler τ π) (c : Check) (outcome : Bool) : TimerScheduler τ π :=
  { s with checks := s.checks ++ [(c, outcome)] }

/-- The two containers have one size. -/
def sameSize (s : TimerScheduler τ π) : Bool := s.timers_.size == s.activeTimers_.size

/-- `weak_ptr::lock`. -/
def lock (s : TimerScheduler τ π) (timer : Option π) : Option π :=
  timer.filter fun p => p ∉ s.released

/-- `readTimerfd`. -/
def readTimerfd (s : TimerScheduler τ π) : TimerScheduler τ π :=
  { s with timerfd_ := { s.timerfd_ with readable := false } }

/-- `resetTimerfd`. The difference has 64 bits with a sign. One that is not positive is replaced by
100 milliseconds. -/
def resetTimerfd (s : TimerScheduler τ π) (expiration : ℤ) : TimerScheduler τ π :=
  let duration := (expiration - s.clock).bmod (2 ^ 64)
  let duration := if duration ≤ 0 then 100000000 else duration
  { s with timerfd_ := s.timerfd_.settime s.clock (Timespec.ofDuration duration) }

/-- The expiration at the beginning of `timers_`. -/
def earliest (s : TimerScheduler τ π) : Option ℤ :=
  s.timers_.entries.head?.map fun it => (ofLex it.1).1

/-- `TimerScheduler::addTimerInLoop`. -/
def addTimerInLoop (s : TimerScheduler τ π) (id : ℕ) (timer : π) : TimerScheduler τ π :=
  let s := s.check .addSizes s.sameSize
  match (s.object timer).expiration_ with
  | none => s.check .value false
  | some expiration =>
    let earliestChanged := s.earliest.all fun first => expiration ≤ first
    let entry : Entry π := toLex (expiration, timer)
    let s := s.check .value true
    let s := { s.check .timersInserted (s.timers_.find? entry).isNone with
      timers_ := s.timers_.emplace entry () }
    let s := { s.check .activeInserted (s.activeTimers_.find? id).isNone with
      activeTimers_ := s.activeTimers_.emplace id timer }
    let s := s.check .addSizes s.sameSize
    if earliestChanged then s.resetTimerfd expiration else s

/-- `TimerScheduler::cancelTimerInLoop`. -/
def cancelTimerInLoop (s : TimerScheduler τ π) (timerId : TimerId π) : TimerScheduler τ π :=
  match s.activeTimers_.find? timerId.id with
  | some it =>
    let timer := s.lock (some it)
    let s := s.check .sameTimer (s.lock timerId.timer == timer)
    match timer with
    | none => s
    | some timer =>
      match (s.object timer).expiration_ with
      | none => s.check .value false
      | some expiration =>
        { s.check .value true with
          timers_ := s.timers_.erase (toLex (expiration, timer))
          activeTimers_ := s.activeTimers_.erase timerId.id }
  | none =>
    if s.callingExpiredTimers_ = true then
      { s with cancelingTimers_ := s.cancelingTimers_.emplace timerId.id timerId.timer }
    else s

/-- An entry is not above the pair of a time and the null pointer, which is below every other
pointer. -/
def beforeUpperBound (now : ℤ) (entry : Entry π) : Bool :=
  (toLex ((ofLex entry).1, ((ofLex entry).2 : WithBot π)) : ℤ ×ₗ WithBot π) ≤ toLex (now, ⊥)

/-- The timers of the entries before `upper_bound`. -/
def expiredTimers (s : TimerScheduler τ π) (now : ℤ) : List π :=
  (s.timers_.filter (beforeUpperBound now)).entries.map fun it => (ofLex it.1).2

/-- `TimerScheduler::extractExpiredTimers`. -/
def extractExpiredTimers (s : TimerScheduler τ π) (now : ℤ) : List π × TimerScheduler τ π :=
  let s := s.check .extractSizes s.sameSize
  let rest := s.timers_.filter fun entry => !beforeUpperBound now entry
  let s := s.check .upperBound (rest.entries.head?.all fun it => now < (ofLex it.1).1)
  let expiredTimers := s.expiredTimers now
  let s := { s with
    timers_ := rest
    activeTimers_ :=
      expiredTimers.foldl (fun active timer => active.erase (s.object timer).id_) s.activeTimers_ }
  (expiredTimers, s.check .extractSizes s.sameSize)

/-- `TimerScheduler::handleRead` up to the first callback. -/
def handleRead (s : TimerScheduler τ π) : TimerScheduler τ π :=
  let s := s.readTimerfd
  let now := s.clock
  let (expiredTimers, s) := s.extractExpiredTimers now
  { s with
    callingExpiredTimers_ := true
    cancelingTimers_ := .empty
    pc := .calling now [] expiredTimers }

/-- A functor is executed by the loop thread. -/
def exec (s : TimerScheduler τ π) : Task π → TimerScheduler τ π
  | .addTimerInLoop id timer => s.addTimerInLoop id timer
  | .cancelTimerInLoop timerId =>
    let s := s.cancelTimerInLoop timerId
    { s with log := s.log ++ [.cancelled timerId] }

/-- The call of `EventLoop::runInLoop` by a thread. -/
def runInLoop [DecidableEq τ] (s : TimerScheduler τ π) (t : Thread τ) (task : Task π) :
    TimerScheduler τ π :=
  if t = .loop then s.exec task else { s with tasks_ := s.tasks_ ++ [task] }

/-! ## Steps -/

/-- The steps of the program. -/
inductive Step (τ π : Type*) where
  /-- a call of `addTimer` loads `nextId_` and makes the timer -/
  | load (t : Thread τ) (timer : π) (expiration interval : ℤ)
  /-- a call of `addTimer` stores the id of its timer -/
  | store (t : Thread τ)
  /-- a call of `addTimer` hands the timer to the loop and returns -/
  | add (t : Thread τ)
  /-- a call of `cancelTimer` -/
  | cancel (t : Thread τ) (timerId : TimerId π)
  /-- time passes -/
  | tick (now : ℤ)
  /-- the last reference to a timer that nothing here holds is dropped -/
  | release (timer : π)
  /-- the loop executes the next functor of its queue -/
  | runTask
  /-- the loop handles an event on the descriptor -/
  | handleRead
  /-- the next callback of the batch is started -/
  | runTimer
  /-- all callbacks have returned, and `reset` is called -/
  | endTimers
  /-- `reset` looks at the next timer, and restarts it or not -/
  | resetTimer
  /-- `reset` adds the timer that was restarted -/
  | addAgain
  /-- `reset` sets the descriptor again, and `handleRead` returns -/
  | endReset
  deriving DecidableEq, Repr

variable [DecidableEq τ]

/-- The code of the user can make a call on a thread. -/
def CanCall (s : TimerScheduler τ π) (t : Thread τ) : Prop :=
  s.call t = .idle ∧ (t = .loop → s.pc.userCode = true)

instance (s : TimerScheduler τ π) (t : Thread τ) : Decidable (s.CanCall t) :=
  inferInstanceAs (Decidable (_ ∧ _))

/-- The first part of `TimerScheduler::addTimer`: the timer is made, with an id of 64 bits. -/
def loadId (s : TimerScheduler τ π) (t : Thread τ) (timer : π) (expiration interval : ℤ) :
    TimerScheduler τ π :=
  { s with
    object := Function.update s.object timer
      (Timer.new expiration interval ((s.nextId_ + 1) % 2 ^ 64))
    created := s.created ++ [timer]
    call := Function.update s.call t (.loaded timer) }

@[simp] theorem loadId_object (s : TimerScheduler τ π) (t : Thread τ) (p q : π)
    (expiration interval : ℤ) : (s.loadId t p expiration interval).object q =
      if q = p then Timer.new expiration interval ((s.nextId_ + 1) % 2 ^ 64) else s.object q :=
  Function.update_apply ..

@[simp] theorem loadId_call (s : TimerScheduler τ π) (t t' : Thread τ) (p : π)
    (expiration interval : ℤ) : (s.loadId t p expiration interval).call t' =
      if t' = t then .loaded p else s.call t' :=
  Function.update_apply ..

@[simp] theorem loadId_created (s : TimerScheduler τ π) (t : Thread τ) (p : π)
    (expiration interval : ℤ) : (s.loadId t p expiration interval).created = s.created ++ [p] := rfl

/-- The second part of `TimerScheduler::addTimer`: the id is stored. -/
def storeId (s : TimerScheduler τ π) (t : Thread τ) (timer : π) : TimerScheduler τ π :=
  { s with
    nextId_ := (s.object timer).id_
    call := Function.update s.call t (.stored timer) }

@[simp] theorem storeId_call (s : TimerScheduler τ π) (t t' : Thread τ) (p : π) :
    (s.storeId t p).call t' = if t' = t then .stored p else s.call t' :=
  Function.update_apply ..

/-- The last part of `TimerScheduler::addTimer`: the timer goes to the loop, and its id to the
caller. -/
def returnId (s : TimerScheduler τ π) (t : Thread τ) (timer : π) : TimerScheduler τ π :=
  let s := { s with call := Function.update s.call t .idle }
  let s := s.runInLoop t (.addTimerInLoop (s.object timer).id_ timer)
  { s with returned := s.returned ++ [timer], log := s.log ++ [.returned timer] }

/-- A timer whose `addTimer` has returned is alive, and nothing here holds a shared pointer to it. -/
def Unheld (s : TimerScheduler τ π) (timer : π) : Prop :=
  timer ∈ s.returned ∧ timer ∉ s.released ∧ timer ∉ s.tasks_.filterMap Task.timer? ∧
    timer ∉ s.timers_.entries.map (fun it => (ofLex it.1).2) ∧ timer ∉ s.pc.expiredTimers

instance (s : TimerScheduler τ π) (timer : π) : Decidable (s.Unheld timer) :=
  inferInstanceAs (Decidable (_ ∧ _ ∧ _ ∧ _ ∧ _))

/-- A repeating timer of the batch that was not cancelled is restarted. -/
def restarts (s : TimerScheduler τ π) (timer : π) : Bool :=
  (s.object timer).repeat_ && (s.cancelingTimers_.find? (s.object timer).id_).isNone

omit [DecidableEq τ] in
/-- One step of the loop thread through its queue, `handleRead` and `reset`. -/
def loopStep (s : TimerScheduler τ π) (step : Step τ π) : Option (TimerScheduler τ π) :=
  match s.pc, step with
  | .idle, .runTask =>
    match s.tasks_ with
    | task :: tasks => some (exec { s with tasks_ := tasks } task)
    | [] => none
  | .idle, .handleRead => some s.handleRead
  | .calling now ran (timer :: todo), .runTimer =>
    some { s with pc := .calling now (ran ++ [timer]) todo, log := s.log ++ [.started timer] }
  | .calling now ran [], .endTimers =>
    some { s with callingExpiredTimers_ := false, pc := .resetting now [] ran }
  | .resetting now done (timer :: todo), .resetTimer =>
    if s.restarts timer = true then
      some { s with
        object := Function.update s.object timer ((s.object timer).restart now)
        pc := .adding now done timer todo }
    else some { s with pc := .resetting now (done ++ [timer]) todo }
  | .adding now done timer todo, .addAgain =>
    some (addTimerInLoop { s with pc := .resetting now (done ++ [timer]) todo }
      (s.object timer).id_ timer)
  | .resetting _ _ [], .endReset =>
    match s.earliest with
    | some nextExpiration => some { s.resetTimerfd nextExpiration with pc := .idle }
    | none => some { s with pc := .idle }
  | _, _ => none

/-- One step of one thread. The loop thread is in no call of `addTimer` when it goes on. -/
def step (s : TimerScheduler τ π) : Step τ π → Option (TimerScheduler τ π)
  | .load t timer expiration interval =>
    assert (s.CanCall t ∧ timer ∉ s.created) <| some (s.loadId t timer expiration interval)
  | .store t =>
    match s.call t with
    | .loaded timer => some (s.storeId t timer)
    | _ => none
  | .add t =>
    match s.call t with
    | .stored timer => some (s.returnId t timer)
    | _ => none
  | .cancel t timerId => assert (s.CanCall t) <| some (s.runInLoop t (.cancelTimerInLoop timerId))
  | .tick now =>
    assert (s.clock ≤ now) <| some { s with clock := now, timerfd_ := s.timerfd_.elapse now }
  | .release timer => assert (s.Unheld timer) <| some { s with released := timer :: s.released }
  | step => assert (s.call .loop = .idle) <| s.loopStep step

/-- What a step does, one case for each kind of step. -/
inductive Next (s : TimerScheduler τ π) : Step τ π → TimerScheduler τ π → Prop where
  | load (t : Thread τ) (timer : π) (expiration interval : ℤ) (h : s.CanCall t)
    (hnew : timer ∉ s.created) :
    Next s (.load t timer expiration interval) (s.loadId t timer expiration interval)
  | store (t : Thread τ) (timer : π) (h : s.call t = .loaded timer) :
    Next s (.store t) (s.storeId t timer)
  | add (t : Thread τ) (timer : π) (h : s.call t = .stored timer) :
    Next s (.add t) (s.returnId t timer)
  | cancel (t : Thread τ) (timerId : TimerId π) (h : s.CanCall t) :
    Next s (.cancel t timerId) (s.runInLoop t (.cancelTimerInLoop timerId))
  | tick (now : ℤ) (h : s.clock ≤ now) :
    Next s (.tick now) { s with clock := now, timerfd_ := s.timerfd_.elapse now }
  | release (timer : π) (h : s.Unheld timer) :
    Next s (.release timer) { s with released := timer :: s.released }
  | runTask (task : Task π) (tasks : List (Task π)) (h : s.pc = .idle)
    (htasks : s.tasks_ = task :: tasks) :
    Next s .runTask (exec { s with tasks_ := tasks } task)
  | handleRead (h : s.pc = .idle) : Next s .handleRead s.handleRead
  | runTimer (now : ℤ) (ran todo : List π) (timer : π)
    (h : s.pc = .calling now ran (timer :: todo)) : Next s .runTimer { s with
      pc := .calling now (ran ++ [timer]) todo, log := s.log ++ [.started timer] }
  | endTimers (now : ℤ) (ran : List π) (h : s.pc = .calling now ran []) :
    Next s .endTimers { s with callingExpiredTimers_ := false, pc := .resetting now [] ran }
  | restart (now : ℤ) (done todo : List π) (timer : π)
    (h : s.pc = .resetting now done (timer :: todo)) (hrestarts : s.restarts timer = true) :
    Next s .resetTimer { s with
      object := Function.update s.object timer ((s.object timer).restart now)
      pc := .adding now done timer todo }
  | skip (now : ℤ) (done todo : List π) (timer : π)
    (h : s.pc = .resetting now done (timer :: todo)) (hrestarts : s.restarts timer = false) :
    Next s .resetTimer { s with pc := .resetting now (done ++ [timer]) todo }
  | addAgain (now : ℤ) (done todo : List π) (timer : π) (h : s.pc = .adding now done timer todo) :
    Next s .addAgain (addTimerInLoop { s with pc := .resetting now (done ++ [timer]) todo }
      (s.object timer).id_ timer)
  | endReset (now : ℤ) (done : List π) (fd : Timerfd) (h : s.pc = .resetting now done []) :
    Next s .endReset { s with timerfd_ := fd, pc := .idle }

/-- The steps of the loop thread are among them. -/
theorem next_of_loopStep {s s' : TimerScheduler τ π} {a : Step τ π}
    (h : s.loopStep a = some s') : Next s a s' := by
  unfold loopStep at h
  split at h
  · rename_i hpc
    split at h
    · rename_i htasks
      exact Option.some.inj h ▸ .runTask _ _ hpc htasks
    · cases h
  · rename_i hpc
    exact Option.some.inj h ▸ .handleRead hpc
  · rename_i hpc
    exact Option.some.inj h ▸ .runTimer _ _ _ _ hpc
  · rename_i hpc
    exact Option.some.inj h ▸ .endTimers _ _ hpc
  · rename_i hpc
    split_ifs at h with hrestarts
    · exact Option.some.inj h ▸ .restart _ _ _ _ hpc hrestarts
    · exact Option.some.inj h ▸ .skip _ _ _ _ hpc (by simpa using hrestarts)
  · rename_i hpc
    exact Option.some.inj h ▸ .addAgain _ _ _ _ hpc
  · rename_i hpc
    split at h
    · exact Option.some.inj h ▸ .endReset _ _ _ hpc
    · exact Option.some.inj h ▸ .endReset _ _ s.timerfd_ hpc
  · cases h

/-- A step is one of the cases. -/
theorem next_of_step {s s' : TimerScheduler τ π} {a : Step τ π} (h : s.step a = some s') :
    Next s a s' := by
  unfold step at h
  split at h
  · obtain ⟨⟨hcall, hnew⟩, hs'⟩ := assert_eq_some_iff.mp h
    exact Option.some.inj hs' ▸ .load _ _ _ _ hcall hnew
  · split at h
    · rename_i hcall
      exact Option.some.inj h ▸ .store _ _ hcall
    · cases h
  · split at h
    · rename_i hcall
      exact Option.some.inj h ▸ .add _ _ hcall
    · cases h
  · obtain ⟨hcall, hs'⟩ := assert_eq_some_iff.mp h
    exact Option.some.inj hs' ▸ .cancel _ _ hcall
  · obtain ⟨hclock, hs'⟩ := assert_eq_some_iff.mp h
    exact Option.some.inj hs' ▸ .tick _ hclock
  · obtain ⟨hheld, hs'⟩ := assert_eq_some_iff.mp h
    exact Option.some.inj hs' ▸ .release _ hheld
  · obtain ⟨-, hs'⟩ := assert_eq_some_iff.mp h
    exact next_of_loopStep hs'

/-! ## What the operations do -/

section Operations

variable {s : TimerScheduler τ π} {p : π} {e now : ℤ}

omit [DecidableEq τ]

/-- The objects, the calls and the place of the loop thread do not differ. -/
structure Kept (s s' : TimerScheduler τ π) : Prop where
  object : s'.object = s.object
  created : s'.created = s.created
  returned : s'.returned = s.returned
  nextId_ : s'.nextId_ = s.nextId_
  call : s'.call = s.call
  pc : s'.pc = s.pc
  callingExpiredTimers_ : s'.callingExpiredTimers_ = s.callingExpiredTimers_

/-- Nothing but the containers, the descriptor and the outcomes of assertions differs. -/
structure Frame (s s' : TimerScheduler τ π) : Prop extends Kept s s' where
  tasks_ : s'.tasks_ = s.tasks_
  log : s'.log = s.log

/-- `addTimerInLoop` works on the containers and the descriptor. -/
theorem addTimerInLoop_frame (s : TimerScheduler τ π) (id : ℕ) (p : π) :
    Frame s (s.addTimerInLoop id p) := by
  unfold addTimerInLoop
  dsimp only
  split
  · exact ⟨⟨rfl, rfl, rfl, rfl, rfl, rfl, rfl⟩, rfl, rfl⟩
  · split_ifs
    · exact ⟨⟨rfl, rfl, rfl, rfl, rfl, rfl, rfl⟩, rfl, rfl⟩
    · exact ⟨⟨rfl, rfl, rfl, rfl, rfl, rfl, rfl⟩, rfl, rfl⟩

/-- `cancelTimerInLoop` works on the containers. -/
theorem cancelTimerInLoop_frame (s : TimerScheduler τ π) (timerId : TimerId π) :
    Frame s (s.cancelTimerInLoop timerId) := by
  unfold cancelTimerInLoop
  dsimp only
  split
  · split
    · exact ⟨⟨rfl, rfl, rfl, rfl, rfl, rfl, rfl⟩, rfl, rfl⟩
    · split
      · exact ⟨⟨rfl, rfl, rfl, rfl, rfl, rfl, rfl⟩, rfl, rfl⟩
      · exact ⟨⟨rfl, rfl, rfl, rfl, rfl, rfl, rfl⟩, rfl, rfl⟩
  · split_ifs
    · exact ⟨⟨rfl, rfl, rfl, rfl, rfl, rfl, rfl⟩, rfl, rfl⟩
    · exact ⟨⟨rfl, rfl, rfl, rfl, rfl, rfl, rfl⟩, rfl, rfl⟩

/-- The execution of a functor keeps the objects and the calls. -/
theorem exec_kept (s : TimerScheduler τ π) (task : Task π) : Kept s (s.exec task) := by
  cases task with
  | addTimerInLoop id p => exact (addTimerInLoop_frame s id p).toKept
  | cancelTimerInLoop timerId => exact { cancelTimerInLoop_frame s timerId with }

/-- A functor that is handed to the loop keeps the objects and the calls. -/
theorem runInLoop_kept [DecidableEq τ] (s : TimerScheduler τ π) (t : Thread τ) (task : Task π) :
    Kept s (s.runInLoop t task) := by
  unfold runInLoop
  split_ifs
  · exact exec_kept s task
  · exact ⟨rfl, rfl, rfl, rfl, rfl, rfl, rfl⟩

/-- A timer with an expiration is emplaced in both containers. -/
theorem addTimerInLoop_eq (id : ℕ) (he : (s.object p).expiration_ = some e) :
    ∃ fd, s.addTimerInLoop id p = { s with
      timers_ := s.timers_.emplace (toLex (e, p)) ()
      activeTimers_ := s.activeTimers_.emplace id p
      timerfd_ := fd
      checks := s.checks ++ [(.addSizes, s.sameSize), (.value, true),
        (.timersInserted, (s.timers_.find? (toLex (e, p))).isNone),
        (.activeInserted, (s.activeTimers_.find? id).isNone),
        (.addSizes, (s.timers_.emplace (toLex (e, p)) ()).size ==
          (s.activeTimers_.emplace id p).size)] } := by
  unfold addTimerInLoop
  simp only [check, he, sameSize, List.append_assoc, List.cons_append, List.nil_append]
  split_ifs
  · exact ⟨_, rfl⟩
  · exact ⟨_, rfl⟩

/-- An id found belongs to a timer that leaves both containers. -/
theorem cancelTimerInLoop_eq_of_some {timerId : TimerId π}
    (hp : s.activeTimers_.find? timerId.id = some p) (hreleased : p ∉ s.released)
    (he : (s.object p).expiration_ = some e) :
    s.cancelTimerInLoop timerId = { s with
      timers_ := s.timers_.erase (toLex (e, p))
      activeTimers_ := s.activeTimers_.erase timerId.id
      checks := s.checks ++
        [(.sameTimer, s.lock timerId.timer == some p), (.value, true)] } := by
  have hlock : s.lock (some p) = some p := by simp [lock, hreleased]
  simp [cancelTimerInLoop, hp, hlock, check, he]

/-- An id not found is noted while callbacks run. -/
theorem cancelTimerInLoop_eq_of_none {timerId : TimerId π}
    (hp : s.activeTimers_.find? timerId.id = none) :
    s.cancelTimerInLoop timerId = { s with
      cancelingTimers_ := if s.callingExpiredTimers_ = true then
        s.cancelingTimers_.emplace timerId.id timerId.timer else s.cancelingTimers_ } := by
  simp only [cancelTimerInLoop, hp]
  split_ifs <;> rfl

/-- The null pointer is below every other pointer, so the entries at `now` are not before the
bound. -/
theorem beforeUpperBound_eq : beforeUpperBound now (toLex (e, p)) = decide (e < now) := by
  simp [beforeUpperBound, Prod.Lex.toLex_le_toLex]

/-- The timers extracted are those whose entries are before the bound. -/
theorem mem_expiredTimers :
    p ∈ s.expiredTimers now ↔ ∃ e < now, s.timers_.find? (toLex (e, p)) = some () := by
  have hmem : ∀ e, (toLex (e, p), ()) ∈ (s.timers_.filter (beforeUpperBound now)).entries ↔
      e < now ∧ s.timers_.find? (toLex (e, p)) = some () := by
    intro e
    rw [SortedMap.mem_entries_iff, SortedMap.find?_filter, beforeUpperBound_eq]
    by_cases he : e < now
    · simp [he]
    · simp [he]
  constructor
  · intro h
    obtain ⟨it, hit, rfl⟩ := List.mem_map.mp h
    exact ⟨(ofLex it.1).1, (hmem _).mp hit⟩
  · rintro ⟨e, h⟩
    exact List.mem_map.mpr ⟨_, (hmem e).mpr h, rfl⟩

/-- `handleRead` moves the timers before the bound from both containers to the batch. -/
theorem handleRead_eq : s.handleRead = { s with
    timers_ := s.timers_.filter fun entry => !beforeUpperBound s.clock entry
    activeTimers_ := (s.expiredTimers s.clock).foldl
      (fun active timer => active.erase (s.object timer).id_) s.activeTimers_
    cancelingTimers_ := .empty
    callingExpiredTimers_ := true
    timerfd_ := { s.timerfd_ with readable := false }
    pc := .calling s.clock [] (s.expiredTimers s.clock)
    checks := s.checks ++ [(.extractSizes, s.sameSize),
      (.upperBound, (s.timers_.filter fun entry => !beforeUpperBound s.clock entry).entries.head?.all
        fun it => s.clock < (ofLex it.1).1),
      (.extractSizes, (s.timers_.filter fun entry => !beforeUpperBound s.clock entry).size ==
        ((s.expiredTimers s.clock).foldl
          (fun active timer => active.erase (s.object timer).id_) s.activeTimers_).size)] } := by
  simp only [handleRead, extractExpiredTimers, check, List.append_assoc, List.cons_append,
    List.nil_append]
  rfl

/-- `addTimerInLoop` adds no entry but that of its timer. -/
theorem pending_of_addTimerInLoop {id : ℕ} {q : π}
    (h : (s.addTimerInLoop id p).timers_.find? (toLex (e, q)) = some ()) :
    q = p ∨ s.timers_.find? (toLex (e, q)) = some () := by
  unfold addTimerInLoop at h
  dsimp only at h
  split at h
  · exact .inr h
  · have hfind : ∀ {expiration : ℤ},
        (s.timers_.emplace (toLex (expiration, p)) ()).find? (toLex (e, q)) = some () →
        q = p ∨ s.timers_.find? (toLex (e, q)) = some () := by
      intro expiration hq
      rw [SortedMap.find?_emplace_unit, toLex_inj, Prod.mk.injEq] at hq
      exact hq.imp_left And.right
    split_ifs at h
    · exact hfind h
    · exact hfind h

/-- `cancelTimerInLoop` adds no entry. -/
theorem pending_of_cancelTimerInLoop {timerId : TimerId π} {q : π}
    (h : (s.cancelTimerInLoop timerId).timers_.find? (toLex (e, q)) = some ()) :
    s.timers_.find? (toLex (e, q)) = some () := by
  unfold cancelTimerInLoop at h
  dsimp only at h
  split at h
  · split at h
    · exact h
    · split at h
      · exact h
      · rw [check, check, SortedMap.find?_erase] at h
        split_ifs at h
        exact h
  · split_ifs at h
    · exact h
    · exact h

/-- `addTimerInLoop` notes no cancellation. -/
theorem canceling_addTimerInLoop (s : TimerScheduler τ π) (id : ℕ) (p : π) :
    (s.addTimerInLoop id p).cancelingTimers_ = s.cancelingTimers_ := by
  unfold addTimerInLoop
  dsimp only
  split
  · rfl
  · split_ifs <;> rfl

/-- Cancelling one id leaves the others in `activeTimers_`. -/
theorem find?_cancelTimerInLoop_of_ne {timerId : TimerId π} {i : ℕ} (hi : i ≠ timerId.id) :
    (s.cancelTimerInLoop timerId).activeTimers_.find? i = s.activeTimers_.find? i := by
  unfold cancelTimerInLoop
  dsimp only
  split
  · split
    · rfl
    · split
      · rfl
      · rw [check, check, SortedMap.find?_erase, if_neg hi]
  · split_ifs <;> rfl

end Operations

section Add

variable {s : TimerScheduler τ π} {p : π} {e : ℤ}

/-- On the loop thread, the timer is in both containers when `addTimer` returns. -/
theorem returnId_loop_eq (he : (s.object p).expiration_ = some e) :
    ∃ fd, s.returnId .loop p = { s with
      timers_ := s.timers_.emplace (toLex (e, p)) ()
      activeTimers_ := s.activeTimers_.emplace (s.object p).id_ p
      timerfd_ := fd
      call := Function.update s.call .loop .idle
      returned := s.returned ++ [p]
      log := s.log ++ [.returned p]
      checks := s.checks ++ [(.addSizes, s.sameSize), (.value, true),
        (.timersInserted, (s.timers_.find? (toLex (e, p))).isNone),
        (.activeInserted, (s.activeTimers_.find? (s.object p).id_).isNone),
        (.addSizes, (s.timers_.emplace (toLex (e, p)) ()).size ==
          (s.activeTimers_.emplace (s.object p).id_ p).size)] } := by
  obtain ⟨fd, heq⟩ := addTimerInLoop_eq (s := { s with call := Function.update s.call .loop .idle })
    (s.object p).id_ he
  refine ⟨fd, ?_⟩
  rw [returnId, runInLoop, if_pos rfl, exec, heq]
  rfl

end Add

end TimerScheduler

end LouisNet.Timers
