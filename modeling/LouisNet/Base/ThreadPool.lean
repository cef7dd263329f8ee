import LouisNet.Lib.Mutex
import LouisNet.Lib.Run

set_option relaxedAutoImplicit false
set_option autoImplicit false

/-!
# The thread pool

The class `ThreadPool` of `src/base/ThreadPool.h`: any number of workers, any number of threads in
`submit`, and the thread in the destructor, each of which makes one access to what they share at a
time. A worker tests the predicate of `cv_.wait` with the mutex locked, and unlocks it and blocks in
one step; the destructor sets `stop_` and calls `notify_all` without the mutex. So a worker that has
read `stop_` before it was set, and found no task, blocks behind the notification and is never
woken.

## Main definitions

* `LouisNet.Base.ThreadPool` — the pool, with the places of its threads.
* `LouisNet.Base.ThreadPool.step` — one step of one thread.
* `LouisNet.Base.ThreadPool.Lost` — a worker is blocked behind the notification.
* `LouisNet.Base.ThreadPool.Misses` — a worker has tested its predicate and is about to block.

## Main results

* `LouisNet.Base.ThreadPool.tasks_ne_nil_of_taking` — a worker that takes a task finds one.
* `LouisNet.Base.ThreadPool.not_lost_of_orderly` — no notification is lost if no worker is about to
  block when the destructor calls `notify_all`, and otherwise it is.
-/

namespace LouisNet.Base

open Lib

namespace ThreadPool

/-- Where a worker is in its loop: before it locks the mutex; in the predicate before it reads
`stop_` and before it tests `tasks_`; behind the predicate, with the mutex still locked; blocked in
`cv_.wait`, and woken; behind `cv_.wait`; about to take a task; running it; at its end. -/
inductive Worker (α : Type*) where
  | locking
  | readingStop
  | testingTasks
  | releasing
  | blocked
  | notified
  | leaving
  | taking
  | running (task : α)
  | returned
  deriving DecidableEq, Repr

/-- Where a thread is in `submit`. -/
inductive Submitter (α : Type*) where
  | outside
  | locking (task : α)
  | testingStop (task : α)
  | adding (task : α)
  | notifying
  deriving DecidableEq, Repr

/-- Where the destructor is: not called, behind `stop_ = true`, and behind `cv_.notify_all()` with
some workers joined. -/
inductive Destructor where
  | outside
  | notifying
  | joining (joined : ℕ)
  deriving DecidableEq, Repr

/-- The next step of a worker; a spurious wake-up; a call of `submit`, its next step, and its last
one, `cv_.notify_one()`, with the worker that it wakes; and the steps of the destructor. A task that
calls `submit` is one more thread in `submit`. -/
inductive Input (n : ℕ) (α : Type*) where
  | worker (i : Fin n)
  | wake (i : Fin n)
  | submit (j : ℕ) (task : α)
  | submitter (j : ℕ)
  | notifyOne (j : ℕ) (woken : Option (Fin n))
  | stop
  | notifyAll
  | join
  deriving DecidableEq, Repr

namespace Worker

variable {α : Type*}

/-- The worker is blocked in `cv_.wait`. -/
def isBlocked : Worker α → Bool
  | .blocked => true
  | _ => false

/-- The thread of the worker has ended. -/
def isReturned : Worker α → Bool
  | .returned => true
  | _ => false

/-- The worker has locked the mutex. -/
def holds : Worker α → Bool
  | .readingStop | .testingTasks | .releasing | .leaving | .taking => true
  | .locking | .blocked | .notified | .running _ | .returned => false

/-- A blocked worker is woken. -/
def wake : Worker α → Worker α
  | .blocked => .notified
  | w => w

end Worker

/-- The thread has locked the mutex. -/
def Submitter.holds {α : Type*} : Submitter α → Bool
  | .testingStop _ | .adding _ => true
  | .outside | .locking _ | .notifying => false

/-- The destructor has called `notify_all`. -/
def Destructor.hasNotified : Destructor → Bool
  | .joining _ => true
  | .outside | .notifying => false

end ThreadPool

/-- `ThreadPool`, with the places of its threads. -/
structure ThreadPool (n : ℕ) (α : Type*) where
  workers_ : Fin n → ThreadPool.Worker α := fun _ => .locking
  tasks_ : List α := []
  mutex_ : Option (Fin n ⊕ ℕ) := none
  stop_ : Bool := false
  submitters : ℕ → ThreadPool.Submitter α := fun _ => .outside
  destructor : ThreadPool.Destructor := .outside

namespace ThreadPool

variable {n : ℕ} {α : Type*}

/-! ## Steps -/

/-- A worker is at a new place. -/
def setWorker (p : ThreadPool n α) (i : Fin n) (w : Worker α) : ThreadPool n α :=
  { p with workers_ := Function.update p.workers_ i w }

/-- A thread is at a new place in `submit`. -/
def setSubmitter (p : ThreadPool n α) (j : ℕ) (c : Submitter α) : ThreadPool n α :=
  { p with submitters := Function.update p.submitters j c }

/-- The next step of a worker. There is none while it is blocked, and none while the mutex that it
waits for is locked. A task that it runs may return at any time. -/
def workerStep (p : ThreadPool n α) (i : Fin n) : Option (ThreadPool n α) :=
  match p.workers_ i with
  | .locking | .notified =>
    Lib.assert (p.mutex_ = none) (some { p.setWorker i .readingStop with mutex_ := some (.inl i) })
  | .readingStop => some (p.setWorker i (if p.stop_ then .leaving else .testingTasks))
  | .testingTasks => some (p.setWorker i (if p.tasks_.isEmpty then .releasing else .leaving))
  | .releasing => some { p.setWorker i .blocked with mutex_ := none }
  | .blocked => none
  | .leaving =>
    if p.stop_ then some { p.setWorker i .returned with mutex_ := none }
    else some (p.setWorker i .taking)
  | .taking =>
    match p.tasks_ with
    | [] => none
    | task :: tasks => some { p.setWorker i (.running task) with tasks_ := tasks, mutex_ := none }
  | .running _ => some (p.setWorker i .locking)
  | .returned => none

/-- A thread calls `submit`. -/
def submit (p : ThreadPool n α) (j : ℕ) (task : α) : Option (ThreadPool n α) :=
  match p.submitters j with
  | .outside => some (p.setSubmitter j (.locking task))
  | _ => none

/-- The next step of a thread in `submit`, which throws if the pool is stopped. -/
def submitterStep (p : ThreadPool n α) (j : ℕ) : Option (ThreadPool n α) :=
  match p.submitters j with
  | .outside => none
  | .locking task =>
    Lib.assert (p.mutex_ = none)
      (some { p.setSubmitter j (.testingStop task) with mutex_ := some (.inr j) })
  | .testingStop task =>
    if p.stop_ then some { p.setSubmitter j .outside with mutex_ := none }
    else some (p.setSubmitter j (.adding task))
  | .adding task =>
    some { p.setSubmitter j .notifying with tasks_ := p.tasks_ ++ [task], mutex_ := none }
  | .notifying => none

/-- `cv_.notify_one()`: it wakes some blocked worker, if there is one. -/
def notifyOne (p : ThreadPool n α) (j : ℕ) (woken : Option (Fin n)) : Option (ThreadPool n α) :=
  match p.submitters j, woken with
  | .notifying, some i =>
    Lib.assert ((p.workers_ i).isBlocked = true)
      (some ((p.setSubmitter j .outside).setWorker i .notified))
  | .notifying, none =>
    Lib.assert (∀ i, (p.workers_ i).isBlocked = false) (some (p.setSubmitter j .outside))
  | _, _ => none

/-- `cv_.notify_all()` in the destructor. -/
def notifyAll (p : ThreadPool n α) : ThreadPool n α :=
  { p with workers_ := fun i => (p.workers_ i).wake, destructor := .joining 0 }

/-- `worker.join()`, for the next worker. -/
def join (p : ThreadPool n α) : Option (ThreadPool n α) :=
  match p.destructor with
  | .joining k =>
    if h : k < n then
      Lib.assert ((p.workers_ ⟨k, h⟩).isReturned = true)
        (some { p with destructor := .joining (k + 1) })
    else none
  | _ => none

/-- One step of one thread. -/
def step (p : ThreadPool n α) : Input n α → Option (ThreadPool n α)
  | .worker i => p.workerStep i
  | .wake i => Lib.assert ((p.workers_ i).isBlocked = true) (some (p.setWorker i .notified))
  | .submit j task => p.submit j task
  | .submitter j => p.submitterStep j
  | .notifyOne j woken => p.notifyOne j woken
  | .stop =>
    Lib.assert (p.destructor = .outside) (some { p with stop_ := true, destructor := .notifying })
  | .notifyAll => Lib.assert (p.destructor = .notifying) (some p.notifyAll)
  | .join => p.join

/-! ## Lost notifications -/

/-- **A lost notification**: the destructor has called `notify_all`, and a worker is blocked. -/
def Lost (p : ThreadPool n α) : Prop :=
  p.destructor.hasNotified = true ∧ ∃ i, p.workers_ i = .blocked

/-- The worker has read `stop_` before it was set and goes on to block: it is about to unlock the
mutex, or about to find that there is no task. -/
def Misses (p : ThreadPool n α) (i : Fin n) : Prop :=
  p.workers_ i = .releasing ∨ p.workers_ i = .testingTasks ∧ p.tasks_ = []

/-- **The steps that lose no notification**: no worker is about to block when the destructor calls
`notify_all`. -/
def Orderly (p : ThreadPool n α) : Input n α → Prop
  | .notifyAll => ∀ i, ¬ p.Misses i
  | _ => True

/-- What a worker relies on at its place: behind the predicate it holds that the pool is stopped or
there is a task, and it takes a task only if there is one; and behind `notify_all` no worker goes on
to block. -/
def Worker.Fine (notified stop : Bool) (tasks : List α) : Worker α → Prop
  | .testingTasks => notified = true → tasks ≠ []
  | .releasing | .blocked => notified = false
  | .leaving => stop = true ∨ tasks ≠ []
  | .taking => tasks ≠ []
  | .locking | .readingStop | .notified | .running _ | .returned => True

/-- Whether a thread has locked the mutex. -/
def holds (p : ThreadPool n α) : Fin n ⊕ ℕ → Bool :=
  Sum.elim (Worker.holds ∘ p.workers_) (Submitter.holds ∘ p.submitters)

/-- **The invariant of the pool**, of any run, and of one whose steps are orderly. -/
structure Invariant (orderly : Bool) (p : ThreadPool n α) : Prop where
  guarded : Guarded p.holds p.mutex_
  stopped : p.destructor ≠ .outside → p.stop_ = true
  fine : ∀ i, (p.workers_ i).Fine (orderly && p.destructor.hasNotified) p.stop_ p.tasks_

/-! ## What the invariant is kept by -/

section Fine

variable {notified notified' stop : Bool} {tasks tasks' : List α} {w : Worker α}

/-- A worker does not mind if there are more tasks. -/
theorem Worker.Fine.mono (h : w.Fine notified stop tasks) (hne : tasks ≠ [] → tasks' ≠ []) :
    w.Fine notified stop tasks' := by
  cases w with
  | testingTasks => exact fun hn => hne (h hn)
  | leaving => exact h.imp_right hne
  | taking => exact hne h
  | _ => exact h

/-- A worker without the mutex does not rely on the tasks. -/
theorem Worker.Fine.of_not_holds (h : w.Fine notified stop tasks) (hw : w.holds = false) :
    w.Fine notified stop tasks' := by
  cases w with
  | testingTasks => cases hw
  | leaving => cases hw
  | taking => cases hw
  | _ => exact h

/-- A worker does not mind if the pool is stopped. -/
theorem Worker.Fine.stopped (h : w.Fine notified stop tasks) : w.Fine notified true tasks := by
  cases w with
  | leaving => exact .inl rfl
  | _ => exact h

/-- A woken worker is where it should be, if it was not about to block. -/
theorem Worker.Fine.wake (h : w.Fine notified stop tasks)
    (hnotified : notified' = true → w ≠ .releasing ∧ (w = .testingTasks → tasks ≠ [])) :
    w.wake.Fine notified' stop tasks := by
  cases w with
  | testingTasks => exact fun hn => (hnotified hn).2 rfl
  | releasing => exact Bool.eq_false_iff.mpr fun hn => (hnotified hn).1 rfl
  | blocked => trivial
  | _ => exact h

/-- A worker holds the mutex after it is woken if it did before. -/
theorem Worker.holds_wake (w : Worker α) : w.wake.holds = w.holds := by
  cases w <;> rfl

end Fine

variable {p p' : ThreadPool n α} {i : Fin n} {j : ℕ} {w : Worker α} {c : Submitter α}

/-- The threads that hold the mutex when a worker has moved. -/
theorem holds_setWorker (p : ThreadPool n α) (i : Fin n) (w : Worker α) :
    (p.setWorker i w).holds = Function.update p.holds (.inl i) w.holds := by
  rw [holds, holds, Sum.update_elim_inl, setWorker, Function.comp_update]

/-- The threads that hold the mutex when a thread in `submit` has moved. -/
theorem holds_setSubmitter (p : ThreadPool n α) (j : ℕ) (c : Submitter α) :
    (p.setSubmitter j c).holds = Function.update p.holds (.inr j) c.holds := by
  rw [holds, holds, Sum.update_elim_inr, setSubmitter, Function.comp_update]

/-- A worker has moved to a place where it is fine, the others are where they were. -/
theorem fine_setWorker {notified stop : Bool} {tasks : List α}
    (h : ∀ k, k ≠ i → (p.workers_ k).Fine notified stop tasks) (hw : w.Fine notified stop tasks) :
    ∀ k, ((p.setWorker i w).workers_ k).Fine notified stop tasks := by
  intro k
  change (Function.update p.workers_ i w k).Fine notified stop tasks
  by_cases hk : k = i
  · rwa [hk, Function.update_self]
  · rw [Function.update_of_ne hk]
    exact h k hk

namespace Invariant

variable {orderly : Bool}

/-- A worker moves on without a change of the mutex. -/
theorem setWorker (h : Invariant orderly p) (hholds : w.holds = true → (p.workers_ i).holds = true)
    (hw : w.Fine (orderly && p.destructor.hasNotified) p.stop_ p.tasks_) :
    Invariant orderly (p.setWorker i w) where
  guarded := by
    rw [holds_setWorker]
    exact h.guarded.move hholds
  stopped := h.stopped
  fine := fine_setWorker (fun k _ => h.fine k) hw

/-- A worker locks the mutex. -/
theorem lockWorker (h : Invariant orderly p) (hfree : p.mutex_ = none) (hholds : w.holds = true)
    (hw : w.Fine (orderly && p.destructor.hasNotified) p.stop_ p.tasks_) :
    Invariant orderly { p.setWorker i w with mutex_ := some (.inl i) } where
  guarded := by
    change Guarded (p.setWorker i w).holds _
    rw [holds_setWorker, hholds]
    exact (hfree ▸ h.guarded).lock (.inl i)
  stopped := h.stopped
  fine := fine_setWorker (fun k _ => h.fine k) hw

/-- A worker unlocks the mutex, and may have taken a task. -/
theorem unlockWorker (h : Invariant orderly p) {tasks : List α} (hi : (p.workers_ i).holds = true)
    (hholds : w.holds = false) (hw : w.Fine (orderly && p.destructor.hasNotified) p.stop_ tasks) :
    Invariant orderly { p.setWorker i w with tasks_ := tasks, mutex_ := none } where
  guarded := by
    change Guarded (p.setWorker i w).holds _
    rw [holds_setWorker, hholds]
    exact h.guarded.unlock hi
  stopped := h.stopped
  fine := by
    refine fine_setWorker (fun k hk => (h.fine k).of_not_holds ?_) hw
    -- no other worker has the mutex, so none relies on the tasks
    by_contra hne
    have hk' : (p.workers_ k).holds = true := by simpa using hne
    have heq : (Sum.inl k : Fin n ⊕ ℕ) = .inl i := h.guarded.eq hk' hi
    exact hk (Sum.inl.inj heq)

/-- A thread in `submit` moves on without a change of the mutex. -/
theorem setSubmitter (h : Invariant orderly p)
    (hholds : c.holds = true → (p.submitters j).holds = true) :
    Invariant orderly (p.setSubmitter j c) where
  guarded := by
    rw [holds_setSubmitter]
    exact h.guarded.move hholds
  stopped := h.stopped
  fine := h.fine

/-- A thread in `submit` locks the mutex. -/
theorem lockSubmitter (h : Invariant orderly p) (hfree : p.mutex_ = none)
    (hholds : c.holds = true) :
    Invariant orderly { p.setSubmitter j c with mutex_ := some (.inr j) } where
  guarded := by
    change Guarded (p.setSubmitter j c).holds _
    rw [holds_setSubmitter, hholds]
    exact (hfree ▸ h.guarded).lock (.inr j)
  stopped := h.stopped
  fine := h.fine

/-- A thread in `submit` unlocks the mutex, and may have added a task. -/
theorem unlockSubmitter (h : Invariant orderly p) {tasks : List α}
    (hj : (p.submitters j).holds = true) (hholds : c.holds = false)
    (htasks : p.tasks_ ≠ [] → tasks ≠ []) :
    Invariant orderly { p.setSubmitter j c with tasks_ := tasks, mutex_ := none } where
  guarded := by
    change Guarded (p.setSubmitter j c).holds _
    rw [holds_setSubmitter, hholds]
    exact h.guarded.unlock hj
  stopped := h.stopped
  fine := fun k => (h.fine k).mono htasks

/-! ## Steps and runs -/

/-- A worker keeps the invariant, by cases on its place. -/
theorem workerStep (h : Invariant orderly p) (hstep : p.workerStep i = some p') :
    Invariant orderly p' := by
  have hfine := h.fine i
  unfold ThreadPool.workerStep at hstep
  cases hi : p.workers_ i with
  | locking =>
    simp only [hi, assert_eq_some_iff, Option.some.injEq] at hstep
    obtain ⟨hfree, rfl⟩ := hstep
    exact h.lockWorker hfree rfl trivial
  | notified =>
    simp only [hi, assert_eq_some_iff, Option.some.injEq] at hstep
    obtain ⟨hfree, rfl⟩ := hstep
    exact h.lockWorker hfree rfl trivial
  | readingStop =>
    simp only [hi, Option.some.injEq] at hstep
    subst hstep
    split_ifs with hstop
    · exact h.setWorker (by simp [hi, Worker.holds]) (.inl hstop)
    · refine h.setWorker (by simp [hi, Worker.holds]) fun hn => ?_
      -- behind `notify_all` the pool is stopped
      refine absurd (h.stopped fun hout => ?_) hstop
      simp [hout, Destructor.hasNotified] at hn
  | testingTasks =>
    simp only [hi, Option.some.injEq] at hstep
    subst hstep
    rw [hi] at hfine
    split_ifs with htasks
    · refine h.setWorker (by simp [hi, Worker.holds]) (Bool.eq_false_iff.mpr fun hn => ?_)
      exact hfine hn (List.isEmpty_iff.mp htasks)
    · refine h.setWorker (by simp [hi, Worker.holds]) (.inr ?_)
      simpa using htasks
  | releasing =>
    simp only [hi, Option.some.injEq] at hstep
    subst hstep
    rw [hi] at hfine
    exact h.unlockWorker (by rw [hi]; rfl) rfl hfine
  | blocked => simp [hi] at hstep
  | leaving =>
    simp only [hi] at hstep
    rw [hi] at hfine
    split_ifs at hstep with hstop
    · obtain rfl := Option.some.inj hstep
      exact h.unlockWorker (by rw [hi]; rfl) rfl trivial
    · obtain rfl := Option.some.inj hstep
      exact h.setWorker (by simp [hi, Worker.holds]) (hfine.resolve_left hstop)
  | taking =>
    simp only [hi] at hstep
    split at hstep
    · cases hstep
    · obtain rfl := Option.some.inj hstep
      exact h.unlockWorker (by rw [hi]; rfl) rfl trivial
  | running task =>
    simp only [hi, Option.some.injEq] at hstep
    subst hstep
    exact h.setWorker (by simp [Worker.holds]) trivial
  | returned => simp [hi] at hstep

/-- A thread in `submit` keeps the invariant. -/
theorem submitterStep (h : Invariant orderly p) (hstep : p.submitterStep j = some p') :
    Invariant orderly p' := by
  unfold ThreadPool.submitterStep at hstep
  cases hj : p.submitters j with
  | outside => simp [hj] at hstep
  | locking task =>
    simp only [hj, assert_eq_some_iff, Option.some.injEq] at hstep
    obtain ⟨hfree, rfl⟩ := hstep
    exact h.lockSubmitter hfree rfl
  | testingStop task =>
    simp only [hj] at hstep
    split_ifs at hstep
    · obtain rfl := Option.some.inj hstep
      exact h.unlockSubmitter (by rw [hj]; rfl) rfl id
    · obtain rfl := Option.some.inj hstep
      exact h.setSubmitter (by simp [hj, Submitter.holds])
  | adding task =>
    simp only [hj, Option.some.injEq] at hstep
    subst hstep
    exact h.unlockSubmitter (by rw [hj]; rfl) rfl (by simp)
  | notifying => simp [hj] at hstep

/-- `notify_one` keeps the invariant. -/
theorem notifyOne {woken : Option (Fin n)} (h : Invariant orderly p)
    (hstep : p.notifyOne j woken = some p') : Invariant orderly p' := by
  unfold ThreadPool.notifyOne at hstep
  split at hstep
  · obtain ⟨-, hstep⟩ := assert_eq_some_iff.mp hstep
    obtain rfl := Option.some.inj hstep
    exact (h.setSubmitter (by simp [Submitter.holds])).setWorker (by simp [Worker.holds]) trivial
  · obtain ⟨-, hstep⟩ := assert_eq_some_iff.mp hstep
    obtain rfl := Option.some.inj hstep
    exact h.setSubmitter (by simp [Submitter.holds])
  · cases hstep

/-- `notify_all` keeps the invariant, if no worker is about to block. -/
theorem notifyAll (h : Invariant orderly p) (hnotifying : p.destructor = .notifying)
    (hok : orderly = true → ∀ i, ¬ p.Misses i) : Invariant orderly p.notifyAll where
  guarded := by
    have hholds : Worker.holds ∘ (fun i => (p.workers_ i).wake) = Worker.holds ∘ p.workers_ :=
      funext fun i => (p.workers_ i).holds_wake
    rw [holds, ThreadPool.notifyAll, hholds]
    exact h.guarded
  stopped := fun _ => h.stopped (by simp [hnotifying])
  fine := fun i => by
    refine (h.fine i).wake fun horderly => ?_
    have hmisses := hok (Bool.and_eq_true_iff.mp horderly).1 i
    exact ⟨fun hi => hmisses (.inl hi), fun hi htasks => hmisses (.inr ⟨hi, htasks⟩)⟩

/-- **A step keeps the invariant**, an orderly one that of an orderly run. -/
theorem step {input : Input n α} (h : Invariant orderly p) (hstep : p.step input = some p')
    (hok : orderly = true → p.Orderly input) : Invariant orderly p' := by
  cases input with
  | worker i => exact h.workerStep hstep
  | wake i =>
    obtain ⟨-, hstep⟩ := assert_eq_some_iff.mp hstep
    obtain rfl := Option.some.inj hstep
    exact h.setWorker (by simp [Worker.holds]) trivial
  | submit j task =>
    change p.submit j task = some p' at hstep
    unfold ThreadPool.submit at hstep
    split at hstep
    · obtain rfl := Option.some.inj hstep
      exact h.setSubmitter (by simp [Submitter.holds])
    · cases hstep
  | submitter j => exact h.submitterStep hstep
  | notifyOne j woken => exact h.notifyOne hstep
  | stop =>
    obtain ⟨hout, hstep⟩ := assert_eq_some_iff.mp hstep
    obtain rfl := Option.some.inj hstep
    refine ⟨h.guarded, fun _ => rfl, fun i => ?_⟩
    have hfine := h.fine i
    rw [hout] at hfine
    exact Worker.Fine.stopped hfine
  | notifyAll =>
    obtain ⟨hnotifying, hstep⟩ := assert_eq_some_iff.mp hstep
    obtain rfl := Option.some.inj hstep
    exact h.notifyAll hnotifying hok
  | join =>
    change p.join = some p' at hstep
    unfold ThreadPool.join at hstep
    split at hstep
    · rename_i k hk
      split_ifs at hstep
      obtain ⟨-, hstep⟩ := assert_eq_some_iff.mp hstep
      obtain rfl := Option.some.inj hstep
      refine ⟨h.guarded, fun _ => h.stopped (by simp [hk]), fun i => ?_⟩
      have hfine := h.fine i
      rwa [hk] at hfine
    · cases hstep

/-- The invariant holds before any thread has taken a step. -/
theorem init : Invariant orderly ({} : ThreadPool n α) where
  guarded := fun t ht => by
    cases t with
    | inl i => cases ht
    | inr j => cases ht
  stopped := fun h => absurd rfl h
  fine := fun _ => trivial

end Invariant

/-- **In every run a worker that takes a task finds one.** -/
theorem tasks_ne_nil_of_taking {inputs : List (Input n α)} (hrun : Lib.run step {} inputs = some p)
    (hi : p.workers_ i = .taking) : p.tasks_ ≠ [] := by
  have hinv : Invariant false p :=
    run_invariant (fun hstep h => Invariant.step h hstep (by simp)) hrun Invariant.init
  have hfine := hinv.fine i
  rwa [hi] at hfine

/-- A worker that unlocks the mutex behind `notify_all` is lost. -/
theorem lost_of_releasing (hi : p.workers_ i = .releasing) (hjoining : p.destructor = .joining 0) :
    ∃ p', p.step (.worker i) = some p' ∧ p'.Lost := by
  refine ⟨{ p.setWorker i .blocked with mutex_ := none }, ?_, ?_, i, ?_⟩
  · simp [step, workerStep, hi]
  · simp [setWorker, hjoining, Destructor.hasNotified]
  · simp [setWorker]

/-- A worker that is about to block when `notify_all` is called blocks behind it. -/
theorem lost_of_misses (hnotifying : p.destructor = .notifying) (hi : p.Misses i) :
    ∃ inputs p', Lib.run step p (.notifyAll :: inputs) = some p' ∧ p'.Lost := by
  have hnotify : p.step .notifyAll = some p.notifyAll :=
    assert_eq_some_iff.mpr ⟨hnotifying, rfl⟩
  rcases hi with hi | ⟨hi, htasks⟩
  · obtain ⟨p', hp', hlost⟩ := lost_of_releasing (p := p.notifyAll) (i := i)
      (by simp [notifyAll, hi, Worker.wake]) rfl
    exact ⟨[.worker i], p', by simp [Lib.run, hnotify, hp'], hlost⟩
  · have htest : p.notifyAll.step (.worker i) = some (p.notifyAll.setWorker i .releasing) := by
      simp [step, workerStep, notifyAll, hi, Worker.wake, htasks]
    obtain ⟨p', hp', hlost⟩ := lost_of_releasing (p := p.notifyAll.setWorker i .releasing) (i := i)
      (by simp [setWorker]) rfl
    exact ⟨[.worker i, .worker i], p', by simp [Lib.run, hnotify, htest, hp'], hlost⟩

/-- **No notification is lost** in a run in which no worker is about to block when the destructor
calls `notify_all`, for any number of workers and in any order of the steps: behind `notify_all` no
worker is blocked. And if a worker is about to block then, it can block behind the notification.

**Proof sketch.** Only a worker that has read `stop_` before it was set goes on to block. When
`notify_all` is called `stop_` is set, so from then on the only such workers are those that are on
their way already; `notify_all` wakes the blocked ones, and by mutual exclusion no task is taken
away from a worker that is about to test `tasks_`. -/
theorem not_lost_of_orderly {inputs : List (Input n α)} (hrun : Lib.run step {} inputs = some p) :
    (Along step Orderly {} inputs → ¬ p.Lost) ∧
    (p.destructor = .notifying → ∀ i, p.Misses i →
      ∃ inputs' p', Lib.run step p (.notifyAll :: inputs') = some p' ∧ p'.Lost) := by
  refine ⟨fun hok => ?_, fun hnotifying i hi => lost_of_misses hnotifying hi⟩
  have hinv : Invariant true p :=
    Along.invariant (fun hstep hok h => Invariant.step h hstep fun _ => hok) hok hrun Invariant.init
  rintro ⟨hnotified, i, hi⟩
  have hfine := hinv.fine i
  rw [hi] at hfine
  exact absurd hnotified (Bool.eq_false_iff.mp hfine)

instance (p : ThreadPool n α) [DecidableEq α] (i : Fin n) : Decidable (p.Misses i) :=
  inferInstanceAs (Decidable (_ ∨ _))

instance (p : ThreadPool n α) [DecidableEq α] : (input : Input n α) → Decidable (p.Orderly input)
  | .notifyAll => inferInstanceAs (Decidable (∀ i, ¬ p.Misses i))
  | .worker _ | .wake _ | .submit _ _ | .submitter _ | .notifyOne _ _ | .stop | .join =>
    inferInstanceAs (Decidable True)

/-- One of two workers blocks, is woken for a task, runs it and blocks again; the pool is
destroyed. -/
def shutdownRun : List (Input 2 ℕ) :=
  [.worker 0, .worker 0, .worker 0, .worker 0, .submit 0 7, .submitter 0, .submitter 0,
    .submitter 0, .notifyOne 0 (some 0), .worker 0, .worker 0, .worker 0, .worker 0, .worker 0,
    .worker 0, .worker 0, .worker 0, .worker 0, .worker 0, .stop, .notifyAll, .worker 0, .worker 0,
    .worker 0, .join, .worker 1, .worker 1, .worker 1, .join]

/-- Both workers are joined. -/
theorem not_lost_of_orderly_shutdown : ∃ p, Lib.run step {} shutdownRun = some p ∧
    p.destructor = .joining 2 ∧ ¬ p.Lost := by
  have hrun : (Lib.run step {} shutdownRun).map ThreadPool.destructor = some (.joining 2) := by
    decide
  obtain ⟨p, hp, hdestructor⟩ := Option.map_eq_some_iff.mp hrun
  exact ⟨p, hp, hdestructor, (not_lost_of_orderly hp).1 (by decide)⟩

/-- A worker has tested its predicate when the pool is stopped, and blocks behind `notify_all`; the
destructor cannot join it. -/
theorem lost_between_test_and_block : ∃ p : ThreadPool 1 ℕ,
    Lib.run step {} [.worker 0, .worker 0, .worker 0, .stop, .notifyAll, .worker 0] = some p ∧
      p.Lost ∧ p.join = none := by
  have hrun : (Lib.run step ({} : ThreadPool 1 ℕ) [.worker 0, .worker 0, .worker 0, .stop,
      .notifyAll, .worker 0]).map (fun p => (p.destructor, p.workers_ 0, p.join.isNone)) =
        some (.joining 0, .blocked, true) := by decide
  obtain ⟨p, hp, hfields⟩ := Option.map_eq_some_iff.mp hrun
  simp only [Prod.mk.injEq] at hfields
  obtain ⟨hdestructor, hblocked, hjoin⟩ := hfields
  exact ⟨p, hp, ⟨by rw [hdestructor]; rfl, 0, hblocked⟩, Option.isNone_iff_eq_none.mp hjoin⟩

end ThreadPool

end LouisNet.Base
