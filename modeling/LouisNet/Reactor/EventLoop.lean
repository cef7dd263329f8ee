import LouisNet.Lib.Run

set_option relaxedAutoImplicit false
set_option autoImplicit false

/-!
# The event loop

The class `EventLoop` of `src/net/reactor/EventLoop.cc`, in steps that other threads may come
between: the loop thread goes through `loop` and `doPendingFunctors`, and `queueInLoop` is a push
under the mutex followed by a wakeup. Functors are elements of an arbitrary type, handlers and
functors may call `queueInLoop` and `quit` themselves, and no functor throws.

The functors pushed are numbered in the order of the pushes. They are executed in this order, and
the loop does not sleep on work whose wakeup was lost. A functor that waits when the loop ends is
lost: it was pushed behind the last swap, and `quit` was called before the next test of `quit_`.

## Main definitions

* `LouisNet.Reactor.EventLoop` — the loop, its counter for wakeups and the calls in progress.
* `LouisNet.Reactor.EventLoop.step` — one step of one thread.
* `LouisNet.Reactor.EventLoop.Invariant` — queue, counter and flag agree with the loop thread.

## Main results

* `LouisNet.Reactor.EventLoop.executed_prefix_and_woken` — order, and no lost wakeup.
* `LouisNet.Reactor.EventLoop.executed_before_return_iff` — when nothing is lost at the end.
-/

namespace LouisNet.Reactor

open Lib

/-- The threads of the program: the thread of the loop, and others. -/
inductive Thread (τ : Type*) where
  | loop
  | other (t : τ)
  deriving DecidableEq, Repr

/-- Where the loop thread is. -/
inductive Pc (F : Type*) where
  /-- outside `loop`, which has not been called yet -/
  | idle
  /-- before the test of `quit_` -/
  | test
  /-- at the entry of `poll` -/
  | poll
  /-- at the active channels, with the event channel still to be handled or not -/
  | handling (active : Bool)
  /-- in `doPendingFunctors`, before the swap -/
  | swap
  /-- behind the swap, with the functors of the batch that have not been started -/
  | running (batch : List F)
  /-- `loop` has returned -/
  | exited
  deriving DecidableEq, Repr

/-- The functors taken out of `tasks_` and not started yet. -/
def Pc.batch {F : Type*} : Pc F → List F
  | .running batch => batch
  | _ => []

/-- The loop thread runs code of the user, which may call the loop. -/
def Pc.userCode {F : Type*} : Pc F → Bool
  | .idle => true
  | .handling _ => true
  | .running _ => true
  | .exited => true
  | _ => false

/-- The loop thread has tested `quit_` and will swap before the next test. -/
def Pc.beforeSwap {F : Type*} : Pc F → Bool
  | .poll => true
  | .handling _ => true
  | .swap => true
  | _ => false

/-- `EventLoop`, with the threads that call it. -/
structure EventLoop (τ F : Type*) where
  pc : Pc F := .idle
  quit_ : Bool := false
  tasks_ : List F := []
  callingPendingFunctors_ : Bool := false
  /-- The counter behind `eventfd_`. -/
  eventfd : ℕ := 0
  /-- The number of the functor that a thread has pushed in a call of `queueInLoop` that is still
  to write the wakeup. -/
  waking : Thread τ → Option ℕ := fun _ => none
  /-- The iterations of `loop` that are complete. -/
  iterations : ℕ := 0
  /-- The functors executed, oldest first. -/
  executed : List F := []
  /-- The functors pushed, oldest first. -/
  pushed : List F := []

namespace EventLoop

variable {τ F : Type*} [DecidableEq τ]

/-! ## Steps -/

/-- The largest value of the counter behind an `eventfd`. -/
def eventfdMax : ℕ := 2 ^ 64 - 2

omit [DecidableEq τ] in
/-- `EventLoop::wakeup`. A write that would exceed the largest value fails. -/
def wakeup (s : EventLoop τ F) : EventLoop τ F :=
  { s with eventfd := min (s.eventfd + 1) eventfdMax }

omit [DecidableEq τ] in
/-- `EventLoop::handleRead`. -/
def handleRead (s : EventLoop τ F) : EventLoop τ F := { s with eventfd := 0 }

/-- The steps of the program. -/
inductive Step (τ F : Type*) where
  /-- a call of `queueInLoop` pushes its functor and decides about the wakeup -/
  | push (t : Thread τ) (cb : F)
  /-- a call of `queueInLoop` writes the wakeup and returns -/
  | wakeup (t : Thread τ)
  | quit (t : Thread τ)
  /-- `loop` is called -/
  | enter
  /-- `quit_` is tested -/
  | test
  /-- `poll` returns, with the event channel among the active channels or not -/
  | poll (active : Bool)
  /-- the event channel is handled -/
  | handleRead
  /-- all active channels are handled, and `doPendingFunctors` is called -/
  | doPendingFunctors
  | swap
  /-- the next functor of the batch is executed -/
  | runTask
  /-- `doPendingFunctors` returns -/
  | endTasks
  deriving DecidableEq, Repr

/-- The code of the user can make a call on a thread. -/
def CanCall (s : EventLoop τ F) (t : Thread τ) : Prop :=
  s.waking t = none ∧ (t = .loop → s.pc.userCode = true)

instance (s : EventLoop τ F) (t : Thread τ) : Decidable (s.CanCall t) :=
  inferInstanceAs (Decidable (_ ∧ _))

/-- `EventLoop::queueInLoop` up to the wakeup, which is written by other threads, and by the loop
thread while functors run. -/
def queueInLoop (s : EventLoop τ F) (t : Thread τ) (cb : F) : EventLoop τ F :=
  { s with
    tasks_ := s.tasks_ ++ [cb]
    pushed := s.pushed ++ [cb]
    waking := Function.update s.waking t
      (if t ≠ .loop ∨ s.callingPendingFunctors_ = true then some s.pushed.length else none) }

omit [DecidableEq τ] in
/-- One step of the loop thread through `loop` and `doPendingFunctors`. -/
def loopStep (s : EventLoop τ F) (step : Step τ F) : Option (EventLoop τ F) :=
  match s.pc, step with
  | .idle, .enter => some { s with pc := .test }
  | .test, .test => some { s with pc := if s.quit_ = true then .exited else .poll }
  | .poll, .poll active =>
    assert (active = true → s.eventfd ≠ 0) <| some { s with pc := .handling active }
  | .handling true, .handleRead => some { s.handleRead with pc := .handling false }
  | .handling false, .doPendingFunctors =>
    some { s with callingPendingFunctors_ := true, pc := .swap }
  | .swap, .swap => some { s with pc := .running s.tasks_, tasks_ := [] }
  | .running (task :: tasks), .runTask =>
    some { s with pc := .running tasks, executed := s.executed ++ [task] }
  | .running [], .endTasks =>
    some { s with callingPendingFunctors_ := false, iterations := s.iterations + 1, pc := .test }
  | _, _ => none

/-- One step of one thread. A thread in a call of `queueInLoop` writes its wakeup first. -/
def step (s : EventLoop τ F) : Step τ F → Option (EventLoop τ F)
  | .push t cb => assert (s.CanCall t) <| some (s.queueInLoop t cb)
  | .wakeup t =>
    assert ((s.waking t).isSome = true) <|
    some { s.wakeup with waking := Function.update s.waking t none }
  | .quit t => assert (s.CanCall t) <| some { s with quit_ := true }
  | step => assert (s.waking .loop = none) <| s.loopStep step

/-- What a step does, one case for each kind of step. -/
inductive Next (s : EventLoop τ F) : EventLoop τ F → Prop where
  | push (t : Thread τ) (cb : F) (h : s.CanCall t) : Next s (s.queueInLoop t cb)
  | wakeup (t : Thread τ) :
    Next s { s.wakeup with waking := Function.update s.waking t none }
  | quit : Next s { s with quit_ := true }
  | enter (h : s.pc = .idle) : Next s { s with pc := .test }
  | exit (h : s.pc = .test) (hquit : s.quit_ = true) : Next s { s with pc := .exited }
  | iterate (h : s.pc = .test) (hquit : s.quit_ = false) : Next s { s with pc := .poll }
  | poll (active : Bool) (h : s.pc = .poll) : Next s { s with pc := .handling active }
  | handleRead (h : s.pc = .handling true) : Next s { s.handleRead with pc := .handling false }
  | doPendingFunctors (h : s.pc = .handling false) :
    Next s { s with callingPendingFunctors_ := true, pc := .swap }
  | swap (h : s.pc = .swap) : Next s { s with pc := .running s.tasks_, tasks_ := [] }
  | runTask (task : F) (tasks : List F) (h : s.pc = .running (task :: tasks)) :
    Next s { s with pc := .running tasks, executed := s.executed ++ [task] }
  | endTasks (h : s.pc = .running []) (hwaking : s.waking .loop = none) : Next s { s with
      callingPendingFunctors_ := false, iterations := s.iterations + 1, pc := .test }

/-- The steps of the loop thread are among them. -/
theorem next_of_loopStep {s s' : EventLoop τ F} {a : Step τ F}
    (hwaking : s.waking .loop = none) (h : s.loopStep a = some s') : Next s s' := by
  unfold loopStep at h
  split at h
  · rename_i hpc
    exact Option.some.inj h ▸ .enter hpc
  · rename_i hpc
    obtain rfl := Option.some.inj h
    split_ifs with hquit
    · exact .exit hpc hquit
    · exact .iterate hpc (by simpa using hquit)
  · rename_i hpc
    obtain ⟨-, hs'⟩ := assert_eq_some_iff.mp h
    exact Option.some.inj hs' ▸ .poll _ hpc
  · rename_i hpc
    exact Option.some.inj h ▸ .handleRead hpc
  · rename_i hpc
    exact Option.some.inj h ▸ .doPendingFunctors hpc
  · rename_i hpc
    exact Option.some.inj h ▸ .swap hpc
  · rename_i hpc
    exact Option.some.inj h ▸ .runTask _ _ hpc
  · rename_i hpc
    exact Option.some.inj h ▸ .endTasks hpc hwaking
  · cases h

/-- A step is one of the cases. -/
theorem next_of_step {s s' : EventLoop τ F} {a : Step τ F} (h : s.step a = some s') :
    Next s s' := by
  unfold step at h
  split at h
  · obtain ⟨hcall, hs'⟩ := assert_eq_some_iff.mp h
    exact Option.some.inj hs' ▸ .push _ _ hcall
  · obtain ⟨-, hs'⟩ := assert_eq_some_iff.mp h
    exact Option.some.inj hs' ▸ .wakeup _
  · obtain ⟨-, hs'⟩ := assert_eq_some_iff.mp h
    exact Option.some.inj hs' ▸ .quit
  · obtain ⟨hwaking, hs'⟩ := assert_eq_some_iff.mp h
    exact next_of_loopStep hwaking hs'

/-! ## The task queue -/

/-- A wakeup has been written and not read, or is about to be written. -/
def Woken (s : EventLoop τ F) : Prop := s.eventfd ≠ 0 ∨ ∃ t, (s.waking t).isSome = true

/-- The loop thread goes to `poll` without a swap in between, and not for the first time. -/
def Covered (s : EventLoop τ F) : Prop :=
  match s.pc with
  | .test => 0 < s.iterations
  | .poll => 0 < s.iterations
  | .running _ => True
  | _ => False

/-- **The invariant**: what has been executed, what is in the batch and what waits are the functors
pushed, in this order; the flag is set while `doPendingFunctors` runs; and between a swap and the
next `poll` a functor that waits has its wakeup. -/
structure Invariant (s : EventLoop τ F) : Prop where
  order : s.executed ++ s.pc.batch ++ s.tasks_ = s.pushed
  calling : s.pc = .swap ∨ (∃ batch, s.pc = .running batch) → s.callingPendingFunctors_ = true
  first : s.pc = .idle → s.iterations = 0
  woken : s.Covered → s.tasks_ ≠ [] → s.Woken

omit [DecidableEq τ] in
/-- A new loop. -/
theorem invariant_new : ({} : EventLoop τ F).Invariant where
  order := rfl
  calling := by simp
  first := fun _ => rfl
  woken := fun h => h.elim

/-- A functor pushed between a swap and the next `poll` comes with a wakeup: the push is made by
another thread, or by a functor. -/
theorem Invariant.woken_queueInLoop {s : EventLoop τ F} (hs : s.Invariant) {t : Thread τ}
    (hcall : s.CanCall t) (hcovered : s.Covered) (cb : F) : (s.queueInLoop t cb).Woken := by
  have hwakes : t ≠ .loop ∨ s.callingPendingFunctors_ = true := by
    by_cases ht : t = .loop
    · right
      have huser := hcall.2 ht
      unfold Covered at hcovered
      cases hpc : s.pc with
      | running batch => exact hs.calling (.inr ⟨batch, hpc⟩)
      | test => simp [hpc, Pc.userCode] at huser
      | poll => simp [hpc, Pc.userCode] at huser
      | _ => simp [hpc] at hcovered
    · exact .inl ht
  right
  refine ⟨t, ?_⟩
  simp [queueInLoop, hwakes]

/-- **One step keeps the invariant.** -/
theorem Invariant.next {s s' : EventLoop τ F} (hs : s.Invariant) (h : Next s s') :
    s'.Invariant := by
  have horder := hs.order
  have hwoken := hs.woken
  cases h with
  | push t cb hcall =>
    refine ⟨?_, hs.calling, hs.first, fun hcovered _ => hs.woken_queueInLoop hcall hcovered cb⟩
    show s.executed ++ s.pc.batch ++ (s.tasks_ ++ [cb]) = s.pushed ++ [cb]
    rw [← List.append_assoc, horder]
  | wakeup t =>
    refine ⟨horder, hs.calling, hs.first, fun _ _ => .inl ?_⟩
    show min (s.eventfd + 1) eventfdMax ≠ 0
    unfold eventfdMax
    omega
  | quit => exact ⟨horder, hs.calling, hs.first, hwoken⟩
  | enter h =>
    rw [h] at horder
    refine ⟨horder, by simp, nofun, fun hcovered => ?_⟩
    have hpos : 0 < s.iterations := hcovered
    have hzero := hs.first h
    omega
  | exit h hquit =>
    rw [h] at horder
    exact ⟨horder, by simp, nofun, fun hcovered => hcovered.elim⟩
  | iterate h hquit =>
    rw [h] at horder
    refine ⟨horder, by simp, nofun, fun hcovered => hwoken ?_⟩
    simpa [Covered, h] using hcovered
  | poll active h =>
    rw [h] at horder
    exact ⟨horder, by simp, nofun, fun hcovered => hcovered.elim⟩
  | handleRead h =>
    rw [h] at horder
    exact ⟨horder, by simp, nofun, fun hcovered => hcovered.elim⟩
  | doPendingFunctors h =>
    rw [h] at horder
    exact ⟨horder, fun _ => rfl, nofun, fun hcovered => hcovered.elim⟩
  | swap h =>
    rw [h] at horder
    refine ⟨?_, fun _ => hs.calling (.inl h), nofun, fun _ hne => absurd rfl hne⟩
    simpa [Pc.batch] using horder
  | runTask task tasks h =>
    rw [h] at horder
    refine ⟨?_, fun _ => hs.calling (.inr ⟨_, h⟩), nofun, fun _ => hwoken (by simp [Covered, h])⟩
    simpa [Pc.batch] using horder
  | endTasks h =>
    rw [h] at horder
    exact ⟨horder, by simp, nofun, fun _ => hwoken (by simp [Covered, h])⟩

/-- **A run keeps the invariant.** -/
theorem invariant_run {steps : List (Step τ F)} {s : EventLoop τ F}
    (h : run step {} steps = some s) : s.Invariant :=
  run_invariant (fun hstep hs => hs.next (next_of_step hstep)) h invariant_new

/-- The functor with the number `i` was pushed by a call of `queueInLoop` that has returned. -/
def Returned (s : EventLoop τ F) (i : ℕ) : Prop :=
  i < s.pushed.length ∧ ∀ t, s.waking t ≠ some i

/-- The functor with the number `i` is in `tasks_`. -/
def Waits (s : EventLoop τ F) (i : ℕ) : Prop :=
  s.executed.length + s.pc.batch.length ≤ i ∧ i < s.pushed.length

/-- `quit` has been called, and the functors before the number `n` are executed before `loop`
returns: they are behind the swap, or the swap is still to come. -/
def Saved (n : ℕ) (s : EventLoop τ F) : Prop :=
  s.Invariant ∧ s.quit_ = true ∧ n ≤ s.pushed.length ∧
    (s.pc.beforeSwap = true ∨ n ≤ s.executed.length + s.pc.batch.length)

/-- One step keeps what will be executed. -/
theorem Saved.next {n : ℕ} {s s' : EventLoop τ F} (hs : s.Saved n) (h : Next s s') :
    s'.Saved n := by
  obtain ⟨hinv, hquit, hpushed, hsaved⟩ := hs
  have hinv' := hinv.next h
  cases h with
  | push t cb hcall =>
    refine ⟨hinv', hquit, ?_, hsaved⟩
    show n ≤ (s.pushed ++ [cb]).length
    rw [List.length_append]
    omega
  | wakeup t => exact ⟨hinv', hquit, hpushed, hsaved⟩
  | quit => exact ⟨hinv', rfl, hpushed, hsaved⟩
  | enter h =>
    exact ⟨hinv', hquit, hpushed, .inr (by simpa [h, Pc.beforeSwap, Pc.batch] using hsaved)⟩
  | exit h =>
    exact ⟨hinv', hquit, hpushed, .inr (by simpa [h, Pc.beforeSwap, Pc.batch] using hsaved)⟩
  | iterate h hno => simp [hno] at hquit
  | poll active h => exact ⟨hinv', hquit, hpushed, .inl rfl⟩
  | handleRead h => exact ⟨hinv', hquit, hpushed, .inl rfl⟩
  | doPendingFunctors h => exact ⟨hinv', hquit, hpushed, .inl rfl⟩
  | swap h =>
    refine ⟨hinv', hquit, hpushed, .inr ?_⟩
    have hlength := congrArg List.length hinv'.order
    simp only [Pc.batch, List.append_nil, List.length_append] at hlength ⊢
    omega
  | runTask task tasks h =>
    refine ⟨hinv', hquit, hpushed, .inr ?_⟩
    simp only [h, Pc.beforeSwap, Bool.false_eq_true, false_or, Pc.batch, List.length_cons] at hsaved
    simp only [Pc.batch, List.length_append, List.length_cons, List.length_nil]
    omega
  | endTasks h =>
    exact ⟨hinv', hquit, hpushed, .inr (by simpa [h, Pc.beforeSwap, Pc.batch] using hsaved)⟩

/-- `quit` has been called behind the swap, and `n` functors are executed before `loop` returns. -/
def Final (n : ℕ) (s : EventLoop τ F) : Prop :=
  s.quit_ = true ∧ s.pc.beforeSwap = false ∧ s.executed.length + s.pc.batch.length = n

/-- One step keeps the number of functors to be executed. -/
theorem Final.next {n : ℕ} {s s' : EventLoop τ F} (hs : s.Final n) (h : Next s s') :
    s'.Final n := by
  obtain ⟨hquit, hbehind, hn⟩ := hs
  cases h with
  | push t cb hcall => exact ⟨hquit, hbehind, hn⟩
  | wakeup t => exact ⟨hquit, hbehind, hn⟩
  | quit => exact ⟨rfl, hbehind, hn⟩
  | enter h => exact ⟨hquit, rfl, by simpa [h, Pc.batch] using hn⟩
  | exit h => exact ⟨hquit, rfl, by simpa [h, Pc.batch] using hn⟩
  | iterate h hno => simp [hno] at hquit
  | poll active h => simp [h, Pc.beforeSwap] at hbehind
  | handleRead h => simp [h, Pc.beforeSwap] at hbehind
  | doPendingFunctors h => simp [h, Pc.beforeSwap] at hbehind
  | swap h => simp [h, Pc.beforeSwap] at hbehind
  | runTask task tasks h =>
    refine ⟨hquit, rfl, ?_⟩
    simp only [h, Pc.batch, List.length_cons] at hn
    simp only [Pc.batch, List.length_append, List.length_cons, List.length_nil]
    omega
  | endTasks h => exact ⟨hquit, rfl, by simpa [h, Pc.batch] using hn⟩

/-- **What is lost when the loop ends.** In every interleaving in which `quit` is called and `loop`
returns afterwards, every functor whose `queueInLoop` returned before the call of `quit` has been
executed if and only if, at the call of `quit`, the loop thread was between the test of `quit_` and
the swap, or no functor whose `queueInLoop` had returned was in `tasks_`.

**Proof sketch.** If the swap is still to come it takes every functor pushed so far. Otherwise the
next test of `quit_` ends the loop, and what is executed is what has been taken out of `tasks_`
already. -/
theorem executed_before_return_iff {before after : List (Step τ F)} {s s' s'' : EventLoop τ F}
    {t : Thread τ} (hs : run step {} before = some s) (hquit : s.step (.quit t) = some s')
    (hs'' : run step s' after = some s'') (hreturned : s''.pc = .exited) :
    (∀ i, s.Returned i → i < s''.executed.length) ↔
      s.pc.beforeSwap = true ∨ ¬ ∃ i, s.Returned i ∧ s.Waits i := by
  have hinv := invariant_run hs
  have hinv' := hinv.next (next_of_step hquit)
  obtain ⟨-, hs'⟩ := assert_eq_some_iff.mp hquit
  obtain rfl := Option.some.inj hs'
  by_cases hswap : s.pc.beforeSwap = true
  · have hsaved : s''.Saved s.pushed.length :=
      run_invariant (fun hstep hu => hu.next (next_of_step hstep)) hs''
        ⟨hinv', rfl, le_rfl, .inl hswap⟩
    have hlength : s.pushed.length ≤ s''.executed.length := by
      simpa [hreturned, Pc.beforeSwap, Pc.batch] using hsaved.2.2.2
    simp only [hswap, true_or, iff_true]
    intro i hi
    have := hi.1
    omega
  · have hfinal : s''.Final (s.executed.length + s.pc.batch.length) :=
      run_invariant (fun hstep hu => hu.next (next_of_step hstep)) hs''
        ⟨rfl, by simpa using hswap, rfl⟩
    have hlength : s''.executed.length = s.executed.length + s.pc.batch.length := by
      simpa [hreturned, Pc.batch] using hfinal.2.2
    simp only [hswap, Bool.false_eq_true, false_or]
    rw [hlength]
    constructor
    · rintro hall ⟨i, hi, hwaits⟩
      have := hall i hi
      have := hwaits.1
      omega
    · intro hnone i hi
      by_contra hlt
      exact hnone ⟨i, hi, by omega, hi.1⟩

/-- The destructor of a server sends `connectionDestroyed` to a loop that is in `poll`, and the
destructor of the thread pool calls `quit`. -/
theorem executed_before_return_iff_poll : ∃ s s' s'' : EventLoop Unit Unit,
    run step {} [.enter, .test, .push (.other ()) (), .wakeup (.other ())] = some s ∧
    s.step (.quit (.other ())) = some s' ∧
    run step s' [.poll true, .handleRead, .doPendingFunctors, .swap, .runTask, .endTasks, .test]
      = some s'' ∧
    s''.pc = .exited ∧ ∀ i, s.Returned i → i < s''.executed.length := by
  have hrun : (run step ({} : EventLoop Unit Unit) ([.enter, .test, .push (.other ()) (),
      .wakeup (.other ())] ++ .quit (.other ()) :: [.poll true, .handleRead, .doPendingFunctors,
      .swap, .runTask, .endTasks, .test])).map EventLoop.pc = some .exited := by
    decide
  have hpc : (run step ({} : EventLoop Unit Unit) [.enter, .test, .push (.other ()) (),
      .wakeup (.other ())]).map EventLoop.pc = some .poll := by
    decide
  obtain ⟨s'', hs'', hreturned⟩ := Option.map_eq_some_iff.mp hrun
  obtain ⟨s, hs, hrest⟩ := run_append.mp hs''
  obtain ⟨s', hs', hafter⟩ := run_cons hrest
  have hswap : s.pc.beforeSwap = true := by
    rw [hs] at hpc
    rw [Option.some.inj hpc]
    rfl
  exact ⟨s, s', s'', hs, hs', hafter, hreturned,
    (executed_before_return_iff hs hs' hafter hreturned).mpr (.inl hswap)⟩

/-- The same, when the loop thread has swapped already: `connectionDestroyed` is lost. -/
theorem not_executed_before_return : ∃ s s' s'' : EventLoop Unit Unit,
    run step {} [.enter, .test, .poll false, .doPendingFunctors, .swap, .push (.other ()) (),
      .wakeup (.other ())] = some s ∧
    s.step (.quit (.other ())) = some s' ∧ run step s' [.endTasks, .test] = some s'' ∧
    s''.pc = .exited ∧ ¬ ∀ i, s.Returned i → i < s''.executed.length := by
  refine ⟨_, _, _, rfl, rfl, rfl, rfl, ?_⟩
  intro hall
  have hlt := hall 0 ⟨by decide, fun t => ?_⟩
  · exact absurd hlt (by decide)
  · cases t <;> exact nofun

end EventLoop

end LouisNet.Reactor
