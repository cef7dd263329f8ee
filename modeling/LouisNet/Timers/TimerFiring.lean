import LouisNet.Timers.TimerPlaces

set_option relaxedAutoImplicit false
set_option autoImplicit false

/-!
# When callbacks run

The record of a run has one entry for each callback that was started: the timer as it was then, the
time that `handleRead` read, and the number of the call of `handleRead`. Between two runs a timer
goes from the batch through `restart` back to `timers_`, with a new expiration that is its interval
later than the time of the batch; a timer that does not repeat never leaves the batch for another
place.

## Main definitions

* `LouisNet.Timers.TimerScheduler.Record` — the callbacks started, and the timers callbacks added.
* `LouisNet.Timers.TimerScheduler.Upcoming` — a timer may still be started.
* `LouisNet.Timers.TimerScheduler.FiringNext` — what a step does to the timers that may be started.
* `LouisNet.Timers.TimerScheduler.Disciplined` — the invariant of the record.

## Main results

* `LouisNet.Timers.TimerScheduler.firing_discipline` — callbacks run when they are due, in order,
  an interval apart, and not in the call of `handleRead` that they were added in.
-/

namespace LouisNet.Timers

open Lib Reactor

/-- The time that `handleRead` has read. -/
def Pc.now {π : Type*} : Pc π → Option ℤ
  | .idle => none
  | .calling now _ _ => some now
  | .resetting now _ _ => some now
  | .adding now _ _ _ => some now

/-- The timers of the batch that may be started before the next call of `handleRead` or that are
about to be added again. -/
def Pc.upcoming {π : Type*} : Pc π → List π
  | .calling _ _ todo => todo
  | .adding _ _ timer _ => [timer]
  | _ => []

namespace TimerScheduler

variable {τ π : Type*} [LinearOrder π]

/-! ## The record of a run -/

/-- A callback was started. -/
structure Firing (π : Type*) where
  timer : π
  /-- The timer object at that time. -/
  object : Timer
  /-- The time that `handleRead` has read. -/
  now : ℤ
  /-- The number of the call of `handleRead`. -/
  call : ℕ
  deriving DecidableEq

/-- What happened in the calls of `handleRead`. -/
structure Record (π : Type*) where
  /-- The number of calls of `handleRead`. -/
  calls : ℕ := 0
  /-- The callbacks started, oldest first. -/
  firings : List (Firing π) := []
  /-- The timers that callbacks added, with the number of the call. -/
  added : List (π × ℕ) := []
  deriving DecidableEq

/-- What a step adds to the record. -/
def Record.note [DecidableEq τ] (r : Record π) (s : TimerScheduler τ π) : Step τ π → Record π
  | .load t timer _ _ =>
    if t = .loop ∧ s.pc ≠ .idle then { r with added := r.added ++ [(timer, r.calls)] } else r
  | .handleRead => { r with calls := r.calls + 1 }
  | .runTimer =>
    match s.pc with
    | .calling now _ (timer :: _) =>
      { r with firings := r.firings ++ [⟨timer, s.object timer, now, r.calls⟩] }
    | _ => r
  | _ => r

/-- Every run has a record. -/
theorem exists_record [DecidableEq τ] {s s' : TimerScheduler τ π} {as : List (Step τ π)}
    (h : run step s as = some s') (r : Record π) :
    ∃ r', run (observed step Record.note) (s, r) as = some (s', r') :=
  run_observed_iff.mpr h

/-! ## What a step does -/

/-- A timer may still be started: it is on its way to `timers_`, in it, or in the batch and not
started yet. -/
def Upcoming (s : TimerScheduler τ π) (p : π) : Prop :=
  (∃ t, (s.call t).timer? = some p) ∨ p ∈ s.tasks_.filterMap Task.timer? ∨
    (∃ e, s.Pending e p) ∨ p ∈ s.pc.upcoming

variable {s s' : TimerScheduler τ π} {p : π}

/-- `addTimerInLoop` reads the clock and leaves it. -/
theorem clock_addTimerInLoop (s : TimerScheduler τ π) (id : ℕ) (p : π) :
    (s.addTimerInLoop id p).clock = s.clock := by
  unfold addTimerInLoop
  dsimp only
  split
  · rfl
  · split_ifs <;> rfl

/-- `cancelTimerInLoop` leaves the clock. -/
theorem clock_cancelTimerInLoop (s : TimerScheduler τ π) (timerId : TimerId π) :
    (s.cancelTimerInLoop timerId).clock = s.clock := by
  unfold cancelTimerInLoop
  dsimp only
  split
  · split
    · rfl
    · split <;> rfl
  · split_ifs <;> rfl

/-- A functor leaves the clock. -/
theorem clock_exec (s : TimerScheduler τ π) (task : Task π) : (s.exec task).clock = s.clock := by
  cases task with
  | addTimerInLoop id p => exact clock_addTimerInLoop s id p
  | cancelTimerInLoop timerId => exact clock_cancelTimerInLoop s timerId

/-- `runInLoop` leaves the clock. -/
theorem clock_runInLoop [DecidableEq τ] (s : TimerScheduler τ π) (t : Thread τ) (task : Task π) :
    (s.runInLoop t task).clock = s.clock := by
  rw [runInLoop]
  split_ifs
  · exact clock_exec s task
  · rfl

/-- The timer that `addTimerInLoop` adds may be started, and others as before. -/
theorem Upcoming.of_addTimerInLoop {id : ℕ} {q : π} (h : Upcoming (s.addTimerInLoop id p) q) :
    q = p ∨ Upcoming s q := by
  have hframe := addTimerInLoop_frame s id p
  rcases h with h | h | ⟨e, h⟩ | h
  · exact .inr (.inl (by rwa [hframe.call] at h))
  · exact .inr (.inr (.inl (by rwa [hframe.tasks_] at h)))
  · exact (pending_of_addTimerInLoop h).imp_right fun h => .inr (.inr (.inl ⟨e, h⟩))
  · exact .inr (.inr (.inr (.inr (by rwa [hframe.pc] at h))))

/-- No timer may be started because another one is cancelled. -/
theorem Upcoming.of_cancelTimerInLoop {timerId : TimerId π} {q : π}
    (h : Upcoming (s.cancelTimerInLoop timerId) q) : Upcoming s q := by
  have hframe := cancelTimerInLoop_frame s timerId
  rcases h with h | h | ⟨e, h⟩ | h
  · exact .inl (by rwa [hframe.call] at h)
  · exact .inr (.inl (by rwa [hframe.tasks_] at h))
  · exact .inr (.inr (.inl ⟨e, pending_of_cancelTimerInLoop h⟩))
  · exact .inr (.inr (.inr (by rwa [hframe.pc] at h)))

/-- A functor that is executed has given its timer to `timers_`. -/
theorem Upcoming.of_exec {task : Task π} {tasks : List (Task π)} {q : π}
    (htasks : s.tasks_ = task :: tasks) (h : Upcoming (exec { s with tasks_ := tasks } task) q) :
    Upcoming s q := by
  have htail : Upcoming { s with tasks_ := tasks } q → Upcoming s q := by
    rintro (h | h | h)
    · exact .inl h
    · exact .inr (.inl (by
        rw [htasks]
        exact ((List.sublist_cons_self _ _).filterMap _).subset h))
    · exact .inr (.inr h)
  cases task with
  | addTimerInLoop id p =>
    rcases Upcoming.of_addTimerInLoop h with rfl | h
    · exact .inr (.inl (by simp [htasks, Task.timer?]))
    · exact htail h
  | cancelTimerInLoop timerId => exact htail (Upcoming.of_cancelTimerInLoop h)

/-- The loop thread moves on: only the timers that are upcoming at its new place matter. -/
theorem Upcoming.of_move {q : π} (h : Upcoming s' q) (hcall : s'.call = s.call)
    (htasks : s'.tasks_ = s.tasks_) (htimers : s'.timers_ = s.timers_)
    (hpc : q ∈ s'.pc.upcoming → Upcoming s q) : Upcoming s q := by
  rcases h with h | h | ⟨e, h⟩ | h
  · exact .inl (by rwa [hcall] at h)
  · exact .inr (.inl (by rwa [htasks] at h))
  · exact .inr (.inr (.inl ⟨e, by rwa [Pending, htimers] at h⟩))
  · exact hpc h

variable [DecidableEq τ]

/-- A call that gives its timer away. -/
theorem Upcoming.of_leaveCall {t : Thread τ} {q : π}
    (h : Upcoming { s with call := Function.update s.call t .idle } q) : Upcoming s q := by
  rcases h with ⟨t', h⟩ | h
  · refine .inl ⟨t', ?_⟩
    by_cases heq : t' = t
    · simp [heq, Call.timer?] at h
    · simpa [heq] using h
  · exact .inr h

/-- What a step does to the timers that may be started: it makes one, takes the expired ones into
the batch, starts one, restarts one, or only moves and drops some. -/
inductive FiringNext (s s' : TimerScheduler τ π) : Step τ π → Prop where
  | load (t : Thread τ) (p : π) (expiration interval : ℤ) (hnew : p ∉ s.created)
    (hs' : s' = s.loadId t p expiration interval) : FiringNext s s' (.load t p expiration interval)
  | handleRead (hpc : s.pc = .idle) (hs' : s' = s.handleRead) : FiringNext s s' .handleRead
  | runTimer (now : ℤ) (ran todo : List π) (p : π) (hpc : s.pc = .calling now ran (p :: todo))
    (hs' : s' = { s with pc := .calling now (ran ++ [p]) todo, log := s.log ++ [.started p] }) :
    FiringNext s s' .runTimer
  | restart (now : ℤ) (done todo : List π) (p : π) (hpc : s.pc = .resetting now done (p :: todo))
    (hrepeat : (s.object p).repeat_ = true)
    (hs' : s' = { s with
      object := Function.update s.object p ((s.object p).restart now)
      pc := .adding now done p todo }) : FiringNext s s' .resetTimer
  | keep (a : Step τ π) (hnote : ∀ r : Record π, r.note s a = r) (hobject : s'.object = s.object)
    (hcreated : s'.created = s.created) (hclock : s.clock ≤ s'.clock)
    (htodo : s'.pc.todo = [] ∨ s'.pc.todo = s.pc.todo)
    (hnow : ∀ now ∈ s'.pc.now, now ∈ s.pc.now)
    (hupcoming : ∀ p, Upcoming s' p → Upcoming s p) : FiringNext s s' a

/-- A call that returns has given its timer to the queue or to `timers_`. -/
theorem Upcoming.of_returnId {t : Thread τ} {q : π} (ht : s.call t = .stored p)
    (h : Upcoming (s.returnId t p) q) : Upcoming s q := by
  have hp : Upcoming s p := .inl ⟨t, by simp [ht, Call.timer?]⟩
  rw [returnId, runInLoop] at h
  split_ifs at h
  · rcases Upcoming.of_addTimerInLoop h with rfl | h
    · exact hp
    · exact h.of_leaveCall
  · rcases h with h | h | h
    · exact Upcoming.of_leaveCall (t := t) (.inl h)
    · rw [List.filterMap_append, List.mem_append] at h
      rcases h with h | h
      · exact .inr (.inl h)
      · obtain rfl : q = p := by simpa [Task.timer?] using h
        exact hp
    · exact .inr (.inr h)

/-- A step is one of the cases. -/
theorem firingNext_of_step {a : Step τ π} (h : s.step a = some s') : FiringNext s s' a := by
  cases next_of_step h with
  | load t p expiration interval hcall hnew => exact .load t p expiration interval hnew rfl
  | store t p ht =>
    refine .keep _ (fun _ => rfl) rfl rfl le_rfl (.inr rfl) (fun _ hq => hq) fun q hq => ?_
    rcases hq with ⟨t', hq⟩ | hq
    · refine .inl ⟨t', ?_⟩
      by_cases heq : t' = t
      · subst heq
        simpa [Call.timer?, ht] using hq
      · simpa [heq] using hq
    · exact .inr hq
  | add t p ht =>
    have hkept := runInLoop_kept { s with call := Function.update s.call t .idle } t
      (.addTimerInLoop (s.object p).id_ p)
    have hpc : (s.returnId t p).pc = s.pc := hkept.pc
    have hclock : (s.returnId t p).clock = s.clock := clock_runInLoop _ t _
    exact .keep _ (fun _ => rfl) hkept.object hkept.created hclock.ge (.inr (by rw [hpc]))
      (fun _ hq => hpc ▸ hq) fun q hq => Upcoming.of_returnId ht hq
  | cancel t timerId hcall =>
    have hkept := runInLoop_kept s t (.cancelTimerInLoop timerId)
    have hclock := clock_runInLoop s t (.cancelTimerInLoop timerId)
    refine .keep _ (fun _ => rfl) hkept.object hkept.created hclock.ge (.inr (by rw [hkept.pc]))
      (fun _ hq => hkept.pc ▸ hq) fun q hq => ?_
    rw [runInLoop] at hq
    split_ifs at hq
    · exact Upcoming.of_cancelTimerInLoop hq
    · rcases hq with hq | hq | hq
      · exact .inl hq
      · exact .inr (.inl (by simpa [Task.timer?] using hq))
      · exact .inr (.inr hq)
  | tick now hclock =>
    exact .keep _ (fun _ => rfl) rfl rfl hclock (.inr rfl) (fun _ hq => hq) fun _ hq => hq
  | release p hp =>
    exact .keep _ (fun _ => rfl) rfl rfl le_rfl (.inr rfl) (fun _ hq => hq) fun _ hq => hq
  | runTask task tasks hpc htasks =>
    have hkept := exec_kept { s with tasks_ := tasks } task
    have hclock := clock_exec { s with tasks_ := tasks } task
    exact .keep _ (fun _ => rfl) hkept.object hkept.created hclock.ge (.inr (by rw [hkept.pc]))
      (fun _ hq => hkept.pc ▸ hq) fun q hq => Upcoming.of_exec htasks hq
  | handleRead hpc => exact .handleRead hpc rfl
  | runTimer now ran todo p hpc => exact .runTimer now ran todo p hpc rfl
  | endTimers now ran hpc =>
    refine .keep _ (fun _ => rfl) rfl rfl le_rfl (.inl rfl) (fun _ hq => ?_) fun q hq => ?_
    · rw [hpc]
      exact hq
    · exact Upcoming.of_move hq rfl rfl rfl (by simp [Pc.upcoming])
  | restart now done todo p hpc hrestarts =>
    simp only [restarts, Bool.and_eq_true] at hrestarts
    exact .restart now done todo p hpc hrestarts.1 rfl
  | skip now done todo p hpc hrestarts =>
    refine .keep _ (fun _ => rfl) rfl rfl le_rfl (.inl rfl) (fun _ hq => ?_) fun q hq => ?_
    · rw [hpc]
      exact hq
    · exact Upcoming.of_move hq rfl rfl rfl (by simp [Pc.upcoming])
  | addAgain now done todo p hpc =>
    have hframe := addTimerInLoop_frame { s with pc := .resetting now (done ++ [p]) todo }
      (s.object p).id_ p
    have hclock := clock_addTimerInLoop { s with pc := .resetting now (done ++ [p]) todo }
      (s.object p).id_ p
    refine .keep _ (fun _ => rfl) hframe.object hframe.created hclock.ge
      (.inl (by rw [hframe.pc]; rfl)) (fun _ hq => ?_) fun q hq => ?_
    · rw [hframe.pc] at hq
      rw [hpc]
      exact hq
    · rcases Upcoming.of_addTimerInLoop hq with rfl | hq
      · exact .inr (.inr (.inr (by simp [hpc, Pc.upcoming])))
      · exact Upcoming.of_move hq rfl rfl rfl (by simp [Pc.upcoming])
  | endReset now done fd hpc =>
    refine .keep _ (fun _ => rfl) rfl rfl le_rfl (.inl rfl) (fun _ hq => ?_) fun q hq => ?_
    · cases hq
    · exact Upcoming.of_move hq rfl rfl rfl (by simp [Pc.upcoming])

/-! ## The invariant -/

/-- Two runs of one timer are an interval apart, in different calls of `handleRead`. -/
def Firing.Spaced (f g : Firing π) : Prop :=
  f.timer = g.timer → 0 < f.object.interval_ ∧ f.call < g.call ∧ f.now + f.object.interval_ ≤ g.now

/-- Two runs in one call of `handleRead` are in the order of the expirations. -/
def Firing.Ordered (f g : Firing π) : Prop :=
  f.call = g.call → ∀ e ∈ f.object.expiration_, ∀ e' ∈ g.object.expiration_, e ≤ e'

/-- What the record says about the past: callbacks were started at times that have passed, and
their timers keep their intervals. -/
structure Past (s : TimerScheduler τ π) (r : Record π) : Prop where
  created : ∀ f ∈ r.firings, f.timer ∈ s.created
  interval : ∀ f ∈ r.firings, (s.object f.timer).interval_ = f.object.interval_
  repeats : ∀ p ∈ s.created, (s.object p).repeat_ = true → 0 < (s.object p).interval_
  call : ∀ f ∈ r.firings, f.call ≤ r.calls
  addedCall : ∀ x ∈ r.added, x.2 ≤ r.calls
  clock : ∀ f ∈ r.firings, f.now ≤ s.clock
  now : ∀ now ∈ s.pc.now, now ≤ s.clock ∧ ∀ f ∈ r.firings, f.now ≤ now

/-- The callbacks that are still to be started in this call of `handleRead` are due, in order and
after those that were started, were not started in this call and not added in it. -/
structure Batch (s : TimerScheduler τ π) (r : Record π) : Prop where
  due : ∀ p ∈ s.pc.todo, ∀ now ∈ s.pc.now, ∃ e, (s.object p).expiration_ = some e ∧ e ≤ now
  sorted : s.pc.todo.Pairwise fun p q =>
    ∀ e ∈ (s.object p).expiration_, ∀ e' ∈ (s.object q).expiration_, e ≤ e'
  after : ∀ f ∈ r.firings, f.call = r.calls → ∀ p ∈ s.pc.todo,
    ∀ e ∈ f.object.expiration_, ∀ e' ∈ (s.object p).expiration_, e ≤ e'
  first : ∀ f ∈ r.firings, f.timer ∈ s.pc.todo → f.call < r.calls
  notAdded : ∀ p ∈ s.pc.todo, (p, r.calls) ∉ r.added

/-- A timer that was started and may be started again repeats, and expires an interval after the
time at which it was started. -/
def Again (s : TimerScheduler τ π) (r : Record π) : Prop :=
  ∀ f ∈ r.firings, Upcoming s f.timer → 0 < f.object.interval_ ∧
    ∀ e ∈ (s.object f.timer).expiration_, f.now + f.object.interval_ ≤ e

/-- **The discipline of a record**: callbacks run when their timers are due, those of one timer an
interval apart, those of one call in order, and not in the call that their timers were added in. -/
structure Disciplined (r : Record π) : Prop where
  due : ∀ f ∈ r.firings, ∃ e, f.object.expiration_ = some e ∧ e ≤ f.now
  spaced : r.firings.Pairwise Firing.Spaced
  ordered : r.firings.Pairwise Firing.Ordered
  notAdded : ∀ f ∈ r.firings, (f.timer, f.call) ∉ r.added

variable {r : Record π} {a : Step τ π}

@[simp] theorem note_load_firings (t : Thread τ) (expiration interval : ℤ) :
    (r.note s (.load t p expiration interval)).firings = r.firings := by
  rw [Record.note]
  split_ifs <;> rfl

@[simp] theorem note_load_calls (t : Thread τ) (expiration interval : ℤ) :
    (r.note s (.load t p expiration interval)).calls = r.calls := by
  rw [Record.note]
  split_ifs <;> rfl

theorem mem_added_of_note_load {t : Thread τ} {expiration interval : ℤ} {x : π × ℕ}
    (h : x ∈ (r.note s (.load t p expiration interval)).added) :
    x = (p, r.calls) ∨ x ∈ r.added := by
  rw [Record.note] at h
  split_ifs at h
  · simpa [or_comm] using h
  · exact .inr h

/-- Timers that were made keep their objects when another one is made. -/
theorem object_loadId_of_mem {t : Thread τ} {expiration interval : ℤ} (hnew : p ∉ s.created) {q : π}
    (hq : q ∈ s.created) : (s.loadId t p expiration interval).object q = s.object q := by
  have hne : q ≠ p := fun heq => hnew (heq ▸ hq)
  rw [loadId_object, if_neg hne]

/-- The entry that the start of a callback adds to the record. -/
theorem note_runTimer {now : ℤ} {ran todo : List π} (hpc : s.pc = .calling now ran (p :: todo)) :
    r.note s .runTimer =
      { r with firings := r.firings ++ [⟨p, s.object p, now, r.calls⟩] } := by
  simp [Record.note, hpc]

omit [DecidableEq τ] in
/-- A timer of the batch was made. -/
theorem Placed.mem_created_of_mem_batch (h : Placed s) (hp : p ∈ s.pc.batch) : p ∈ s.created := by
  obtain ⟨place, hl⟩ := h
  exact hl.mem_created (by simp [hl.batch hp])

/-- Every step keeps what the record says about the past. -/
theorem Past.step (h : Past s r) (hplaced : Placed s) (hstep : s.step a = some s') :
    Past s' (r.note s a) := by
  cases firingNext_of_step hstep with
  | load t p expiration interval hnew hs' =>
    subst hs'
    constructor
    all_goals try simp only [note_load_firings, note_load_calls]
    · exact fun f hf => List.mem_append_left _ (h.created f hf)
    · intro f hf
      rw [object_loadId_of_mem hnew (h.created f hf)]
      exact h.interval f hf
    · intro q hq hrepeat
      rcases List.mem_append.mp hq with hq | hq
      · rw [object_loadId_of_mem hnew hq] at hrepeat ⊢
        exact h.repeats q hq hrepeat
      · obtain rfl : q = p := by simpa using hq
        simpa [Timer.new] using hrepeat
    · exact h.call
    · intro x hx
      rcases mem_added_of_note_load hx with rfl | hx
      · exact le_rfl
      · exact h.addedCall x hx
    · exact h.clock
    · exact h.now
  | handleRead hpc hs' =>
    subst hs'
    rw [handleRead_eq]
    exact ⟨h.created, h.interval, h.repeats, fun f hf => (h.call f hf).trans (Nat.le_succ _),
      fun x hx => (h.addedCall x hx).trans (Nat.le_succ _), h.clock,
      by rintro now ⟨rfl⟩; exact ⟨le_rfl, h.clock⟩⟩
  | runTimer now ran todo p hpc hs' =>
    subst hs'
    rw [note_runTimer hpc]
    have hnow := h.now now (by rw [hpc]; rfl)
    have hcreated : p ∈ s.created :=
      hplaced.mem_created_of_mem_batch (by simp [hpc, Pc.batch])
    refine ⟨?_, ?_, h.repeats, ?_, h.addedCall, ?_, ?_⟩
    · simpa [or_imp, forall_and, hcreated] using h.created
    · simpa [or_imp, forall_and] using h.interval
    · simpa [or_imp, forall_and] using h.call
    · simpa [or_imp, forall_and, hnow.1] using h.clock
    · rintro now' ⟨rfl⟩
      simpa [or_imp, forall_and] using hnow
  | restart now done todo p hpc hrepeat hs' =>
    subst hs'
    have hkept : ∀ q, (Function.update s.object p ((s.object p).restart now) q).interval_ =
        (s.object q).interval_ ∧
        (Function.update s.object p ((s.object p).restart now) q).repeat_ =
          (s.object q).repeat_ := by
      intro q
      by_cases heq : q = p
      · rw [heq, Function.update_self, Timer.restart]
        exact ⟨rfl, rfl⟩
      · rw [Function.update_of_ne heq]
        exact ⟨rfl, rfl⟩
    exact ⟨h.created, fun f hf => (hkept _).1.trans (h.interval f hf),
      fun q hq hq' => by
        rw [(hkept q).1]
        exact h.repeats q hq ((hkept q).2.symm.trans hq'),
      h.call, h.addedCall, h.clock, fun now' hnow' => h.now now' (by rw [hpc]; exact hnow')⟩
  | keep a hnote hobject hcreated hclock htodo hnow hupcoming =>
    rw [hnote]
    exact ⟨fun f hf => hcreated ▸ h.created f hf, fun f hf => hobject ▸ h.interval f hf,
      fun q hq => hobject ▸ h.repeats q (hcreated ▸ hq), h.call, h.addedCall,
      fun f hf => (h.clock f hf).trans hclock,
      fun now hq => ⟨(h.now now (hnow now hq)).1.trans hclock, (h.now now (hnow now hq)).2⟩⟩

omit [DecidableEq τ] in
/-- A timer that is to be started is in the batch. -/
theorem mem_batch_of_mem_todo (hp : p ∈ s.pc.todo) : p ∈ s.pc.batch := by
  cases hpc : s.pc with
  | calling now ran todo =>
    rw [hpc] at hp
    exact List.mem_append_right ran hp
  | _ => simp [hpc, Pc.todo] at hp

/-- Every step keeps the rest of the batch in order. -/
theorem Batch.step (h : Batch s r) (hpast : Past s r) (hplaced : Placed s)
    (hstep : s.step a = some s') : Batch s' (r.note s a) := by
  cases firingNext_of_step hstep with
  | load t p expiration interval hnew hs' =>
    subst hs'
    have hobject : ∀ q ∈ s.pc.todo, (s.loadId t p expiration interval).object q = s.object q :=
      fun q hq => object_loadId_of_mem hnew
        (hplaced.mem_created_of_mem_batch (mem_batch_of_mem_todo hq))
    constructor
    all_goals try simp only [note_load_firings, note_load_calls]
    · intro q hq now hnow
      rw [hobject q hq]
      exact h.due q hq now hnow
    · refine h.sorted.imp_of_mem fun {q q'} hq hq' hle => ?_
      rwa [hobject q hq, hobject q' hq']
    · intro f hf hcall q hq
      rw [hobject q hq]
      exact h.after f hf hcall q hq
    · exact h.first
    · intro q hq hadded
      rcases mem_added_of_note_load hadded with heq | hadded
      · obtain rfl : q = p := congrArg Prod.fst heq
        exact hnew (hplaced.mem_created_of_mem_batch (mem_batch_of_mem_todo hq))
      · exact h.notAdded q hq hadded
  | handleRead hpc hs' =>
    subst hs'
    obtain ⟨place, hl⟩ := hplaced
    rw [handleRead_eq]
    refine ⟨fun p hp => ?_, hl.expiredTimers_sorted s.clock, fun f hf hcall => ?_, fun f hf _ => ?_,
      fun p hp hadded => ?_⟩
    · rintro now ⟨rfl⟩
      obtain ⟨e, hlt, he⟩ := mem_expiredTimers.mp hp
      exact ⟨e, (hl.timers he).2, hlt.le⟩
    · have hle := hpast.call f hf
      simp only [Record.note] at hcall
      omega
    · exact Nat.lt_succ_of_le (hpast.call f hf)
    · exact absurd (hpast.addedCall _ hadded) (by simp [Record.note])
  | runTimer now ran todo p hpc hs' =>
    subst hs'
    rw [note_runTimer hpc]
    obtain ⟨place, hl⟩ := hplaced
    have htodo : s.pc.todo = p :: todo := by rw [hpc, Pc.todo]
    have hsorted := h.sorted
    rw [htodo, List.pairwise_cons] at hsorted
    have hmem : ∀ q ∈ todo, q ∈ s.pc.todo := fun q hq => htodo ▸ List.mem_cons_of_mem p hq
    have hnodup := hl.batch_nodup
    rw [hpc, Pc.batch, List.nodup_append] at hnodup
    refine ⟨fun q hq => ?_, hsorted.2, fun f hf hcall q hq => ?_, fun f hf hq => ?_,
      fun q hq => h.notAdded q (hmem q hq)⟩
    · rintro now' ⟨rfl⟩
      exact h.due q (hmem q hq) now (by rw [hpc]; rfl)
    · rcases List.mem_append.mp hf with hf | hf
      · exact h.after f hf hcall q (hmem q hq)
      · obtain rfl := List.mem_singleton.mp hf
        exact hsorted.1 q hq
    · rcases List.mem_append.mp hf with hf | hf
      · exact h.first f hf (hmem _ hq)
      · obtain rfl := List.mem_singleton.mp hf
        exact absurd hq (List.nodup_cons.mp hnodup.2.1).1
  | restart now done todo p hpc hrepeat hs' =>
    subst hs'
    exact ⟨by simp [Pc.todo], by simp [Pc.todo], by simp [Pc.todo], by simp [Pc.todo],
      by simp [Pc.todo]⟩
  | keep a hnote hobject hcreated hclock htodo hnow hupcoming =>
    rw [hnote]
    rcases htodo with htodo | htodo
    · exact ⟨by simp [htodo], by simp [htodo], by simp [htodo], by simp [htodo], by simp [htodo]⟩
    · refine ⟨fun q hq now hq' => ?_, ?_, ?_, ?_, ?_⟩
      · rw [hobject]
        exact h.due q (htodo ▸ hq) now (hnow now hq')
      · rw [htodo, hobject]
        exact h.sorted
      · rw [htodo, hobject]
        exact h.after
      · rw [htodo]
        exact h.first
      · rw [htodo]
        exact h.notAdded

omit [DecidableEq τ] in
/-- A timer of the batch that was just started may not be started before `reset` adds it again. -/
theorem Placed.not_upcoming (h : Placed s) {now : ℤ} {ran todo : List π}
    (hpc : s.pc = .calling now ran (p :: todo)) :
    ¬ Upcoming { s with pc := .calling now (ran ++ [p]) todo, log := s.log ++ [.started p] } p := by
  obtain ⟨place, hl⟩ := h
  have hplace : place p = .batch := hl.batch (by simp [hpc, Pc.batch])
  have hnodup := hl.batch_nodup
  rw [hpc, Pc.batch, List.nodup_append] at hnodup
  rintro (⟨t, ht⟩ | hq | ⟨e, he⟩ | hq)
  · exact absurd (hplace.symm.trans (hl.call ht)) (by simp)
  · exact absurd (hplace.symm.trans (hl.queue hq)) (by simp)
  · exact absurd (hplace.symm.trans (hl.timers he).1) (by simp)
  · exact (List.nodup_cons.mp hnodup.2.1).1 hq

/-- Every step keeps the runs of a timer apart. -/
theorem Again.step (h : Again s r) (hpast : Past s r) (hplaced : Placed s)
    (hstep : s.step a = some s') : Again s' (r.note s a) := by
  cases firingNext_of_step hstep with
  | load t p expiration interval hnew hs' =>
    subst hs'
    intro f hf hq
    rw [note_load_firings] at hf
    have hcreated := hpast.created f hf
    have hne : p ≠ f.timer := fun heq => hnew (heq ▸ hcreated)
    rw [object_loadId_of_mem hnew hcreated]
    refine h f hf ?_
    rcases hq with ⟨t', hq⟩ | hq
    · refine .inl ⟨t', ?_⟩
      by_cases heq : t' = t
      · simp [heq, Call.timer?, hne] at hq
      · simpa [heq] using hq
    · exact .inr hq
  | handleRead hpc hs' =>
    subst hs'
    rw [handleRead_eq]
    intro f hf hq
    refine h f hf ?_
    rcases hq with hq | hq | ⟨e, hq⟩ | hq
    · exact .inl hq
    · exact .inr (.inl hq)
    · have hpending : s.handleRead.Pending e f.timer := by
        rw [handleRead_eq]
        exact hq
      exact .inr (.inr (.inl ⟨e, (pending_handleRead.mp hpending).1⟩))
    · obtain ⟨e, -, he⟩ := mem_expiredTimers.mp hq
      exact .inr (.inr (.inl ⟨e, he⟩))
  | runTimer now ran todo p hpc hs' =>
    subst hs'
    rw [note_runTimer hpc]
    intro f hf hq
    rcases List.mem_append.mp hf with hf | hf
    · refine h f hf (Upcoming.of_move hq rfl rfl rfl fun hq => .inr (.inr (.inr ?_)))
      rw [hpc]
      exact List.mem_cons_of_mem p hq
    · obtain rfl := List.mem_singleton.mp hf
      exact absurd hq (hplaced.not_upcoming hpc)
  | restart now done todo p hpc hrepeat hs' =>
    subst hs'
    intro f hf hq
    by_cases heq : f.timer = p
    · have hinterval := hpast.interval f hf
      have hcreated := hpast.created f hf
      rw [heq] at hinterval hcreated
      have hpositive := hpast.repeats p hcreated hrepeat
      have hnow := (hpast.now now (by rw [hpc]; rfl)).2 f hf
      refine ⟨hinterval ▸ hpositive, fun e he => ?_⟩
      simp only [heq, Function.update_self, Timer.restart, hrepeat, if_true] at he
      obtain rfl := Option.some.inj he
      omega
    · dsimp only
      rw [Function.update_of_ne heq]
      refine h f hf (Upcoming.of_move hq rfl rfl rfl fun hq => ?_)
      exact absurd (List.mem_singleton.mp hq) heq
  | keep a hnote hobject hcreated hclock htodo hnow hupcoming =>
    rw [hnote]
    intro f hf hq
    rw [hobject]
    exact h f hf (hupcoming _ hq)

/-- Every step keeps the discipline: only the start of a callback adds a run to the record. -/
theorem Disciplined.step (h : Disciplined r) (hpast : Past s r) (hbatch : Batch s r)
    (hagain : Again s r) (hstep : s.step a = some s') : Disciplined (r.note s a) := by
  cases firingNext_of_step hstep with
  | load t p expiration interval hnew hs' =>
    constructor
    all_goals simp only [note_load_firings]
    · exact h.due
    · exact h.spaced
    · exact h.ordered
    · intro f hf hadded
      rcases mem_added_of_note_load hadded with heq | hadded
      · have htimer : f.timer = p := congrArg Prod.fst heq
        exact hnew (htimer ▸ hpast.created f hf)
      · exact h.notAdded f hf hadded
  | handleRead hpc hs' => exact { h with }
  | runTimer now ran todo p hpc hs' =>
    rw [note_runTimer hpc]
    have hp : p ∈ s.pc.todo := by simp [hpc, Pc.todo]
    obtain ⟨e, he, hle⟩ := hbatch.due p hp now (by rw [hpc]; rfl)
    refine ⟨fun f hf => ?_, ?_, ?_, fun f hf => ?_⟩
    · rcases List.mem_append.mp hf with hf | hf
      · exact h.due f hf
      · obtain rfl := List.mem_singleton.mp hf
        exact ⟨e, he, hle⟩
    · refine List.pairwise_append.mpr ⟨h.spaced, List.pairwise_singleton _ _, fun f hf g hg => ?_⟩
      obtain rfl := List.mem_singleton.mp hg
      intro htimer
      change f.timer = p at htimer
      have hupcoming : Upcoming s f.timer := by
        rw [htimer]
        exact .inr (.inr (.inr (by simp [hpc, Pc.upcoming])))
      obtain ⟨hinterval, hlater⟩ := hagain f hf hupcoming
      exact ⟨hinterval, hbatch.first f hf (htimer ▸ hp), (hlater e (htimer ▸ he)).trans hle⟩
    · refine List.pairwise_append.mpr ⟨h.ordered, List.pairwise_singleton _ _, fun f hf g hg => ?_⟩
      obtain rfl := List.mem_singleton.mp hg
      exact fun hcall => hbatch.after f hf hcall p hp
    · rcases List.mem_append.mp hf with hf | hf
      · exact h.notAdded f hf
      · obtain rfl := List.mem_singleton.mp hf
        exact hbatch.notAdded p hp
  | restart now done todo p hpc hrepeat hs' => exact h
  | keep a hnote hobject hcreated hclock htodo hnow hupcoming =>
    rw [hnote]
    exact h

/-- Every run has a record that is disciplined, and that agrees with the state. -/
theorem disciplined_run {as : List (Step τ π)}
    (h : run (observed step Record.note) (({} : TimerScheduler τ π), {}) as = some (s, r)) :
    Past s r ∧ Disciplined r := by
  have hinv := run_invariant
    (I := fun x : TimerScheduler τ π × Record π =>
      Placed x.1 ∧ Past x.1 x.2 ∧ Batch x.1 x.2 ∧ Again x.1 x.2 ∧ Disciplined x.2)
    (fun {x a y} hstep hI => by
      obtain ⟨hstep, hy⟩ := observed_eq_some_iff.mp hstep
      obtain ⟨hplaced, hpast, hbatch, hagain, hdisciplined⟩ := hI
      rw [hy]
      exact ⟨hplaced.step hstep, hpast.step hplaced hstep, hbatch.step hpast hplaced hstep,
        hagain.step hpast hplaced hstep, hdisciplined.step hpast hbatch hagain hstep⟩)
    h ⟨⟨_, located_init⟩, ⟨by simp, by simp, by simp, by simp, by simp, by simp, by simp [Pc.now]⟩,
      ⟨by simp [Pc.todo], by simp [Pc.todo], by simp, by simp, by simp⟩, by simp [Again],
      ⟨by simp, by simp, by simp, by simp⟩⟩
  exact ⟨hinv.2.1, hinv.2.2.2.2⟩

/-- **The firing discipline**: in every run, a callback is started only in a call of `handleRead`
whose time is not before the expiration of its timer; a timer that does not repeat is started at
most once; two runs of one timer are in different calls, at times that differ by its interval at
least; the callbacks of one call are started in the order of their expirations; and a timer that a
callback added is not started in the same call.

**Proof sketch.** A timer that may be started again after it was started has gone through
`restart`, so it repeats and expires an interval after the time of its batch, which is not before
the last time it was started. The batch is a sorted part of `timers_`, taken at the start of the
call, so it holds no timer that was made in the call. -/
theorem firing_discipline {as : List (Step τ π)}
    (h : run (observed step Record.note) (({} : TimerScheduler τ π), {}) as = some (s, r)) :
    (∀ f ∈ r.firings, ∃ e, f.object.expiration_ = some e ∧ e ≤ f.now) ∧
    (∀ p, (s.object p).interval_ ≤ 0 → (r.firings.filter fun f => f.timer = p).length ≤ 1) ∧
    (r.firings.Pairwise fun f g => f.timer = g.timer →
      f.call < g.call ∧ f.now + (s.object f.timer).interval_ ≤ g.now) ∧
    (r.firings.Pairwise fun f g => f.call = g.call →
      ∀ e ∈ f.object.expiration_, ∀ e' ∈ g.object.expiration_, e ≤ e') ∧
    (∀ f ∈ r.firings, (f.timer, f.call) ∉ r.added) := by
  obtain ⟨hpast, hdisciplined⟩ := disciplined_run h
  refine ⟨hdisciplined.due, fun p hp => ?_, ?_, hdisciplined.ordered, hdisciplined.notAdded⟩
  · have hspaced := hdisciplined.spaced.filter fun f => f.timer = p
    have hmem : ∀ f ∈ r.firings.filter fun f => f.timer = p, f ∈ r.firings ∧ f.timer = p := by
      intro f hf
      simpa using hf
    rcases hfirings : r.firings.filter (fun f => f.timer = p) with _ | ⟨f, _ | ⟨g, l⟩⟩
    · simp [hfirings]
    · simp [hfirings]
    · -- two runs of the timer are an interval apart, so it has one
      exfalso
      rw [hfirings] at hspaced hmem
      obtain ⟨hf, hfp⟩ := hmem f (by simp)
      obtain ⟨-, hgp⟩ := hmem g (by simp)
      have hinterval := (List.pairwise_cons.mp hspaced).1 g (by simp) (hfp.trans hgp.symm)
      have hkept := hpast.interval f hf
      rw [hfp] at hkept
      omega
  · refine hdisciplined.spaced.imp_of_mem fun {f g} hf _ hspaced htimer => ?_
    rw [hpast.interval f hf]
    exact (hspaced htimer).2

/-- Two timers expire together, one of them repeats, and the callback of the first adds a third that
is due at once; all of them run at the next call, where the first runs again. -/
def firingRun : List (Step Empty ℕ) :=
  [.load .loop 0 10 5, .store .loop, .add .loop, .load .loop 1 12 0, .store .loop, .add .loop,
    .tick 20, .handleRead, .runTimer, .load .loop 2 3 0, .store .loop, .add .loop, .runTimer,
    .endTimers, .resetTimer, .addAgain, .resetTimer, .endReset, .tick 30, .handleRead, .runTimer,
    .runTimer, .endTimers, .resetTimer, .resetTimer, .addAgain, .endReset]

/-- The record of that run, and its discipline. -/
theorem firing_discipline_firingRun : ∃ (s : TimerScheduler Empty ℕ) (r : Record ℕ),
    run (observed step Record.note) ({}, {}) firingRun = some (s, r) ∧
    r.firings.map (fun f => (f.timer, f.now, f.call)) =
      [(0, 20, 1), (1, 20, 1), (2, 30, 2), (0, 30, 2)] ∧
    r.added = [(2, 1)] ∧
    (∀ f ∈ r.firings, ∃ e, f.object.expiration_ = some e ∧ e ≤ f.now) ∧
    (r.firings.Pairwise fun f g => f.timer = g.timer →
      f.call < g.call ∧ f.now + (s.object f.timer).interval_ ≤ g.now) := by
  have hrun : (run (observed step Record.note) (({} : TimerScheduler Empty ℕ), {})
      firingRun).map (fun x => (x.2.firings.map (fun f => (f.timer, f.now, f.call)), x.2.added)) =
      some ([(0, 20, 1), (1, 20, 1), (2, 30, 2), (0, 30, 2)], [(2, 1)]) := by decide
  obtain ⟨⟨s, r⟩, hs, hfields⟩ := Option.map_eq_some_iff.mp hrun
  simp only [Prod.mk.injEq] at hfields
  obtain ⟨hfirings, hadded⟩ := hfields
  obtain ⟨hdue, -, hspaced, -, -⟩ := firing_discipline hs
  exact ⟨s, r, hs, hfirings, hadded, hdue, hspaced⟩

end TimerScheduler

end LouisNet.Timers
