import LouisNet.Timers.TimerTable

set_option relaxedAutoImplicit false
set_option autoImplicit false

/-!
# Cancelled timers

`cancelTimerInLoop` takes a pending timer out of both containers, and a timer of the batch whose
callback has been started is kept from being added again by `cancelingTimers_`. It does not reach a
timer of the batch whose callback is still to be started, which `handleRead` runs without a look at
`cancelingTimers_`, nor a timer whose `addTimerInLoop` still waits in the queue. Where it reaches
the timer, its callback is not started again in the rest of the run.

## Main definitions

* `LouisNet.Timers.TimerScheduler.Reaches` — what a cancellation finds of a timer.
* `LouisNet.Timers.TimerScheduler.Dead` — a timer that will not be started.

## Main results

* `LouisNet.Timers.TimerScheduler.Dead.step` — it stays so.
* `LouisNet.Timers.TimerScheduler.cancelled_not_started` — runs.
-/

namespace LouisNet.Timers

open Lib Reactor

namespace TimerScheduler

variable {τ π : Type*} [LinearOrder π] {s s' : TimerScheduler τ π} {place : π → Place τ} {p : π}

/-! ## Timers that will not be started -/

/-- **A timer that will not be started** any more: it is neither pending nor queued, its callback is
not still to be started, and `reset` does not add it again. -/
structure Dead (s : TimerScheduler τ π) (p : π) : Prop where
  returned : p ∈ s.returned
  queue : p ∉ s.tasks_.filterMap Task.timer?
  pending : ∀ e, ¬ s.Pending e p
  todo : p ∉ s.pc.todo
  batch : p ∈ s.pc.batch → s.restarts p = false
  adding : ∀ now done todo, s.pc ≠ .adding now done p todo

/-- What adds no entry for a timer, no functor and no callback keeps it dead. -/
theorem Dead.frame (h : Dead s p) (hreturned : p ∈ s.returned → p ∈ s'.returned)
    (hqueue : p ∈ s'.tasks_.filterMap Task.timer? → p ∈ s.tasks_.filterMap Task.timer?)
    (hpending : ∀ e, s'.Pending e p → s.Pending e p) (hpc : s'.pc = s.pc)
    (hrestarts : s.restarts p = false → s'.restarts p = false) : Dead s' p where
  returned := hreturned h.returned
  queue := fun hq => h.queue (hqueue hq)
  pending := fun e he => h.pending e (hpending e he)
  todo := by
    rw [hpc]
    exact h.todo
  batch := fun hp => hrestarts (h.batch (hpc ▸ hp))
  adding := by
    rw [hpc]
    exact h.adding

/-- Adding another timer. -/
theorem Dead.addTimerInLoop (h : Dead s p) {q : π} (hne : p ≠ q) (id : ℕ) :
    Dead (s.addTimerInLoop id q) p := by
  have hframe := addTimerInLoop_frame s id q
  refine h.frame (fun hp => hframe.returned ▸ hp) (fun hp => hframe.tasks_ ▸ hp)
    (fun e he => (pending_of_addTimerInLoop he).resolve_left hne) hframe.pc fun hp => ?_
  rw [restarts, hframe.object, canceling_addTimerInLoop]
  exact hp

/-- An id that was noted stays noted. -/
theorem restarts_cancelTimerInLoop (h : Located s place) (timerId : TimerId π)
    (hp : s.restarts p = false) : (s.cancelTimerInLoop timerId).restarts p = false := by
  obtain ⟨q, e, -, -, hs'⟩ | ⟨-, hs'⟩ := h.cancelTimerInLoop_cases timerId
  · rw [hs']
    exact hp
  · rw [hs', restarts]
    dsimp only
    split_ifs
    · rw [restarts, Bool.and_eq_false_iff] at hp
      rw [Bool.and_eq_false_iff, SortedMap.find?_emplace]
      refine hp.imp_right fun hp => ?_
      split_ifs
      · rfl
      · exact hp
    · exact hp

/-- Cancelling any timer. -/
theorem Dead.cancelTimerInLoop (hd : Dead s p) (h : Located s place) (timerId : TimerId π) :
    Dead (s.cancelTimerInLoop timerId) p := by
  have hframe := cancelTimerInLoop_frame s timerId
  refine hd.frame (fun hp => hframe.returned ▸ hp) (fun hp => hframe.tasks_ ▸ hp)
    (fun e he => ?_) hframe.pc (restarts_cancelTimerInLoop h timerId)
  obtain ⟨q, e', -, -, hs'⟩ | ⟨-, hs'⟩ := h.cancelTimerInLoop_cases timerId
  · rw [hs', Pending, SortedMap.find?_erase] at he
    split_ifs at he
    exact he
  · rw [hs'] at he
    exact he

/-- A functor that holds another timer is executed. -/
theorem Dead.exec (hd : Dead s p) (h : Located s place) {task : Task π}
    (hne : task.timer? ≠ some p) : Dead (s.exec task) p := by
  cases task with
  | addTimerInLoop id q => exact hd.addTimerInLoop (fun heq => hne (by rw [Task.timer?, heq])) id
  | cancelTimerInLoop timerId =>
    exact (hd.cancelTimerInLoop h timerId).frame id id (fun _ => id) rfl id

variable [DecidableEq τ]

/-- A functor that holds another timer is handed to the loop. -/
theorem Dead.runInLoop (hd : Dead s p) (h : Located s place) (t : Thread τ) (task : Task π)
    (hne : task.timer? ≠ some p) : Dead (s.runInLoop t task) p := by
  unfold TimerScheduler.runInLoop
  split_ifs
  · exact hd.exec h hne
  · refine hd.frame id (fun hp => ?_) (fun _ => id) rfl id
    rw [List.filterMap_append, List.mem_append] at hp
    refine hp.resolve_right fun hp => ?_
    obtain ⟨task', htask', hp⟩ := List.mem_filterMap.mp hp
    rw [List.mem_singleton.mp htask'] at hp
    exact hne hp

/-- **A timer that will not be started stays so.** -/
theorem Dead.step (hd : Dead s p) (h : Located s place) {a : Step τ π}
    (hstep : s.step a = some s') : Dead s' p := by
  cases next_of_step hstep with
  | load t q expiration interval hcall hnew =>
    have hne : p ≠ q := fun heq => hnew (heq ▸ h.mem_created (h.returned hd.returned).1)
    refine hd.frame id id (fun _ => id) rfl fun hp => ?_
    rw [restarts, loadId_object, if_neg hne]
    exact hp
  | store t q ht => exact hd.frame id id (fun _ => id) rfl id
  | add t q ht =>
    have hcall := h.call (t := t) (p := q) (by rw [ht, Call.timer?])
    have hne : p ≠ q := fun heq => (h.returned hd.returned).2 t (heq ▸ hcall)
    have hleave : Dead { s with call := Function.update s.call t .idle } p :=
      hd.frame id id (fun _ => id) rfl id
    have hrun := hleave.runInLoop
      (h.leaveCall (t := t) (p := q) (by rw [ht, Call.timer?])) t
      (.addTimerInLoop (s.object q).id_ q) (fun heq => hne (Option.some.inj heq).symm)
    exact hrun.frame (List.mem_append_left _) id (fun _ => id) rfl id
  | cancel t timerId hcall => exact hd.runInLoop h t _ (by simp [Task.timer?])
  | tick now hclock => exact hd.frame id id (fun _ => id) rfl id
  | release q hq => exact hd.frame id id (fun _ => id) rfl id
  | runTask task tasks hpc htasks =>
    have hqueue := hd.queue
    rw [htasks] at hqueue
    have hsub : tasks.filterMap Task.timer? ⊆ (task :: tasks).filterMap Task.timer? :=
      ((List.sublist_cons_self task tasks).filterMap _).subset
    have htaken : Dead { s with tasks_ := tasks } p :=
      hd.frame id (fun hp => absurd (hsub hp) hqueue) (fun _ => id) rfl id
    have hl : Located { s with tasks_ := tasks } place :=
      h.dequeue (htasks ▸ List.sublist_cons_self _ _)
    exact htaken.exec hl fun htimer => hqueue (List.mem_filterMap.mpr ⟨task, by simp, htimer⟩)
  | handleRead hpc =>
    have hexpired : p ∉ s.expiredTimers s.clock := fun hp => by
      obtain ⟨e, -, he⟩ := mem_expiredTimers.mp hp
      exact hd.pending e he
    exact ⟨hd.returned, hd.queue, fun e he => hd.pending e (pending_handleRead.mp he).1, hexpired,
      fun hp => absurd hp hexpired, by simp [handleRead_eq]⟩
  | runTimer now ran todo q hpc =>
    have htodo := hd.todo
    have hbatch := hd.batch
    simp only [hpc, Pc.todo, Pc.batch, List.mem_cons, List.mem_append] at htodo hbatch
    refine ⟨hd.returned, hd.queue, hd.pending, fun hp => htodo (.inr hp), fun hp => ?_,
      by simp⟩
    exact hbatch (by simpa [Pc.batch, or_assoc] using hp)
  | endTimers now ran hpc =>
    have hbatch := hd.batch
    simp only [hpc, Pc.batch, List.append_nil] at hbatch
    exact ⟨hd.returned, hd.queue, hd.pending, List.not_mem_nil, hbatch, by simp⟩
  | restart now done todo q hpc hrestarts =>
    have hbatch := hd.batch
    simp only [hpc, Pc.batch] at hbatch
    have hne : p ≠ q := fun heq => by
      rw [← heq, hbatch (heq ▸ List.mem_cons_self)] at hrestarts
      cases hrestarts
    refine ⟨hd.returned, hd.queue, hd.pending, List.not_mem_nil, fun hp => ?_,
      fun _ _ _ heq => ?_⟩
    · simpa [restarts, hne] using hbatch hp
    · cases heq
      exact hne rfl
  | skip now done todo q hpc hrestarts =>
    have hbatch := hd.batch
    simp only [hpc, Pc.batch] at hbatch
    exact ⟨hd.returned, hd.queue, hd.pending, List.not_mem_nil,
      fun hp => hbatch (List.mem_cons_of_mem q hp), by simp⟩
  | addAgain now done todo q hpc =>
    have hbatch := hd.batch
    simp only [hpc, Pc.batch] at hbatch
    have hne : p ≠ q := fun heq => hd.adding now done todo (heq ▸ hpc)
    have htaken : Dead { s with pc := .resetting now (done ++ [q]) todo } p :=
      ⟨hd.returned, hd.queue, hd.pending, List.not_mem_nil,
        fun hp => hbatch (List.mem_cons_of_mem q hp), by simp⟩
    exact htaken.addTimerInLoop hne _
  | endReset now done fd hpc =>
    exact ⟨hd.returned, hd.queue, hd.pending, List.not_mem_nil,
      fun hp => absurd hp List.not_mem_nil, by simp⟩

/-! ## Cancellations that reach their timer -/

omit [DecidableEq τ] in
/-- The flag is set while callbacks run. -/
def Flagged (s : TimerScheduler τ π) : Prop :=
  ∀ now ran todo, s.pc = .calling now ran todo → s.callingExpiredTimers_ = true

/-- **What a cancellation finds of a timer**: its callback is not one that the batch has still to
start, its `addTimerInLoop` has been executed, `activeTimers_` maps the id to it if it is pending,
and to nothing if `reset` would add it again. -/
structure Reaches (s : TimerScheduler τ π) (timerId : TimerId π) (p : π) : Prop where
  todo : p ∉ s.pc.todo
  queue : p ∉ s.tasks_.filterMap Task.timer?
  pending : ∀ e, s.Pending e p → s.activeTimers_.find? timerId.id = some p
  batch : p ∈ s.pc.batch → s.restarts p = true → s.activeTimers_.find? timerId.id = none

omit [DecidableEq τ] in
/-- A batch in the code of the user is one whose callbacks run. -/
theorem Flagged.of_mem_batch (h : Flagged s) (hpc : s.pc.userCode = true) (hp : p ∈ s.pc.batch) :
    s.callingExpiredTimers_ = true := by
  cases heq : s.pc with
  | idle => simp [heq, Pc.batch] at hp
  | calling now ran todo => exact h now ran todo heq
  | resetting now done todo => simp [heq, Pc.userCode] at hpc
  | adding now done q todo => simp [heq, Pc.userCode] at hpc

omit [DecidableEq τ] in
/-- **A cancellation that reaches its timer** keeps it from being started.

**Proof sketch.** A pending timer is the one found under the id, and its only entry is erased. A
timer of the batch that would be added again is not found, and its id is noted, since callbacks
run. -/
theorem Reaches.dead {timerId : TimerId π} (hr : Reaches s timerId p) (h : Located s place)
    (hflag : Flagged s) (hpc : s.pc.userCode = true) (hreturned : p ∈ s.returned)
    (hid : (s.object p).id_ = timerId.id) : Dead (s.cancelTimerInLoop timerId) p := by
  have hframe := cancelTimerInLoop_frame s timerId
  have hcases := h.cancelTimerInLoop_cases timerId
  refine ⟨hframe.returned ▸ hreturned, hframe.tasks_ ▸ hr.queue, fun e he => ?_,
    hframe.pc ▸ hr.todo, fun hp => ?_, fun now done todo heq => ?_⟩
  · obtain ⟨q, e', hq, he', hs'⟩ | ⟨hnone, hs'⟩ := hcases
    · rw [hs', Pending, SortedMap.find?_erase] at he
      split_ifs at he with hne
      have hfound := hr.pending e he
      rw [hq] at hfound
      obtain rfl := Option.some.inj hfound
      have heq : e = e' := Option.some.inj ((h.timers he).2.symm.trans (h.timers he').2)
      exact hne (by rw [heq])
    · rw [hs'] at he
      have hfound := hr.pending e he
      rw [hnone] at hfound
      cases hfound
  · rw [hframe.pc] at hp
    cases hrestarts : s.restarts p with
    | false => exact restarts_cancelTimerInLoop h timerId hrestarts
    | true =>
      obtain ⟨q, e', hq, -, -⟩ | ⟨-, hs'⟩ := hcases
      · rw [hr.batch hp hrestarts] at hq
        cases hq
      · rw [restarts, hid, Bool.and_eq_true, Option.isNone_iff_eq_none] at hrestarts
        rw [hs', restarts]
        dsimp only
        rw [if_pos (hflag.of_mem_batch hpc hp), hid, SortedMap.find?_emplace,
          if_pos ⟨rfl, hrestarts.2⟩, Option.isNone_some, Bool.and_false]
  · rw [hframe.pc] at heq
    simp [heq, Pc.userCode] at hpc

/-- The cancellation that a step executes. -/
def cancels (s : TimerScheduler τ π) : Step τ π → Option (TimerId π)
  | .cancel t timerId => if t = .loop then some timerId else none
  | .runTask =>
    match s.tasks_ with
    | .cancelTimerInLoop timerId :: _ => some timerId
    | _ => none
  | _ => none

/-- A step that executes a cancellation reaches every timer with the id that was returned. -/
def CancelReaches (s : TimerScheduler τ π) (a : Step τ π) : Prop :=
  ∀ timerId, s.cancels a = some timerId → ∀ p ∈ s.returned,
    (s.object p).id_ = timerId.id → s.Reaches timerId p

/-- Steps that execute no cancellation meet the condition. -/
theorem along_cancelReaches_of_none {as : List (Step τ π)}
    (h : ∀ a ∈ as, ∀ s : TimerScheduler τ π, s.cancels a = none) :
    Along step CancelReaches s as := by
  refine (Along.of_forall h).mono fun {s a} hnone timerId hcancels => ?_
  rw [hnone] at hcancels
  cases hcancels

/-! ## Runs -/

/-- What a step adds to the log. -/
inductive LogNext (s s' : TimerScheduler τ π) (a : Step τ π) : Prop where
  | same (hlog : s'.log = s.log) (hreturned : s'.returned = s.returned)
  | returned (p : π) (hlog : s'.log = s.log ++ [.returned p])
    (hreturned : s'.returned = s.returned ++ [p])
  | started (p : π) (hp : p ∈ s.pc.todo) (hlog : s'.log = s.log ++ [.started p])
    (hreturned : s'.returned = s.returned)
  | cancelled (timerId : TimerId π) (tasks : List (Task π)) (hcancels : s.cancels a = some timerId)
    (hpc : s.pc.userCode = true) (htasks : tasks.Sublist s.tasks_)
    (hs' : s' = exec { s with tasks_ := tasks } (.cancelTimerInLoop timerId))

/-- Handing a timer to the loop adds nothing to the log. -/
theorem log_runInLoop_addTimerInLoop (s : TimerScheduler τ π) (t : Thread τ) (id : ℕ) (p : π) :
    (s.runInLoop t (.addTimerInLoop id p)).log = s.log := by
  unfold runInLoop
  split_ifs
  · exact (addTimerInLoop_frame s id p).log
  · rfl

/-- A step is one of the cases. -/
theorem logNext_of_step {a : Step τ π} (h : s.step a = some s') : LogNext s s' a := by
  cases next_of_step h with
  | add t p ht =>
    refine .returned p ?_ ?_
    · rw [returnId]
      dsimp only
      rw [log_runInLoop_addTimerInLoop]
    · exact congrArg (· ++ [p]) (runInLoop_kept _ t _).returned
  | cancel t timerId hcall =>
    by_cases hloop : t = .loop
    · refine .cancelled timerId s.tasks_ (by simp [cancels, hloop]) (hcall.2 hloop) (.refl _) ?_
      rw [runInLoop, if_pos hloop]
    · refine .same ?_ ?_
      · rw [runInLoop, if_neg hloop]
      · rw [runInLoop, if_neg hloop]
  | runTask task tasks hpc htasks =>
    cases task with
    | addTimerInLoop id p =>
      have hframe := addTimerInLoop_frame { s with tasks_ := tasks } id p
      exact .same hframe.log hframe.returned
    | cancelTimerInLoop timerId =>
      exact .cancelled timerId tasks (by simp [cancels, htasks]) (by rw [hpc, Pc.userCode])
        (htasks ▸ List.sublist_cons_self _ _) rfl
  | runTimer now ran todo p hpc => exact .started p (by simp [hpc, Pc.todo]) rfl rfl
  | addAgain now done todo p hpc =>
    have hframe := addTimerInLoop_frame { s with pc := .resetting now (done ++ [p]) todo }
      (s.object p).id_ p
    exact .same hframe.log hframe.returned
  | _ => exact .same rfl rfl

omit [DecidableEq τ] in
/-- What keeps the place of the loop thread keeps the flag. -/
theorem Flagged.congr (h : Flagged s) (hpc : s'.pc = s.pc)
    (hflag : s'.callingExpiredTimers_ = s.callingExpiredTimers_) : Flagged s' := by
  intro now ran todo hcalling
  rw [hflag]
  exact h now ran todo (hpc ▸ hcalling)

/-- Every step keeps the flag. -/
theorem Flagged.step (h : Flagged s) {a : Step τ π} (hstep : s.step a = some s') : Flagged s' := by
  cases next_of_step hstep with
  | add t p ht =>
    have hkept := runInLoop_kept { s with call := Function.update s.call t .idle } t
      (.addTimerInLoop (s.object p).id_ p)
    exact h.congr hkept.pc hkept.callingExpiredTimers_
  | cancel t timerId hcall =>
    have hkept := runInLoop_kept s t (.cancelTimerInLoop timerId)
    exact h.congr hkept.pc hkept.callingExpiredTimers_
  | runTask task tasks hpc htasks =>
    have hkept := exec_kept { s with tasks_ := tasks } task
    exact h.congr hkept.pc hkept.callingExpiredTimers_
  | handleRead hpc => exact fun _ _ _ _ => rfl
  | runTimer now ran todo p hpc => exact fun _ _ _ _ => h now ran (p :: todo) hpc
  | endTimers now ran hpc => exact fun _ _ _ hcalling => by cases hcalling
  | restart now done todo p hpc hrestarts => exact fun _ _ _ hcalling => by cases hcalling
  | skip now done todo p hpc hrestarts => exact fun _ _ _ hcalling => by cases hcalling
  | addAgain now done todo p hpc =>
    have hframe := addTimerInLoop_frame { s with pc := .resetting now (done ++ [p]) todo }
      (s.object p).id_ p
    intro _ _ _ hcalling
    rw [hframe.pc] at hcalling
    cases hcalling
  | endReset now done fd hpc => exact fun _ _ _ hcalling => by cases hcalling
  | _ => exact h

/-- **The invariant of cancellations**: a timer that was returned before a cancellation of its id
will not be started, and has not been since. -/
structure Effective (s : TimerScheduler τ π) : Prop where
  flagged : Flagged s
  returned : ∀ p, Event.returned p ∈ s.log → p ∈ s.returned
  cancelled : ∀ (pre : List (Event π)) (timerId : TimerId π) (post : List (Event π)),
    s.log = pre ++ Event.cancelled timerId :: post → ∀ p, Event.returned p ∈ pre →
      (s.object p).id_ = timerId.id → Dead s p ∧ Event.started p ∉ post

omit [LinearOrder π] in
/-- A log with one more event is cut at a cancellation: it was cut there before, or the cancellation
is the new event. -/
theorem concat_eq_append_cancelled {log pre post : List (Event π)} {event : Event π}
    {timerId : TimerId π} (h : log ++ [event] = pre ++ .cancelled timerId :: post) :
    (post = [] ∧ log = pre ∧ event = .cancelled timerId) ∨
      ∃ post', post = post' ++ [event] ∧ log = pre ++ .cancelled timerId :: post' := by
  obtain rfl | ⟨post', last, rfl⟩ := List.eq_nil_or_concat post
  · obtain ⟨hlog, hevent⟩ := List.append_inj' h rfl
    exact .inl ⟨rfl, hlog, List.singleton_inj.mp hevent⟩
  · rw [List.concat_eq_append, ← List.cons_append, ← List.append_assoc] at h
    obtain ⟨hlog, hevent⟩ := List.append_inj' h rfl
    exact .inr ⟨post', by rw [List.concat_eq_append, List.singleton_inj.mp hevent], hlog⟩

/-- **Steps whose cancellations reach their timers keep the invariant.** -/
theorem Effective.step (h : Effective s) (hplaced : Placed s) {a : Step τ π}
    (hstep : s.step a = some s') (hreach : s.CancelReaches a) : Effective s' := by
  obtain ⟨place, hl⟩ := hplaced
  -- what holds of a cancellation in the log holds one step later
  have hold : ∀ (pre : List (Event π)) (timerId : TimerId π) (post : List (Event π)),
      s.log = pre ++ Event.cancelled timerId :: post → ∀ p, Event.returned p ∈ pre →
        (s'.object p).id_ = timerId.id →
          Dead s' p ∧ Event.started p ∉ post ∧ p ∉ s.pc.todo := by
    intro pre timerId post hlog p hp hid
    have hcreated : p ∈ s.created :=
      hl.mem_created (hl.returned (h.returned p (by simp [hlog, hp]))).1
    rw [(id_of_step hstep hcreated).2] at hid
    obtain ⟨hdead, hstarted⟩ := h.cancelled pre timerId post hlog p hp hid
    exact ⟨hdead.step hl hstep, hstarted, hdead.todo⟩
  cases logNext_of_step hstep with
  | same hlog hreturned =>
    refine ⟨h.flagged.step hstep, by rw [hlog, hreturned]; exact h.returned, ?_⟩
    intro pre timerId post hpre p hp hid
    obtain ⟨hdead, hstarted, -⟩ := hold pre timerId post (hlog ▸ hpre) p hp hid
    exact ⟨hdead, hstarted⟩
  | returned q hlog hreturned =>
    refine ⟨h.flagged.step hstep, fun p hp => ?_, fun pre timerId post hpre p hp hid => ?_⟩
    · rw [hlog, List.mem_append] at hp
      rw [hreturned, List.mem_append]
      exact hp.imp (h.returned p) fun hp => by simpa using hp
    · rw [hlog] at hpre
      obtain ⟨-, -, hevent⟩ | ⟨post', rfl, hpre'⟩ := concat_eq_append_cancelled hpre
      · cases hevent
      · obtain ⟨hdead, hstarted, -⟩ := hold pre timerId post' hpre' p hp hid
        exact ⟨hdead, by simpa using hstarted⟩
  | started q hq hlog hreturned =>
    refine ⟨h.flagged.step hstep, fun p hp => ?_, fun pre timerId post hpre p hp hid => ?_⟩
    · rw [hreturned]
      exact h.returned p (by simpa [hlog] using hp)
    · rw [hlog] at hpre
      obtain ⟨-, -, hevent⟩ | ⟨post', rfl, hpre'⟩ := concat_eq_append_cancelled hpre
      · cases hevent
      · obtain ⟨hdead, hstarted, htodo⟩ := hold pre timerId post' hpre' p hp hid
        have hne : p ≠ q := fun heq => htodo (heq ▸ hq)
        exact ⟨hdead, by simp [hstarted, hne]⟩
  | cancelled timerId tasks hcancels hpc htasks hs' =>
    have hframe := cancelTimerInLoop_frame { s with tasks_ := tasks } timerId
    have hlog : s'.log = s.log ++ [.cancelled timerId] := by
      rw [hs', exec, hframe.log]
    have hreturned : s'.returned = s.returned := by
      rw [hs', exec, hframe.returned]
    refine ⟨h.flagged.step hstep, fun p hp => ?_, fun pre timerId' post hpre p hp hid => ?_⟩
    · rw [hreturned]
      exact h.returned p (by simpa [hlog] using hp)
    · rw [hlog] at hpre
      obtain ⟨rfl, rfl, hevent⟩ | ⟨post', rfl, hpre'⟩ := concat_eq_append_cancelled hpre
      · obtain rfl : timerId = timerId' := by simpa using hevent
        have hmem := h.returned p hp
        rw [(id_of_step hstep (hl.mem_created (hl.returned hmem).1)).2] at hid
        have hr := hreach timerId hcancels p hmem hid
        have hr' : Reaches { s with tasks_ := tasks } timerId p :=
          ⟨hr.todo, fun hq => hr.queue ((htasks.filterMap _).subset hq), hr.pending, hr.batch⟩
        have hdead := hr'.dead (hl.dequeue htasks) h.flagged hpc hmem hid
        rw [hs']
        exact ⟨hdead.frame id id (fun _ => id) rfl id, List.not_mem_nil⟩
      · obtain ⟨hdead, hstarted, -⟩ := hold pre timerId' post' hpre' p hp hid
        exact ⟨hdead, by simpa using hstarted⟩

/-- **Cancellation**: in any run whose cancellations reach their timers, the callback of a timer is
not started behind a cancellation of its id that is executed behind the return of `addTimer`. -/
theorem cancelled_not_started {as : List (Step τ π)} (h : run step {} as = some s)
    (hreach : Along step CancelReaches {} as) {pre post : List (Event π)} {timerId : TimerId π}
    (hlog : s.log = pre ++ .cancelled timerId :: post) (hp : .returned p ∈ pre)
    (hid : (s.object p).id_ = timerId.id) : .started p ∉ post := by
  have hinvariant := hreach.invariant (I := fun s => Placed s ∧ Effective s)
    (fun hstep hreach hI => ⟨hI.1.step hstep, hI.2.step hI.1 hstep hreach⟩) h
    ⟨⟨_, located_init⟩, fun _ _ _ => nofun, by simp, by simp⟩
  exact (hinvariant.2.cancelled pre timerId post hlog p hp hid).2

/-- A repeating timer and another one are added, and the callback of the first is started. -/
def repeatingRun : List (Step Empty ℕ) :=
  [.load .loop 0 10 5, .store .loop, .add .loop, .load .loop 1 30 0, .store .loop, .add .loop,
    .tick 20, .handleRead, .runTimer]

/-- The callback cancels its timer, and the other timer runs later. -/
def repeatingRest : List (Step Empty ℕ) :=
  [.cancel .loop ⟨1, some 0⟩, .endTimers, .resetTimer, .endReset, .tick 40, .handleRead, .runTimer]

/-- A repeating timer is cancelled by its own callback, and another timer runs later. -/
theorem cancelled_not_started_repeating : ∃ s : TimerScheduler Empty ℕ,
    run step {} (repeatingRun ++ repeatingRest) = some s ∧
    s.log = [Event.returned 0, Event.returned 1, Event.started 0] ++
      Event.cancelled ⟨1, some 0⟩ :: [Event.started 1] ∧
    Event.started 0 ∉ [Event.started 1] := by
  have hrun : (run step {} (repeatingRun ++ repeatingRest)).map (fun s => (s.log, (s.object 0).id_)) =
      some ([Event.returned 0, Event.returned 1, Event.started 0] ++
        Event.cancelled ⟨1, some 0⟩ :: [Event.started 1], 1) := by decide
  obtain ⟨s, hs, hfields⟩ := Option.map_eq_some_iff.mp hrun
  obtain ⟨hlog, hid⟩ := Prod.mk.inj hfields
  have htables : (run step {} repeatingRun).map (fun s => (s.timers_.entries.map
      (fun it => ofLex it.1), s.activeTimers_.find? 1, s.tasks_)) = some ([(30, 1)], none, []) := by
    decide
  have htimers : (run step {} repeatingRun).map
      (fun s => (s.pc.todo, s.returned, (s.object 1).id_)) = some ([], [0, 1], 2) := by
    decide
  have hreach : Along step CancelReaches {} (repeatingRun ++ repeatingRest) := by
    refine (along_cancelReaches_of_none (by simp [repeatingRun, cancels])).append fun s₁ hs₁ =>
      ⟨?_, fun s₂ _ => along_cancelReaches_of_none (by simp [cancels])⟩
    simp only [hs₁, Option.map_some, Option.some.injEq, Prod.mk.injEq] at htables htimers
    obtain ⟨hpending, hactive, htasks⟩ := htables
    obtain ⟨htodo, hreturned, hid₁⟩ := htimers
    intro timerId hcancels p hp hidp
    obtain rfl : ⟨1, some 0⟩ = timerId := by simpa [cancels] using hcancels
    obtain rfl : p = 0 := by
      rcases (by simpa [hreturned] using hp : p = 0 ∨ p = 1) with rfl | rfl
      · rfl
      · simp [hid₁] at hidp
    refine ⟨by simp [htodo], by simp [htasks], fun e he => ?_, fun _ _ => hactive⟩
    have hmem : (e, 0) ∈ s₁.timers_.entries.map fun it => ofLex it.1 :=
      List.mem_map.mpr ⟨_, SortedMap.mem_entries_iff.mpr he, rfl⟩
    simp [hpending] at hmem
  exact ⟨s, hs, hlog, cancelled_not_started hs hreach hlog (by simp) hid⟩

/-- Two timers expire together, and the callback of the first cancels the second. -/
def batchRun : List (Step Empty ℕ) :=
  [.load .loop 0 10 0, .store .loop, .add .loop, .load .loop 1 10 0, .store .loop, .add .loop,
    .tick 20, .handleRead, .runTimer, .cancel .loop ⟨2, some 1⟩, .runTimer]

/-- Another thread adds a timer, which the loop thread cancels before it looks at its queue. -/
def queueRun : List (Step Unit ℕ) :=
  [.load (.other ()) 0 10 0, .store (.other ()), .add (.other ()), .cancel .loop ⟨1, some 0⟩,
    .runTask, .tick 20, .handleRead, .runTimer]

/-- **A callback is started behind a cancellation**: when the callback of an earlier timer of the
batch cancels it, and when the loop thread cancels it before it takes `addTimerInLoop` out of its
queue. No assertion fails. -/
theorem started_after_cancelled :
    (∃ s, run step {} batchRun = some s ∧ (s.object 1).id_ = 2 ∧ s.checks.all Prod.snd = true ∧
      s.log = [Event.returned 0, Event.returned 1, Event.started 0] ++
        Event.cancelled ⟨2, some 1⟩ :: [Event.started 1]) ∧
    (∃ s, run step {} queueRun = some s ∧ (s.object 0).id_ = 1 ∧ s.checks.all Prod.snd = true ∧
      s.log = [Event.returned 0] ++ Event.cancelled ⟨1, some 0⟩ :: [Event.started 0]) := by
  constructor
  · have hrun : (run step {} batchRun).map
        (fun s => ((s.object 1).id_, s.checks.all Prod.snd, s.log)) =
        some (2, true, [Event.returned 0, Event.returned 1, Event.started 0] ++
          Event.cancelled ⟨2, some 1⟩ :: [Event.started 1]) := by decide
    obtain ⟨s, hs, hfields⟩ := Option.map_eq_some_iff.mp hrun
    simp only [Prod.mk.injEq] at hfields
    exact ⟨s, hs, hfields⟩
  · have hrun : (run step {} queueRun).map
        (fun s => ((s.object 0).id_, s.checks.all Prod.snd, s.log)) =
        some (1, true, [Event.returned 0] ++
          Event.cancelled ⟨1, some 0⟩ :: [Event.started 0]) := by decide
    obtain ⟨s, hs, hfields⟩ := Option.map_eq_some_iff.mp hrun
    simp only [Prod.mk.injEq] at hfields
    exact ⟨s, hs, hfields⟩

end TimerScheduler

end LouisNet.Timers
