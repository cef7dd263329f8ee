import LouisNet.Timers.TimerIds

set_option relaxedAutoImplicit false
set_option autoImplicit false

/-!
# The two tables of the timer scheduler

`timers_` orders the pending timers by expiration and `activeTimers_` finds them by id. As long as
no two timers have one id, the two are in bijection at every point of every run, also in the middle
of `handleRead` and `reset` and whatever callbacks add and cancel, and the assertions about them
hold. If only the loop thread adds timers, ids repeat after `2^64` calls of `addTimer`.

## Main definitions

* `LouisNet.Timers.TimerScheduler.Bijection` — the two containers hold the same timers.
* `LouisNet.Timers.TimerScheduler.Sound` — nothing pending is missing in `activeTimers_`, and the
  assertions evaluated so far hold.

## Main results

* `LouisNet.Timers.TimerScheduler.sound_run` — tables and assertions of any run without shared ids.
* `LouisNet.Timers.TimerScheduler.table_invariant` — adding from the loop thread.
* `LouisNet.Timers.TimerScheduler.ids_distinct` — adding from any number of threads.
-/

namespace LouisNet.Timers

open Lib Reactor

namespace TimerScheduler

variable {τ π : Type*} [LinearOrder π] {s s' : TimerScheduler τ π} {place : π → Place τ} {p : π}

/-! ## The tables -/

/-- **The two containers are in bijection**: a timer is in `timers_` exactly if `activeTimers_`
maps its id to it, under its expiration, and every entry of `activeTimers_` is of this kind. -/
structure Bijection (s : TimerScheduler τ π) : Prop where
  pending_iff : ∀ p, (∃ e, s.Pending e p) ↔ s.activeTimers_.find? (s.object p).id_ = some p
  expiration : ∀ e p, s.Pending e p → (s.object p).expiration_ = some e
  id_eq : ∀ i p, s.activeTimers_.find? i = some p → (s.object p).id_ = i

/-- Every pending timer is found by its id. -/
def Complete (s : TimerScheduler τ π) : Prop :=
  ∀ e p, s.Pending e p → s.activeTimers_.find? (s.object p).id_ = some p

/-- Timers that are at their places and found by their ids are in bijection. -/
theorem Complete.bijection (hc : Complete s) (h : Located s place) : Bijection s where
  pending_iff := fun p => ⟨fun ⟨e, he⟩ => hc e p he, fun hp => (h.active hp).2⟩
  expiration := fun _ _ hp => (h.timers hp).2
  id_eq := fun _ _ hp => (h.active hp).1

/-- No id occurs twice. -/
theorem Bijection.entry_eq (h : Bijection s) {e e' : ℤ} {q : π} (hp : s.Pending e p)
    (hq : s.Pending e' q) (hid : (s.object p).id_ = (s.object q).id_) : e = e' ∧ p = q := by
  have hfp := (h.pending_iff p).mp ⟨e, hp⟩
  rw [hid, (h.pending_iff q).mp ⟨e', hq⟩] at hfp
  obtain rfl := Option.some.inj hfp
  exact ⟨Option.some.inj ((h.expiration e _ hp).symm.trans (h.expiration e' _ hq)), rfl⟩

/-- Containers in bijection have one size. -/
theorem Bijection.sameSize (h : Bijection s) : s.sameSize = true := by
  rw [TimerScheduler.sameSize, beq_iff_eq, ← SortedMap.card_keys, ← SortedMap.card_keys]
  have hkey : ∀ entry ∈ s.timers_.keys, s.Pending (ofLex entry).1 (ofLex entry).2 := by
    intro entry hentry
    obtain ⟨_, hfind⟩ := SortedMap.mem_keys.mp hentry
    exact hfind
  refine Finset.card_bij (fun entry _ => (s.object (ofLex entry).2).id_) ?_ ?_ ?_
  · intro entry hentry
    exact SortedMap.mem_keys.mpr ⟨_, (h.pending_iff _).mp ⟨_, hkey entry hentry⟩⟩
  · intro a ha b hb hid
    obtain ⟨he, hp⟩ := h.entry_eq (hkey a ha) (hkey b hb) hid
    exact Prod.ext he hp
  · intro i hi
    obtain ⟨p, hp⟩ := SortedMap.mem_keys.mp hi
    obtain rfl := h.id_eq i p hp
    obtain ⟨e, he⟩ := (h.pending_iff p).mpr hp
    exact ⟨toLex (e, p), SortedMap.mem_keys.mpr ⟨(), he⟩, rfl⟩

/-- The assertions that follow from the bijection. -/
def ofTables : Check → Bool
  | .upperBound => false
  | .sameTimer => false
  | _ => true

/-- **Nothing pending is missing** in `activeTimers_`, and the assertions about the tables that were
evaluated hold. -/
structure Sound (s : TimerScheduler τ π) : Prop where
  complete : Complete s
  checks : ∀ c ∈ s.checks, ofTables c.1 = true → c.2 = true

/-- What leaves the tables and records nothing leaves them sound. -/
theorem Sound.frame (h : Sound s) (htimers : s'.timers_ = s.timers_)
    (hactive : s'.activeTimers_ = s.activeTimers_)
    (hid : ∀ e p, s.Pending e p → (s'.object p).id_ = (s.object p).id_)
    (hchecks : s'.checks = s.checks) : Sound s' where
  complete := fun e p hp => by
    rw [Pending, htimers] at hp
    rw [hactive, hid e p hp]
    exact h.complete e p hp
  checks := fun c hc => h.checks c (hchecks ▸ hc)

/-- **`addTimerInLoop` inserts into both tables**, if no other timer has the id of the timer.

**Proof sketch.** The timer is in the hands of the loop thread, so it has no entry in `timers_`. An
entry of `activeTimers_` under its id would be that of another timer with this id. -/
theorem Sound.addTimerInLoop (hs : Sound s) (h : Located s place) (hp : place p = .hand)
    (hunique : UniqueIds s) : Sound (s.addTimerInLoop (s.object p).id_ p) := by
  obtain ⟨e, he⟩ := h.expiration (h.mem_created (p := p) (by simp [hp]))
  have hnew : ∀ e, ¬ s.Pending e p := by
    intro e he
    have hplace := (h.timers he).1
    rw [hp] at hplace
    cases hplace
  have htimers : s.timers_.find? (toLex (e, p)) = none := by
    cases hfind : s.timers_.find? (toLex (e, p)) with
    | none => rfl
    | some u => exact absurd hfind (hnew e)
  have hactive : s.activeTimers_.find? (s.object p).id_ = none := by
    cases hfind : s.activeTimers_.find? (s.object p).id_ with
    | none => rfl
    | some q =>
      obtain ⟨hid, e', he'⟩ := h.active hfind
      obtain rfl := hunique q (h.mem_created (by simp [(h.timers he').1])) p
        (h.mem_created (by simp [hp])) hid
      exact absurd he' (hnew e')
  obtain ⟨fd, hs'⟩ := addTimerInLoop_eq (s.object p).id_ he
  have hcomplete : Complete (s.addTimerInLoop (s.object p).id_ p) := by
    rw [hs']
    intro e' q hq
    rw [Pending, SortedMap.find?_emplace_unit, toLex_inj, Prod.mk.injEq] at hq
    rw [SortedMap.find?_emplace]
    rcases hq with ⟨rfl, rfl⟩ | hq
    · exact if_pos ⟨rfl, hactive⟩
    · have hfound := hs.complete e' q hq
      rw [if_neg fun heq => by rw [heq.1, hactive] at hfound; cases hfound]
      exact hfound
  have hsize := (hcomplete.bijection (h.addTimerInLoop hp)).sameSize
  refine ⟨hcomplete, fun c hc htables => ?_⟩
  rw [hs'] at hc hsize
  rcases List.mem_append.mp hc with hc | hc
  · exact hs.checks c hc htables
  · simp only [List.mem_cons, List.not_mem_nil, or_false] at hc
    rcases hc with rfl | rfl | rfl | rfl | rfl
    · exact (hs.complete.bijection h).sameSize
    · rfl
    · simp [htimers]
    · simp [hactive]
    · exact hsize

/-- `cancelTimerInLoop` takes a timer out of both tables. -/
theorem Sound.cancelTimerInLoop (hs : Sound s) (h : Located s place) (timerId : TimerId π) :
    Sound (s.cancelTimerInLoop timerId) := by
  obtain ⟨p, e, hp, he, hs'⟩ | ⟨-, hs'⟩ := h.cancelTimerInLoop_cases timerId
  · rw [hs']
    refine ⟨fun e' q hq => ?_, fun c hc htables => ?_⟩
    · rw [Pending, SortedMap.find?_erase] at hq
      split_ifs at hq with hne
      have hfound := hs.complete e' q hq
      rw [SortedMap.find?_erase, if_neg, hfound]
      -- a timer with this id is the one found, and has one entry only
      intro hid
      rw [hid, hp] at hfound
      obtain rfl := Option.some.inj hfound
      have heq : e' = e := Option.some.inj ((h.timers hq).2.symm.trans (h.timers he).2)
      exact hne (by rw [heq])
    · rcases List.mem_append.mp hc with hc | hc
      · exact hs.checks c hc htables
      · simp only [List.mem_cons, List.not_mem_nil, or_false] at hc
        rcases hc with rfl | rfl
        · cases htables
        · rfl
  · rw [hs']
    exact hs.frame rfl rfl (fun _ _ _ => rfl) rfl

/-- `handleRead` takes the timers of the batch out of both tables. -/
theorem Sound.handleRead (hs : Sound s) (h : Located s place) : Sound s.handleRead := by
  have hcomplete : Complete s.handleRead := by
    intro e q hq
    obtain ⟨hq, hle⟩ := pending_handleRead.mp hq
    rw [handleRead_eq]
    dsimp only
    rw [SortedMap.find?_foldl_erase, if_neg, hs.complete e q hq]
    -- an id that was erased is that of a timer that has expired
    intro hmem
    obtain ⟨r, hr, hid⟩ := List.mem_map.mp hmem
    obtain ⟨e', hlt, he'⟩ := mem_expiredTimers.mp hr
    obtain ⟨heq, -⟩ := (hs.complete.bijection h).entry_eq he' hq hid
    omega
  have hsize := (hcomplete.bijection h.handleRead).sameSize
  refine ⟨hcomplete, fun c hc htables => ?_⟩
  rw [handleRead_eq] at hc hsize
  rcases List.mem_append.mp hc with hc | hc
  · exact hs.checks c hc htables
  · simp only [List.mem_cons, List.not_mem_nil, or_false] at hc
    rcases hc with rfl | rfl | rfl
    · exact (hs.complete.bijection h).sameSize
    · cases htables
    · exact hsize

/-- A functor is executed by the loop thread. -/
theorem Sound.exec (hs : Sound s) (h : Located s place) {task : Task π} {tasks : List (Task π)}
    (htasks : s.tasks_ = task :: tasks) (hunique : UniqueIds s) :
    Sound (exec { s with tasks_ := tasks } task) := by
  have hs' : Sound { s with tasks_ := tasks } := hs.frame rfl rfl (fun _ _ _ => rfl) rfl
  cases task with
  | addTimerInLoop id p =>
    obtain rfl : (s.object p).id_ = id := h.task_id (by simp [htasks])
    exact hs'.addTimerInLoop (h.leaveQueue htasks) (Function.update_self ..) hunique
  | cancelTimerInLoop timerId =>
    have htaken : Located { s with tasks_ := tasks } place :=
      h.dequeue (htasks ▸ List.sublist_cons_self _ _)
    exact (hs'.cancelTimerInLoop htaken timerId).frame rfl rfl (fun _ _ _ => rfl) rfl

variable [DecidableEq τ]

/-- A call gives its timer to the loop and returns. -/
theorem Sound.returnId (hs : Sound s) (h : Located s place) {t : Thread τ}
    (ht : s.call t = .stored p) (hunique : UniqueIds s) : Sound (s.returnId t p) := by
  have hs' : Sound { s with call := Function.update s.call t .idle } :=
    hs.frame rfl rfl (fun _ _ _ => rfl) rfl
  by_cases hloop : t = .loop
  · have hadd := hs'.addTimerInLoop (h.leaveCall (t := t) (p := p) (by simp [ht, Call.timer?]))
      (Function.update_self ..) hunique
    rw [TimerScheduler.returnId, runInLoop, if_pos hloop]
    exact hadd.frame rfl rfl (fun _ _ _ => rfl) rfl
  · rw [TimerScheduler.returnId, runInLoop, if_neg hloop]
    exact hs'.frame rfl rfl (fun _ _ _ => rfl) rfl

/-- **Every step keeps the tables sound**, as long as no two timers have one id. -/
theorem Sound.step (hs : Sound s) (h : Placed s) {a : Step τ π} (hstep : s.step a = some s')
    (hunique : UniqueIds s) : Sound s' := by
  obtain ⟨place, hl⟩ := h
  cases next_of_step hstep with
  | load t p expiration interval hcall hnew =>
    refine hs.frame rfl rfl (fun e q hq => ?_) rfl
    have hne : q ≠ p := fun heq => hnew (heq ▸ hl.mem_created (by simp [(hl.timers hq).1]))
    rw [loadId_object, if_neg hne]
  | add t p ht => exact hs.returnId hl ht hunique
  | cancel t timerId hcall =>
    rw [runInLoop]
    split_ifs
    · exact (hs.cancelTimerInLoop hl timerId).frame rfl rfl (fun _ _ _ => rfl) rfl
    · exact hs.frame rfl rfl (fun _ _ _ => rfl) rfl
  | runTask task tasks hpc htasks => exact hs.exec hl htasks hunique
  | handleRead hpc => exact hs.handleRead hl
  | restart now done todo p hpc hrestarts =>
    exact hs.frame rfl rfl (fun e q _ => id_update_restart s.object p q now) rfl
  | addAgain now done todo p hpc =>
    have htaken := hl.leaveBatch (p := p) (.resetting now (done ++ [p]) todo)
      (by simp [hpc, Pc.batch])
    have hs' : Sound { s with pc := .resetting now (done ++ [p]) todo } :=
      hs.frame rfl rfl (fun _ _ _ => rfl) rfl
    exact hs'.addTimerInLoop htaken (Function.update_self ..) hunique
  | _ => exact hs.frame rfl rfl (fun _ _ _ => rfl) rfl

/-- **The tables of a run without shared ids** are sound. -/
theorem sound_run {as : List (Step τ π)} (h : run step {} as = some s) (hunique : UniqueIds s) :
    Sound s := by
  refine (run_invariant (I := fun s => Placed s ∧ (UniqueIds s → Sound s))
    (fun hstep hI => ⟨hI.1.step hstep, fun hunique => ?_⟩) h
    ⟨⟨_, located_init⟩, fun _ => ⟨by simp [Complete, Pending], by simp⟩⟩).2 hunique
  have hunique' := UniqueIds.of_step hstep hunique
  exact (hI.2 hunique').step hI.1 hstep hunique'

/-! ## Adding from the loop thread -/

omit [DecidableEq τ] in
/-- A cancellation that finds its id removes one entry from each container. -/
theorem Located.size_cancelTimerInLoop (h : Located s place) {timerId : TimerId π}
    (hp : s.activeTimers_.find? timerId.id = some p) :
    (s.cancelTimerInLoop timerId).timers_.size + 1 = s.timers_.size ∧
      (s.cancelTimerInLoop timerId).activeTimers_.size + 1 = s.activeTimers_.size := by
  obtain ⟨q, e, hq, he, hs'⟩ | ⟨hnone, -⟩ := h.cancelTimerInLoop_cases timerId
  · rw [hs']
    exact ⟨SortedMap.size_erase he, SortedMap.size_erase hq⟩
  · rw [hnone] at hp
    cases hp

/-- **The table invariant**: in any run in which `addTimer` is called on the loop thread, fewer than
`2^64` times, the two containers are in bijection, no id occurs twice, the assertions about them
hold, `emplace` inserts, and a cancellation that finds its id removes one entry from each.

**Proof sketch.** A single thread loads `nextId_` only when it is in no other call, so the ids are
numbers in the order of the calls, and no two timers have one id. Then every step keeps the tables
sound. -/
theorem table_invariant {as : List (Step τ π)} (hloop : ∀ a ∈ as, Step.AddsOnLoop a)
    (h : run step {} as = some s) (hcalls : s.created.length < 2 ^ 64) :
    Bijection s ∧
    (∀ e p e' q, s.Pending e p → s.Pending e' q → (s.object p).id_ = (s.object q).id_ →
      e = e' ∧ p = q) ∧
    (∀ c ∈ s.checks, ofTables c.1 = true → c.2 = true) ∧
    (∀ timerId p, s.activeTimers_.find? timerId.id = some p →
      (s.cancelTimerInLoop timerId).timers_.size + 1 = s.timers_.size ∧
        (s.cancelTimerInLoop timerId).activeTimers_.size + 1 = s.activeTimers_.size) := by
  have hnumbered := numbered_run (loadsAlone_of_addsOnLoop hloop h) h hcalls
  have hsound := sound_run h hnumbered.uniqueIds
  obtain ⟨place, hl⟩ := placed_run h
  have hbijection := hsound.complete.bijection hl
  exact ⟨hbijection, fun e p e' q hp hq hid => hbijection.entry_eq hp hq hid, hsound.checks,
    fun timerId p hp => hl.size_cancelTimerInLoop hp⟩

/-- Two timers expire together; the callback of the first adds a third and cancels it, and the first
is added again by `reset`. -/
theorem table_invariant_batch : ∃ s : TimerScheduler Empty ℕ,
    run step {} [.load .loop 0 10 5, .store .loop, .add .loop, .load .loop 1 10 0, .store .loop,
      .add .loop, .tick 20, .handleRead, .runTimer, .load .loop 2 40 0, .store .loop, .add .loop,
      .cancel .loop ⟨3, some 2⟩, .runTimer, .endTimers, .resetTimer, .addAgain] = some s ∧
    s.activeTimers_.entries = [(1, 0)] ∧ s.pc = .resetting 20 [0] [1] ∧ Bijection s := by
  have hrun : (run step ({} : TimerScheduler Empty ℕ) [.load .loop 0 10 5, .store .loop, .add .loop,
      .load .loop 1 10 0, .store .loop, .add .loop, .tick 20, .handleRead, .runTimer,
      .load .loop 2 40 0, .store .loop, .add .loop, .cancel .loop ⟨3, some 2⟩, .runTimer,
      .endTimers, .resetTimer, .addAgain]).map
      (fun s => (s.activeTimers_.entries, s.pc, s.created.length)) =
      some ([(1, 0)], .resetting 20 [0] [1], 3) := by decide
  obtain ⟨s, hs, hfields⟩ := Option.map_eq_some_iff.mp hrun
  simp only [Prod.mk.injEq] at hfields
  obtain ⟨hactive, hpc, hlength⟩ := hfields
  exact ⟨s, hs, hactive, hpc,
    (table_invariant (by simp [Step.AddsOnLoop]) hs (by rw [hlength]; norm_num)).1⟩

/-! ## Ids that come back -/

/-- What a call of `addTimer` on the loop thread does. -/
structure Added (s s' : TimerScheduler τ π) (p : π) (expiration : ℤ) (id : ℕ) : Prop where
  call : s'.call .loop = .idle
  pc : s'.pc = s.pc
  nextId_ : s'.nextId_ = id
  created : s'.created = s.created ++ [p]
  id_eq : (s'.object p).id_ = id
  pending : s'.Pending expiration p
  active : s'.activeTimers_ = s.activeTimers_.emplace id p
  checks : (Check.activeInserted, (s.activeTimers_.find? id).isNone) ∈ s'.checks

/-- A call of `addTimer` on the loop thread, from its load to its return. -/
theorem exists_added (hcall : s.call .loop = .idle) (hpc : s.pc = .idle) (hp : p ∉ s.created)
    (expiration interval : ℤ) : ∃ s',
      run step s [.load .loop p expiration interval, .store .loop, .add .loop] = some s' ∧
      Added s s' p expiration ((s.nextId_ + 1) % 2 ^ 64) := by
  have hcan : s.CanCall .loop := ⟨hcall, fun _ => by simp [hpc, Pc.userCode]⟩
  have hrun : run step s [.load .loop p expiration interval, .store .loop, .add .loop] =
      some (((s.loadId .loop p expiration interval).storeId .loop p).returnId .loop p) := by
    simp [run, step, assert, hcan, hp]
  have hobject : ((s.loadId .loop p expiration interval).storeId .loop p).object p =
      Timer.new expiration interval ((s.nextId_ + 1) % 2 ^ 64) := by simp [storeId]
  obtain ⟨fd, heq⟩ := returnId_loop_eq (p := p) (e := expiration)
    (s := (s.loadId .loop p expiration interval).storeId .loop p) (by simp [hobject, Timer.new])
  refine ⟨_, hrun, ?_⟩
  rw [heq, hobject]
  exact {
    call := by simp
    pc := rfl
    nextId_ := by simp [storeId, Timer.new]
    created := rfl
    id_eq := by simp [storeId, Timer.new]
    pending := (SortedMap.find?_emplace_unit _ _ _).mpr (.inl rfl)
    active := rfl
    checks := List.mem_append_right _ (by simp [Timer.new, storeId, loadId]) }

/-- The first timer keeps its id while `k` others have been added and cancelled. -/
structure Wrapping (s : TimerScheduler Empty ℕ) (k : ℕ) : Prop where
  call : s.call .loop = .idle
  pc : s.pc = .idle
  nextId_ : s.nextId_ = (k + 1) % 2 ^ 64
  created : ∀ p ∈ s.created, p ≤ k
  active : s.activeTimers_.find? 1 = some 0

/-- A timer is added. -/
def addSteps (p : ℕ) : List (Step Empty ℕ) := [.load .loop p 10 0, .store .loop, .add .loop]

/-- A timer is added and cancelled. -/
def round (k : ℕ) : List (Step Empty ℕ) :=
  addSteps (k + 1) ++ [Step.cancel .loop ⟨(k + 2) % 2 ^ 64, some (k + 1)⟩]

/-- A round takes the next id, which is not the first one before `2^64` calls. -/
theorem Wrapping.round {s : TimerScheduler Empty ℕ} {k : ℕ} (h : Wrapping s k)
    (hk : k + 1 < 2 ^ 64) : ∃ s', run step s (round k) = some s' ∧ Wrapping s' (k + 1) := by
  have hnew : k + 1 ∉ s.created := fun hmem => absurd (h.created _ hmem) (by omega)
  obtain ⟨s₁, hrun, hadded⟩ := exists_added h.call h.pc hnew 10 0
  have hid : (s.nextId_ + 1) % 2 ^ 64 = (k + 2) % 2 ^ 64 := by
    rw [h.nextId_]
    omega
  rw [hid] at hadded
  have hframe := cancelTimerInLoop_frame s₁ ⟨(k + 2) % 2 ^ 64, some (k + 1)⟩
  have hcan : s₁.CanCall .loop := ⟨hadded.call, fun _ => by rw [hadded.pc, h.pc, Pc.userCode]⟩
  have hcancel : run step s₁ [.cancel .loop ⟨(k + 2) % 2 ^ 64, some (k + 1)⟩] =
      some (s₁.exec (.cancelTimerInLoop ⟨(k + 2) % 2 ^ 64, some (k + 1)⟩)) := by
    simp [run, step, assert, hcan, runInLoop]
  refine ⟨_, run_append.mpr ⟨s₁, hrun, hcancel⟩, ?_, ?_, ?_, fun p hp => ?_, ?_⟩
  · rw [exec, hframe.call, hadded.call]
  · rw [exec, hframe.pc, hadded.pc, h.pc]
  · rw [exec, hframe.nextId_, hadded.nextId_]
  · rw [exec, hframe.created, hadded.created] at hp
    rcases List.mem_append.mp hp with hp | hp
    · exact (h.created p hp).trans (by omega)
    · exact le_of_eq (by simpa using hp)
  · have hne : 1 ≠ (k + 2) % 2 ^ 64 := by omega
    rw [exec, find?_cancelTimerInLoop_of_ne hne, hadded.active, SortedMap.find?_emplace,
      if_neg fun heq => hne heq.1, h.active]

/-- Any number of rounds below `2^64`. -/
theorem Wrapping.rounds {s : TimerScheduler Empty ℕ} (h : Wrapping s 0) (k : ℕ) (hk : k < 2 ^ 64) :
    ∃ s', run step s ((List.range k).flatMap TimerScheduler.round) = some s' ∧ Wrapping s' k := by
  induction k with
  | zero => exact ⟨s, rfl, h⟩
  | succ k ih =>
    obtain ⟨s₁, hrun₁, h₁⟩ := ih (by omega)
    obtain ⟨s₂, hrun₂, h₂⟩ := h₁.round hk
    rw [List.range_succ, List.flatMap_append, List.flatMap_singleton]
    exact ⟨s₂, run_append.mpr ⟨s₁, hrun₁, hrun₂⟩, h₂⟩

/-- **Ids come back after `2^64` calls**: a timer that is still pending has the id of the last one,
which `activeTimers_.emplace` does not insert, and the containers are not in bijection. -/
theorem not_table_invariant : ∃ (as : List (Step Empty ℕ)) (s : TimerScheduler Empty ℕ),
    (∀ a ∈ as, Step.AddsOnLoop a) ∧ run step {} as = some s ∧
      (Check.activeInserted, false) ∈ s.checks ∧ ¬ Bijection s := by
  obtain ⟨s₀, hrun₀, hadded₀⟩ := exists_added (s := ({} : TimerScheduler Empty ℕ)) (p := 0)
    rfl rfl (by simp) 10 0
  have h₀ : Wrapping s₀ 0 := by
    refine ⟨hadded₀.call, hadded₀.pc, hadded₀.nextId_, fun p hp => ?_, ?_⟩
    · rw [hadded₀.created] at hp
      exact le_of_eq (by simpa using hp)
    · rw [hadded₀.active, SortedMap.find?_emplace, if_pos ⟨by norm_num, rfl⟩]
  obtain ⟨s₁, hrun₁, h₁⟩ := h₀.rounds (2 ^ 64 - 1) (by omega)
  have hnew : 2 ^ 64 ∉ s₁.created := fun hmem => absurd (h₁.created _ hmem) (by omega)
  obtain ⟨s₂, hrun₂, hadded₂⟩ := exists_added h₁.call h₁.pc hnew 10 0
  have hid : (s₁.nextId_ + 1) % 2 ^ 64 = 1 := by
    rw [h₁.nextId_]
    norm_num
  rw [hid] at hadded₂
  refine ⟨_, s₂, ?_, run_append.mpr ⟨s₀, hrun₀, run_append.mpr ⟨s₁, hrun₁, hrun₂⟩⟩, ?_, fun h => ?_⟩
  · have hadds : ∀ p, ∀ a ∈ addSteps p, Step.AddsOnLoop a := by
      intro p
      simp [addSteps, Step.AddsOnLoop]
    intro a ha
    rcases List.mem_append.mp ha with ha | ha
    · exact hadds _ a ha
    rcases List.mem_append.mp ha with ha | ha
    · obtain ⟨k, -, ha⟩ := List.mem_flatMap.mp ha
      rcases List.mem_append.mp ha with ha | ha
      · exact hadds _ a ha
      · rw [List.mem_singleton.mp ha]
        trivial
    · exact hadds _ a ha
  · have hcheck := hadded₂.checks
    rwa [h₁.active] at hcheck
  · have hfound := (h.pending_iff (2 ^ 64)).mp ⟨10, hadded₂.pending⟩
    rw [hadded₂.id_eq, hadded₂.active, SortedMap.find?_emplace,
      if_neg (by simp [h₁.active]), h₁.active] at hfound
    exact absurd (Option.some.inj hfound) (by norm_num)

/-! ## Adding from any thread -/

/-- Every timer made is in a call that goes on or was returned, once. -/
structure Accounted (s : TimerScheduler τ π) : Prop where
  nodup : s.returned.Nodup
  created : ∀ p ∈ s.created, p ∈ s.returned ∨ ∃ t, (s.call t).timer? = some p

/-- Every step keeps the account. -/
theorem Accounted.step (h : Accounted s) (hplaced : Placed s) {a : Step τ π}
    (hstep : s.step a = some s') : Accounted s' := by
  obtain ⟨place, hl⟩ := hplaced
  cases idNext_of_step hstep with
  | load t p expiration interval hnew ht hs' =>
    rw [hs']
    refine ⟨h.nodup, fun q hq => ?_⟩
    by_cases heq : q = p
    · exact .inr ⟨t, by simp [heq, Call.timer?]⟩
    · have hq' : q ∈ s.created := by simpa [heq] using hq
      rcases h.created q hq' with hq | ⟨t', ht'⟩
      · exact .inl hq
      · have hne : t' ≠ t := fun heq => by simp [heq, ht, Call.timer?] at ht'
        exact .inr ⟨t', by rw [loadId_call, if_neg hne, ht']⟩
  | store t p ht hs' =>
    rw [hs']
    refine ⟨h.nodup, fun q hq => ?_⟩
    rcases h.created q hq with hq | ⟨t', ht'⟩
    · exact .inl hq
    · refine .inr ⟨t', ?_⟩
      by_cases heq : t' = t
      · rw [heq, ht] at ht'
        simpa [heq, Call.timer?] using ht'
      · rw [storeId_call, if_neg heq, ht']
  | add t p ht hobject hcreated hreturned hnext hcall =>
    have hplace := hl.call (t := t) (p := p) (by rw [ht, Call.timer?])
    constructor
    · rw [hreturned]
      refine h.nodup.append (List.nodup_singleton p) fun q hq hq' => ?_
      obtain rfl := List.mem_singleton.mp hq'
      exact (hl.returned hq).2 t hplace
    · intro q hq
      rw [hcreated] at hq
      rw [hreturned, hcall]
      obtain hq | ⟨t', ht'⟩ := h.created q hq
      · exact .inl (List.mem_append_left _ hq)
      by_cases heq : t' = t
      · rw [heq, ht] at ht'
        exact .inl (by simp [Option.some.inj ht'])
      · exact .inr ⟨t', by rw [Function.update_of_ne heq, ht']⟩
  | other a ha hids hcreated hreturned hnext hcall =>
    exact ⟨by rw [hreturned]; exact h.nodup, by rw [hcreated, hreturned, hcall]; exact h.created⟩

/-- Every run keeps the account. -/
theorem accounted_run {as : List (Step τ π)} (h : run step {} as = some s) : Accounted s :=
  (run_invariant (I := fun s => Placed s ∧ Accounted s)
    (fun hstep hI => ⟨hI.1.step hstep, hI.2.step hI.1 hstep⟩) h
    ⟨⟨_, located_init⟩, by simp, by simp⟩).2

/-- **Ids of timers added from any number of threads**, in fewer than `2^64` calls: if no call loads
`nextId_` while another is between its load and its store, the ids returned are distinct and every
`activeTimers_.emplace` inserts. Once all calls have returned, distinct ids need this condition.

**Proof sketch.** Calls that load alone number the timers, and numbered timers have sound tables.
The first call that does not load alone reads the value that another one has read, and the timers
of the two have one id. -/
theorem ids_distinct {as : List (Step τ π)} (h : run step {} as = some s)
    (hcalls : s.created.length < 2 ^ 64) :
    (Along step LoadsAlone {} as → (s.returned.map fun p => (s.object p).id_).Nodup ∧
      ∀ b, (Check.activeInserted, b) ∈ s.checks → b = true) ∧
    ((∀ t, s.call t = .idle) → (s.returned.map fun p => (s.object p).id_).Nodup →
      Along step LoadsAlone {} as) := by
  have haccounted := accounted_run h
  obtain ⟨place, hl⟩ := placed_run h
  constructor
  · intro halone
    have hunique := (numbered_run halone h hcalls).uniqueIds
    refine ⟨haccounted.nodup.map_on fun p hp q hq heq => ?_, fun b hb => ?_⟩
    · exact hunique p (hl.mem_created (hl.returned hp).1) q (hl.mem_created (hl.returned hq).1) heq
    · exact (sound_run h hunique).checks _ hb rfl
  · intro hidle hnodup
    have hreturned : ∀ p ∈ s.created, p ∈ s.returned := fun p hp => by
      simpa [hidle, Call.timer?] using haccounted.created p hp
    exact loadsAlone_of_uniqueIds h numbered_init hcalls fun p hp q hq heq =>
      List.inj_on_of_nodup_map hnodup (hreturned p hp) (hreturned q hq) heq

/-- The second call loads between the store of the first and its return. -/
theorem ids_distinct_stored : ∃ s : TimerScheduler ℕ ℕ,
    run step {} [.load (.other 0) 0 10 0, .store (.other 0), .load (.other 1) 1 20 0,
      .store (.other 1), .add (.other 1), .add (.other 0), .runTask, .runTask] = some s ∧
    s.returned = [1, 0] ∧ (s.returned.map fun p => (s.object p).id_).Nodup ∧
      ∀ b, (Check.activeInserted, b) ∈ s.checks → b = true := by
  have hrun : (run step ({} : TimerScheduler ℕ ℕ) [.load (.other 0) 0 10 0, .store (.other 0),
      .load (.other 1) 1 20 0, .store (.other 1), .add (.other 1), .add (.other 0), .runTask,
      .runTask]).map (fun s => (s.returned, s.created.length)) = some ([1, 0], 2) := by decide
  obtain ⟨s, hs, hfields⟩ := Option.map_eq_some_iff.mp hrun
  obtain ⟨hreturned, hlength⟩ := Prod.mk.inj hfields
  have halone : Along step LoadsAlone ({} : TimerScheduler ℕ ℕ) [.load (.other 0) 0 10 0,
      .store (.other 0), .load (.other 1) 1 20 0, .store (.other 1), .add (.other 1),
      .add (.other 0), .runTask, .runTask] := by
    refine ⟨fun _ _ => nofun, fun s₁ h₁ => ⟨trivial, fun s₂ h₂ => ⟨fun t q hq => ?_,
      fun _ _ => ⟨trivial, fun _ _ => ⟨trivial, fun _ _ => ⟨trivial, fun _ _ => ⟨trivial,
        fun _ _ => ⟨trivial, fun _ _ => trivial⟩⟩⟩⟩⟩⟩⟩⟩
    obtain rfl := Option.some.inj h₁
    obtain rfl := Option.some.inj h₂
    by_cases ht : t = .other 0
    · simp [ht] at hq
    · simp [ht] at hq
  exact ⟨s, hs, hreturned, (ids_distinct hs (by rw [hlength]; norm_num)).1 halone⟩

/-- **Two calls get one id** if both load before one of them stores, and the second timer is not
inserted into `activeTimers_`. -/
theorem not_ids_distinct : ∃ s : TimerScheduler ℕ ℕ,
    run step {} [.load (.other 0) 0 10 0, .load (.other 1) 1 20 0, .store (.other 0),
      .store (.other 1), .add (.other 0), .add (.other 1), .runTask, .runTask] = some s ∧
    s.returned.map (fun p => (s.object p).id_) = [1, 1] ∧
      (Check.activeInserted, false) ∈ s.checks := by
  have hrun : (run step ({} : TimerScheduler ℕ ℕ) [.load (.other 0) 0 10 0,
      .load (.other 1) 1 20 0, .store (.other 0), .store (.other 1), .add (.other 0),
      .add (.other 1), .runTask, .runTask]).map (fun s => (s.returned.map (fun p => (s.object p).id_),
        decide ((Check.activeInserted, false) ∈ s.checks))) = some ([1, 1], true) := by decide
  obtain ⟨s, hs, hfields⟩ := Option.map_eq_some_iff.mp hrun
  obtain ⟨hids, hchecks⟩ := Prod.mk.inj hfields
  exact ⟨s, hs, hids, of_decide_eq_true hchecks⟩

end TimerScheduler

end LouisNet.Timers
