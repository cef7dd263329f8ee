import LouisNet.Timers.TimerScheduler

set_option relaxedAutoImplicit false
set_option autoImplicit false

/-!
# Where the timers are

A timer that was made is at one place at a time: in a call of `addTimer`, in a functor of the
queue, in `timers_`, or in the batch that `handleRead` works on. This does not depend on the ids.
It is why `timers_.emplace` inserts whenever `addTimerInLoop` is executed, and why the pointer in
an entry of `activeTimers_` never dangles.

## Main definitions

* `LouisNet.Timers.TimerScheduler.Place` — the places.
* `LouisNet.Timers.TimerScheduler.Located` — everything is where a map of places says.

## Main results

* `LouisNet.Timers.TimerScheduler.Placed.step`, `LouisNet.Timers.TimerScheduler.placed_run` — every
  step and every run keeps the timers at their places.
-/

namespace LouisNet.Timers

open Lib Reactor

namespace TimerScheduler

variable {τ π : Type*} [LinearOrder π]

/-- The places of a timer. -/
inductive Place (τ : Type*) where
  /-- not made yet -/
  | fresh
  /-- in a call of `addTimer` -/
  | call (t : Thread τ)
  /-- in a functor of the queue -/
  | queue
  /-- in `timers_` -/
  | timers
  /-- in the batch, and not looked at by `reset` -/
  | batch
  /-- taken out of another place by the loop thread -/
  | hand
  /-- destroyed -/
  | gone
  deriving DecidableEq

/-- An entry is in `timers_`. -/
def Pending (s : TimerScheduler τ π) (e : ℤ) (p : π) : Prop :=
  s.timers_.find? (toLex (e, p)) = some ()

section Earliest

variable {s : TimerScheduler τ π} {e : ℤ}

/-- The beginning of `timers_` is the least of the expirations. -/
theorem earliest_eq_some_iff :
    s.earliest = some e ↔ (∃ p, s.Pending e p) ∧ ∀ e' p, s.Pending e' p → e ≤ e' := by
  have hmem : ∀ {e' p}, (toLex (e', p), ()) ∈ s.timers_.entries ↔ s.Pending e' p :=
    SortedMap.mem_entries_iff
  rw [earliest, Option.map_eq_some_iff]
  constructor
  · rintro ⟨it, hit, rfl⟩
    obtain ⟨hit, hle⟩ := SortedMap.head?_entries_eq_some_iff.mp hit
    refine ⟨⟨(ofLex it.1).2, hmem.mp hit⟩, fun e' p hp => ?_⟩
    exact Prod.Lex.monotone_fst _ _ (hle _ (hmem.mpr hp))
  · rintro ⟨⟨p, hp⟩, hle⟩
    cases hhead : s.timers_.entries.head? with
    | none =>
      rw [List.head?_eq_none_iff] at hhead
      exact absurd (hmem.mpr hp) (by simp [hhead])
    | some it =>
      obtain ⟨hit, hmin⟩ := SortedMap.head?_entries_eq_some_iff.mp hhead
      refine ⟨it, rfl, le_antisymm ?_ (hle _ (ofLex it.1).2 (hmem.mp hit))⟩
      exact Prod.Lex.monotone_fst _ _ (hmin _ (hmem.mpr hp))

/-- Nothing is at the beginning of `timers_` if nothing is pending. -/
theorem earliest_eq_none_iff : s.earliest = none ↔ ∀ e p, ¬ s.Pending e p := by
  rw [earliest, Option.map_eq_none_iff, List.head?_eq_none_iff, List.eq_nil_iff_forall_not_mem]
  constructor
  · exact fun h e p hp => h _ (SortedMap.mem_entries_iff.mpr hp)
  · exact fun h it hit => h (ofLex it.1).1 (ofLex it.1).2 (SortedMap.mem_entries_iff.mp hit)

end Earliest

/-- **Everything is where a map of places says**, each place holds a timer once, an entry of
`timers_` has the expiration of its timer, and an entry of `activeTimers_` has its id and is
in `timers_` too. -/
structure Located (s : TimerScheduler τ π) (place : π → Place τ) : Prop where
  fresh : ∀ {p}, p ∉ s.created → place p = .fresh
  call : ∀ {t p}, (s.call t).timer? = some p → place p = .call t
  queue : ∀ {p}, p ∈ s.tasks_.filterMap Task.timer? → place p = .queue
  timers : ∀ {e p}, s.Pending e p → place p = .timers ∧ (s.object p).expiration_ = some e
  batch : ∀ {p}, p ∈ s.pc.batch → place p = .batch
  gone : ∀ {p}, p ∈ s.released → place p = .gone
  queue_nodup : (s.tasks_.filterMap Task.timer?).Nodup
  batch_nodup : s.pc.batch.Nodup
  task_id : ∀ {id p}, .addTimerInLoop id p ∈ s.tasks_ → (s.object p).id_ = id
  active : ∀ {i p}, s.activeTimers_.find? i = some p →
    (s.object p).id_ = i ∧ ∃ e, s.Pending e p
  expiration : ∀ {p}, p ∈ s.created → ∃ e, (s.object p).expiration_ = some e
  returned : ∀ {p}, p ∈ s.returned → place p ≠ .fresh ∧ ∀ t, place p ≠ .call t

/-- At the start nothing is anywhere. -/
theorem located_init : Located ({} : TimerScheduler τ π) fun _ => .fresh where
  fresh := fun _ => rfl
  call := by simp [Call.timer?]
  queue := by simp
  timers := by simp [Pending]
  batch := by simp [Pc.batch]
  gone := by simp
  queue_nodup := by simp
  batch_nodup := by simp [Pc.batch]
  task_id := by simp
  active := by simp
  expiration := by simp
  returned := by simp

variable {s s' : TimerScheduler τ π} {place : π → Place τ} {p : π}

/-! ## Rules for the map of places -/

/-- What is taken out of the calls, the queue or the batch needs no other map. -/
theorem Located.shrink (h : Located s place) (hobject : s'.object = s.object)
    (hcreated : s'.created = s.created) (htimers : s'.timers_ = s.timers_)
    (hactive : s'.activeTimers_ = s.activeTimers_) (hreleased : s'.released = s.released)
    (hreturned : s'.returned = s.returned)
    (hcall : ∀ t p, (s'.call t).timer? = some p → (s.call t).timer? = some p)
    (htasks : s'.tasks_.Sublist s.tasks_) (hbatch : s'.pc.batch.Sublist s.pc.batch) :
    Located s' place where
  fresh := fun hp => h.fresh (hcreated ▸ hp)
  call := fun hp => h.call (hcall _ _ hp)
  queue := fun hp => h.queue ((htasks.filterMap _).subset hp)
  timers := fun hp => by
    rw [Pending, htimers] at hp
    exact hobject ▸ h.timers hp
  batch := fun hp => h.batch (hbatch.subset hp)
  gone := fun hp => h.gone (hreleased ▸ hp)
  queue_nodup := h.queue_nodup.sublist (htasks.filterMap _)
  batch_nodup := h.batch_nodup.sublist hbatch
  task_id := fun hp => hobject ▸ h.task_id (htasks.subset hp)
  active := fun hp => by
    rw [hactive] at hp
    simpa only [Pending, htimers, hobject] using h.active hp
  expiration := fun hp => hobject ▸ h.expiration (hcreated ▸ hp)
  returned := fun hp => h.returned (hreturned ▸ hp)

/-- Functors that are taken out of the queue need no other map. -/
theorem Located.dequeue (h : Located s place) {tasks : List (Task π)}
    (htasks : tasks.Sublist s.tasks_) : Located { s with tasks_ := tasks } place :=
  h.shrink rfl rfl rfl rfl rfl rfl (fun _ _ hq => hq) htasks (.refl _)

/-- Timers that are taken out of the batch need no other map. -/
theorem Located.setPc (h : Located s place) (pc : Pc π) (hpc : pc.batch.Sublist s.pc.batch) :
    Located { s with pc := pc } place :=
  h.shrink rfl rfl rfl rfl rfl rfl (fun _ _ hq => hq) (.refl _) hpc

/-- A timer that is nowhere can be put at any place behind the call of `addTimer`. -/
theorem Located.move (h : Located s place) (hp : place p = .hand) {x : Place τ}
    (hx : x ≠ .fresh ∧ ∀ t, x ≠ .call t) : Located s (Function.update place p x) := by
  have hother : ∀ {q y}, place q = y → y ≠ .hand → Function.update place p x q = y := by
    intro q y hq hy
    rw [Function.update_of_ne (fun heq => hy (by rw [← hq, heq, hp])), hq]
  exact {
    h with
    fresh := fun hq => hother (h.fresh hq) nofun
    call := fun hq => hother (h.call hq) nofun
    queue := fun hq => hother (h.queue hq) nofun
    timers := fun hq => ⟨hother (h.timers hq).1 nofun, (h.timers hq).2⟩
    batch := fun hq => hother (h.batch hq) nofun
    gone := fun hq => hother (h.gone hq) nofun
    returned := fun {q} hq => by
      by_cases heq : q = p
      · rw [heq, Function.update_self]
        exact hx
      · rw [Function.update_of_ne heq]
        exact h.returned hq }

/-- A timer that has a place was made. -/
theorem Located.mem_created (h : Located s place) (hp : place p ≠ .fresh) : p ∈ s.created := by
  by_contra hnew
  exact hp (h.fresh hnew)

/-- A timer that has left its place is in the hands of the loop thread. -/
theorem Located.take (h : Located s place) (hfresh : place p ≠ .fresh)
    (hcall : ∀ t, place p = .call t → (s.call t).timer? ≠ some p)
    (hqueue : place p = .queue → p ∉ s.tasks_.filterMap Task.timer?)
    (htimers : place p = .timers → ∀ e, ¬ s.Pending e p)
    (hbatch : place p = .batch → p ∉ s.pc.batch) (hgone : place p = .gone → p ∉ s.released) :
    Located s (Function.update place p .hand) := by
  have hother : ∀ {q y}, place q = y → q ≠ p → Function.update place p .hand q = y := by
    intro q y hq hne
    rw [Function.update_of_ne hne, hq]
  exact {
    h with
    fresh := fun hq => hother (h.fresh hq) fun heq => hfresh (heq ▸ h.fresh hq)
    call := fun {t q} hq => hother (h.call hq) fun heq => hcall t (heq ▸ h.call hq) (heq ▸ hq)
    queue := fun hq => hother (h.queue hq) fun heq => hqueue (heq ▸ h.queue hq) (heq ▸ hq)
    timers := fun hq =>
      ⟨hother (h.timers hq).1 fun heq => htimers (heq ▸ (h.timers hq).1) _ (heq ▸ hq),
        (h.timers hq).2⟩
    batch := fun hq => hother (h.batch hq) fun heq => hbatch (heq ▸ h.batch hq) (heq ▸ hq)
    gone := fun hq => hother (h.gone hq) fun heq => hgone (heq ▸ h.gone hq) (heq ▸ hq)
    returned := fun {q} hq => by
      by_cases heq : q = p
      · rw [heq, Function.update_self]
        exact ⟨nofun, fun _ => nofun⟩
      · rw [Function.update_of_ne heq]
        exact h.returned hq }

/-! ## The operations -/

/-- A call gives its timer away. -/
theorem Located.leaveCall [DecidableEq τ] (h : Located s place) {t : Thread τ}
    (ht : (s.call t).timer? = some p) :
    Located { s with call := Function.update s.call t .idle } (Function.update place p .hand) := by
  have hp := h.call ht
  have hcall : ∀ t' q, (Function.update s.call t .idle t').timer? = some q →
      (s.call t').timer? = some q ∧ t' ≠ t := by
    intro t' q hq
    by_cases heq : t' = t
    · rw [heq, Function.update_self] at hq
      cases hq
    · rw [Function.update_of_ne heq] at hq
      exact ⟨hq, heq⟩
  have hs' : Located { s with call := Function.update s.call t .idle } place :=
    h.shrink rfl rfl rfl rfl rfl rfl (fun t' q hq => (hcall t' q hq).1) (.refl _) (.refl _)
  refine hs'.take (by simp [hp]) (fun t' ht' hq => ?_) (by simp [hp]) (by simp [hp]) (by simp [hp])
    (by simp [hp])
  obtain rfl : t = t' := by simpa [hp] using ht'
  exact (hcall t p hq).2 rfl

/-- A functor that is taken out of the queue gives its timer away. -/
theorem Located.leaveQueue (h : Located s place) {id : ℕ} {tasks : List (Task π)}
    (htasks : s.tasks_ = .addTimerInLoop id p :: tasks) :
    Located { s with tasks_ := tasks } (Function.update place p .hand) := by
  have hp : place p = .queue := h.queue (by simp [htasks, Task.timer?])
  have hs' : Located { s with tasks_ := tasks } place :=
    h.dequeue (htasks ▸ List.sublist_cons_self _ _)
  have hnodup := h.queue_nodup
  simp only [htasks, List.filterMap_cons, Task.timer?, List.nodup_cons] at hnodup
  exact hs'.take (by simp [hp]) (by simp [hp]) (fun _ => hnodup.1) (by simp [hp]) (by simp [hp])
    (by simp [hp])

/-- `reset` gives the next timer of the batch away. -/
theorem Located.leaveBatch (h : Located s place) (pc : Pc π) (hpc : s.pc.batch = p :: pc.batch) :
    Located { s with pc := pc } (Function.update place p .hand) := by
  have hp : place p = .batch := h.batch (by simp [hpc])
  have hs' : Located { s with pc := pc } place :=
    h.setPc pc (hpc ▸ List.sublist_cons_self _ _)
  have hnodup := h.batch_nodup
  rw [hpc, List.nodup_cons] at hnodup
  exact hs'.take (by simp [hp]) (by simp [hp]) (by simp [hp]) (by simp [hp]) (fun _ => hnodup.1)
    (by simp [hp])

/-- `addTimerInLoop` puts the timer into both containers, `timers_` has no entry for it before. -/
theorem Located.addTimerInLoop (h : Located s place) (hp : place p = .hand) :
    Located (s.addTimerInLoop (s.object p).id_ p) (Function.update place p .timers) := by
  obtain ⟨e, he⟩ := h.expiration (h.mem_created (p := p) (by simp [hp]))
  obtain ⟨fd, hs'⟩ := addTimerInLoop_eq (s.object p).id_ he
  rw [hs']
  have hmove := h.move (x := .timers) hp ⟨nofun, fun _ => nofun⟩
  have hpending : ∀ {e' q}, (s.timers_.emplace (toLex (e, p)) ()).find? (toLex (e', q)) = some () ↔
      (e' = e ∧ q = p) ∨ s.Pending e' q := by
    intro e' q
    rw [SortedMap.find?_emplace_unit, toLex_inj, Prod.mk.injEq, Pending]
  exact {
    hmove with
    timers := fun {e' q} hq => by
      rcases hpending.mp hq with ⟨rfl, rfl⟩ | hq
      · exact ⟨Function.update_self .., he⟩
      · exact hmove.timers hq
    active := fun {i q} hq => by
      rw [SortedMap.find?_emplace] at hq
      split_ifs at hq with hif
      · obtain rfl := Option.some.inj hq
        exact ⟨hif.1.symm, e, hpending.mpr (.inl ⟨rfl, rfl⟩)⟩
      · obtain ⟨hid, e', he'⟩ := h.active hq
        exact ⟨hid, e', hpending.mpr (.inr he')⟩ }

/-- A timer in an entry of `activeTimers_` has not been destroyed. -/
theorem Located.not_released (h : Located s place) {i : ℕ} (hp : s.activeTimers_.find? i = some p) :
    p ∉ s.released := by
  intro hreleased
  obtain ⟨-, e, he⟩ := h.active hp
  have hplace := (h.timers he).1
  rw [h.gone hreleased] at hplace
  cases hplace

/-- What `cancelTimerInLoop` does: a timer found leaves both containers, and an id that is not
found is noted while callbacks run. -/
theorem Located.cancelTimerInLoop_cases (h : Located s place) (timerId : TimerId π) :
    (∃ p e, s.activeTimers_.find? timerId.id = some p ∧ s.Pending e p ∧
      s.cancelTimerInLoop timerId = { s with
        timers_ := s.timers_.erase (toLex (e, p))
        activeTimers_ := s.activeTimers_.erase timerId.id
        checks := s.checks ++
          [(.sameTimer, s.lock timerId.timer == some p), (.value, true)] }) ∨
    (s.activeTimers_.find? timerId.id = none ∧
      s.cancelTimerInLoop timerId = { s with
        cancelingTimers_ := if s.callingExpiredTimers_ = true then
          s.cancelingTimers_.emplace timerId.id timerId.timer else s.cancelingTimers_ }) := by
  cases hp : s.activeTimers_.find? timerId.id with
  | none => exact .inr ⟨rfl, cancelTimerInLoop_eq_of_none hp⟩
  | some p =>
    obtain ⟨-, e, he⟩ := h.active hp
    exact .inl ⟨p, e, rfl, he,
      cancelTimerInLoop_eq_of_some hp (h.not_released hp) (h.timers he).2⟩

/-- A removal from both containers needs no other map. -/
theorem Located.erase (h : Located s place) {i : ℕ} {e : ℤ} (hp : s.activeTimers_.find? i = some p)
    (checks : List (Check × Bool)) :
    Located { s with
      timers_ := s.timers_.erase (toLex (e, p))
      activeTimers_ := s.activeTimers_.erase i
      checks := checks } place :=
  { h with
    timers := fun hq => by
      rw [Pending, SortedMap.find?_erase] at hq
      split_ifs at hq
      exact h.timers hq
    active := fun {i' q} hq => by
      rw [SortedMap.find?_erase] at hq
      split_ifs at hq with hi
      obtain ⟨hid, e', he'⟩ := h.active hq
      refine ⟨hid, e', ?_⟩
      -- another id belongs to another timer
      have hne : q ≠ p := fun heq => hi (by rw [← hid, heq, (h.active hp).1])
      rw [Pending, SortedMap.find?_erase, if_neg (by simp [hne])]
      exact he' }

/-- `cancelTimerInLoop` takes a timer out of both containers, or leaves them. -/
theorem Located.cancelTimerInLoop (h : Located s place) (timerId : TimerId π) :
    Located (s.cancelTimerInLoop timerId) place := by
  obtain ⟨p, e, hp, -, hs'⟩ | ⟨-, hs'⟩ := h.cancelTimerInLoop_cases timerId
  · rw [hs']
    exact h.erase hp _
  · rw [hs']
    exact h.shrink rfl rfl rfl rfl rfl rfl (fun _ _ hq => hq) (.refl _) (.refl _)

/-- A call makes a timer. -/
theorem Located.loadId [DecidableEq τ] (h : Located s place) (t : Thread τ)
    (hp : p ∉ s.created) (expiration interval : ℤ) :
    Located (s.loadId t p expiration interval) (Function.update place p (.call t)) := by
  have hfresh := h.fresh hp
  have hne : ∀ {q y}, place q = y → y ≠ .fresh → q ≠ p := by
    rintro q y hq hy rfl
    exact hy (hq.symm.trans hfresh)
  have hother : ∀ {q y}, place q = y → y ≠ .fresh →
      Function.update place p (.call t) q = y := by
    intro q y hq hy
    rw [Function.update_of_ne (hne hq hy), hq]
  have hobject : ∀ {q y}, place q = y → y ≠ .fresh →
      (s.loadId t p expiration interval).object q = s.object q :=
    fun hq hy => Function.update_of_ne (hne hq hy) _ _
  exact {
    fresh := fun {q} hq => by
      obtain ⟨hq, hqp⟩ := not_or.mp (mt List.mem_append.mpr hq)
      rw [Function.update_of_ne (by simpa using hqp)]
      exact h.fresh hq
    call := fun {t' q} hq => by
      by_cases heq : t' = t
      · rw [heq] at hq ⊢
        obtain rfl : p = q := by simpa [Call.timer?] using hq
        exact Function.update_self ..
      · have hq' : (s.call t').timer? = some q := by
          simpa [heq] using hq
        exact hother (h.call hq') nofun
    queue := fun hq => hother (h.queue hq) nofun
    timers := fun hq => by
      obtain ⟨hplace, hexp⟩ := h.timers hq
      exact ⟨hother hplace nofun, by rw [hobject hplace nofun, hexp]⟩
    batch := fun hq => hother (h.batch hq) nofun
    gone := fun hq => hother (h.gone hq) nofun
    queue_nodup := h.queue_nodup
    batch_nodup := h.batch_nodup
    task_id := fun {id q} hq => by
      have hplace := h.queue (List.mem_filterMap.mpr ⟨_, hq, rfl⟩)
      rw [hobject hplace nofun]
      exact h.task_id hq
    active := fun hq => by
      obtain ⟨hid, e, he⟩ := h.active hq
      exact ⟨by rw [hobject (h.timers he).1 nofun, hid], e, he⟩
    expiration := fun {q} hq => by
      by_cases heq : q = p
      · subst heq
        exact ⟨expiration, by simp [Timer.new]⟩
      · have hq' : q ∈ s.created := by simpa [heq] using hq
        simpa [heq] using h.expiration hq'
    returned := fun {q} hq => by
      have hplace := h.returned hq
      rw [Function.update_of_ne (hne rfl hplace.1)]
      exact hplace }

/-- A call stores the id and keeps its timer. -/
theorem Located.storeId [DecidableEq τ] (h : Located s place) {t : Thread τ}
    (ht : s.call t = .loaded p) : Located (s.storeId t p) place := by
  refine h.shrink rfl rfl rfl rfl rfl rfl (fun t' q hq => ?_) (.refl _) (.refl _)
  by_cases heq : t' = t
  · subst heq
    simpa [Call.timer?, ht] using hq
  · simpa [heq] using hq

/-- A functor with a timer is queued. -/
theorem Located.enqueue (h : Located s place) (hp : place p = .hand) :
    Located { s with tasks_ := s.tasks_ ++ [.addTimerInLoop (s.object p).id_ p] }
      (Function.update place p .queue) := by
  have hmove := h.move (x := .queue) hp ⟨nofun, fun _ => nofun⟩
  have hnot : p ∉ s.tasks_.filterMap Task.timer? := by
    intro hq
    have hplace := h.queue hq
    rw [hp] at hplace
    cases hplace
  exact {
    hmove with
    queue := fun {q} hq => by
      rw [List.filterMap_append, List.mem_append] at hq
      rcases hq with hq | hq
      · exact hmove.queue hq
      · obtain rfl : q = p := by simpa [Task.timer?] using hq
        exact Function.update_self ..
    queue_nodup := by
      rw [List.filterMap_append, List.nodup_append]
      refine ⟨h.queue_nodup, by simp [Task.timer?], fun q hq q' hq' heq => ?_⟩
      obtain rfl : q' = p := by simpa [Task.timer?] using hq'
      exact hnot (heq ▸ hq)
    task_id := fun {id q} hq => by
      rcases List.mem_append.mp hq with hq | hq
      · exact h.task_id hq
      · obtain ⟨rfl, rfl⟩ : id = (s.object p).id_ ∧ q = p := by simpa using hq
        rfl }

/-- A functor without a timer is queued. -/
theorem Located.enqueueCancel (h : Located s place) (timerId : TimerId π) :
    Located { s with tasks_ := s.tasks_ ++ [.cancelTimerInLoop timerId] } place :=
  { h with
    queue := fun hq => h.queue (by simpa [Task.timer?] using hq)
    queue_nodup := by
      rw [List.filterMap_append]
      simpa only [List.filterMap_cons, Task.timer?, List.filterMap_nil, List.append_nil] using
        h.queue_nodup
    task_id := fun hq => h.task_id (by simpa using hq) }

/-- A timer that is behind the call can be returned. -/
theorem Located.return (h : Located s place) (hp : place p ≠ .fresh ∧ ∀ t, place p ≠ .call t) :
    Located { s with returned := s.returned ++ [p], log := s.log ++ [.returned p] } place :=
  { h with
    returned := fun {q} hq => by
      rcases List.mem_append.mp hq with hq | hq
      · exact h.returned hq
      · obtain rfl : q = p := by simpa using hq
        exact hp }

/-- A call gives its timer to the loop and returns. -/
theorem Located.returnId [DecidableEq τ] (h : Located s place) {t : Thread τ}
    (ht : s.call t = .stored p) : ∃ place', Located (s.returnId t p) place' := by
  have hleave := h.leaveCall (t := t) (p := p) (by simp [ht, Call.timer?])
  have hhand : Function.update place p .hand p = .hand := Function.update_self ..
  by_cases hloop : t = .loop
  · have hadd := hleave.addTimerInLoop hhand
    rw [TimerScheduler.returnId, runInLoop, if_pos hloop]
    exact ⟨_, hadd.return (by simp)⟩
  · have hqueue := hleave.enqueue hhand
    rw [TimerScheduler.returnId, runInLoop, if_neg hloop]
    exact ⟨_, hqueue.return (by simp)⟩

/-- A timer that nothing holds is destroyed. -/
theorem Located.release [DecidableEq τ] (h : Located s place) (hp : s.Unheld p) :
    ∃ place', Located { s with released := p :: s.released } place' := by
  obtain ⟨hreturned, hreleased, hqueue, htimers, hbatch⟩ := hp
  obtain ⟨hfresh, hcall⟩ := h.returned hreturned
  have hpending : ∀ e, ¬ s.Pending e p := fun e he =>
    htimers (List.mem_map.mpr ⟨_, SortedMap.mem_entries_iff.mpr he, rfl⟩)
  have htake := h.take hfresh (fun t ht => absurd ht (hcall t)) (fun _ => hqueue)
    (fun _ => hpending) (fun _ hq => hbatch (s.pc.batch_subset_expiredTimers hq))
    (fun _ => hreleased)
  have hgone := htake.move (x := .gone) (Function.update_self ..) ⟨nofun, fun _ => nofun⟩
  exact ⟨_, {
    hgone with
    gone := fun {q} hq => by
      rcases List.mem_cons.mp hq with rfl | hq
      · exact Function.update_self ..
      · exact hgone.gone hq }⟩

/-- The entries that `handleRead` leaves in `timers_`. -/
theorem pending_handleRead {e : ℤ} :
    s.handleRead.Pending e p ↔ s.Pending e p ∧ s.clock ≤ e := by
  rw [Pending, handleRead_eq, Pending]
  dsimp only
  rw [SortedMap.find?_filter, beforeUpperBound_eq]
  by_cases he : e < s.clock
  · simp [he, not_le.mpr he]
  · simp [he, not_lt.mp he]

/-- An entry before the bound has the expiration of its timer. -/
theorem Located.expiration_of_mem_filter (h : Located s place) {now : ℤ} {it : Entry π × Unit}
    (hit : it ∈ (s.timers_.filter (beforeUpperBound now)).entries) :
    (s.object (ofLex it.1).2).expiration_ = some (ofLex it.1).1 := by
  have hfind := SortedMap.mem_entries_iff.mp hit
  rw [SortedMap.find?_filter] at hfind
  split_ifs at hfind
  exact (h.timers hfind).2

/-- A timer has one entry, so the batch holds it once. -/
theorem Located.expiredTimers_nodup (h : Located s place) (now : ℤ) :
    (s.expiredTimers now).Nodup := by
  rw [expiredTimers, List.Nodup, List.pairwise_map]
  refine (s.timers_.filter (beforeUpperBound now)).sorted.imp_of_mem fun {a b} ha hb hlt heq => ?_
  have ha' := h.expiration_of_mem_filter ha
  have hb' := h.expiration_of_mem_filter hb
  rw [heq, hb'] at ha'
  have hkey : a.1 = b.1 := Prod.ext (Option.some.inj ha').symm heq
  exact absurd hlt (by simp [hkey])

/-- The batch is in the order of `timers_`. -/
theorem Located.expiredTimers_sorted (h : Located s place) (now : ℤ) :
    (s.expiredTimers now).Pairwise fun p q =>
      ∀ e ∈ (s.object p).expiration_, ∀ e' ∈ (s.object q).expiration_, e ≤ e' := by
  rw [expiredTimers, List.pairwise_map]
  refine (s.timers_.filter (beforeUpperBound now)).sorted.imp_of_mem fun {x y} hx hy hlt => ?_
  rw [h.expiration_of_mem_filter hx, h.expiration_of_mem_filter hy]
  rintro e ⟨rfl⟩ e' ⟨rfl⟩
  exact Prod.Lex.monotone_fst _ _ hlt.le

/-- `handleRead` moves the timers that have expired to the batch. -/
theorem Located.handleRead (h : Located s place) :
    Located s.handleRead fun p => if p ∈ s.expiredTimers s.clock then .batch else place p := by
  have hexpired : ∀ {q}, q ∈ s.expiredTimers s.clock → place q = .timers := by
    intro q hq
    obtain ⟨e, -, he⟩ := mem_expiredTimers.mp hq
    exact (h.timers he).1
  have hother : ∀ {q y}, place q = y → y ≠ .timers →
      (if q ∈ s.expiredTimers s.clock then Place.batch else place q) = y := by
    intro q y hq hy
    rw [if_neg fun hmem => hy (hq.symm.trans (hexpired hmem)), hq]
  have hrest : ∀ {e q}, s.handleRead.Pending e q → q ∉ s.expiredTimers s.clock := by
    intro e q hq hmem
    obtain ⟨hq, hle⟩ := pending_handleRead.mp hq
    obtain ⟨e', hlt, he'⟩ := mem_expiredTimers.mp hmem
    have heq : some e = some e' := (h.timers hq).2.symm.trans (h.timers he').2
    obtain rfl := Option.some.inj heq
    omega
  exact {
    fresh := fun hq => hother (h.fresh hq) nofun
    call := fun hq => hother (h.call hq) nofun
    queue := fun hq => hother (h.queue hq) nofun
    timers := fun {e q} hq => by
      rw [if_neg (hrest hq)]
      exact h.timers (pending_handleRead.mp hq).1
    batch := fun {q} hq => if_pos hq
    gone := fun hq => hother (h.gone hq) nofun
    queue_nodup := h.queue_nodup
    batch_nodup := h.expiredTimers_nodup s.clock
    task_id := h.task_id
    active := fun {i q} hq => by
      rw [handleRead_eq] at hq
      dsimp only at hq
      rw [SortedMap.find?_foldl_erase] at hq
      split_ifs at hq with hi
      obtain ⟨hid, e, he⟩ := h.active hq
      refine ⟨hid, e, pending_handleRead.mpr ⟨he, ?_⟩⟩
      by_contra hlt
      exact hi (List.mem_map.mpr ⟨q, mem_expiredTimers.mpr ⟨e, not_le.mp hlt, he⟩, hid⟩)
    expiration := h.expiration
    returned := fun {q} hq => by
      split_ifs
      · exact ⟨nofun, fun _ => nofun⟩
      · exact h.returned hq }

/-- Restarting a timer leaves the ids. -/
theorem id_update_restart (object : π → Timer) (p q : π) (now : ℤ) :
    (Function.update object p ((object p).restart now) q).id_ = (object q).id_ := by
  by_cases heq : q = p
  · rw [heq, Function.update_self, Timer.restart]
  · rw [Function.update_of_ne heq]

/-- `reset` restarts a repeating timer of the batch, which has no entry in `timers_`. -/
theorem Located.restart (h : Located s place) {now : ℤ} {pc : Pc π} (hp : p ∈ s.pc.batch)
    (hpc : pc.batch = s.pc.batch) (hrepeat : (s.object p).repeat_ = true) :
    Located { s with
      object := Function.update s.object p ((s.object p).restart now)
      pc := pc } place :=
  { h with
    timers := fun {e q} hq => by
      obtain ⟨hplace, he⟩ := h.timers hq
      have hne : q ≠ p := fun heq => by
        rw [heq, h.batch hp] at hplace
        cases hplace
      exact ⟨hplace, by simpa [hne] using he⟩
    batch := fun hq => h.batch (hpc ▸ hq)
    batch_nodup := by
      rw [hpc]
      exact h.batch_nodup
    task_id := fun hq => by
      rw [id_update_restart]
      exact h.task_id hq
    active := fun hq => by
      rw [id_update_restart]
      exact h.active hq
    expiration := fun {q} hq => by
      by_cases heq : q = p
      · subst heq
        exact ⟨now + (s.object q).interval_, by simp [Timer.restart, hrepeat]⟩
      · simpa [heq] using h.expiration hq }

/-! ## Runs -/

/-- There is a map of places. -/
def Placed (s : TimerScheduler τ π) : Prop := ∃ place, Located s place

/-- A functor is executed by the loop thread, which has taken its timer out of the queue. -/
theorem Placed.exec (h : Placed s) {task : Task π} {tasks : List (Task π)}
    (htasks : s.tasks_ = task :: tasks) : Placed (exec { s with tasks_ := tasks } task) := by
  obtain ⟨place, h⟩ := h
  cases task with
  | addTimerInLoop id p =>
    obtain rfl : (s.object p).id_ = id := h.task_id (by simp [htasks])
    exact ⟨_, (h.leaveQueue htasks).addTimerInLoop (Function.update_self ..)⟩
  | cancelTimerInLoop timerId =>
    have htaken : Located { s with tasks_ := tasks } place :=
      h.dequeue (htasks ▸ List.sublist_cons_self _ _)
    exact ⟨place, { htaken.cancelTimerInLoop timerId with }⟩

variable [DecidableEq τ]

/-- **Every step keeps the timers at their places.** -/
theorem Placed.step (h : Placed s) {a : Step τ π} (hstep : s.step a = some s') : Placed s' := by
  obtain ⟨place, hl⟩ := h
  cases next_of_step hstep with
  | load t p expiration interval hcall hnew => exact ⟨_, hl.loadId t hnew expiration interval⟩
  | store t p ht => exact ⟨_, hl.storeId ht⟩
  | add t p ht => exact hl.returnId ht
  | cancel t timerId hcall =>
    rw [runInLoop]
    split_ifs
    · exact ⟨place, { hl.cancelTimerInLoop timerId with }⟩
    · exact ⟨place, hl.enqueueCancel timerId⟩
  | tick now hclock => exact ⟨place, { hl with }⟩
  | release p hp => exact hl.release hp
  | runTask task tasks hpc htasks => exact Placed.exec ⟨place, hl⟩ htasks
  | handleRead hpc => exact ⟨_, hl.handleRead⟩
  | runTimer now ran todo p hpc =>
    have hmoved := hl.setPc (.calling now (ran ++ [p]) todo) (by simp [hpc, Pc.batch])
    exact ⟨place, { hmoved with }⟩
  | endTimers now ran hpc =>
    have hmoved := hl.setPc (.resetting now [] ran) (by simp [hpc, Pc.batch])
    exact ⟨place, { hmoved with }⟩
  | restart now done todo p hpc hrestarts =>
    have hrepeat : (s.object p).repeat_ = true := by
      simp only [restarts, Bool.and_eq_true] at hrestarts
      exact hrestarts.1
    exact ⟨place, hl.restart (by simp [hpc, Pc.batch]) (by simp [hpc, Pc.batch]) hrepeat⟩
  | skip now done todo p hpc hrestarts =>
    exact ⟨place, hl.setPc _ (by simp [hpc, Pc.batch])⟩
  | addAgain now done todo p hpc =>
    have htaken := hl.leaveBatch (p := p) (.resetting now (done ++ [p]) todo)
      (by simp [hpc, Pc.batch])
    exact ⟨_, htaken.addTimerInLoop (Function.update_self ..)⟩
  | endReset now done fd hpc =>
    have hmoved := hl.setPc .idle (by simp [Pc.batch])
    exact ⟨place, { hmoved with }⟩

/-- **Every run keeps the timers at their places.** -/
theorem placed_run {as : List (Step τ π)} (h : run step {} as = some s) : Placed s :=
  run_invariant (fun hstep hs => hs.step hstep) h ⟨_, located_init⟩

end TimerScheduler

end LouisNet.Timers
