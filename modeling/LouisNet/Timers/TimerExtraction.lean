import LouisNet.Timers.TimerPlaces

set_option relaxedAutoImplicit false
set_option autoImplicit false

/-!
# Which timers are extracted

`extractExpiredTimers` cuts `timers_` at the upper bound of the pair of `now` and the null pointer,
which is below every entry at `now`. So the timers that are due exactly at `now` stay, and the
assertion that the first timer that stays is later than `now` fails for them. From `activeTimers_`
the timers are removed by their ids, which is right as long as no timer that stays has such an id.

## Main definitions

* `LouisNet.Timers.TimerScheduler.Extracts` — the call takes out the timers that are due.

## Main results

* `LouisNet.Timers.TimerScheduler.extracts_iff` — when it does.
-/

namespace LouisNet.Timers

open Lib Reactor

namespace TimerScheduler

variable {τ π : Type*} [LinearOrder π] {s : TimerScheduler τ π} {p : π} {e now : ℤ}

/-- A timer is pending and due. -/
def Due (s : TimerScheduler τ π) (now : ℤ) (p : π) : Prop := ∃ e ≤ now, s.Pending e p

/-- **The call of `extractExpiredTimers` takes out the timers that are due**: it returns them, each
once and in the order of their expirations, it removes them and no others from both containers, and
its assertion about the first timer that stays holds. -/
structure Extracts (s : TimerScheduler τ π) (now : ℤ) : Prop where
  returned : ∀ p, p ∈ (s.extractExpiredTimers now).1 ↔ s.Due now p
  nodup : (s.extractExpiredTimers now).1.Nodup
  sorted : (s.extractExpiredTimers now).1.Pairwise fun p q =>
    ∀ e ∈ (s.object p).expiration_, ∀ e' ∈ (s.object q).expiration_, e ≤ e'
  timers : ∀ e p, (s.extractExpiredTimers now).2.Pending e p ↔ s.Pending e p ∧ ¬ s.Due now p
  active : ∀ i p, (s.extractExpiredTimers now).2.activeTimers_.find? i = some p ↔
    s.activeTimers_.find? i = some p ∧ ¬ s.Due now p
  assertion : (Check.upperBound, false) ∉
    (s.extractExpiredTimers now).2.checks.drop s.checks.length

/-- The entries that are left in `timers_`. -/
theorem pending_extractExpiredTimers :
    (s.extractExpiredTimers now).2.Pending e p ↔ s.Pending e p ∧ now ≤ e := by
  change (s.timers_.filter fun entry => !beforeUpperBound now entry).find? (toLex (e, p)) =
    some () ↔ s.timers_.find? (toLex (e, p)) = some () ∧ now ≤ e
  rw [SortedMap.find?_filter, beforeUpperBound_eq]
  by_cases he : e < now
  · simp [he, not_le.mpr he]
  · simp [he, not_lt.mp he]

/-- The entries that are left in `activeTimers_`. -/
theorem active_extractExpiredTimers (i : ℕ) :
    (s.extractExpiredTimers now).2.activeTimers_.find? i =
      if i ∈ (s.expiredTimers now).map (fun p => (s.object p).id_) then none
      else s.activeTimers_.find? i :=
  SortedMap.find?_foldl_erase ..

/-- The assertions of a call. -/
theorem checks_extractExpiredTimers : (s.extractExpiredTimers now).2.checks = s.checks ++
    [(.extractSizes, s.sameSize),
      (.upperBound, (s.extractExpiredTimers now).2.earliest.all fun first => now < first),
      (.extractSizes, (s.extractExpiredTimers now).2.sameSize)] := by
  have hall : ∀ x : Option (Entry π × Unit), (x.all fun it => decide (now < (ofLex it.1).1)) =
      (x.map fun it => (ofLex it.1).1).all fun first => decide (now < first) := by
    intro x
    cases x <;> rfl
  simp only [extractExpiredTimers, check, List.append_assoc, List.cons_append, List.nil_append,
    hall]
  rfl

/-- The assertion about the first timer that stays fails if a timer is due exactly at `now`. -/
theorem upperBound_holds_iff :
    ((s.extractExpiredTimers now).2.earliest.all fun first => now < first) = true ↔
      ∀ p, ¬ s.Pending now p := by
  cases hearliest : (s.extractExpiredTimers now).2.earliest with
  | none =>
    refine iff_of_true rfl fun p hp => ?_
    exact earliest_eq_none_iff.mp hearliest now p
      (pending_extractExpiredTimers.mpr ⟨hp, le_rfl⟩)
  | some first =>
    obtain ⟨⟨p, hp⟩, hmin⟩ := earliest_eq_some_iff.mp hearliest
    obtain ⟨hp, hle⟩ := pending_extractExpiredTimers.mp hp
    rw [Option.all_some, decide_eq_true_iff]
    constructor
    · intro hlt q hq
      have hfirst := hmin now q (pending_extractExpiredTimers.mpr ⟨hq, le_rfl⟩)
      omega
    · intro hnone
      rcases hle.lt_or_eq with hlt | rfl
      · exact hlt
      · exact absurd hp (hnone p)

/-- The record of a call has a failed assertion only if that assertion failed. -/
theorem assertion_holds_iff :
    (Check.upperBound, false) ∉ (s.extractExpiredTimers now).2.checks.drop s.checks.length ↔
      ∀ p, ¬ s.Pending now p := by
  rw [checks_extractExpiredTimers, List.drop_left, ← upperBound_holds_iff]
  simp

/-- A timer is pending for one time. -/
theorem Located.pending_unique {place : π → Place τ} {e' : ℤ} (h : Located s place)
    (hp : s.Pending e p) (hp' : s.Pending e' p) : e = e' :=
  Option.some.inj ((h.timers hp).2.symm.trans (h.timers hp').2)

/-- If no timer is due exactly at `now`, the timers that are due are those that have expired. -/
theorem due_iff (hnow : ∀ p, ¬ s.Pending now p) : s.Due now p ↔ ∃ e < now, s.Pending e p := by
  constructor
  · rintro ⟨e, hle, he⟩
    exact ⟨e, lt_of_le_of_ne hle fun heq => hnow p (heq ▸ he), he⟩
  · rintro ⟨e, hlt, he⟩
    exact ⟨e, hlt.le, he⟩

/-- A timer that is due exactly at `now` is not extracted. -/
theorem Extracts.not_pending_now {place : π → Place τ} (h : Extracts s now) (hl : Located s place)
    (p : π) : ¬ s.Pending now p := by
  intro hp
  obtain ⟨e, hlt, he⟩ := mem_expiredTimers.mp ((h.returned p).mpr ⟨now, le_rfl, hp⟩)
  exact absurd (hl.pending_unique hp he) hlt.ne'

/-- The id of a timer that has expired is erased from `activeTimers_`, so it is no other timer's. -/
theorem Extracts.expired_of_id {place : π → Place τ} {q : π} (h : Extracts s now)
    (hl : Located s place) (hp : s.Pending e p) (hlt : e < now)
    (hq : s.activeTimers_.find? (s.object p).id_ = some q) : ∃ e' < now, s.Pending e' q := by
  by_contra hstays
  rw [← due_iff (h.not_pending_now hl)] at hstays
  have hactive := (h.active _ q).mpr ⟨hq, hstays⟩
  rw [active_extractExpiredTimers, if_pos] at hactive
  · cases hactive
  · exact List.mem_map.mpr ⟨p, mem_expiredTimers.mpr ⟨e, hlt, hp⟩, rfl⟩

/-- The timers that stay in `timers_` are those that have not expired. -/
theorem Located.pending_extract_iff {place : π → Place τ} (hl : Located s place) (e : ℤ) (p : π) :
    (s.extractExpiredTimers now).2.Pending e p ↔
      s.Pending e p ∧ ¬ ∃ e' < now, s.Pending e' p := by
  rw [pending_extractExpiredTimers]
  refine and_congr_right fun hp => ⟨?_, fun hstays => ?_⟩
  · rintro hle ⟨e', hlt, he'⟩
    have heq := hl.pending_unique hp he'
    omega
  · by_contra hlt
    exact hstays ⟨e, not_le.mp hlt, hp⟩

/-- The timers that stay in `activeTimers_` are those that have not expired, if no timer that has
expired has the id of one that has not. -/
theorem Located.active_extract_iff {place : π → Place τ} (hl : Located s place)
    (hids : ∀ e p q, s.Pending e p → e < now → s.activeTimers_.find? (s.object p).id_ = some q →
      ∃ e' < now, s.Pending e' q) (i : ℕ) (p : π) :
    (s.extractExpiredTimers now).2.activeTimers_.find? i = some p ↔
      s.activeTimers_.find? i = some p ∧ ¬ ∃ e' < now, s.Pending e' p := by
  rw [active_extractExpiredTimers]
  split_ifs with hi
  · obtain ⟨q, hq, rfl⟩ := List.mem_map.mp hi
    obtain ⟨e, hlt, he⟩ := mem_expiredTimers.mp hq
    exact iff_of_false (by simp) fun hp => hp.2 (hids e q p he hlt hp.1)
  · refine ⟨fun hp => ⟨hp, ?_⟩, And.left⟩
    rintro ⟨e, hlt, he⟩
    exact hi (List.mem_map.mpr ⟨p, mem_expiredTimers.mpr ⟨e, hlt, he⟩, (hl.active hp).1⟩)

variable [DecidableEq τ]

/-- **When the timers that are due are extracted**: in every state that a run reaches and for every
time, the call takes out the timers that are due if and only if no timer is due exactly at that
time, and no timer that has expired has the id of a timer in `activeTimers_` that has not.

**Proof sketch.** The entries before the bound are those strictly before `now`, and a timer has one
entry, with its expiration. A timer at `now` is due but stays. An id that is erased is that of an
expired timer, so an entry of `activeTimers_` is lost if another timer has the id. -/
theorem extracts_iff {as : List (Step τ π)} (h : run step {} as = some s) (now : ℤ) :
    Extracts s now ↔ (∀ p, ¬ s.Pending now p) ∧
      ∀ e p q, s.Pending e p → e < now → s.activeTimers_.find? (s.object p).id_ = some q →
        ∃ e' < now, s.Pending e' q := by
  obtain ⟨place, hl⟩ := placed_run h
  constructor
  · intro hextracts
    exact ⟨hextracts.not_pending_now hl, fun e p q hp hlt hq =>
      hextracts.expired_of_id hl hp hlt hq⟩
  · rintro ⟨hnow, hids⟩
    refine ⟨fun p => mem_expiredTimers.trans (due_iff hnow).symm, hl.expiredTimers_nodup now,
      hl.expiredTimers_sorted now, fun e p => ?_, fun i p => ?_, assertion_holds_iff.mpr hnow⟩
    · rw [due_iff hnow]
      exact hl.pending_extract_iff e p
    · rw [due_iff hnow]
      exact hl.active_extract_iff hids i p

/-- Three timers are added, two of them for one time. -/
def extractRun : List (Step Empty ℕ) :=
  [.load .loop 0 10 0, .store .loop, .add .loop, .load .loop 1 30 0, .store .loop, .add .loop,
    .load .loop 2 10 5, .store .loop, .add .loop]

/-- Between the times of the timers the earlier two are extracted. -/
theorem extracts_iff_extractRun : ∃ s : TimerScheduler Empty ℕ,
    run step {} extractRun = some s ∧ (s.extractExpiredTimers 20).1 = [0, 2] ∧ Extracts s 20 := by
  have hrun : (run step ({} : TimerScheduler Empty ℕ) extractRun).map
      (fun s => (s.timers_.entries.map (fun it => ofLex it.1),
        [(s.object 0).id_, (s.object 2).id_], s.activeTimers_.entries,
        (s.extractExpiredTimers 20).1)) =
      some ([(10, 0), (10, 2), (30, 1)], [1, 3], [(1, 0), (2, 1), (3, 2)], [0, 2]) := by decide
  obtain ⟨s, hs, hfields⟩ := Option.map_eq_some_iff.mp hrun
  simp only [Prod.mk.injEq, List.cons.injEq] at hfields
  obtain ⟨htimers, ⟨hid₀, hid₂, -⟩, hactive, hextracted⟩ := hfields
  have hpending : ∀ e p, s.Pending e p ↔ (e, p) ∈ [((10 : ℤ), 0), (10, 2), (30, 1)] := by
    intro e p
    rw [← htimers, Pending, ← SortedMap.mem_entries_iff, List.mem_map]
    constructor
    · exact fun h => ⟨_, h, rfl⟩
    · rintro ⟨it, hit, heq⟩
      obtain rfl : it = (toLex (e, p), ()) := Prod.ext (ofLex_inj.mp heq) rfl
      exact hit
  refine ⟨s, hs, hextracted, (extracts_iff hs 20).mpr ⟨fun p hp => ?_, fun e p q hp hlt hq => ?_⟩⟩
  · simp [hpending] at hp
  · rw [← SortedMap.mem_entries_iff, hactive] at hq
    simp only [hpending, List.mem_cons, Prod.mk.injEq, List.not_mem_nil, or_false] at hp hq ⊢
    rcases hp with ⟨rfl, rfl⟩ | ⟨rfl, rfl⟩ | ⟨rfl, rfl⟩
    · rw [hid₀] at hq
      exact ⟨10, by norm_num, by omega⟩
    · rw [hid₂] at hq
      exact ⟨10, by norm_num, by omega⟩
    · omega

/-- A timer that is due at the time of the call stays in both containers, and the assertion about
the first timer that stays fails. -/
theorem not_extracts_due_now : ∃ s : TimerScheduler Empty ℕ,
    run step {} extractRun = some s ∧ s.Due 30 1 ∧ 1 ∉ (s.extractExpiredTimers 30).1 ∧
    (s.extractExpiredTimers 30).2.Pending 30 1 ∧
    (s.extractExpiredTimers 30).2.activeTimers_.find? 2 = some 1 ∧
    (Check.upperBound, false) ∈ (s.extractExpiredTimers 30).2.checks.drop s.checks.length ∧
    ¬ Extracts s 30 := by
  have hrun : (run step ({} : TimerScheduler Empty ℕ) extractRun).map
      (fun s => (s.timers_.find? (toLex (30, 1)), (s.extractExpiredTimers 30).1,
        (s.extractExpiredTimers 30).2.timers_.find? (toLex (30, 1)),
        (s.extractExpiredTimers 30).2.activeTimers_.find? 2)) =
      some (some (), [0, 2], some (), some 1) := by decide
  obtain ⟨s, hs, hfields⟩ := Option.map_eq_some_iff.mp hrun
  simp only [Prod.mk.injEq] at hfields
  obtain ⟨hpending, hextracted, hstays, hactive⟩ := hfields
  have hassertion : ¬ (Check.upperBound, false) ∉
      (s.extractExpiredTimers 30).2.checks.drop s.checks.length := by
    rw [assertion_holds_iff]
    exact fun hnow => hnow 1 hpending
  refine ⟨s, hs, ⟨30, le_rfl, hpending⟩, by simp [hextracted], hstays, hactive,
    not_not.mp hassertion, fun hextracts => hassertion hextracts.assertion⟩

end TimerScheduler

end LouisNet.Timers
