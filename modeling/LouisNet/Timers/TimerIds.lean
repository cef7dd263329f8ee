import LouisNet.Timers.TimerPlaces

set_option relaxedAutoImplicit false
set_option autoImplicit false

/-!
# The ids of the timers

`addTimer` takes an id from `nextId_` by a load and a store. If no call loads while another is
between the two, the timers are numbered in the order in which they are made, and fewer than `2^64`
of them have ids of their own. Two calls that both load before one of them stores give their timers
one id, and the second `activeTimers_.emplace` does not insert.

## Main definitions

* `LouisNet.Timers.TimerScheduler.LoadsAlone` — no other call is between its load and its store.
* `LouisNet.Timers.TimerScheduler.Numbered` — ids are numbers in the order of creation.
* `LouisNet.Timers.TimerScheduler.UniqueIds` — no two timers have one id.

## Main results

* `LouisNet.Timers.TimerScheduler.numbered_run` — the ids of a run in which calls load alone.
-/

namespace LouisNet.Timers

open Lib Reactor

namespace TimerScheduler

variable {τ π : Type*} [LinearOrder π] {s s' : TimerScheduler τ π} {p : π}

/-- No two timers made have one id. -/
def UniqueIds (s : TimerScheduler τ π) : Prop :=
  ∀ p ∈ s.created, ∀ q ∈ s.created, (s.object p).id_ = (s.object q).id_ → p = q

/-- No call is between its load and its store when another one loads. -/
def LoadsAlone (s : TimerScheduler τ π) : Step τ π → Prop
  | .load _ _ _ _ => ∀ t p, s.call t ≠ .loaded p
  | _ => True

/-- Either no call is between its load and its store, and `nextId_` is the number of timers, or one
call is, and its timer has the next number. -/
def Counted (s : TimerScheduler τ π) : Prop :=
  (s.nextId_ = s.created.length ∧ ∀ t p, s.call t ≠ .loaded p) ∨
  ∃ t p, s.call t = .loaded p ∧ (∀ t' p', s.call t' = .loaded p' → t' = t) ∧
    p ∈ s.created ∧ (s.object p).id_ = s.created.length ∧ s.nextId_ + 1 = s.created.length

/-- **The timers are numbered** in the order in which they were made. -/
structure Numbered (s : TimerScheduler τ π) : Prop where
  ids : s.created.map (fun p => (s.object p).id_) = List.range' 1 s.created.length
  counted : s.Counted

/-- Timers that are numbered have ids of their own. -/
theorem Numbered.uniqueIds (h : Numbered s) : UniqueIds s := by
  have hnodup : (s.created.map fun p => (s.object p).id_).Nodup := by
    rw [h.ids]
    exact List.nodup_range'
  exact fun p hp q hq heq => List.inj_on_of_nodup_map hnodup hp hq heq

variable [DecidableEq τ]

/-- What a step does to the objects, to `nextId_` and to the calls. -/
inductive IdNext (s s' : TimerScheduler τ π) : Step τ π → Prop where
  | load (t : Thread τ) (p : π) (expiration interval : ℤ) (hnew : p ∉ s.created)
    (ht : s.call t = .idle) (hs' : s' = s.loadId t p expiration interval) :
    IdNext s s' (.load t p expiration interval)
  | store (t : Thread τ) (p : π) (ht : s.call t = .loaded p) (hs' : s' = s.storeId t p) :
    IdNext s s' (.store t)
  | add (t : Thread τ) (p : π) (ht : s.call t = .stored p) (hobject : s'.object = s.object)
    (hcreated : s'.created = s.created) (hreturned : s'.returned = s.returned ++ [p])
    (hnext : s'.nextId_ = s.nextId_) (hcall : s'.call = Function.update s.call t .idle) :
    IdNext s s' (.add t)
  | other (a : Step τ π) (ha : ∀ t p expiration interval, a ≠ .load t p expiration interval)
    (hids : ∀ p, (s'.object p).id_ = (s.object p).id_) (hcreated : s'.created = s.created)
    (hreturned : s'.returned = s.returned) (hnext : s'.nextId_ = s.nextId_)
    (hcall : s'.call = s.call) : IdNext s s' a

/-- A step is one of the cases. -/
theorem idNext_of_step {a : Step τ π} (h : s.step a = some s') : IdNext s s' a := by
  cases next_of_step h with
  | load t p expiration interval hcall hnew =>
    exact .load t p expiration interval hnew hcall.1 rfl
  | store t p ht => exact .store t p ht rfl
  | add t p ht =>
    have hkept := runInLoop_kept { s with call := Function.update s.call t .idle } t
      (.addTimerInLoop (s.object p).id_ p)
    exact .add t p ht hkept.object hkept.created (congrArg (· ++ [p]) hkept.returned)
      hkept.nextId_ hkept.call
  | cancel t timerId hcall =>
    have hkept := runInLoop_kept s t (.cancelTimerInLoop timerId)
    exact .other _ (by simp) (fun q => by rw [hkept.object]) hkept.created hkept.returned
      hkept.nextId_ hkept.call
  | runTask task tasks hpc htasks =>
    have hkept := exec_kept { s with tasks_ := tasks } task
    exact .other _ (by simp) (fun q => by rw [hkept.object]) hkept.created hkept.returned
      hkept.nextId_ hkept.call
  | restart now done todo p hpc hrestarts =>
    exact .other _ (by simp) (fun q => id_update_restart s.object p q now) rfl rfl rfl rfl
  | addAgain now done todo p hpc =>
    have hframe := addTimerInLoop_frame { s with pc := .resetting now (done ++ [p]) todo }
      (s.object p).id_ p
    exact .other _ (by simp) (fun q => by rw [hframe.object]) hframe.created hframe.returned
      hframe.nextId_ hframe.call
  | _ => exact .other _ (by simp) (fun _ => rfl) rfl rfl rfl rfl

/-! ## Numbers -/

/-- A timer that was made keeps its id. -/
theorem id_of_step {a : Step τ π} (h : s.step a = some s') (hp : p ∈ s.created) :
    p ∈ s'.created ∧ (s'.object p).id_ = (s.object p).id_ := by
  cases idNext_of_step h with
  | load t q expiration interval hnew ht hs' =>
    have hne : p ≠ q := fun heq => hnew (heq ▸ hp)
    rw [hs']
    exact ⟨List.mem_append_left _ hp, by simp [hne]⟩
  | store t q ht hs' =>
    rw [hs']
    exact ⟨hp, rfl⟩
  | add t q ht hobject hcreated hreturned hnext hcall =>
    exact ⟨hcreated ▸ hp, by rw [hobject]⟩
  | other a ha hids hcreated hreturned hnext hcall => exact ⟨hcreated ▸ hp, hids p⟩

/-- Timers with ids of their own had them before. -/
theorem UniqueIds.of_step {a : Step τ π} (h : s.step a = some s') (hs' : UniqueIds s') :
    UniqueIds s := by
  intro p hp q hq heq
  obtain ⟨hp', hidp⟩ := id_of_step h hp
  obtain ⟨hq', hidq⟩ := id_of_step h hq
  exact hs' p hp' q hq' (by rw [hidp, hidq, heq])

/-- The number of timers does not decrease. -/
theorem length_created_of_step {a : Step τ π} (h : s.step a = some s') :
    s.created.length ≤ s'.created.length := by
  cases idNext_of_step h with
  | load t p expiration interval hnew ht hs' => simp [hs']
  | store t p ht hs' => simp [hs', storeId]
  | add t p ht hobject hcreated hreturned hnext hcall => simp [hcreated]
  | other a ha hids hcreated hreturned hnext hcall => simp [hcreated]

/-- A timer that is made while no other call is between its load and its store gets the next
number. -/
theorem Numbered.loadId (h : Numbered s) {t : Thread τ} (hp : p ∉ s.created)
    (halone : ∀ t p, s.call t ≠ .loaded p) (hlen : s.created.length + 1 < 2 ^ 64)
    (expiration interval : ℤ) : Numbered (s.loadId t p expiration interval) := by
  have hnext : s.nextId_ = s.created.length := by
    obtain ⟨hnext, -⟩ | ⟨t', q, ht', -⟩ := h.counted
    · exact hnext
    · exact absurd ht' (halone t' q)
  have hid : ((s.loadId t p expiration interval).object p).id_ = s.created.length + 1 := by
    rw [loadId_object, if_pos rfl, Timer.new, hnext, Nat.mod_eq_of_lt hlen]
  have hlength : (s.loadId t p expiration interval).created.length = s.created.length + 1 := by
    simp
  constructor
  · have hold : s.created.map (fun q => ((s.loadId t p expiration interval).object q).id_) =
        s.created.map fun q => (s.object q).id_ := by
      refine List.map_congr_left fun q hq => ?_
      have hne : q ≠ p := fun heq => hp (heq ▸ hq)
      rw [loadId_object, if_neg hne]
    rw [hlength, loadId_created, List.map_append, hold, h.ids, List.range'_concat, List.map_cons,
      List.map_nil, hid]
    simp [Nat.add_comm]
  · refine .inr ⟨t, p, by simp, fun t' p' ht' => ?_, by simp, by rw [hid, hlength], ?_⟩
    · by_contra hne
      rw [loadId_call, if_neg hne] at ht'
      exact halone t' p' ht'
    · rw [hlength, TimerScheduler.loadId, hnext]

/-- **Steps keep the numbers**, if a call loads only while no other is between its load and its
store, and as long as there are fewer than `2^64` timers. -/
theorem Numbered.step (h : Numbered s) {a : Step τ π} (hstep : s.step a = some s')
    (halone : s.LoadsAlone a) (hlen : s'.created.length < 2 ^ 64) : Numbered s' := by
  cases idNext_of_step hstep with
  | load t p expiration interval hnew ht hs' =>
    rw [hs'] at hlen ⊢
    exact h.loadId hnew halone (by simpa using hlen) expiration interval
  | store t p ht hs' =>
    obtain ⟨-, hnone⟩ | ⟨t', p', ht', hunique, hmem, hid, -⟩ := h.counted
    · exact absurd ht (hnone t p)
    obtain rfl := hunique t p ht
    obtain rfl : p' = p := by simpa [ht'] using ht
    rw [hs']
    refine ⟨h.ids, .inl ⟨hid, fun t' q hq => ?_⟩⟩
    by_cases hne : t' = t
    · simp [hne] at hq
    · rw [storeId_call, if_neg hne] at hq
      exact hne (hunique t' q hq)
  | add t p ht hobject hcreated hreturned hnext hcall =>
    have hloaded : ∀ t' q, s'.call t' = .loaded q ↔ s.call t' = .loaded q := by
      intro t' q
      by_cases heq : t' = t
      · simp [hcall, heq, ht]
      · simp [hcall, heq]
    refine ⟨by rw [hobject, hcreated, h.ids], ?_⟩
    simpa only [Counted, hobject, hcreated, hnext, hloaded, ne_eq] using h.counted
  | other a ha hids hcreated hreturned hnext hcall =>
    refine ⟨by simp only [hids, hcreated, h.ids], ?_⟩
    simpa only [Counted, hids, hcreated, hnext, hcall] using h.counted

omit [DecidableEq τ] in
/-- At the start there is no timer. -/
theorem numbered_init : Numbered ({} : TimerScheduler τ π) :=
  ⟨rfl, .inl ⟨rfl, fun _ _ => nofun⟩⟩

/-- **The ids of a run in which calls load alone** are the numbers from one on. -/
theorem numbered_run {as : List (Step τ π)} (halone : Along step LoadsAlone {} as)
    (h : run step {} as = some s) (hlen : s.created.length < 2 ^ 64) : Numbered s := by
  refine halone.invariant (I := fun s => s.created.length < 2 ^ 64 → Numbered s)
    (fun hstep halone hI hlen => ?_) h (fun _ => numbered_init) hlen
  exact (hI ((length_created_of_step hstep).trans_lt hlen)).step hstep halone hlen

/-- A call that loads while another is between its load and its store gives its timer the id of the
other. -/
theorem Numbered.loadsAlone (h : Numbered s) {a : Step τ π} (hstep : s.step a = some s')
    (hlen : s'.created.length < 2 ^ 64) (hunique : UniqueIds s') : s.LoadsAlone a := by
  cases idNext_of_step hstep with
  | load t p expiration interval hnew ht hs' =>
    intro t' q hq
    obtain ⟨-, hnone⟩ | ⟨t₁, p₁, -, -, hmem, hid, hnext⟩ := h.counted
    · exact hnone t' q hq
    have hne : p₁ ≠ p := fun heq => hnew (heq ▸ hmem)
    have hlength : s.created.length < 2 ^ 64 := (length_created_of_step hstep).trans_lt hlen
    refine hne (hunique p₁ (by simp [hs', hmem]) p (by simp [hs']) ?_)
    rw [hs', loadId_object, loadId_object, if_neg hne, if_pos rfl, hid, Timer.new, hnext,
      Nat.mod_eq_of_lt hlength]
  | store t p ht hs' => trivial
  | add t p ht hobject hcreated hreturned hnext hcall => trivial
  | other a ha hids hcreated hreturned hnext hcall =>
    cases a with
    | load t p expiration interval => exact absurd rfl (ha t p expiration interval)
    | _ => trivial

/-- **Ids of their own need calls that load alone.** -/
theorem loadsAlone_of_uniqueIds {s₀ : TimerScheduler τ π} {as : List (Step τ π)}
    (h : run step s₀ as = some s) (h₀ : Numbered s₀) (hlen : s.created.length < 2 ^ 64)
    (hunique : UniqueIds s) : Along step LoadsAlone s₀ as := by
  induction as generalizing s₀ with
  | nil => trivial
  | cons a as ih =>
    obtain ⟨s₁, hstep, hrun⟩ := run_cons h
    have hlen₁ : s₁.created.length < 2 ^ 64 :=
      run_invariant (I := fun s => s₁.created.length ≤ s.created.length)
        (fun hstep hle => hle.trans (length_created_of_step hstep)) hrun le_rfl |>.trans_lt hlen
    have hunique₁ : UniqueIds s₁ :=
      run_invariant (I := fun s => UniqueIds s → UniqueIds s₁)
        (fun hstep hI hs => hI (hs.of_step hstep)) hrun id hunique
    have halone := h₀.loadsAlone hstep hlen₁ hunique₁
    refine ⟨halone, fun s' hs' => ?_⟩
    obtain rfl : s₁ = s' := Option.some.inj (hstep.symm.trans hs')
    exact ih hrun (h₀.step hstep halone hlen₁)

/-! ## Adding on the loop thread -/

/-- A call of `addTimer` is made on the loop thread. -/
def Step.AddsOnLoop : Step τ π → Prop
  | .load t _ _ _ => t = .loop
  | _ => True

/-- If only the loop thread calls `addTimer`, it loads alone. -/
theorem loadsAlone_of_addsOnLoop {as : List (Step τ π)} (hloop : ∀ a ∈ as, Step.AddsOnLoop a)
    (h : run step {} as = some s) : Along step LoadsAlone {} as := by
  refine (Along.of_forall hloop).imp (I := fun s => ∀ t, t ≠ .loop → s.call t = .idle)
    (fun {s a s'} hstep hC hI => ?_) h (fun _ _ => rfl)
  cases idNext_of_step hstep with
  | load t p expiration interval hnew ht hs' =>
    obtain rfl : t = .loop := hC
    refine ⟨fun t' ht' => by simp [hs', ht', hI t' ht'], fun t' q hq => ?_⟩
    by_cases heq : t' = .loop
    · rw [heq, ht] at hq
      cases hq
    · rw [hI t' heq] at hq
      cases hq
  | store t p ht hs' =>
    refine ⟨fun t' ht' => ?_, trivial⟩
    have hne : t' ≠ t := fun heq => by
      rw [← heq, hI t' ht'] at ht
      cases ht
    simp [hs', hne, hI t' ht']
  | add t p ht hobject hcreated hreturned hnext hcall =>
    refine ⟨fun t' ht' => ?_, trivial⟩
    by_cases heq : t' = t
    · simp [hcall, heq]
    · simp [hcall, heq, hI t' ht']
  | other a ha hids hcreated hreturned hnext hcall =>
    refine ⟨fun t' ht' => by rw [hcall, hI t' ht'], ?_⟩
    cases a with
    | load t p expiration interval =>
      exact absurd rfl (ha t p expiration interval)
    | _ => trivial

end TimerScheduler

end LouisNet.Timers
