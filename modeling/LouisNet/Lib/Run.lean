import Mathlib.Tactic

set_option relaxedAutoImplicit false
set_option autoImplicit false

/-!
# Runs of a partial step function

A system whose steps are given by a partial function: `step s a = none` when the step `a` cannot
be taken in the state `s`. A run takes steps one after another; what every step keeps, every run
keeps, also when only those steps keep it that meet a condition.

## Main definitions

* `LouisNet.Lib.assert` — a condition without which there is no next state.
* `LouisNet.Lib.run` — steps one after another.
* `LouisNet.Lib.Along` — a condition that every step of a run meets.
* `LouisNet.Lib.observed` — the system with a record of what its steps did.

## Main results

* `LouisNet.Lib.run_invariant` — from steps to runs.
* `LouisNet.Lib.Along.invariant` — from steps that meet a condition to runs that meet it.
* `LouisNet.Lib.Along.imp` — from one condition of a run to another.
* `LouisNet.Lib.Along.exists_run` — runs that meet a condition are not stuck.
* `LouisNet.Lib.exists_run_iff` — a property that runs have exactly under a condition.
* `LouisNet.Lib.run_append` — a run cut in two.
* `LouisNet.Lib.Along.length_le`, `LouisNet.Lib.run_length_le` — steps that use up a supply.
* `LouisNet.Lib.run_observed_iff` — the record does not change the runs.
-/

namespace LouisNet.Lib

variable {σ α : Type*} {step : σ → α → Option σ}

/-- Go on when the condition holds. -/
def assert (p : Prop) [Decidable p] (next : Option σ) : Option σ := if p then next else none

/-- An assertion that was passed holds. -/
@[simp] theorem assert_eq_some_iff {p : Prop} [Decidable p] {next : Option σ} {s : σ} :
    assert p next = some s ↔ p ∧ next = some s := by
  simp [assert]

/-- A run: steps one after another, as long as each of them can be taken. -/
def run (step : σ → α → Option σ) : σ → List α → Option σ
  | s, [] => some s
  | s, a :: as => (step s a).bind fun s' => run step s' as

/-- A run begins with its first step. -/
theorem run_cons {s t : σ} {a : α} {as : List α} (h : run step s (a :: as) = some t) :
    ∃ s', step s a = some s' ∧ run step s' as = some t :=
  Option.bind_eq_some_iff.mp h

/-- A run is cut in two anywhere. -/
theorem run_append {s t : σ} {as bs : List α} :
    run step s (as ++ bs) = some t ↔ ∃ s', run step s as = some s' ∧ run step s' bs = some t := by
  induction as generalizing s with
  | nil => simp [run]
  | cons a as ih =>
    constructor
    · intro h
      obtain ⟨s₁, hstep, hrun⟩ := run_cons h
      obtain ⟨s', hs', ht⟩ := ih.mp hrun
      exact ⟨s', by simp [run, hstep, hs'], ht⟩
    · rintro ⟨s', hs', ht⟩
      obtain ⟨s₁, hstep, hrun⟩ := run_cons hs'
      simp [run, hstep, ih.mpr ⟨s', hrun, ht⟩]

/-- One more step. -/
theorem run_concat {s t u : σ} {as : List α} {a : α} (h : run step s as = some t)
    (ha : step t a = some u) : run step s (as ++ [a]) = some u :=
  run_append.mpr ⟨t, h, by simp [run, ha]⟩

/-- What every step keeps, every run keeps. -/
theorem run_invariant {I : σ → Prop} (hstep : ∀ {s a s'}, step s a = some s' → I s → I s')
    {s t : σ} {as : List α} (h : run step s as = some t) (hs : I s) : I t := by
  induction as generalizing s with
  | nil =>
    obtain rfl : s = t := by simpa [run] using h
    exact hs
  | cons a as ih =>
    obtain ⟨s', hs', hrun⟩ := run_cons h
    exact ih hrun (hstep hs' hs)

/-- Every step of a run meets a condition, in the state in which it is taken. -/
def Along (step : σ → α → Option σ) (C : σ → α → Prop) : σ → List α → Prop
  | _, [] => True
  | s, a :: as => C s a ∧ ∀ s', step s a = some s' → Along step C s' as

/-- Whether every step of a run meets a condition can be computed. -/
def decidableAlong {C : σ → α → Prop} [∀ s a, Decidable (C s a)] :
    (s : σ) → (as : List α) → Decidable (Along step C s as)
  | _, [] => inferInstanceAs (Decidable True)
  | s, a :: as =>
    haveI : DecidablePred fun s' => Along step C s' as := fun s' => decidableAlong s' as
    inferInstanceAs (Decidable (C s a ∧ ∀ s' ∈ step s a, Along step C s' as))

instance {C : σ → α → Prop} [∀ s a, Decidable (C s a)] (s : σ) (as : List α) :
    Decidable (Along step C s as) := decidableAlong s as

/-- A condition on the steps alone. -/
theorem Along.of_forall {C : α → Prop} {s : σ} {as : List α} (h : ∀ a ∈ as, C a) :
    Along step (fun _ a => C a) s as := by
  induction as generalizing s with
  | nil => trivial
  | cons a as ih =>
    exact ⟨h a List.mem_cons_self, fun s' _ => ih fun b hb => h b (List.mem_cons_of_mem a hb)⟩

/-- A condition that is weaker at each step. -/
theorem Along.mono {C D : σ → α → Prop} (hCD : ∀ {s a}, C s a → D s a) {s : σ} {as : List α}
    (h : Along step C s as) : Along step D s as := by
  induction as generalizing s with
  | nil => trivial
  | cons a as ih => exact ⟨hCD h.1, fun s' hs' => ih (h.2 s' hs')⟩

/-- A condition that both parts of a run meet. -/
theorem Along.append {C : σ → α → Prop} {s : σ} {as bs : List α} (h : Along step C s as)
    (hbs : ∀ s', run step s as = some s' → Along step C s' bs) : Along step C s (as ++ bs) := by
  induction as generalizing s with
  | nil => exact hbs s rfl
  | cons a as ih =>
    refine ⟨h.1, fun s' hs' => ih (h.2 s' hs') fun t ht => hbs t ?_⟩
    rw [run, hs', Option.bind_some, ht]

/-- What every step that meets the condition keeps, every run that meets it keeps. -/
theorem Along.invariant {C : σ → α → Prop} {I : σ → Prop}
    (hstep : ∀ {s a s'}, step s a = some s' → C s a → I s → I s') {s t : σ} {as : List α}
    (hC : Along step C s as) (h : run step s as = some t) (hs : I s) : I t := by
  induction as generalizing s with
  | nil =>
    obtain rfl : s = t := by simpa [run] using h
    exact hs
  | cons a as ih =>
    obtain ⟨s', hs', hrun⟩ := run_cons h
    exact ih (hC.2 s' hs') hrun (hstep hs' hC.1 hs)

/-- **A property that runs have exactly under a condition.** If a step leads to the property exactly
from the property and under the condition, then so does a run. -/
theorem exists_run_iff {C : α → Prop} {I P : σ → Prop}
    (hI : ∀ {s a s'}, step s a = some s' → I s → I s')
    (hP : ∀ {s} a, I s → ((∃ s', step s a = some s' ∧ P s') ↔ P s ∧ C a)) {s : σ} {as : List α}
    (hs : I s) : (∃ t, run step s as = some t ∧ P t) ↔ P s ∧ ∀ a ∈ as, C a := by
  induction as generalizing s with
  | nil => simp [run]
  | cons a as ih =>
    rw [List.forall_mem_cons, ← and_assoc, ← hP a hs]
    constructor
    · rintro ⟨t, hrun, ht⟩
      obtain ⟨s', hs', hrun'⟩ := run_cons hrun
      obtain ⟨hP', hC⟩ := (ih (hI hs' hs)).mp ⟨t, hrun', ht⟩
      exact ⟨⟨s', hs', hP'⟩, hC⟩
    · rintro ⟨⟨s', hs', hP'⟩, hC⟩
      obtain ⟨t, hrun, ht⟩ := (ih (hI hs' hs)).mpr ⟨hP', hC⟩
      exact ⟨t, by rw [run, hs', Option.bind_some, hrun], ht⟩

/-- A run that meets one condition meets another, if an invariant gives it for each step. -/
theorem Along.imp {C D : σ → α → Prop} {I : σ → Prop}
    (hstep : ∀ {s a s'}, step s a = some s' → C s a → I s → I s' ∧ D s a) {s t : σ} {as : List α}
    (hC : Along step C s as) (h : run step s as = some t) (hs : I s) : Along step D s as := by
  induction as generalizing s with
  | nil => trivial
  | cons a as ih =>
    obtain ⟨s', hs', hrun⟩ := run_cons h
    obtain ⟨hI, hD⟩ := hstep hs' hC.1 hs
    refine ⟨hD, fun s'' hs'' => ?_⟩
    obtain rfl : s' = s'' := Option.some.inj (hs'.symm.trans hs'')
    exact ih (hC.2 s' hs') hrun hI

/-- **If every step that meets the condition can be taken and keeps the invariant**, then so can
every run that meets it. -/
theorem Along.exists_run {C : σ → α → Prop} {I : σ → Prop}
    (hstep : ∀ {s a}, C s a → I s → ∃ s', step s a = some s' ∧ I s') {s : σ} {as : List α}
    (hC : Along step C s as) (hs : I s) : ∃ t, run step s as = some t ∧ I t := by
  induction as generalizing s with
  | nil => exact ⟨s, rfl, hs⟩
  | cons a as ih =>
    obtain ⟨s', hs', hI⟩ := hstep hC.1 hs
    obtain ⟨t, hrun, ht⟩ := ih (hC.2 s' hs') hI
    exact ⟨t, by rw [run, hs', Option.bind_some, hrun], ht⟩

/-! ## Supplies -/

/-- Steps that each use up some of a supply: a run is not longer than the supply. -/
theorem Along.length_le {C : σ → α → Prop} {I : σ → Prop} {supply : σ → ℕ}
    (hstep : ∀ {s a s'}, step s a = some s' → C s a → I s → I s' ∧ supply s' < supply s) {s t : σ}
    {as : List α} (hC : Along step C s as) (h : run step s as = some t) (hs : I s) :
    I t ∧ as.length + supply t ≤ supply s := by
  induction as generalizing s with
  | nil =>
    obtain rfl : s = t := by simpa [run] using h
    exact ⟨hs, by simp⟩
  | cons a as ih =>
    obtain ⟨s', hs', hrun⟩ := run_cons h
    obtain ⟨hI, hless⟩ := hstep hs' hC.1 hs
    obtain ⟨ht, hle⟩ := ih (hC.2 s' hs') hrun hI
    refine ⟨ht, ?_⟩
    rw [List.length_cons]
    omega

/-- The same under a condition on the steps alone. -/
theorem run_length_le {C : α → Prop} {I : σ → Prop} {supply : σ → ℕ}
    (hstep : ∀ {s a s'}, step s a = some s' → C a → I s → I s' ∧ supply s' < supply s) {s t : σ}
    {as : List α} (h : run step s as = some t) (hC : ∀ a ∈ as, C a) (hs : I s) :
    I t ∧ as.length + supply t ≤ supply s :=
  (Along.of_forall hC).length_le (fun hs' hC hs => hstep hs' hC hs) h hs

/-- A supply that is a sum over parts, when one of them has changed. -/
theorem sum_update {ι β M : Type*} [DecidableEq ι] [AddCommMonoid M] (f : β → M) (g : ι → β)
    {s : Finset ι} {i : ι} (hi : i ∈ s) (x : β) :
    ∑ k ∈ s, f (Function.update g i x k) + f (g i) = ∑ k ∈ s, f (g k) + f x := by
  have hrest : ∑ k ∈ s.erase i, f (Function.update g i x k) = ∑ k ∈ s.erase i, f (g k) := by
    apply Finset.sum_congr rfl
    intro k hk
    rw [Function.update_of_ne (Finset.ne_of_mem_erase hk)]
  rw [← Finset.add_sum_erase s _ hi, ← Finset.add_sum_erase s (fun k => f (g k)) hi, hrest,
    Function.update_self]
  ac_rfl

/-! ## Records -/

variable {η : Type*} {note : η → σ → α → η}

/-- The system with a record, to which every step adds what it does in its state. -/
def observed (step : σ → α → Option σ) (note : η → σ → α → η) (x : σ × η) (a : α) :
    Option (σ × η) :=
  (step x.1 a).map fun s' => (s', note x.2 x.1 a)

/-- A step of the system with a record is a step of the system. -/
theorem observed_eq_some_iff {x y : σ × η} {a : α} :
    observed step note x a = some y ↔ step x.1 a = some y.1 ∧ y.2 = note x.2 x.1 a := by
  rw [observed, Option.map_eq_some_iff]
  constructor
  · rintro ⟨s', hs', rfl⟩
    exact ⟨hs', rfl⟩
  · rintro ⟨hs', hy⟩
    exact ⟨y.1, hs', Prod.ext rfl hy.symm⟩

/-- Every run has a record, and a run with a record is a run. -/
theorem run_observed_iff {x : σ × η} {t : σ} {as : List α} :
    (∃ r, run (observed step note) x as = some (t, r)) ↔ run step x.1 as = some t := by
  induction as generalizing x with
  | nil => simp [run, Prod.ext_iff]
  | cons a as ih =>
    constructor
    · rintro ⟨r, h⟩
      obtain ⟨y, hy, hrun⟩ := run_cons h
      rw [run, (observed_eq_some_iff.mp hy).1, Option.bind_some]
      exact ih.mp ⟨r, hrun⟩
    · intro h
      obtain ⟨s', hs', hrun⟩ := run_cons h
      obtain ⟨r, hr⟩ := ih (x := (s', note x.2 x.1 a)).mpr hrun
      have hx : observed step note x a = some (s', note x.2 x.1 a) := by rw [observed, hs']; rfl
      exact ⟨r, by rw [run, hx, Option.bind_some, hr]⟩

end LouisNet.Lib
