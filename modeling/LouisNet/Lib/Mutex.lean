import Mathlib.Tactic

set_option relaxedAutoImplicit false
set_option autoImplicit false

/-!
# Threads that share a mutex

A mutex has an owner or is free, and each thread is at a place where it holds the mutex or does
not. If every thread that holds the mutex is its owner then no two threads hold it, and locking,
unlocking and moving on keep it so.

## Main definitions

* `LouisNet.Lib.Guarded` — every thread that holds the mutex is its owner.

## Main results

* `LouisNet.Lib.Guarded.eq` — mutual exclusion.
* `LouisNet.Lib.Guarded.lock`, `LouisNet.Lib.Guarded.unlock`, `LouisNet.Lib.Guarded.move` — what a
  thread does keeps the discipline.
-/

namespace LouisNet.Lib

variable {θ : Type*} {holds : θ → Bool} {owner : Option θ} {t u : θ} {b : Bool}

/-- Every thread that holds the mutex is its owner. -/
def Guarded (holds : θ → Bool) (owner : Option θ) : Prop := ∀ t, holds t = true → owner = some t

namespace Guarded

/-- **Mutual exclusion**: two threads that hold the mutex are one. -/
protected theorem eq (h : Guarded holds owner) (ht : holds t = true) (hu : holds u = true) :
    t = u :=
  Option.some.inj ((h t ht).symm.trans (h u hu))

variable [DecidableEq θ]

/-- A thread locks a mutex that is free. -/
theorem lock (h : Guarded holds none) (t : θ) :
    Guarded (Function.update holds t true) (some t) := by
  intro u hu
  by_cases hut : u = t
  · rw [hut]
  · rw [Function.update_of_ne hut] at hu
    cases h u hu

/-- The thread that holds the mutex unlocks it. -/
theorem unlock (h : Guarded holds owner) (ht : holds t = true) :
    Guarded (Function.update holds t false) none := by
  intro u hu
  by_cases hut : u = t
  · rw [hut, Function.update_self] at hu
    cases hu
  · rw [Function.update_of_ne hut] at hu
    exact absurd (h.eq hu ht) hut

/-- A thread moves on, and does not hold the mutex if it did not hold it before. -/
theorem move (h : Guarded holds owner) (ht : b = true → holds t = true) :
    Guarded (Function.update holds t b) owner := by
  intro u hu
  by_cases hut : u = t
  · rw [hut, Function.update_self] at hu
    exact hut ▸ h t (ht hu)
  · rw [Function.update_of_ne hut] at hu
    exact h u hu

end Guarded

end LouisNet.Lib
