import LouisNet.Lib.Run

set_option relaxedAutoImplicit false
set_option autoImplicit false

/-!
# The loops of a server

The class `EventLoopThreadPool` of `src/net/reactor/EventLoopThreadPool.cc`: the sub-loops that
`start` has created, and `getNextLoop`, which hands them out in turn. `getNextLoop` reads
`subLoops_[next_]` unchecked; `threadNum_` may be set at any time, also to a number for which no
loops were started. Loops are elements of an arbitrary type.

## Main definitions

* `LouisNet.Reactor.EventLoopThreadPool` — the pool.
* `LouisNet.Reactor.EventLoopThreadPool.step` — one call.
* `LouisNet.Reactor.EventLoopThreadPool.Sound` — there is a loop for every index to come.

## Main results

* `LouisNet.Reactor.EventLoopThreadPool.forall_getNextLoop_iff` — exactly when no call of
  `getNextLoop` reads outside the array.
-/

namespace LouisNet.Reactor

open Lib

/-- `EventLoopThreadPool`. The index `next_` is an `int` that is never negative. -/
structure EventLoopThreadPool (Λ : Type*) where
  mainLoop_ : Λ
  subLoops_ : List Λ := []
  threadNum_ : ℤ := 0
  next_ : ℕ := 0
  deriving DecidableEq, Repr

namespace EventLoopThreadPool

variable {Λ : Type*} {p p' : EventLoopThreadPool Λ}

/-! ## The functions of the class -/

/-- `EventLoopThreadPool::setThreadNum`. -/
def setThreadNum (p : EventLoopThreadPool Λ) (threadNum : ℤ) : EventLoopThreadPool Λ :=
  { p with threadNum_ := threadNum }

/-- `EventLoopThreadPool::start`, with the loops that the new threads run: one for each turn of the
loop, and none if `threadNum_` is negative. -/
def start (p : EventLoopThreadPool Λ) (loops : List Λ) : Option (EventLoopThreadPool Λ) :=
  assert (loops.length = p.threadNum_.toNat) <| some { p with subLoops_ := p.subLoops_ ++ loops }

/-- `EventLoopThreadPool::getNextLoop`: the loop, if the index is inside the array, and the pool. -/
def getNextLoop (p : EventLoopThreadPool Λ) : Option (Λ × EventLoopThreadPool Λ) :=
  if p.threadNum_ = 0 then some (p.mainLoop_, p)
  else
    p.subLoops_[p.next_]?.map fun loop =>
      (loop, { p with next_ := if p.threadNum_ ≤ p.next_ + 1 then 0 else p.next_ + 1 })

/-- The calls. -/
inductive Op (Λ : Type*) where
  | setThreadNum (threadNum : ℤ)
  | start (loops : List Λ)
  | getNextLoop
  deriving DecidableEq, Repr

/-- One call, unless it reads outside the array. -/
def step (p : EventLoopThreadPool Λ) : Op Λ → Option (EventLoopThreadPool Λ)
  | .setThreadNum threadNum => some (p.setThreadNum threadNum)
  | .start loops => p.start loops
  | .getNextLoop => p.getNextLoop.map Prod.snd

/-! ## Reads outside the array -/

/-- **There is a loop for every index to come.** -/
def Sound (p : EventLoopThreadPool Λ) : Prop :=
  p.threadNum_ = 0 ∨ p.next_ < p.subLoops_.length ∧ p.threadNum_ ≤ p.subLoops_.length

instance (p : EventLoopThreadPool Λ) : Decidable p.Sound := inferInstanceAs (Decidable (_ ∨ _))

/-- A call of `getNextLoop` goes on to the next index. -/
theorem step_getNextLoop (hp : p.threadNum_ ≠ 0) :
    p.step .getNextLoop = if p.next_ < p.subLoops_.length then
      some { p with next_ := if p.threadNum_ ≤ p.next_ + 1 then 0 else p.next_ + 1 } else none := by
  show (p.getNextLoop.map Prod.snd : Option (EventLoopThreadPool Λ)) = _
  rw [getNextLoop, if_neg hp]
  by_cases hlt : p.next_ < p.subLoops_.length
  · rw [List.getElem?_eq_getElem hlt, if_pos hlt]
    rfl
  · rw [List.getElem?_eq_none (not_lt.mp hlt), if_neg hlt]
    rfl

/-- A sound pool stays sound. -/
theorem Sound.step_getNextLoop (h : p.Sound) : ∃ p', p.step .getNextLoop = some p' ∧ p'.Sound := by
  rcases eq_or_ne p.threadNum_ 0 with hp | hp
  · exact ⟨p, by simp [step, getNextLoop, hp], .inl hp⟩
  · obtain ⟨hnext, hnum⟩ := h.resolve_left hp
    rw [EventLoopThreadPool.step_getNextLoop hp, if_pos hnext]
    refine ⟨_, rfl, .inr ⟨?_, hnum⟩⟩
    dsimp only
    split_ifs <;> omega

/-- A pool with too few loops comes to an index outside the array. -/
theorem exists_outside (h : ¬ p.Sound) :
    ∃ m, run step p (List.replicate m .getNextLoop) = none := by
  have hp : p.threadNum_ ≠ 0 := fun hp => h (.inl hp)
  -- the loops that are left before the end of the array
  induction hleft : p.subLoops_.length - p.next_ generalizing p with
  | zero =>
    refine ⟨1, ?_⟩
    rw [List.replicate_one, run, step_getNextLoop hp, if_neg (by omega)]
    rfl
  | succ left ih =>
    have hmore : (p.subLoops_.length : ℤ) < p.threadNum_ := by
      by_contra hle
      exact h (.inr ⟨by omega, not_lt.mp hle⟩)
    obtain ⟨m, hm⟩ := ih (p := { p with next_ := p.next_ + 1 }) (fun hsound => by
      rcases hsound with hzero | ⟨-, hle⟩
      · exact hp hzero
      · exact absurd hle (not_le.mpr hmore)) hp (by dsimp only; omega)
    refine ⟨m + 1, ?_⟩
    rw [List.replicate_succ, run, step_getNextLoop hp, if_pos (by omega), if_neg (by omega)]
    exact hm

/-- **Exactly when no call of `getNextLoop` reads outside the array**, in whatever order
`setThreadNum` and `start` were called before: there are no threads to be used, or at least as many
loops were started as are to be used and the index is one of them.

**Proof sketch.** An index inside the array is followed by `0` or, if more loops are to be used, by
the next one; so the indices grow to `threadNum_` and the array has to be as long. -/
theorem forall_getNextLoop_iff (p : EventLoopThreadPool Λ) :
    (∀ m, ∃ p', run step p (List.replicate m .getNextLoop) = some p') ↔ p.Sound := by
  constructor
  · intro h
    by_contra hunsound
    obtain ⟨m, hm⟩ := exists_outside hunsound
    obtain ⟨p', hp'⟩ := h m
    rw [hm] at hp'
    cases hp'
  · intro h m
    induction m generalizing p with
    | zero => exact ⟨p, rfl⟩
    | succ m ih =>
      obtain ⟨p₁, hp₁, hsound⟩ := h.step_getNextLoop
      obtain ⟨p', hp'⟩ := ih p₁ hsound
      exact ⟨p', by rw [List.replicate_succ, run, hp₁, Option.bind_some, hp']⟩

end EventLoopThreadPool

end LouisNet.Reactor
