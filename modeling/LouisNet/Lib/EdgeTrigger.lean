import Mathlib.Tactic

set_option relaxedAutoImplicit false
set_option autoImplicit false

/-!
# Edge-triggered notification

A level is watched by someone who is told only when it rises. The watcher hears of it as long as,
whenever the level is high, a notification is on its way or the watcher is at work and will look
again. The rules here say which steps keep this: the level may rise only with a notification, a
notification may be taken only by a watcher who goes to work, and the watcher may stop only when
the level is low, or after asking to be told about the level as it is.

## Main definitions

* `LouisNet.Lib.Heard` — a high level is on its way to the watcher.

## Main results

* `LouisNet.Lib.Heard.low` — when nothing is on its way and nobody is at work, the level is low.
* `LouisNet.Lib.Heard.rise`, `LouisNet.Lib.Heard.taken`, `LouisNet.Lib.Heard.stop`,
  `LouisNet.Lib.Heard.rearm` — the steps.
-/

namespace LouisNet.Lib

/-- When the level is high, a notification is pending or the watcher is at work. -/
def Heard (level pending atWork : Prop) : Prop := level → pending ∨ atWork

variable {level level' pending pending' atWork atWork' edge : Prop}

/-- Nothing is missed: with no notification pending and nobody at work, the level is low. -/
theorem Heard.low (h : Heard level pending atWork) (hpending : ¬ pending) (hwork : ¬ atWork) :
    ¬ level :=
  fun hlevel => (h hlevel).elim hpending hwork

/-- The level may fall, more may be pending, and a watcher may start. -/
theorem Heard.mono (h : Heard level pending atWork) (hlevel : level' → level)
    (hpending : pending → pending') (hwork : atWork → atWork') : Heard level' pending' atWork' :=
  fun hlevel' => (h (hlevel hlevel')).imp hpending hwork

/-- The level may rise with a notification. -/
theorem Heard.rise (h : Heard level pending atWork) (hedge : level' → level ∨ edge) :
    Heard level' (pending ∨ edge) atWork := by
  intro hlevel'
  rcases hedge hlevel' with hlevel | hnow
  · exact (h hlevel).imp_left Or.inl
  · exact .inl (.inr hnow)

/-- A notification may be taken by a watcher who goes to work if the level is high. -/
theorem Heard.taken (hwork : level → atWork') : Heard level pending' atWork' :=
  fun hlevel => .inr (hwork hlevel)

/-- A watcher may stop when the level is low. -/
theorem Heard.stop (hlow : ¬ level) : Heard level pending' atWork' :=
  fun hlevel => absurd hlevel hlow

/-- A watcher who asks about the level as it is may stop. -/
theorem Heard.rearm (hnow : level → pending') : Heard level pending' atWork' :=
  fun hlevel => .inl (hnow hlevel)

end LouisNet.Lib
