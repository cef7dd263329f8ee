import Mathlib.Data.List.Basic

set_option relaxedAutoImplicit false
set_option autoImplicit false

/-!
# Splitting a stream into messages

A reader takes one message from the front of a stream and leaves the rest. Reading again and
again splits the stream into messages. This file says when the messages read from a stream are
those that it was put together from: each of them has to be read back whole, whatever follows.

## Main definitions

* `LouisNet.Lib.Framed` — a message that the reader takes whole, whatever follows.
* `LouisNet.Lib.Misframed` — a message that the reader never takes whole.
* `LouisNet.Lib.readAll` — the messages of a stream.

## Main results

* `LouisNet.Lib.readAll_flatten_iff` — a stream splits into its messages exactly when all of
  them are framed.
-/

namespace LouisNet.Lib

variable {α : Type*}

/-- The reader takes the message and nothing else, whatever follows it. -/
def Framed (read : List α → Option (List α × List α)) (w : List α) : Prop :=
  ∀ tail, read (w ++ tail) = some (w, tail)

/-- Whatever follows the message, the reader does not take it and leave the rest. -/
def Misframed (read : List α → Option (List α × List α)) (w : List α) : Prop :=
  ∀ tail, read (w ++ tail) ≠ some (w, tail)

/-- The messages of a stream, at most the given number of them; `none` when the reader fails or
something is left over. -/
def readAll [DecidableEq α] (read : List α → Option (List α × List α)) :
    ℕ → List α → Option (List (List α))
  | 0, s => if s = [] then some [] else none
  | n + 1, s =>
    if s = [] then some []
    else (read s).bind fun p => (readAll read n p.2).map (p.1 :: ·)

variable [DecidableEq α] {read : List α → Option (List α × List α)}

/-- The messages behind a framed one. -/
theorem readAll_of_framed {w : List α} (hw : Framed read w) (hne : w ≠ []) (n : ℕ)
    (tail : List α) : readAll read (n + 1) (w ++ tail) = (readAll read n tail).map (w :: ·) := by
  have hs : w ++ tail ≠ [] := List.append_ne_nil_of_left_ne_nil hne tail
  rw [readAll, if_neg hs, hw tail, Option.bind_some]

/-- A message that is not framed is not read back. -/
theorem readAll_ne_of_misframed {w : List α} (hw : Misframed read w) (hne : w ≠ []) (n : ℕ)
    (ws : List (List α)) (hread : ∀ s a b, read s = some (a, b) → s = a ++ b) :
    readAll read (n + 1) (w ++ ws.flatten) ≠ some (w :: ws) := by
  intro h
  have hs : w ++ ws.flatten ≠ [] := List.append_ne_nil_of_left_ne_nil hne _
  rw [readAll, if_neg hs] at h
  obtain ⟨⟨a, b⟩, hr, hmap⟩ := Option.bind_eq_some_iff.mp h
  obtain ⟨ms, -, hcons⟩ := Option.map_eq_some_iff.mp hmap
  obtain rfl : a = w := (List.cons.inj hcons).1
  obtain rfl : ws.flatten = b := List.append_cancel_left (hread _ _ _ hr)
  exact hw _ hr

/-- **A stream splits into its messages exactly when all of them are framed**, by induction on
the messages. -/
theorem readAll_flatten_iff (hread : ∀ s a b, read s = some (a, b) → s = a ++ b) :
    ∀ {ws : List (List α)} (n : ℕ), (∀ w ∈ ws, w ≠ [] ∧ (Framed read w ∨ Misframed read w)) →
      ws.flatten.length ≤ n → (readAll read n ws.flatten = some ws ↔ ∀ w ∈ ws, Framed read w) := by
  intro ws
  induction ws with
  | nil =>
    intro n _ _
    cases n <;> simp [readAll]
  | cons w ws ih =>
    intro n h hn
    obtain ⟨hne, hw⟩ := h w List.mem_cons_self
    rw [List.flatten_cons, List.length_append] at hn
    have hpos := List.length_pos_iff.mpr hne
    obtain ⟨m, rfl⟩ : ∃ m, n = m + 1 := ⟨n - 1, by omega⟩
    rw [List.flatten_cons, List.forall_mem_cons]
    rcases hw with hw | hw
    · rw [readAll_of_framed hw hne, ← ih m (fun v hv => h v (List.mem_cons_of_mem w hv)) (by omega),
        Option.map_eq_some_iff]
      constructor
      · rintro ⟨ms, hms, hcons⟩
        rw [(List.cons.inj hcons).2] at hms
        exact ⟨hw, hms⟩
      · rintro ⟨-, hms⟩
        exact ⟨ws, hms, rfl⟩
    · refine iff_of_false (readAll_ne_of_misframed hw hne m ws hread) ?_
      rintro ⟨hframed, -⟩
      exact hw [] (hframed [])

end LouisNet.Lib
