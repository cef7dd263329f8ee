import Mathlib.Data.List.Basic
import Mathlib.Data.List.Infix

set_option relaxedAutoImplicit false
set_option autoImplicit false

/-!
# Cutting a list at the first occurrence of a separator

Text protocols are read by cutting: a line at the first line terminator, a field at the first
colon, a word at the first space. This file has the one function behind all of them, over
lists of any type with decidable equality, and the laws that parsers need: what a cut says
about the list, when it exists, and how it behaves when more elements arrive at the end.

## Main definitions

* `LouisNet.Lib.cut` — the parts before and after the first occurrence of a separator.
* `LouisNet.Lib.Unbordered` — a separator that cannot overlap with itself.

## Main results

* `LouisNet.Lib.cut_append_right` — a cut that exists is not moved by later elements.
* `LouisNet.Lib.cut_eq_none_iff` — there is no cut exactly when the separator does not occur.
* `LouisNet.Lib.cut_eq_some_iff` — for an unbordered separator, the cut is the unique
  decomposition whose first part does not contain the separator.
* `LouisNet.Lib.cut_singleton_eq_some_iff` — the same for a single element.
-/

namespace LouisNet.Lib

variable {α : Type*}

/-- No proper part of the list is both its beginning and its end. -/
def Unbordered (sep : List α) : Prop := ∀ v, v ≠ [] → v <+: sep → v <:+ sep → v = sep

/-- A single element has no proper part. -/
theorem unbordered_singleton (x : α) : Unbordered [x] := by
  intro v hne hp _
  exact hp.eq_of_length_le (List.length_pos_iff.mpr hne)

/-- Two different elements in a row do not overlap with themselves. -/
theorem unbordered_pair {x y : α} (h : x ≠ y) : Unbordered [x, y] := by
  intro v hne hp hs
  match v, hne with
  | [z], _ =>
    obtain ⟨t, ht⟩ := hp
    obtain ⟨u, hu⟩ := hs
    have hz : z = x := by simpa using congrArg List.head? ht
    have hz' : z = y := by simpa using congrArg List.getLast? hu
    exact absurd (hz.symm.trans hz') h
  | z :: w :: v, _ => exact hp.eq_of_length_le (by simp)

/-- An element that is not the last one of the separator completes no separator. -/
theorem not_infix_concat {sep s : List α} {x y : α} (hs : ¬ sep ++ [y] <:+: s) (hxy : x ≠ y) :
    ¬ sep ++ [y] <:+: s ++ [x] := by
  intro h
  rcases List.infix_concat_iff.mp h with hsuf | hinf
  · rcases List.suffix_concat_iff.mp hsuf with hnil | ⟨t, ht, -⟩
    · simp at hnil
    · exact hxy (List.singleton_inj.mp (List.append_inj' ht rfl).2).symm
  · exact hs hinf

/-- Elements that are not the last one of the separator complete no separator. -/
theorem not_infix_append {sep s t : List α} {y : α} (hs : ¬ sep ++ [y] <:+: s) (ht : y ∉ t) :
    ¬ sep ++ [y] <:+: s ++ t := by
  induction t using List.reverseRecOn with
  | nil => simpa using hs
  | append_singleton t x ih =>
    obtain ⟨ht', hx⟩ := not_or.mp (mt List.mem_append.mpr ht)
    rw [← List.append_assoc]
    exact not_infix_concat (ih ht') fun h => hx (List.mem_singleton.mpr h.symm)

variable [DecidableEq α]

/-- The parts of a list before and after the first occurrence of `sep`, if there is one. -/
def cut (sep : List α) : List α → Option (List α × List α)
  | [] => if sep = [] then some ([], []) else none
  | x :: l =>
    if sep <+: x :: l then some ([], (x :: l).drop sep.length)
    else (cut sep l).map fun p => (x :: p.1, p.2)

/-- The two parts of a cut and the separator between them make up the list. -/
theorem eq_of_cut_eq_some {sep : List α} :
    ∀ {s a b : List α}, cut sep s = some (a, b) → s = a ++ sep ++ b
  | [], a, b, h => by
    simp only [cut] at h
    split_ifs at h with hs
    simp_all
  | x :: l, a, b, h => by
    simp only [cut] at h
    split_ifs at h with hp
    · obtain ⟨t, ht⟩ := hp
      simp only [Option.some.injEq, Prod.mk.injEq] at h
      obtain ⟨rfl, rfl⟩ := h
      rw [← ht]
      simp
    · obtain ⟨⟨a', b'⟩, hc, hab⟩ := Option.map_eq_some_iff.mp h
      simp only [Prod.mk.injEq] at hab
      obtain ⟨rfl, rfl⟩ := hab
      simp [eq_of_cut_eq_some hc]

/-- A cut exists exactly when the separator occurs. -/
theorem cut_eq_none_iff {sep : List α} : ∀ {s : List α}, cut sep s = none ↔ ¬ sep <:+: s
  | [] => by simp [cut]
  | x :: l => by
    simp only [cut, List.infix_cons_iff, not_or]
    split_ifs with hp
    · simp [hp]
    · simp [hp, cut_eq_none_iff]

/-- Elements that arrive at the end do not move a cut that is already there. -/
theorem cut_append_right {sep : List α} :
    ∀ {s a b : List α} (t : List α), cut sep s = some (a, b) → cut sep (s ++ t) = some (a, b ++ t)
  | [], a, b, t, h => by
    simp only [cut] at h
    split_ifs at h with hs
    simp only [Option.some.injEq, Prod.mk.injEq] at h
    obtain ⟨rfl, rfl⟩ := h
    cases t <;> simp [cut, hs]
  | x :: l, a, b, t, h => by
    simp only [cut, List.cons_append] at h ⊢
    split_ifs at h with hp
    · simp only [Option.some.injEq, Prod.mk.injEq] at h
      obtain ⟨rfl, rfl⟩ := h
      have hpt : sep <+: x :: (l ++ t) := hp.trans ⟨t, rfl⟩
      rw [if_pos hpt, ← List.cons_append, List.drop_append_of_le_length hp.length_le]
    · obtain ⟨⟨a', b'⟩, hc, hab⟩ := Option.map_eq_some_iff.mp h
      simp only [Prod.mk.injEq] at hab
      obtain ⟨rfl, rfl⟩ := hab
      -- `sep` fits in `l`, so it cannot start at `x` by reaching into `t`
      have hlen : sep.length ≤ (x :: l).length := by
        have := congrArg List.length (eq_of_cut_eq_some hc)
        simp only [List.length_append] at this
        simp only [List.length_cons]
        omega
      have hpt : ¬ sep <+: x :: (l ++ t) := fun hpt =>
        hp (List.prefix_of_prefix_length_le hpt ⟨t, rfl⟩ hlen)
      simp [hpt, cut_append_right t hc]

/-- The part before a cut does not contain the separator. -/
theorem not_infix_of_cut_eq_some {sep : List α} (hne : sep ≠ []) :
    ∀ {s a b : List α}, cut sep s = some (a, b) → ¬ sep <:+: a
  | [], a, b, h => by simp [cut, hne] at h
  | x :: l, a, b, h => by
    have hs := eq_of_cut_eq_some h
    simp only [cut] at h
    split_ifs at h with hp
    · simp only [Option.some.injEq, Prod.mk.injEq] at h
      obtain ⟨rfl, rfl⟩ := h
      simpa using hne
    · obtain ⟨⟨a', b'⟩, hc, hab⟩ := Option.map_eq_some_iff.mp h
      simp only [Prod.mk.injEq] at hab
      obtain ⟨rfl, rfl⟩ := hab
      rw [List.infix_cons_iff, not_or]
      refine ⟨fun hpa => hp ?_, not_infix_of_cut_eq_some hne hc⟩
      rw [hs, List.append_assoc]
      exact hpa.trans (List.prefix_append _ _)

/-- The last element completes a separator that was not there before it, with nothing behind. -/
theorem eq_nil_of_cut_concat {sep s a b : List α} {x : α} (hs : cut sep s = none)
    (h : cut sep (s ++ [x]) = some (a, b)) : b = [] := by
  have heq := eq_of_cut_eq_some h
  rcases List.eq_nil_or_concat' b with hb | ⟨b', y, rfl⟩
  · exact hb
  · rw [← List.append_assoc] at heq
    have hs' : s = a ++ sep ++ b' := (List.append_inj' heq rfl).1
    exact absurd ⟨a, b', hs'.symm⟩ (cut_eq_none_iff.mp hs)

/-- A part without the first element of the separator is passed over. -/
theorem cut_append_of_not_mem {x : α} (sep s : List α) :
    ∀ {a : List α}, x ∉ a →
      cut (x :: sep) (a ++ s) = (cut (x :: sep) s).map fun p => (a ++ p.1, p.2)
  | [], _ => by simp
  | y :: a, h => by
    obtain ⟨hy, ha⟩ := not_or.mp (mt List.mem_cons.mpr h)
    have hnp : ¬ x :: sep <+: y :: (a ++ s) := fun hp => hy (List.cons_prefix_cons.mp hp).1
    simp [cut, hnp, cut_append_of_not_mem sep s ha, Function.comp_def]

/-- A separator at the front. -/
theorem cut_sep_append {sep : List α} (hne : sep ≠ []) (s : List α) :
    cut sep (sep ++ s) = some ([], s) := by
  obtain ⟨x, l, rfl⟩ := List.exists_cons_of_ne_nil hne
  simp [cut]

/-! ## Separators that do not overlap with themselves -/

/-- Behind a part that does not contain it, an unbordered separator is found at once.

**Proof sketch.** Induction on the part `a` before the separator. An occurrence that starts
inside `a` either ends inside `a`, which is excluded, or reaches into the separator behind
`a`, and then its end is a border. -/
theorem cut_append_of_not_infix {sep : List α} (hu : Unbordered sep) (hne : sep ≠ []) :
    ∀ {a : List α} (b : List α), ¬ sep <:+: a → cut sep (a ++ (sep ++ b)) = some (a, b)
  | [], b, _ => by
    obtain ⟨x, l, rfl⟩ := List.exists_cons_of_ne_nil hne
    simp [cut]
  | x :: a, b, h => by
    rw [List.infix_cons_iff, not_or] at h
    have hnp : ¬ sep <+: x :: (a ++ (sep ++ b)) := by
      intro hp
      rcases Nat.lt_or_ge (x :: a).length sep.length with hlt | hge
      · -- the occurrence reaches into the separator behind `a`
        have hpre : x :: a <+: sep :=
          List.prefix_of_prefix_length_le ⟨sep ++ b, by simp⟩ hp hlt.le
        obtain ⟨v, hv⟩ := hpre
        have hvne : v ≠ [] := by
          rintro rfl
          rw [← hv] at hlt
          simp at hlt
        have hvp : v <+: sep := by
          rw [← hv, List.cons_append, List.cons_prefix_cons] at hp
          have hp' : v <+: sep ++ b := by
            rw [← hv]
            simpa using hp.2
          exact List.prefix_of_prefix_length_le hp' (List.prefix_append _ _)
            (List.IsSuffix.length_le ⟨x :: a, hv⟩)
        have hlen := congrArg List.length hv
        rw [hu v hvne hvp ⟨x :: a, hv⟩] at hlen
        simp only [List.cons_append, List.length_cons, List.length_append] at hlen
        omega
      · exact h.1 (List.prefix_of_prefix_length_le hp ⟨sep ++ b, by simp⟩ hge)
    simp [cut, hnp, cut_append_of_not_infix hu hne b h.2]

/-- For an unbordered separator the cut is the unique decomposition whose first part does not
contain the separator. -/
theorem cut_eq_some_iff {sep : List α} (hu : Unbordered sep) (hne : sep ≠ [])
    {s a b : List α} : cut sep s = some (a, b) ↔ s = a ++ (sep ++ b) ∧ ¬ sep <:+: a := by
  constructor
  · intro h
    exact ⟨by rw [eq_of_cut_eq_some h, List.append_assoc], not_infix_of_cut_eq_some hne h⟩
  · rintro ⟨rfl, h⟩
    exact cut_append_of_not_infix hu hne b h

/-- There is no cut at an element exactly when it is not in the list. -/
theorem cut_singleton_eq_none_iff {x : α} {s : List α} : cut [x] s = none ↔ x ∉ s := by
  rw [cut_eq_none_iff, List.singleton_infix_iff]

/-- A cut at an element is at its first occurrence. -/
theorem cut_singleton_eq_some_iff {x : α} {s a b : List α} :
    cut [x] s = some (a, b) ↔ s = a ++ x :: b ∧ x ∉ a := by
  rw [cut_eq_some_iff (unbordered_singleton x) (List.cons_ne_nil x []), List.singleton_infix_iff,
    List.singleton_append]

/-- The parts of a cut at an element, as the longest part without it and what follows. -/
theorem cut_singleton_of_mem {x : α} {s : List α} (h : x ∈ s) :
    cut [x] s = some (s.takeWhile (· ≠ x), (s.dropWhile (· ≠ x)).drop 1) := by
  cases hc : cut [x] s with
  | none => exact absurd h (cut_singleton_eq_none_iff.mp hc)
  | some p =>
    obtain ⟨a, b⟩ := p
    obtain ⟨rfl, ha⟩ := cut_singleton_eq_some_iff.mp hc
    have hpos : ∀ y ∈ a, decide (y ≠ x) = true := by
      intro y hy
      simpa using ne_of_mem_of_not_mem hy ha
    rw [List.takeWhile_append_of_pos hpos, List.dropWhile_append_of_pos hpos]
    simp

end LouisNet.Lib
