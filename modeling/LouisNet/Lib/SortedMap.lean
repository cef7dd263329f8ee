import Mathlib

set_option relaxedAutoImplicit false
set_option autoImplicit false

/-!
# Finite maps as sorted lists of entries

A finite map over a linearly ordered key type, stored as the list of its entries in strictly
increasing key order. The order is carried as a field, so every map has one representation,
iteration visits the keys in order, and insertion replaces an entry with the same key.

## Main definitions

* `LouisNet.Lib.SortedMap` — the type of maps.
* `LouisNet.Lib.SortedMap.find?`, `LouisNet.Lib.SortedMap.insert`,
  `LouisNet.Lib.SortedMap.emplace`, `LouisNet.Lib.SortedMap.erase`,
  `LouisNet.Lib.SortedMap.filter` — lookup, insertion with and without replacement, removal.
* `LouisNet.Lib.SortedMap.size` — the number of entries.

## Main results

* `LouisNet.Lib.SortedMap.find?_insert` — the last value inserted for a key is the one found.
* `LouisNet.Lib.SortedMap.find?_erase` — what is found after a removal.
* `LouisNet.Lib.SortedMap.find?_emplace`, `LouisNet.Lib.SortedMap.find?_filter` — the same for
  the other operations.
* `LouisNet.Lib.SortedMap.card_keys`, `LouisNet.Lib.SortedMap.size_erase` — the number of entries
  is that of the keys, and a removal takes one away.
* `LouisNet.Lib.SortedMap.mem_entries_insert` — what insertion can leave in the map.
* `LouisNet.Lib.SortedMap.head?_entries_eq_some_iff` — the first entry has the least key.
-/

namespace LouisNet.Lib

/-- A finite map, stored as its entries in strictly increasing key order. -/
structure SortedMap (κ ν : Type*) [LinearOrder κ] where
  /-- The entries, in the order an iterator visits them. -/
  entries : List (κ × ν)
  /-- Keys increase strictly. -/
  sorted : entries.Pairwise fun a b => a.1 < b.1
  deriving DecidableEq

namespace SortedMap

variable {κ ν : Type*} [LinearOrder κ]

/-- The map without entries. -/
def empty : SortedMap κ ν := ⟨[], List.Pairwise.nil⟩

/-- The value stored for a key. -/
def find? (m : SortedMap κ ν) (k : κ) : Option ν := m.entries.lookup k

/-- Put an entry at its place in a sorted list, replacing an entry with the same key. -/
def insertEntry (k : κ) (v : ν) : List (κ × ν) → List (κ × ν)
  | [] => [(k, v)]
  | e :: l =>
    if k < e.1 then (k, v) :: e :: l
    else if k = e.1 then (k, v) :: l
    else e :: insertEntry k v l

/-- Inserting an entry adds at most that entry to the list. -/
theorem mem_insertEntry {k : κ} {v : ν} {e : κ × ν} :
    ∀ {l : List (κ × ν)}, e ∈ insertEntry k v l → e = (k, v) ∨ e ∈ l
  | [], h => by simpa [insertEntry] using h
  | d :: l, h => by
    simp only [insertEntry] at h
    split_ifs at h
    · exact List.mem_cons.mp h
    · exact (List.mem_cons.mp h).imp_right (List.mem_cons_of_mem d)
    · rcases List.mem_cons.mp h with rfl | h
      · exact .inr List.mem_cons_self
      · exact (mem_insertEntry h).imp_right (List.mem_cons_of_mem d)

/-- An entry under another key stays in the list. -/
theorem mem_insertEntry_of_ne {k : κ} {v : ν} {e : κ × ν} (hk : e.1 ≠ k) :
    ∀ {l : List (κ × ν)}, e ∈ l → e ∈ insertEntry k v l
  | d :: l, h => by
    simp only [insertEntry]
    split_ifs with h₁ h₂
    · exact List.mem_cons_of_mem _ h
    · rcases List.mem_cons.mp h with rfl | h
      · exact absurd h₂.symm hk
      · exact List.mem_cons_of_mem _ h
    · rcases List.mem_cons.mp h with rfl | h
      · exact List.mem_cons_self
      · exact List.mem_cons_of_mem d (mem_insertEntry_of_ne hk h)

/-- Inserting keeps the entries in strictly increasing key order. -/
theorem pairwise_insertEntry (k : κ) (v : ν) :
    ∀ {l : List (κ × ν)}, (l.Pairwise fun a b => a.1 < b.1) →
      (insertEntry k v l).Pairwise fun a b => a.1 < b.1
  | [], _ => by simp [insertEntry]
  | d :: l, h => by
    obtain ⟨hd, hl⟩ := List.pairwise_cons.mp h
    simp only [insertEntry]
    split_ifs with h₁ h₂
    · refine List.pairwise_cons.mpr ⟨fun e he => ?_, h⟩
      rcases List.mem_cons.mp he with rfl | he
      · exact h₁
      · exact h₁.trans (hd e he)
    · exact List.pairwise_cons.mpr ⟨fun e he => h₂ ▸ hd e he, hl⟩
    · refine List.pairwise_cons.mpr ⟨fun e he => ?_, pairwise_insertEntry k v hl⟩
      rcases mem_insertEntry he with rfl | he
      · exact lt_of_le_of_ne (not_lt.mp h₁) (Ne.symm h₂)
      · exact hd e he

/-- Insert an entry, replacing the value stored for its key. -/
def insert (m : SortedMap κ ν) (k : κ) (v : ν) : SortedMap κ ν :=
  ⟨insertEntry k v m.entries, pairwise_insertEntry k v m.sorted⟩

@[simp] theorem find?_empty (k : κ) : (empty : SortedMap κ ν).find? k = none := rfl

/-- Lookup in a list of entries, by its first entry. -/
private theorem lookup_cons_eq_ite (k : κ) (e : κ × ν) (l : List (κ × ν)) :
    (e :: l).lookup k = if k = e.1 then some e.2 else l.lookup k := by
  by_cases h : k = e.1
  · simp [List.lookup, h]
  · have hb : (k == e.1) = false := by simpa using h
    simp [List.lookup, h, hb]

/-- Lookup in a sorted list after one insertion. -/
theorem lookup_insertEntry (k k' : κ) (v : ν) :
    ∀ l : List (κ × ν), (insertEntry k v l).lookup k' = if k' = k then some v else l.lookup k'
  | [] => by simp [insertEntry, lookup_cons_eq_ite]
  | d :: l => by
    simp only [insertEntry]
    split_ifs with h₁ h₂ h₃ h₄ h₅
    · simp [lookup_cons_eq_ite, h₂]
    · simp [lookup_cons_eq_ite, h₂]
    · simp [lookup_cons_eq_ite, h₄]
    · simp [lookup_cons_eq_ite, h₄, ← h₃]
    · simp [lookup_cons_eq_ite, lookup_insertEntry k k v l, h₅, h₃]
    · simp [lookup_cons_eq_ite, lookup_insertEntry k k' v l, h₅]

/-- The last value inserted for a key is the one found. -/
theorem find?_insert (m : SortedMap κ ν) (k k' : κ) (v : ν) :
    (m.insert k v).find? k' = if k' = k then some v else m.find? k' :=
  lookup_insertEntry k k' v m.entries

/-- Entries of a map after an insertion: the new one, and the old ones under other keys. -/
theorem mem_entries_insert {m : SortedMap κ ν} {k : κ} {v : ν} {e : κ × ν}
    (h : e ∈ (m.insert k v).entries) : e = (k, v) ∨ e ∈ m.entries := mem_insertEntry h

/-- An entry of a map is what its key finds. -/
theorem mem_entries_iff {m : SortedMap κ ν} {k : κ} {v : ν} :
    (k, v) ∈ m.entries ↔ m.find? k = some v := by
  have key : ∀ l : List (κ × ν), (l.Pairwise fun a b => a.1 < b.1) →
      ((k, v) ∈ l ↔ l.lookup k = some v) := by
    intro l
    induction l with
    | nil => simp
    | cons e l ih =>
      intro hsorted
      obtain ⟨he, hl⟩ := List.pairwise_cons.mp hsorted
      rw [lookup_cons_eq_ite, List.mem_cons]
      split_ifs with hk
      · subst hk
        constructor
        · rintro (heq | hmem)
          · rw [← congrArg Prod.snd heq]
          · exact absurd (he _ hmem) (lt_irrefl _)
        · intro hv
          exact .inl (Prod.ext rfl (Option.some.inj hv).symm)
      · rw [← ih hl]
        constructor
        · rintro (rfl | hmem)
          · exact absurd rfl hk
          · exact hmem
        · exact .inr
  exact key m.entries m.sorted

/-- The map of the given entries; of the entries with one key the last counts. -/
def ofEntries (l : List (κ × ν)) : SortedMap κ ν := l.foldl (fun m e => m.insert e.1 e.2) empty

/-- A key above all others goes to the end. -/
theorem insertEntry_concat {k : κ} {v : ν} :
    ∀ {l : List (κ × ν)}, (∀ e ∈ l, e.1 < k) → insertEntry k v l = l ++ [(k, v)]
  | [], _ => rfl
  | d :: l, h => by
    have hd := h d List.mem_cons_self
    rw [insertEntry, if_neg (not_lt_of_gt hd), if_neg (ne_of_gt hd),
      insertEntry_concat fun e he => h e (List.mem_cons_of_mem d he), List.cons_append]

/-- Sorted entries are the entries of their map. -/
theorem entries_ofEntries {l : List (κ × ν)} (h : l.Pairwise fun a b => a.1 < b.1) :
    (ofEntries l).entries = l := by
  induction l using List.reverseRecOn with
  | nil => rfl
  | append_singleton l e ih =>
    obtain ⟨hl, -, hlast⟩ := List.pairwise_append.mp h
    have hfold : ofEntries (l ++ [e]) = (ofEntries l).insert e.1 e.2 := by
      simp [ofEntries, List.foldl_append]
    rw [hfold]
    show insertEntry e.1 e.2 (ofEntries l).entries = l ++ [e]
    rw [ih hl, insertEntry_concat fun d hd => hlast d hd e List.mem_cons_self]

/-- A map is the map of its entries. -/
theorem ofEntries_entries (m : SortedMap κ ν) : ofEntries m.entries = m := by
  have := entries_ofEntries m.sorted
  cases h : ofEntries m.entries
  cases m
  simp_all

/-- The first entry is the one with the least key. -/
theorem head?_entries_eq_some_iff {m : SortedMap κ ν} {e : κ × ν} :
    m.entries.head? = some e ↔ e ∈ m.entries ∧ ∀ d ∈ m.entries, e.1 ≤ d.1 := by
  have hsorted := m.sorted
  cases hm : m.entries with
  | nil => simp
  | cons a l =>
    rw [hm, List.pairwise_cons] at hsorted
    rw [List.head?_cons, Option.some_inj]
    constructor
    · rintro rfl
      refine ⟨List.mem_cons_self, fun d hd => ?_⟩
      rcases List.mem_cons.mp hd with rfl | hd
      · exact le_rfl
      · exact (hsorted.1 d hd).le
    · rintro ⟨he, hle⟩
      rcases List.mem_cons.mp he with rfl | he
      · rfl
      · exact absurd (hsorted.1 e he) (not_lt.mpr (hle a List.mem_cons_self))

/-- Remove the entry stored for a key. -/
def erase (m : SortedMap κ ν) (k : κ) : SortedMap κ ν :=
  ⟨m.entries.filter fun e => e.1 ≠ k, m.sorted.filter _⟩

/-- A key that was erased finds nothing, and other keys find what they found. -/
theorem find?_erase (m : SortedMap κ ν) (k k' : κ) :
    (m.erase k).find? k' = if k' = k then none else m.find? k' := by
  apply Option.ext
  intro v
  rw [← mem_entries_iff]
  split_ifs with hk
  · simp [erase, hk]
  · simp [erase, hk, ← mem_entries_iff]

/-- Keys that were erased one after another find nothing. -/
theorem find?_foldl_erase {α : Type*} (f : α → κ) (k : κ) (l : List α) (m : SortedMap κ ν) :
    (l.foldl (fun m a => m.erase (f a)) m).find? k = if k ∈ l.map f then none else m.find? k := by
  induction l generalizing m with
  | nil => simp
  | cons a l ih =>
    rw [List.foldl_cons, ih, find?_erase]
    by_cases h : k ∈ l.map f
    · simp [h]
    · simp [h, List.mem_cons]

/-- The number of entries. -/
def size (m : SortedMap κ ν) : ℕ := m.entries.length

/-- Insert an entry unless its key has one, as `emplace` does. -/
def emplace (m : SortedMap κ ν) (k : κ) (v : ν) : SortedMap κ ν :=
  if m.find? k = none then m.insert k v else m

/-- The first value emplaced for a key is the one found. -/
theorem find?_emplace (m : SortedMap κ ν) (k k' : κ) (v : ν) :
    (m.emplace k v).find? k' = if k' = k ∧ m.find? k = none then some v else m.find? k' := by
  unfold emplace
  split_ifs with hk h h
  · rw [find?_insert, if_pos h.1]
  · rw [find?_insert, if_neg fun heq => h ⟨heq, hk⟩]
  · exact absurd h.2 hk
  · rfl

/-- A map to the one-point type is a set of keys. -/
theorem find?_emplace_unit (m : SortedMap κ Unit) (k k' : κ) :
    (m.emplace k ()).find? k' = some () ↔ k' = k ∨ m.find? k' = some () := by
  rw [find?_emplace]
  split_ifs with h
  · simp [h.1]
  · refine ⟨.inr, ?_⟩
    rintro (rfl | hk)
    · obtain ⟨_, hv⟩ := Option.ne_none_iff_exists'.mp fun hk => h ⟨rfl, hk⟩
      exact hv
    · exact hk

/-- The entries whose keys satisfy a condition. -/
def filter (m : SortedMap κ ν) (p : κ → Bool) : SortedMap κ ν :=
  ⟨m.entries.filter fun e => p e.1, m.sorted.filter _⟩

/-- Keys that satisfy the condition find what they found. -/
theorem find?_filter (m : SortedMap κ ν) (p : κ → Bool) (k : κ) :
    (m.filter p).find? k = if p k then m.find? k else none := by
  apply Option.ext
  intro v
  rw [← mem_entries_iff]
  by_cases hk : p k = true
  · simp [filter, hk, ← mem_entries_iff]
  · simp [filter, hk]

/-- The keys of a map. -/
def keys (m : SortedMap κ ν) : Finset κ := (m.entries.map Prod.fst).toFinset

/-- A key is in a map if it finds something. -/
theorem mem_keys {m : SortedMap κ ν} {k : κ} : k ∈ m.keys ↔ ∃ v, m.find? k = some v := by
  simp [keys, ← mem_entries_iff]

/-- A map has as many keys as entries. -/
theorem card_keys (m : SortedMap κ ν) : m.keys.card = m.size := by
  have hnodup : (m.entries.map Prod.fst).Nodup :=
    List.pairwise_map.mpr (m.sorted.imp fun hlt => ne_of_lt hlt)
  rw [keys, List.toFinset_card_of_nodup hnodup, List.length_map, size]

/-- Removing a key that is there leaves one entry less. -/
theorem size_erase {m : SortedMap κ ν} {k : κ} {v : ν} (h : m.find? k = some v) :
    (m.erase k).size + 1 = m.size := by
  have hkeys : (m.erase k).keys = m.keys.erase k := by
    ext k'
    rw [Finset.mem_erase, mem_keys, mem_keys]
    by_cases hk : k' = k
    · simp [find?_erase, hk]
    · simp [find?_erase, hk]
  rw [← card_keys, hkeys, ← card_keys, Finset.card_erase_add_one (mem_keys.mpr ⟨v, h⟩)]

end SortedMap

end LouisNet.Lib
