import Mathlib.Order.Defs.LinearOrder
import Mathlib.Data.Int.Init
import Mathlib.Data.Nat.Init
import Mathlib.Tactic

set_option relaxedAutoImplicit false
set_option autoImplicit false

/-!
# The C library types and functions

The arithmetic of a 64-bit `size_t` and of signed 64-bit numbers, byte strings with the order of
`memcmp`, the character classes of the C locale, decimal numerals, and the two conversions of the
C++ standard library between numbers and strings: `std::to_string` and `std::stoul` on a 64-bit
`unsigned long`.

## Main definitions

* `LouisNet.Lib.addSize`, `LouisNet.Lib.subSize` — sums and differences modulo `2 ^ 64`.
* `LouisNet.Lib.Bytes`, `LouisNet.Lib.ascii` — byte strings, and those written as text.
* `LouisNet.Lib.tolower`, `LouisNet.Lib.isspace`, `LouisNet.Lib.isdigit` — the C locale.
* `LouisNet.Lib.decimal`, `LouisNet.Lib.ofDecimal` — decimal numerals and their values.
* `LouisNet.Lib.toString`, `LouisNet.Lib.stoul` — the two conversions.

## Main results

* `LouisNet.Lib.ofDecimal_decimal` — a numeral denotes the number it was written from.
* `LouisNet.Lib.stoul_lt` — what `stoul` returns is an `unsigned long`.
* `LouisNet.Lib.stoul_ne_none_iff`, `LouisNet.Lib.stoul_strict_iff` — what it accepts, and when it
  accepts nothing but numerals.
-/

namespace LouisNet.Lib

/-! ## Unsigned arithmetic -/

/-- The sum of two `size_t` values. -/
def addSize (a b : ℕ) : ℕ := (a + b) % 2 ^ 64

/-- The difference of two `size_t` values. -/
def subSize (a b : ℕ) : ℕ := (a + (2 ^ 64 - b % 2 ^ 64)) % 2 ^ 64

/-- A sum below `2 ^ 64` does not wrap. -/
theorem addSize_eq {a b : ℕ} (h : a + b < 2 ^ 64) : addSize a b = a + b := Nat.mod_eq_of_lt h

/-- A difference of two values in order does not wrap. -/
theorem subSize_eq {a b : ℕ} (hb : b ≤ a) (ha : a < 2 ^ 64) : subSize a b = a - b := by
  unfold subSize
  omega

/-- What is left of a difference after a part of it has been added to the subtrahend. -/
theorem subSize_addSize {a b c : ℕ} (h : c ≤ subSize a b) :
    subSize a (addSize b c) = subSize a b - c := by
  unfold subSize addSize at *
  omega

/-! ## Signed arithmetic -/

/-- A sum of two signed numbers that are not negative does not wrap below `2 ^ 63`. -/
theorem toInt_add_of_lt {a b : Int64} (ha : 0 ≤ a.toInt) (hb : 0 ≤ b.toInt)
    (h : a.toInt + b.toInt < 2 ^ 63) : (a + b).toInt = a.toInt + b.toInt := by
  rw [Int64.toInt_add]
  exact Int.bmod_eq_of_le (by omega) (by omega)

/-- From `2 ^ 63` on it wraps once, and is negative. -/
theorem toInt_add_of_le {a b : Int64} (h : 2 ^ 63 ≤ a.toInt + b.toInt) :
    (a + b).toInt = a.toInt + b.toInt - 2 ^ 64 := by
  have ha := a.toInt_lt
  have hb := b.toInt_lt
  rw [Int64.toInt_add, ← Int.sub_bmod_right]
  exact Int.bmod_eq_of_le (by omega) (by omega)

/-- A difference in the signed range does not wrap. -/
theorem toInt_sub_of_mem {a b : Int64} (hle : -2 ^ 63 ≤ a.toInt - b.toInt)
    (hlt : a.toInt - b.toInt < 2 ^ 63) : (a - b).toInt = a.toInt - b.toInt := by
  rw [Int64.toInt_sub]
  exact Int.bmod_eq_of_le (by omega) (by omega)

/-- A number that wraps, if at all, at the upper end only gets smaller. -/
theorem bmod_le_self {x : ℤ} (h : -2 ^ 63 ≤ x) : x.bmod (2 ^ 64) ≤ x := by
  rcases lt_or_ge x (2 ^ 63) with hlt | hge
  · exact (Int.bmod_eq_of_le (by omega) (by omega)).le
  · have hbound : x.bmod (2 ^ 64) < (2 ^ 64 + 1) / 2 := Int.bmod_lt (by norm_num)
    omega

/-! ## Byte strings and character classes -/

/-- A string of bytes. -/
abbrev Bytes : Type := List UInt8

/-- Bytes are compared as unsigned characters, as `memcmp` does. -/
instance instLinearOrderUInt8 : LinearOrder UInt8 where
  le_refl := UInt8.le_refl
  le_trans _ _ _ := UInt8.le_trans
  le_antisymm _ _ := UInt8.le_antisymm
  le_total := UInt8.le_total
  toDecidableLE := inferInstance
  lt_iff_le_not_ge a b := by
    simp only [UInt8.lt_iff_toNat_lt, UInt8.le_iff_toNat_le]
    omega

/-- The bytes of a text of ASCII characters. -/
def ascii (s : String) : Bytes := s.toList.map fun c => c.toNat.toUInt8

/-- `std::tolower` in the C locale. -/
def tolower (c : UInt8) : UInt8 := if 65 ≤ c ∧ c ≤ 90 then c + 32 else c

/-- `std::isspace` in the C locale: space, `\t`, `\n`, `\v`, `\f`, `\r`. -/
def isspace (c : UInt8) : Bool := c = 32 ∨ (9 ≤ c ∧ c ≤ 13)

/-- `std::isdigit`. -/
def isdigit (c : UInt8) : Bool := 48 ≤ c ∧ c ≤ 57

/-! ## Decimal numerals -/

/-- The numeral of a natural number. -/
def decimal (n : ℕ) : Bytes := (Nat.toDigits 10 n).map fun c => c.toNat.toUInt8

/-- The number a string of decimal digits denotes. -/
def ofDecimal (s : Bytes) : ℕ := s.foldl (fun n c => 10 * n + (c.toNat - 48)) 0

/-- The character of a digit, as a byte. -/
private theorem digitChar_toUInt8 :
    ∀ d < 10, (Nat.digitChar d).toNat.toUInt8.toNat - 48 = d ∧
      isdigit (Nat.digitChar d).toNat.toUInt8 = true := by decide

/-- A numeral is its last digit, behind the numeral of the tens. -/
theorem decimal_eq_ite (n : ℕ) :
    decimal n = if n < 10 then [(Nat.digitChar n).toNat.toUInt8]
      else decimal (n / 10) ++ [(Nat.digitChar (n % 10)).toNat.toUInt8] := by
  unfold decimal
  rw [Nat.toDigits_eq_if (by decide)]
  split_ifs <;> simp

/-- A numeral denotes the number it was written from. -/
theorem ofDecimal_decimal (n : ℕ) : ofDecimal (decimal n) = n := by
  induction n using Nat.strong_induction_on with
  | _ n ih =>
    rw [decimal_eq_ite]
    split_ifs with h
    · simpa [ofDecimal] using (digitChar_toUInt8 n h).1
    · have hd := (digitChar_toUInt8 (n % 10) (Nat.mod_lt _ (by decide))).1
      have hi := ih (n / 10) (by omega)
      simp only [ofDecimal] at hi
      simp only [ofDecimal, List.foldl_append, List.foldl_cons, List.foldl_nil, hi, hd]
      omega

/-- A numeral consists of digits. -/
theorem isdigit_of_mem_decimal (n : ℕ) : ∀ c ∈ decimal n, isdigit c = true := by
  induction n using Nat.strong_induction_on with
  | _ n ih =>
    rw [decimal_eq_ite]
    split_ifs with h
    · simpa using (digitChar_toUInt8 n h).2
    · intro c hc
      rcases List.mem_append.mp hc with hc | hc
      · exact ih (n / 10) (by omega) c hc
      · obtain rfl := List.mem_singleton.mp hc
        exact (digitChar_toUInt8 (n % 10) (Nat.mod_lt _ (by decide))).2

/-- A numeral is not empty. -/
theorem decimal_ne_nil (n : ℕ) : decimal n ≠ [] := by
  rw [decimal_eq_ite]
  split_ifs <;> simp

/-- `std::to_string` of an `int`. -/
def toString (n : ℤ) : Bytes := if n < 0 then 45 :: decimal n.natAbs else decimal n.natAbs

/-- The numerals of `toString` consist of digits and the minus sign. -/
theorem mem_toString {n : ℤ} {c : UInt8} (h : c ∈ toString n) : c = 45 ∨ isdigit c = true := by
  unfold toString at h
  split_ifs at h
  · exact (List.mem_cons.mp h).imp_right (isdigit_of_mem_decimal _ c)
  · exact .inr (isdigit_of_mem_decimal _ c h)

/-- The integer that a numeral with an optional minus sign denotes. -/
def ofNumeral : Bytes → ℤ
  | 45 :: t => -(ofDecimal t : ℤ)
  | t => ofDecimal t

/-- A numeral of `toString` denotes the integer it was written from. -/
theorem ofNumeral_toString (n : ℤ) : ofNumeral (toString n) = n := by
  unfold toString
  split_ifs with hn
  · show -(ofDecimal (decimal n.natAbs) : ℤ) = n
    rw [ofDecimal_decimal]
    omega
  · obtain ⟨d, ds, hds⟩ := List.exists_cons_of_ne_nil (decimal_ne_nil n.natAbs)
    have hd := isdigit_of_mem_decimal n.natAbs d (by rw [hds]; exact List.mem_cons_self)
    have hof : ofNumeral (decimal n.natAbs) = ofDecimal (decimal n.natAbs) := by
      rw [hds]
      unfold ofNumeral
      split
      · rename_i heq
        rw [(List.cons.inj heq).1] at hd
        exact absurd hd (by decide)
      · rfl
    rw [hof, ofDecimal_decimal]
    omega

/-! ## Reading an `unsigned long` -/

/-- The leading decimal digits as an `unsigned long`; `none` without digits
(`invalid_argument`) and from `2 ^ 64` on (`out_of_range`). -/
def readDigits (s : Bytes) : Option ℕ :=
  let digits := s.takeWhile isdigit
  if digits = [] ∨ 2 ^ 64 ≤ ofDecimal digits then none else some (ofDecimal digits)

/-- `std::stoul` in base ten on a 64-bit `unsigned long`; `none` stands for an exception.
White space and one sign are skipped, digits are read as far as they go, and a minus sign
negates the value modulo `2 ^ 64`. -/
def stoul (s : Bytes) : Option ℕ :=
  match s.dropWhile isspace with
  | 45 :: t => (readDigits t).map fun n => (2 ^ 64 - n) % 2 ^ 64
  | 43 :: t => readDigits t
  | t => readDigits t

/-- Digits read as an `unsigned long` are one. -/
theorem readDigits_lt {s : Bytes} {n : ℕ} (h : readDigits s = some n) : n < 2 ^ 64 := by
  unfold readDigits at h
  dsimp only at h
  split_ifs at h with hd
  obtain rfl := Option.some.inj h
  exact Nat.lt_of_not_le fun hle => hd (.inr hle)

/-- What `stoul` returns is an `unsigned long`. -/
theorem stoul_lt {s : Bytes} {n : ℕ} (h : stoul s = some n) : n < 2 ^ 64 := by
  unfold stoul at h
  split at h
  · obtain ⟨m, -, rfl⟩ := Option.map_eq_some_iff.mp h
    exact Nat.mod_lt _ (by decide)
  · exact readDigits_lt h
  · exact readDigits_lt h

/-- A character that ends a numeral, or the end of the string. -/
def EndsNumeral (rest : Bytes) : Prop := ∀ c ∈ rest.head?, isdigit c = false

/-- What `stoul` reads a number from: white space, at most one sign, digits for an `unsigned long`,
and anything that does not go on with a digit. -/
structure Readable (s white sign digits rest : Bytes) : Prop where
  eq_append : s = white ++ (sign ++ (digits ++ rest))
  white_isspace : ∀ c ∈ white, isspace c = true
  sign_mem : sign = [] ∨ sign = [43] ∨ sign = [45]
  digits_ne_nil : digits ≠ []
  digits_isdigit : ∀ c ∈ digits, isdigit c = true
  rest_ends : EndsNumeral rest
  lt : ofDecimal digits < 2 ^ 64

/-- Digits are not white space, and not signs. -/
theorem not_isspace_of_isdigit {c : UInt8} (h : isdigit c = true) :
    isspace c = false ∧ c ≠ 43 ∧ c ≠ 45 := by
  simp only [isdigit, isspace, decide_eq_true_eq, decide_eq_false_iff_not, UInt8.le_iff_toNat_le,
    ← UInt8.toNat_inj, ne_eq] at h ⊢
  simp only [UInt8.reduceToNat] at h ⊢
  omega

/-- The digits in front of something else are read as far as they go. -/
theorem takeWhile_isdigit {digits rest : Bytes} (hd : ∀ c ∈ digits, isdigit c = true)
    (hr : EndsNumeral rest) : (digits ++ rest).takeWhile isdigit = digits := by
  rw [List.takeWhile_append_of_pos hd]
  cases rest with
  | nil => simp
  | cons c rest => simp [hr c rfl]

/-- Reading digits succeeds exactly on digits for an `unsigned long`. -/
theorem readDigits_eq_some_iff {s : Bytes} {n : ℕ} :
    readDigits s = some n ↔ ∃ digits rest, s = digits ++ rest ∧ digits ≠ [] ∧
      (∀ c ∈ digits, isdigit c = true) ∧ EndsNumeral rest ∧ ofDecimal digits < 2 ^ 64 ∧
      n = ofDecimal digits := by
  constructor
  · intro h
    unfold readDigits at h
    dsimp only at h
    split_ifs at h with hd
    obtain ⟨hne, hlt⟩ := not_or.mp hd
    refine ⟨s.takeWhile isdigit, s.dropWhile isdigit, List.takeWhile_append_dropWhile.symm, hne,
      List.all_eq_true.mp List.all_takeWhile, ?_, Nat.lt_of_not_le hlt, (Option.some.inj h).symm⟩
    intro c hc
    have := List.head?_dropWhile_not isdigit s
    rw [hc] at this
    simpa using this
  · rintro ⟨digits, rest, rfl, hne, hd, hr, hlt, rfl⟩
    unfold readDigits
    rw [takeWhile_isdigit hd hr]
    exact if_neg (not_or.mpr ⟨hne, Nat.not_le_of_lt hlt⟩)

/-- What `stoul` reads from a readable string. -/
theorem Readable.stoul_eq {s white sign digits rest : Bytes}
    (h : Readable s white sign digits rest) :
    stoul s = some (if sign = [45] then (2 ^ 64 - ofDecimal digits) % 2 ^ 64
      else ofDecimal digits) := by
  obtain ⟨d, ds, hds⟩ := List.exists_cons_of_ne_nil h.digits_ne_nil
  obtain ⟨hspace, hplus, hminus⟩ := not_isspace_of_isdigit (h.digits_isdigit d (by simp [hds]))
  have hread : readDigits (digits ++ rest) = some (ofDecimal digits) :=
    readDigits_eq_some_iff.mpr ⟨digits, rest, rfl, h.digits_ne_nil, h.digits_isdigit,
      h.rest_ends, h.lt, rfl⟩
  have hdrop : s.dropWhile isspace = sign ++ (digits ++ rest) := by
    rw [h.eq_append, List.dropWhile_append_of_pos h.white_isspace]
    rcases h.sign_mem with rfl | rfl | rfl
    · simp [hds, hspace]
    · simp [isspace]
    · simp [isspace]
  unfold stoul
  rw [hdrop]
  rcases h.sign_mem with rfl | rfl | rfl
  · split
    · simp_all
    · simp_all
    · rw [List.nil_append, hread]
      simp
  · simp [hread]
  · simp [hread]

/-- **What `stoul` accepts.** -/
theorem stoul_ne_none_iff {s : Bytes} :
    stoul s ≠ none ↔ ∃ white sign digits rest, Readable s white sign digits rest := by
  constructor
  · intro h
    have hsome : ∀ sign t, (sign = [] ∨ sign = [43] ∨ sign = [45]) →
        s.dropWhile isspace = sign ++ t → readDigits t ≠ none →
          ∃ white sign digits rest, Readable s white sign digits rest := by
      intro sign t hsign ht hn
      obtain ⟨n, hn⟩ := Option.ne_none_iff_exists'.mp hn
      obtain ⟨digits, rest, rfl, hne, hd, hr, hlt, -⟩ := readDigits_eq_some_iff.mp hn
      refine ⟨s.takeWhile isspace, sign, digits, rest, ?_, List.all_eq_true.mp List.all_takeWhile,
        hsign, hne, hd, hr, hlt⟩
      rw [← ht, List.takeWhile_append_dropWhile]
    unfold stoul at h
    split at h
    · rename_i t ht
      exact hsome [45] t (by simp) ht fun hnone => h (by rw [hnone]; rfl)
    · rename_i t ht
      exact hsome [43] t (by simp) ht h
    · exact hsome [] _ (by simp) rfl h
  · rintro ⟨white, sign, digits, rest, h⟩
    simp [h.stoul_eq]

/-- A numeral of an `unsigned long`: digits and nothing else. -/
structure IsNumeral (s : Bytes) : Prop where
  ne_nil : s ≠ []
  isdigit : ∀ c ∈ s, isdigit c = true
  lt : ofDecimal s < 2 ^ 64

/-- A numeral is readable, and nothing stands around its digits. -/
theorem IsNumeral.readable {s : Bytes} (h : IsNumeral s) : Readable s [] [] s [] where
  eq_append := by simp
  white_isspace := by simp
  sign_mem := .inl rfl
  digits_ne_nil := h.ne_nil
  digits_isdigit := h.isdigit
  rest_ends := by simp [EndsNumeral]
  lt := h.lt

/-- Nothing stands around the digits of a numeral. -/
theorem Readable.eq_nil_of_isNumeral {s white sign digits rest : Bytes}
    (h : Readable s white sign digits rest) (hs : IsNumeral s) :
    white = [] ∧ sign = [] ∧ rest = [] := by
  have hmem : ∀ c, c ∈ white ∨ c ∈ sign ∨ c ∈ rest → Lib.isdigit c = true := by
    intro c hc
    apply hs.isdigit
    rw [h.eq_append]
    simp only [List.mem_append]
    tauto
  refine ⟨?_, ?_, ?_⟩
  · rw [List.eq_nil_iff_forall_not_mem]
    intro c hc
    have hspace := (not_isspace_of_isdigit (hmem c (.inl hc))).1
    rw [h.white_isspace c hc] at hspace
    cases hspace
  · rcases h.sign_mem with rfl | rfl | rfl
    · rfl
    · exact absurd (hmem 43 (by simp)) (by decide)
    · exact absurd (hmem 45 (by simp)) (by decide)
  · cases rest with
    | nil => rfl
    | cons c rest =>
      have hc := h.rest_ends c rfl
      rw [hmem c (by simp)] at hc
      cases hc

/-- **When `stoul` accepts numerals only**: on every string but those with digits it can read and
something else around them. -/
theorem stoul_strict_iff {s : Bytes} :
    (stoul s ≠ none → IsNumeral s) ↔ ¬ ∃ white sign digits rest,
      Readable s white sign digits rest ∧ (white ≠ [] ∨ sign ≠ [] ∨ rest ≠ []) := by
  constructor
  · rintro h ⟨white, sign, digits, rest, hread, hne⟩
    obtain ⟨hw, hs, hr⟩ :=
      hread.eq_nil_of_isNumeral (h (stoul_ne_none_iff.mpr ⟨_, _, _, _, hread⟩))
    simp [hw, hs, hr] at hne
  · intro h hs
    obtain ⟨white, sign, digits, rest, hread⟩ := stoul_ne_none_iff.mp hs
    simp only [not_exists, not_and, not_or, not_not] at h
    obtain ⟨rfl, rfl, rfl⟩ := h white sign digits rest hread
    obtain rfl : s = digits := by simpa using hread.eq_append
    exact ⟨hread.digits_ne_nil, hread.digits_isdigit, hread.lt⟩

example : stoul (ascii " +12x") = some 12 := by decide

example : stoul (ascii "-1") = some (2 ^ 64 - 1) := by decide

end LouisNet.Lib
