/-
**Decimal numerals.**

A text of ASCII digits has a value, read from the left; a number has its digits, without zeros in
front of them.  Reading the digits of a number gives it back, and an integer is the text of its
absolute value with a minus in front of it if it is negative.

* `Decimal.isDigit` — the characters `0` to `9`;
* `Decimal.valueFrom`, `Decimal.value` — the value of a text, behind what was read before;
* `Decimal.exists_split`, `Decimal.split_unique` — the digits in front of a text;
* `Decimal.digits` — the text of a number, with `Decimal.value_digits` and
  `Decimal.length_digits_le_iff`;
* `Decimal.numeral` — the text of an integer.
-/

import Mathlib.Algebra.Group.Nat.Defs
import Mathlib.Data.List.Basic
import Mathlib.Data.Int.Notation
import Mathlib.Data.Nat.Notation
import Mathlib.Tactic.Common

set_option relaxedAutoImplicit false
set_option autoImplicit false

namespace Decimal

/-! ### Digits -/

/-- A digit. -/
def isDigit (c : UInt8) : Bool := 48 ≤ c && c ≤ 57 -- '0' to '9'

theorem isDigit_iff {c : UInt8} : isDigit c ↔ 48 ≤ c.toNat ∧ c.toNat ≤ 57 := by
  rw [isDigit, Bool.and_eq_true, decide_eq_true_iff, decide_eq_true_iff, UInt8.le_iff_toNat_le,
    UInt8.le_iff_toNat_le]
  rfl

/-- A number with one more digit behind it. -/
def push (n : ℕ) (c : UInt8) : ℕ := 10 * n + (c.toNat - 48)

/-- The value of a text of digits, behind a number that has been read. -/
def valueFrom (n : ℕ) (cs : List UInt8) : ℕ := cs.foldl push n

/-- The value of a text of digits. -/
def value (cs : List UInt8) : ℕ := valueFrom 0 cs

@[simp] theorem valueFrom_nil (n : ℕ) : valueFrom n [] = n := List.foldl_nil

@[simp] theorem valueFrom_cons (n : ℕ) (c : UInt8) (cs : List UInt8) :
    valueFrom n (c :: cs) = valueFrom (push n c) cs := List.foldl_cons ..

/-- More digits do not make a number smaller. -/
theorem le_valueFrom (n : ℕ) (cs : List UInt8) : n ≤ valueFrom n cs := by
  induction cs generalizing n with
  | nil => exact Nat.le_of_eq (valueFrom_nil n).symm
  | cons c cs ih =>
      have hle : n ≤ push n c := by
        unfold push
        omega
      rw [valueFrom_cons]
      exact Nat.le_trans hle (ih (push n c))

/-- A text that does not begin with a digit. -/
def Stops (rest : List UInt8) : Prop := ∀ c ∈ rest.head?, isDigit c = false

/-- Every text is a text of digits and one that does not begin with a digit. -/
theorem exists_split (s : List UInt8) :
    ∃ g rest, s = g ++ rest ∧ (∀ c ∈ g, isDigit c) ∧ Stops rest := by
  induction s with
  | nil => exact ⟨[], [], rfl, fun c hc => absurd hc List.not_mem_nil, fun c hc => by cases hc⟩
  | cons c s ih =>
      by_cases hc : isDigit c
      · obtain ⟨g, rest, rfl, hg, hrest⟩ := ih
        refine ⟨c :: g, rest, rfl, fun d hd => ?_, hrest⟩
        rcases List.mem_cons.1 hd with rfl | hd
        · exact hc
        · exact hg d hd
      · refine ⟨[], c :: s, rfl, fun d hd => absurd hd List.not_mem_nil, fun d hd => ?_⟩
        cases hd
        exact Bool.eq_false_iff.2 hc

/-- The digits in front of a text are determined. -/
theorem split_unique {g g' rest rest' : List UInt8} (h : g ++ rest = g' ++ rest')
    (hg : ∀ c ∈ g, isDigit c) (hg' : ∀ c ∈ g', isDigit c) (hrest : Stops rest)
    (hrest' : Stops rest') : g = g' ∧ rest = rest' := by
  induction g generalizing g' with
  | nil =>
      cases g' with
      | nil => exact ⟨rfl, h⟩
      | cons d g' =>
          subst h
          have hd := hg' d List.mem_cons_self
          rw [hrest d rfl] at hd
          cases hd
  | cons c g ih =>
      cases g' with
      | nil =>
          have h' : rest' = c :: (g ++ rest) := h.symm
          subst h'
          have hc := hg c List.mem_cons_self
          rw [hrest' c rfl] at hc
          cases hc
      | cons d g' =>
          obtain ⟨rfl, htail⟩ := List.cons.inj h
          obtain ⟨rfl, hrest⟩ := ih htail (fun c hc => hg c (List.mem_cons_of_mem _ hc))
            fun c hc => hg' c (List.mem_cons_of_mem _ hc)
          exact ⟨rfl, hrest⟩

/-! ### The digits of a number -/

/-- A character of ASCII. -/
def ofChar (c : Char) : UInt8 := UInt8.ofNat c.toNat

/-- **The digits of a number.** -/
def digits (n : ℕ) : List UInt8 := (Nat.toDigits 10 n).map ofChar

theorem toNat_ofChar {c : Char} (hc : c.isDigit) : (ofChar c).toNat = c.toNat := by
  have hbounds := Char.isDigit_iff_toNat.1 hc
  have hlast : '9'.toNat = 57 := rfl
  rw [ofChar, UInt8.toNat_ofNat']
  omega

/-- The digits of a number are digits. -/
theorem isDigit_of_mem_digits {n : ℕ} {c : UInt8} (hc : c ∈ digits n) : isDigit c := by
  obtain ⟨d, hd, rfl⟩ := List.mem_map.1 hc
  have hdigit := Nat.isDigit_of_mem_toDigits (by decide) (by decide) hd
  rw [isDigit_iff, toNat_ofChar hdigit]
  exact Char.isDigit_iff_toNat.1 hdigit

theorem digits_ne_nil (n : ℕ) : digits n ≠ [] := fun h =>
  Nat.toDigits_ne_nil (List.map_eq_nil_iff.1 h)

/-- A number has at most `k` digits exactly if it is below `10 ^ k`. -/
theorem length_digits_le_iff {n k : ℕ} (hk : 0 < k) : (digits n).length ≤ k ↔ n < 10 ^ k := by
  rw [digits, List.length_map]
  exact Nat.length_toDigits_le_iff (by decide) hk

/-- Reading characters is reading their bytes. -/
theorem valueFrom_ofChar (n : ℕ) {cs : List Char} (hcs : ∀ c ∈ cs, c.isDigit) :
    valueFrom n (cs.map ofChar) = Nat.ofDigitChars 10 cs n := by
  induction cs generalizing n with
  | nil => rw [List.map_nil, valueFrom_nil, Nat.ofDigitChars_nil]
  | cons c cs ih =>
      have hc := toNat_ofChar (hcs c List.mem_cons_self)
      have hzero : '0'.toNat = 48 := rfl
      rw [List.map_cons, valueFrom_cons, Nat.ofDigitChars_cons, push, hc, hzero]
      exact ih _ fun d hd => hcs d (List.mem_cons_of_mem c hd)

/-- **Reading the digits of a number** gives it back. -/
@[simp] theorem value_digits (n : ℕ) : value (digits n) = n := by
  have hall : ∀ c ∈ Nat.toDigits 10 n, c.isDigit := fun c hc =>
    Nat.isDigit_of_mem_toDigits (by decide) (by decide) hc
  rw [value, digits, valueFrom_ofChar 0 hall, Nat.ofDigitChars_ten_toDigits]

/-! ### Integers -/

/-- **The numeral of an integer.** -/
def numeral (i : ℤ) : List UInt8 :=
  if i < 0 then 45 :: digits i.natAbs else digits i.natAbs -- '-'

theorem numeral_ofNat (n : ℕ) : numeral n = digits n := if_neg (by omega)

theorem numeral_of_neg {i : ℤ} (hi : i < 0) : numeral i = 45 :: digits i.natAbs := if_pos hi

theorem numeral_of_nonneg {i : ℤ} (hi : 0 ≤ i) : numeral i = digits i.natAbs :=
  if_neg (by omega)

theorem numeral_ne_nil (i : ℤ) : numeral i ≠ [] := by
  rw [numeral]
  split
  · exact List.cons_ne_nil _ _
  · exact digits_ne_nil _

/-- A numeral has no NUL. -/
theorem zero_notMem_numeral (i : ℤ) : 0 ∉ numeral i := by
  have hdigits : 0 ∉ digits i.natAbs := fun h => by
    have := isDigit_of_mem_digits h
    cases this
  rw [numeral]
  split
  · exact fun h => (List.mem_cons.1 h).elim (fun h => by cases h) hdigits
  · exact hdigits

/-- **The digits of a number are no negative numeral.** -/
theorem digits_ne_numeral {i : ℤ} (hi : i < 0) (n : ℕ) : digits n ≠ numeral i := fun h => by
  rw [numeral_of_neg hi] at h
  have hminus : isDigit 45 := isDigit_of_mem_digits (n := n) (h ▸ List.mem_cons_self)
  cases hminus

/-- The numeral of an integer whose absolute value is below `10 ^ k`. -/
theorem length_numeral_le {i : ℤ} {k : ℕ} (hk : 0 < k) (hi : i.natAbs < 10 ^ k) :
    (numeral i).length ≤ k + 1 := by
  have hlength := (length_digits_le_iff hk).2 hi
  rw [numeral]
  split
  · exact Nat.succ_le_succ hlength
  · omega

end Decimal
