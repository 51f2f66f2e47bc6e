/-
**Looking for words while reading.**

A text is read from the left, one character at a time.  For each word that is looked for, what
matters of the text so far is the longest proper prefix of the word with which it ends: a character
completes the word, makes the prefix longer, or makes the reader fall back to a shorter one, which
is found inside the word itself.

* `Longest` — the length of the longest proper prefix with which a text ends;
* `FallsTo` — where to fall back to, with `take_suffix_take_iff`: what to compare for that;
* `Longest.completes_iff`, `Longest.extend`, `Longest.fall` — one more character;
* `First` — the word that is complete first, where, and the lowest of several, by `First.unique`.
-/

import Mathlib.Data.List.Basic
import Mathlib.Data.List.Infix
import Mathlib.Data.Nat.Find
import Mathlib.Data.Nat.Notation
import Mathlib.Tactic.Common

set_option relaxedAutoImplicit false
set_option autoImplicit false

namespace PrefixMatch

variable {α : Type*} {p w : List α} {c : α} {j k : ℕ}

/-! ### The longest prefix -/

/-- **The longest proper prefix** of a word with which a text ends has `k` characters. -/
structure Longest (p w : List α) (k : ℕ) : Prop where
  lt : k < p.length
  suffix : p.take k <:+ w
  max : ∀ j < p.length, p.take j <:+ w → j ≤ k

/-- Nothing has been read. -/
theorem longest_nil (hp : p ≠ []) : Longest p [] 0 := by
  refine ⟨List.length_pos_iff.2 hp, List.nil_suffix, fun j hj hsuffix => ?_⟩
  have hlength := hsuffix.length_le
  rw [List.length_take, List.length_nil] at hlength
  omega

/-- A text ends with one character more of a word. -/
theorem take_succ_suffix_iff (hk : k < p.length) :
    p.take (k + 1) <:+ w ++ [c] ↔ p.take k <:+ w ∧ p[k]? = some c := by
  rw [List.take_add_one, List.getElem?_eq_getElem hk, Option.toList_some]
  constructor
  · rintro ⟨front, hfront⟩
    rw [← List.append_assoc] at hfront
    obtain ⟨hw, hc⟩ := List.append_inj' hfront rfl
    exact ⟨⟨front, hw⟩, congrArg some (List.cons.inj hc).1⟩
  · rintro ⟨⟨front, rfl⟩, hc⟩
    cases hc
    exact ⟨front, (List.append_assoc ..).symm⟩

/-- Of a prefix with which the text ends, the shorter ones are looked for in the prefix. -/
theorem take_suffix_iff (hsuffix : p.take k <:+ w) (hj : j ≤ k) :
    p.take j <:+ w ↔ p.take j <:+ p.take k := by
  refine ⟨fun h => List.suffix_of_suffix_length_le h hsuffix ?_, fun h => h.trans hsuffix⟩
  rw [List.length_take, List.length_take]
  omega

/-- **What to compare**: a prefix of a word ends with a shorter one. -/
theorem take_suffix_take_iff (hj : j ≤ k) (hk : k ≤ p.length) :
    p.take j <:+ p.take k ↔ ∀ i < j, p[i]? = p[i + (k - j)]? := by
  have hlength : (p.take k).length - (p.take j).length = k - j := by
    rw [List.length_take, List.length_take]
    omega
  rw [List.suffix_iff_eq_drop, hlength]
  constructor
  · intro heq i hi
    have hi' := congrArg (fun l => l[i]?) heq
    rwa [List.getElem?_take_of_lt hi, List.getElem?_drop, List.getElem?_take_of_lt (by omega),
      Nat.add_comm (k - j)] at hi'
  · intro hall
    refine List.ext_getElem? fun i => ?_
    rw [List.getElem?_drop]
    by_cases hi : i < j
    · rw [List.getElem?_take_of_lt hi, List.getElem?_take_of_lt (by omega), Nat.add_comm (k - j)]
      exact hall i hi
    · rw [List.getElem?_take_eq_none (by omega), List.getElem?_take_eq_none (by omega)]

/-- A shorter prefix with which the first `k` characters of a word end, and which is followed by a
character. -/
def Border (p : List α) (c : α) (k i : ℕ) : Prop := p[i]? = some c ∧ p.take i <:+ p.take k

/-- Where to fall back to: behind the longest border below an index, or to the beginning. -/
def FallsTo (p : List α) (c : α) (k index r : ℕ) : Prop :=
  (∃ j < index, r = j + 1 ∧ Border p c k j ∧ ∀ i, j < i → i < index → ¬Border p c k i) ∨
    r = 0 ∧ ∀ i < index, ¬Border p c k i

/-- An index that is no border is passed over. -/
theorem FallsTo.pass {index r : ℕ} (h : FallsTo p c k index r) (hnot : ¬Border p c k index) :
    FallsTo p c k (index + 1) r := by
  have hlast : ∀ i, ¬i < index → i < index + 1 → ¬Border p c k i := fun i hi hi' => by
    obtain rfl : i = index := by omega
    exact hnot
  rcases h with ⟨j, hj, hr, hborder, hmax⟩ | ⟨hr, hnone⟩
  · refine Or.inl ⟨j, by omega, hr, hborder, fun i hji hi => ?_⟩
    by_cases hlt : i < index
    · exact hmax i hji hlt
    · exact hlast i hlt hi
  · refine Or.inr ⟨hr, fun i hi => ?_⟩
    by_cases hlt : i < index
    · exact hnone i hlt
    · exact hlast i hlt hi

/-- A border at the index is the longest below the next. -/
theorem fallsTo_succ {index : ℕ} (h : Border p c k index) :
    FallsTo p c k (index + 1) (index + 1) :=
  Or.inl ⟨index, Nat.lt_succ_self index, rfl, h, fun i hi hi' => absurd hi (by omega)⟩

/-! ### One more character -/

/-- **The word is complete** exactly if one character was missing, and it has come. -/
theorem Longest.completes_iff (h : Longest p w k) :
    p <:+ w ++ [c] ↔ k + 1 = p.length ∧ p[k]? = some c := by
  have hlt := h.lt
  constructor
  · intro hsuffix
    obtain ⟨n, hn⟩ := Nat.exists_eq_succ_of_ne_zero (by omega : p.length ≠ 0)
    rw [← List.take_length (l := p), hn, take_succ_suffix_iff (by omega)] at hsuffix
    have hle := h.max n (by omega) hsuffix.1
    obtain rfl : n = k := by omega
    exact ⟨hn.symm, hsuffix.2⟩
  · rintro ⟨hlength, hc⟩
    have hsuffix := (take_succ_suffix_iff hlt).2 ⟨h.suffix, hc⟩
    rwa [hlength, List.take_length] at hsuffix

/-- A prefix that ends with the character is one more than one that was there before. -/
theorem Longest.le_of_suffix (h : Longest p w k) (hj : j + 1 < p.length)
    (hsuffix : p.take (j + 1) <:+ w ++ [c]) :
    j ≤ k ∧ p[j]? = some c ∧ p.take j <:+ p.take k := by
  obtain ⟨hw, hc⟩ := (take_succ_suffix_iff (by omega)).1 hsuffix
  have hle := h.max j (by omega) hw
  exact ⟨hle, hc, (take_suffix_iff h.suffix hle).1 hw⟩

/-- The prefix becomes longer. -/
theorem Longest.extend (h : Longest p w k) (hc : p[k]? = some c) (hlt : k + 1 < p.length) :
    Longest p (w ++ [c]) (k + 1) := by
  refine ⟨hlt, (take_succ_suffix_iff h.lt).2 ⟨h.suffix, hc⟩, fun j hj hsuffix => ?_⟩
  cases j with
  | zero => exact Nat.zero_le _
  | succ j => exact Nat.succ_le_succ (h.le_of_suffix hj hsuffix).1

/-- **The reader falls back.** -/
theorem Longest.fall {r : ℕ} (h : Longest p w k) (hne : p[k]? ≠ some c)
    (hr : FallsTo p c k k r) : Longest p (w ++ [c]) r := by
  have hlt := h.lt
  -- a prefix that ends with the character is one more than a border
  have hborder : ∀ i, i + 1 < p.length → p.take (i + 1) <:+ w ++ [c] → i < k ∧ Border p c k i := by
    intro i hi hsuffix
    obtain ⟨hle, hi, hin⟩ := h.le_of_suffix hi hsuffix
    have hik : i ≠ k := fun heq => hne (heq ▸ hi)
    exact ⟨by omega, hi, hin⟩
  rcases hr with ⟨j, hj, rfl, ⟨hc, hin⟩, hmax⟩ | ⟨rfl, hnone⟩
  · refine ⟨by omega, (take_succ_suffix_iff (by omega)).2 ⟨hin.trans h.suffix, hc⟩,
      fun i hi hsuffix => ?_⟩
    cases i with
    | zero => exact Nat.zero_le _
    | succ i =>
        obtain ⟨hik, hb⟩ := hborder i hi hsuffix
        by_contra hgt
        exact hmax i (by omega) hik hb
  · refine ⟨by omega, by rw [List.take_zero]; exact List.nil_suffix, fun i hi hsuffix => ?_⟩
    cases i with
    | zero => exact Nat.le_refl 0
    | succ i =>
        obtain ⟨hik, hb⟩ := hborder i hi hsuffix
        exact absurd hb (hnone i hik)

/-! ### The first word -/

/-- **The word that is complete first**: it is the `i`th, behind `n` characters of the text.  No
word is complete before, and none of a lower index there. -/
structure First (ps : List (List α)) (w : List α) (i n : ℕ) : Prop where
  le : n ≤ w.length
  complete : ∃ p, ps[i]? = some p ∧ p <:+ w.take n
  earliest : ∀ m < n, ∀ p ∈ ps, ¬p <:+ w.take m
  lowest : ∀ j < i, ∀ p, ps[j]? = some p → ¬p <:+ w.take n

theorem First.unique {ps : List (List α)} {i i' n n' : ℕ} (h : First ps w i n)
    (h' : First ps w i' n') : i = i' ∧ n = n' := by
  obtain ⟨p, hp, hcomplete⟩ := h.complete
  obtain ⟨q, hq, hcomplete'⟩ := h'.complete
  have hn : n = n' := by
    rcases Nat.lt_trichotomy n n' with hlt | heq | hgt
    · exact absurd hcomplete (h'.earliest n hlt p (List.mem_of_getElem? hp))
    · exact heq
    · exact absurd hcomplete' (h.earliest n' hgt q (List.mem_of_getElem? hq))
  subst hn
  refine ⟨?_, rfl⟩
  rcases Nat.lt_trichotomy i i' with hlt | heq | hgt
  · exact absurd hcomplete (h'.lowest i hlt p hp)
  · exact heq
  · exact absurd hcomplete' (h.lowest i' hgt q hq)

/-- Some word is complete first, if one of them occurs. -/
theorem exists_first {ps : List (List α)} (h : ∃ p ∈ ps, ∃ n ≤ w.length, p <:+ w.take n) :
    ∃ i n, First ps w i n := by
  classical
  have hplace : ∃ n, n ≤ w.length ∧ ∃ p ∈ ps, p <:+ w.take n := by
    obtain ⟨p, hp, n, hn, hsuffix⟩ := h
    exact ⟨n, hn, p, hp, hsuffix⟩
  obtain ⟨hle, p, hp, hsuffix⟩ := Nat.find_spec hplace
  have hindex : ∃ i : ℕ, ∃ p, ps[i]? = some p ∧ p <:+ w.take (Nat.find hplace) := by
    obtain ⟨i, hi⟩ := List.mem_iff_getElem?.1 hp
    exact ⟨i, p, hi, hsuffix⟩
  refine ⟨Nat.find hindex, Nat.find hplace, hle, Nat.find_spec hindex, fun m hm p hp hsuffix => ?_,
    fun j hj p hp hsuffix => ?_⟩
  · exact Nat.find_min hplace hm ⟨by omega, p, hp, hsuffix⟩
  · exact Nat.find_min hindex hj ⟨p, hp, hsuffix⟩

/-- A word occurs in a text if the text up to some place ends with it. -/
theorem infix_iff : p <:+: w ↔ ∃ n ≤ w.length, p <:+ w.take n := by
  constructor
  · rintro ⟨front, rest, rfl⟩
    have hle : (front ++ p).length ≤ (front ++ p ++ rest).length :=
      (List.prefix_append _ _).length_le
    refine ⟨(front ++ p).length, hle, front, ?_⟩
    rw [List.take_left]
  · rintro ⟨n, -, hsuffix⟩
    exact hsuffix.isInfix.trans (List.take_prefix n w).isInfix

end PrefixMatch
