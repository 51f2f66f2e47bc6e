/-
**Occurrences of a word in a text.**

A word is looked for in a text from the left, from the right, or counted; and each occurrence of it
can be replaced by another word.  When replacing from the right, an occurrence may begin in the text
and end in what has been put behind it: the count from the left says nothing about those.

* `search` — the first occurrence, by `search_eq_some` and `search_eq_none`;
* `count` — the number of occurrences from the left that do not overlap, with `count_of_search`;
* `replaceOnto` — replacing from the right, with `replaceOnto_of_last`: the last occurrence that
  begins in a prefix is the next to be replaced;
* `countRight` — the number of replacements from the right, which `length_replaceOnto` is about.
-/

import Mathlib.Data.List.Basic
import Mathlib.Data.Nat.Notation
import Mathlib.Tactic.Common

set_option relaxedAutoImplicit false
set_option autoImplicit false

namespace Occurrences

variable {α : Type*} [DecidableEq α]

/-! ### From the left -/

/-- The first index at which a word occurs in a text. -/
def search (f : List α) : List α → Option ℕ
  | [] => if f = [] then some 0 else none
  | c :: l => if f <+: c :: l then some 0 else (search f l).map (· + 1)

/-- **What `search` finds** is the first occurrence. -/
theorem search_eq_some {f l : List α} {k : ℕ} (h : search f l = some k) :
    f <+: l.drop k ∧ k + f.length ≤ l.length ∧ ∀ j < k, ¬f <+: l.drop j := by
  induction l generalizing k with
  | nil =>
      rw [search] at h
      split_ifs at h with hf
      cases h
      subst hf
      exact ⟨List.prefix_rfl, Nat.le_refl 0, fun j hj => absurd hj (Nat.not_lt_zero j)⟩
  | cons c l ih =>
      rw [search] at h
      split_ifs at h with hf
      · cases h
        refine ⟨hf, ?_, fun j hj => absurd hj (Nat.not_lt_zero j)⟩
        rw [Nat.zero_add]
        exact hf.length_le
      · obtain ⟨k, hk, rfl⟩ := Option.map_eq_some_iff.1 h
        obtain ⟨hoccurs, hlen, hfirst⟩ := ih hk
        refine ⟨hoccurs, by rw [List.length_cons]; omega, fun j hj => ?_⟩
        cases j with
        | zero => exact hf
        | succ j => exact hfirst j (Nat.lt_of_succ_lt_succ hj)

/-- **What `search` does not find** does not occur. -/
theorem search_eq_none {f l : List α} (h : search f l = none) (j : ℕ) : ¬f <+: l.drop j := by
  induction l generalizing j with
  | nil =>
      rw [search] at h
      split_ifs at h with hf
      rw [List.drop_nil]
      exact fun hoccurs => hf (List.prefix_nil.1 hoccurs)
  | cons c l ih =>
      rw [search] at h
      split_ifs at h with hf
      cases j with
      | zero => exact hf
      | succ j => exact ih (Option.map_eq_none_iff.1 h) j

/-- A text occurs in itself. -/
theorem search_self {f : List α} (hf : f ≠ []) : search f f = some 0 := by
  cases f with
  | nil => exact absurd rfl hf
  | cons c l => exact if_pos List.prefix_rfl

/-- Only the empty word occurs in the empty text. -/
theorem search_nil {f : List α} (hf : f ≠ []) : search f [] = none := if_neg hf

/-- The number of occurrences from the left that do not overlap, when the next characters belong to
an occurrence that has been counted. -/
def countFrom (f : List α) : ℕ → List α → ℕ
  | _, [] => 0
  | skip + 1, _ :: l => countFrom f skip l
  | 0, c :: l => if f <+: c :: l then countFrom f (f.length - 1) l + 1 else countFrom f 0 l

/-- The number of occurrences from the left that do not overlap. -/
def count (f l : List α) : ℕ := countFrom f 0 l

theorem countFrom_eq (f : List α) (skip : ℕ) (l : List α) :
    countFrom f skip l = count f (l.drop skip) := by
  induction l generalizing skip with
  | nil => rw [List.drop_nil]; cases skip <;> rfl
  | cons c l ih =>
      cases skip with
      | zero => rfl
      | succ skip => exact ih skip

/-- A text in which the word is not found. -/
theorem count_of_search_none {f l : List α} (h : search f l = none) : count f l = 0 := by
  induction l with
  | nil => rfl
  | cons c l ih =>
      rw [search] at h
      split_ifs at h with hf
      rw [count, countFrom, if_neg hf]
      exact ih (Option.map_eq_none_iff.1 h)

/-- **The count goes on behind the occurrence that is found.** -/
theorem count_of_search {f l : List α} {k : ℕ} (hf : f ≠ []) (h : search f l = some k) :
    count f l = count f (l.drop (k + f.length)) + 1 := by
  induction l generalizing k with
  | nil =>
      rw [search, if_neg hf] at h
      cases h
  | cons c l ih =>
      rw [search] at h
      split_ifs at h with hoccurs
      · cases h
        obtain ⟨n, hn⟩ : ∃ n, f.length = n + 1 :=
          Nat.exists_eq_succ_of_ne_zero fun h => hf (List.length_eq_zero_iff.1 h)
        rw [count, countFrom, if_pos hoccurs, countFrom_eq, hn, Nat.zero_add, List.drop_succ_cons,
          Nat.add_sub_cancel]
      · obtain ⟨k, hk, rfl⟩ := Option.map_eq_some_iff.1 h
        have hstep : count f (c :: l) = count f l := by rw [count, countFrom, if_neg hoccurs, count]
        rw [hstep, ih hk]
        congr 2
        rw [Nat.add_right_comm, List.drop_succ_cons]

/-! ### From the right -/

/-- The text from a character on, which is replaced if it begins with the word. -/
def replaceHead (f r : List α) (c : α) (acc : List α) : List α :=
  if f <+: c :: acc then r ++ (c :: acc).drop f.length else c :: acc

/-- **Replacing from the right**, the occurrences that begin in `pre` of the text `pre ++ acc`. -/
def replaceOnto (f r pre acc : List α) : List α := pre.foldr (replaceHead f r) acc

/-- Replacing from the right. -/
def replaceRight (f r l : List α) : List α := replaceOnto f r l []

/-- A prefix in which no occurrence begins. -/
theorem replaceOnto_of_none {f r pre acc : List α}
    (h : ∀ j < pre.length, ¬f <+: (pre ++ acc).drop j) : replaceOnto f r pre acc = pre ++ acc := by
  induction pre with
  | nil => rfl
  | cons c pre ih =>
      have hrest : replaceOnto f r pre acc = pre ++ acc :=
        ih fun j hj => h (j + 1) (Nat.succ_lt_succ hj)
      have hhead : ¬f <+: c :: (pre ++ acc) := h 0 (Nat.zero_lt_succ _)
      have hcons : replaceOnto f r (c :: pre) acc =
          replaceHead f r c (replaceOnto f r pre acc) := rfl
      rw [hcons, hrest, replaceHead, if_neg hhead]
      rfl

/-- Replacing in two parts. -/
theorem replaceOnto_append (f r p q acc : List α) :
    replaceOnto f r (p ++ q) acc = replaceOnto f r p (replaceOnto f r q acc) := List.foldr_append

/-- **The last occurrence that begins in the prefix is replaced first.** -/
theorem replaceOnto_of_last {f r pre acc : List α} {k : ℕ} (hk : k < pre.length)
    (hlast : f <+: (pre ++ acc).drop k)
    (hnone : ∀ j, k < j → j < pre.length → ¬f <+: (pre ++ acc).drop j) :
    replaceOnto f r pre acc =
      replaceOnto f r (pre.take k) (r ++ (pre ++ acc).drop (k + f.length)) := by
  have hsplit : pre = pre.take k ++ pre[k] :: pre.drop (k + 1) := by
    rw [← List.drop_eq_getElem_cons hk, List.take_append_drop]
  have hbehind : replaceOnto f r (pre.drop (k + 1)) acc = pre.drop (k + 1) ++ acc := by
    refine replaceOnto_of_none fun j hj => ?_
    rw [List.length_drop] at hj
    have := hnone (k + 1 + j) (by omega) (by omega)
    rwa [← List.drop_drop, List.drop_append_of_le_length hk] at this
  have hhead : pre[k] :: (pre.drop (k + 1) ++ acc) = (pre ++ acc).drop k := by
    rw [List.drop_append_of_le_length (Nat.le_of_lt hk), List.drop_eq_getElem_cons hk]
    rfl
  have hcons : replaceOnto f r (pre[k] :: pre.drop (k + 1)) acc =
      replaceHead f r pre[k] (replaceOnto f r (pre.drop (k + 1)) acc) := rfl
  conv_lhs => rw [hsplit]
  rw [replaceOnto_append, hcons, hbehind, replaceHead, hhead, if_pos hlast, List.drop_drop]

/-- The number of replacements that are made from the right. -/
def countOnto (f r : List α) : List α → List α → ℕ
  | [], _ => 0
  | c :: pre, acc =>
      if f <+: c :: replaceOnto f r pre acc then countOnto f r pre acc + 1
      else countOnto f r pre acc

/-- The number of replacements in a text. -/
def countRight (f r l : List α) : ℕ := countOnto f r l []

/-- **Each replacement adds what the new word is longer.** -/
theorem length_replaceOnto {f r : List α} (h : f.length ≤ r.length) (pre acc : List α) :
    (replaceOnto f r pre acc).length =
      pre.length + acc.length + countOnto f r pre acc * (r.length - f.length) := by
  induction pre with
  | nil =>
      have hnil : replaceOnto f r [] acc = acc := rfl
      rw [hnil, countOnto, List.length_nil, Nat.zero_add, Nat.zero_mul, Nat.add_zero]
  | cons c pre ih =>
      have hcons : replaceOnto f r (c :: pre) acc =
          replaceHead f r c (replaceOnto f r pre acc) := rfl
      rw [hcons, replaceHead, countOnto, List.length_cons]
      by_cases hoccurs : f <+: c :: replaceOnto f r pre acc
      · have hle := hoccurs.length_le
        rw [List.length_cons] at hle
        rw [if_pos hoccurs, if_pos hoccurs, List.length_append, List.length_drop, List.length_cons,
          Nat.succ_mul]
        omega
      · rw [if_neg hoccurs, if_neg hoccurs, List.length_cons, ih]
        omega

/-- Replacing by a word that is no shorter does not shorten. -/
theorem le_length_replaceOnto {f r : List α} (h : f.length ≤ r.length) (pre acc : List α) :
    pre.length + acc.length ≤ (replaceOnto f r pre acc).length := by
  rw [length_replaceOnto h]
  exact Nat.le_add_right _ _

end Occurrences
