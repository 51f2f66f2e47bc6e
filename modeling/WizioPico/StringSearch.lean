/-
**Looking for a string in a `String`.**

`startsWith` compares the characters from an offset on with another string; whether there are as
many is decided by one subtraction of two lengths, which wraps around if the other string is the
longer one.  `lastIndexOf` looks for an occurrence behind each one that it has found.

* `strncmp` — the comparison, with the bytes of the buffer that it reads;
* `startsWithFrom`, `startsWith` — the members, with and without an offset;
* `strncmp_spec` — from an index within the text it reads no byte behind the terminator;
* `startsWithFrom_exact_iff` — **when `startsWith` is exact and in bounds**;
* `lastIndexOf_last` — `lastIndexOf` **returns the last occurrence**.
-/

import Mathlib.Order.Bounds.Defs
import WizioPico.StringReplace

set_option relaxedAutoImplicit false
set_option autoImplicit false

namespace Pico.WString

open CBuffer Occurrences

/-! ### The members -/

/-- `strncmp(&buffer[i], p, n)`: the difference of the characters at which it ends, and the index
behind the last byte that it has read in the buffer. -/
def strncmp (b : List UInt8) : ℕ → ℕ → List UInt8 → Option (ℤ × ℕ)
  | 0, i, _ => some (0, i)
  | n + 1, i, p => (b[i]?).bind fun c => (p.head?).bind fun d =>
      if c ≠ d then some (c.toNat - d.toNat, i + 1)
      else if c = 0 then some (0, i + 1)
      else strncmp b n (i + 1) p.tail

/-- `startsWith(s2, offset)`, with the index behind the last byte that it has read in the buffer. -/
def startsWithFrom (s s2 : Obj) (offset : ℕ) : Option (Bool × ℕ) :=
  if unsigned (s.len - s2.len) < offset ∨ s.buffer = .null ∨ s2.buffer = .null then some (false, 0)
  else s.buffer.bytes.bind fun b => s2.buffer.bytes.bind fun p =>
    (strncmp b s2.len offset p).map fun r => (r.1 = 0, r.2)

/-- `startsWith(s2)`. -/
def startsWith (s s2 : Obj) : Option (Bool × ℕ) :=
  if s.len < s2.len then some (false, 0) else startsWithFrom s s2 0

/-- `lastIndexOf(s2)`. -/
def lastIndexOfAll (s s2 : Obj) : Option (Option ℕ) := lastIndexOf s s2 (unsigned (s.len - s2.len))

/-! ### Comparing -/

section

variable {s s2 : Obj} {t f : List UInt8}

/-- **`strncmp` within the text** reads no byte behind its terminator, and finds no difference
exactly if the other text occurs there. -/
theorem strncmp_spec (hf : 0 ∉ f) (rest rest' : List UInt8) {i : ℕ} (hi : i ≤ t.length) :
    ∃ d e, strncmp (t ++ 0 :: rest) f.length i (f ++ 0 :: rest') = some (d, e) ∧
      e ≤ t.length + 1 ∧ (d = 0 ↔ f <+: t.drop i) := by
  induction f generalizing i with
  | nil => exact ⟨0, i, rfl, by omega, by simp⟩
  | cons c f ih =>
      have hc : c ≠ 0 := fun h => hf (h ▸ List.mem_cons_self)
      rw [List.length_cons, strncmp, List.cons_append, List.head?_cons, List.tail_cons]
      by_cases hend : i = t.length
      · -- the terminator is the difference
        have hget : (t ++ 0 :: rest)[i]? = some 0 := by
          rw [hend, List.getElem?_append_right (Nat.le_refl _), Nat.sub_self]
          rfl
        have hdiff : (0 : ℤ) - c.toNat ≠ 0 := by
          intro h
          refine hc (UInt8.toNat_inj.1 ?_)
          simp only [UInt8.toNat_zero]
          omega
        refine ⟨0 - c.toNat, i + 1, ?_, by omega, ?_⟩
        · rw [hget, Option.bind_some, Option.bind_some, if_pos hc.symm]
          rfl
        · rw [hend, List.drop_length]
          exact iff_of_false hdiff fun h => List.cons_ne_nil c f (List.prefix_nil.1 h)
      · have hlt : i < t.length := by omega
        have hget : (t ++ 0 :: rest)[i]? = some t[i] := by
          rw [List.getElem?_append_left hlt, List.getElem?_eq_getElem hlt]
        rw [hget, Option.bind_some, Option.bind_some, List.drop_eq_getElem_cons hlt]
        by_cases hne : t[i] = c
        · have hzero : t[i] ≠ 0 := hne ▸ hc
          obtain ⟨d, e, hcmp, he, hd⟩ :=
            ih (fun h => hf (List.mem_cons_of_mem c h)) (i := i + 1) hlt
          refine ⟨d, e, ?_, he, ?_⟩
          · rw [if_neg (not_not_intro hne), if_neg hzero, hcmp]
          · rw [hd, hne, List.prefix_cons_inj]
        · have hdiff : (t[i].toNat : ℤ) - c.toNat ≠ 0 := by
            intro h
            exact hne (UInt8.toNat_inj.1 (by omega))
          refine ⟨t[i].toNat - c.toNat, i + 1, if_pos hne, by omega, iff_of_false hdiff ?_⟩
          intro h
          exact hne (List.cons_prefix_cons.1 h).1.symm

/-- A comparison of characters reads the first one. -/
theorem lt_of_strncmp {b p : List UInt8} {n i e : ℕ} {d : ℤ}
    (h : strncmp b (n + 1) i p = some (d, e)) : i < e := by
  induction n generalizing i p with
  | zero =>
      rw [strncmp] at h
      obtain ⟨c, -, h⟩ := Option.bind_eq_some_iff.1 h
      obtain ⟨d', -, h⟩ := Option.bind_eq_some_iff.1 h
      rw [strncmp] at h
      split_ifs at h <;> cases h <;> exact Nat.lt_succ_self i
  | succ n ih =>
      rw [strncmp] at h
      obtain ⟨c, -, h⟩ := Option.bind_eq_some_iff.1 h
      obtain ⟨d', -, h⟩ := Option.bind_eq_some_iff.1 h
      split_ifs at h with hne hzero
      · cases h
        exact Nat.lt_succ_self i
      · cases h
        exact Nat.lt_succ_self i
      · exact Nat.lt_of_succ_lt (ih h)

/-- **What is asked of `startsWith`**: the answer is whether the other text is there, and no byte
behind the terminator is read. -/
def StartsExactly (s s2 : Obj) (t f : List UInt8) (offset : ℕ) : Prop :=
  ∃ answer extent, startsWithFrom s s2 offset = some (answer, extent) ∧ extent ≤ t.length + 1 ∧
    (answer = true ↔ offset + f.length ≤ t.length ∧ (t.drop offset).take f.length = f)

/-- The comparison is made from the offset on. -/
theorem startsWithFrom_of_le (hs : HasText s t) (hs2 : HasText s2 f) {offset : ℕ}
    (hle : offset ≤ unsigned (s.len - s2.len)) : ∃ rest rest', startsWithFrom s s2 offset =
      (strncmp (t ++ 0 :: rest) f.length offset (f ++ 0 :: rest')).map
        fun r => (decide (r.1 = 0), r.2) := by
  obtain ⟨rest, hblock⟩ := hs.block
  obtain ⟨rest', hblock'⟩ := hs2.block
  have hcond : ¬(unsigned (s.len - s2.len) < offset ∨ s.buffer = .null ∨ s2.buffer = .null) := by
    rintro (h | h | h)
    · omega
    · exact hs.not_null h
    · exact hs2.not_null h
  refine ⟨rest, rest', ?_⟩
  rw [startsWithFrom, if_neg hcond, hblock.buffer, hblock'.buffer, hs2.len]
  rfl

/-- A text that occurs at an index is there in full. -/
theorem prefix_drop_iff {offset : ℕ} (hoffset : offset ≤ t.length) :
    f <+: t.drop offset ↔
      offset + f.length ≤ t.length ∧ (t.drop offset).take f.length = f := by
  rw [List.prefix_iff_eq_take]
  constructor
  · intro h
    have hlen := congrArg List.length h
    rw [List.length_take, List.length_drop] at hlen
    exact ⟨by omega, h.symm⟩
  · rintro ⟨-, h⟩
    exact h.symm

/-- An offset within the text that passes the test. -/
theorem startsExactly_of_le (hs : HasText s t) (hs2 : HasText s2 f) {offset : ℕ}
    (hoffset : offset ≤ t.length) (hle : offset ≤ unsigned (s.len - s2.len)) :
    StartsExactly s s2 t f offset := by
  obtain ⟨rest, rest', hstarts⟩ := startsWithFrom_of_le hs hs2 hle
  obtain ⟨d, e, hcmp, he, hd⟩ := strncmp_spec hs2.noNul rest rest' hoffset
  rw [hcmp] at hstarts
  refine ⟨decide (d = 0), e, hstarts, he, ?_⟩
  rw [decide_eq_true_iff, hd, prefix_drop_iff hoffset]

/-- An offset that does not pass the test. -/
theorem startsExactly_of_lt {offset : ℕ} (hlt : unsigned (s.len - s2.len) < offset)
    (hlong : t.length < offset + f.length) : StartsExactly s s2 t f offset := by
  refine ⟨false, 0, if_pos (.inl hlt), Nat.zero_le _, ?_⟩
  refine iff_of_false (by decide) ?_
  rintro ⟨hle, -⟩
  omega

/-- **When `startsWith` is exact and in bounds**: the subtraction does not wrap around, or the
offset lies in the text, or it is beyond the difference as it wraps around. -/
theorem startsWithFrom_exact_iff (hs : HasText s t) (hs2 : HasText s2 f) (offset : UInt32) :
    StartsExactly s s2 t f offset.toNat ↔
      f.length ≤ t.length ∨ offset.toNat ≤ t.length ∨
        2 ^ 32 + t.length < offset.toNat + f.length := by
  have hlen := hs.length_le
  have hlen2 := hs2.length_le
  rcases Nat.lt_or_ge t.length f.length with hlong | hshort
  · have hdiff : unsigned (s.len - s2.len) = 2 ^ 32 + t.length - f.length := by
      rw [hs.len, hs2.len]
      unfold unsigned
      omega
    constructor
    · rintro ⟨answer, extent, hstarts, hextent, -⟩
      by_contra hcond
      have hle : offset.toNat ≤ unsigned (s.len - s2.len) := by
        rw [hdiff]
        omega
      obtain ⟨rest, rest', hcmp⟩ := startsWithFrom_of_le hs hs2 hle
      rw [hstarts] at hcmp
      obtain ⟨⟨d, e⟩, hsome, heq⟩ := Option.map_eq_some_iff.1 hcmp.symm
      cases heq
      -- the first byte that is compared lies behind the terminator
      obtain ⟨n, hn⟩ : ∃ n, f.length = n + 1 := ⟨f.length - 1, by omega⟩
      rw [hn] at hsome
      have hread := lt_of_strncmp hsome
      omega
    · intro hcond
      by_cases hpass : 2 ^ 32 + t.length < offset.toNat + f.length
      · exact startsExactly_of_lt (by rw [hdiff]; omega) (by omega)
      · exact startsExactly_of_le hs hs2 (by omega) (by rw [hdiff]; omega)
  · refine iff_of_true ?_ (.inl hshort)
    have hdiff : unsigned (s.len - s2.len) = t.length - f.length := by
      rw [hs.len, hs2.len]
      unfold unsigned
      omega
    by_cases hpass : offset.toNat ≤ t.length - f.length
    · exact startsExactly_of_le hs hs2 (by omega) (by rw [hdiff]; exact hpass)
    · exact startsExactly_of_lt (by rw [hdiff]; omega) (by omega)

/-- `"bc"` in `"abc"`, from the offset 1. -/
theorem startsWithFrom_exact_bc :
    StartsExactly (holding [97, 98, 99] 3) (holding [98, 99] 2) [97, 98, 99] [98, 99] 1 :=
  (startsWithFrom_exact_iff (hasText_holding 3 (by decide) (by decide) (by decide))
    (hasText_holding 2 (by decide) (by decide) (by decide)) 1).2 (.inl (by decide))

/-- **`"abcd"` in `"abc"` from the offset 5**: the difference of the lengths is `2 ^ 32 - 1`, and
the comparison begins behind the buffer. -/
theorem startsWithFrom_abcd :
    ¬StartsExactly (holding [97, 98, 99] 3) (holding [97, 98, 99, 100] 4) [97, 98, 99]
      [97, 98, 99, 100] 5 := by
  have hnone : startsWithFrom (holding [97, 98, 99] 3) (holding [97, 98, 99, 100] 4) 5 = none := by
    decide
  rintro ⟨answer, extent, hsome, -⟩
  rw [hnone] at hsome
  cases hsome

/-- `startsWith` without an offset makes the test that the other one leaves out. -/
theorem startsWith_exact (hs : HasText s t) (hs2 : HasText s2 f) :
    ∃ answer extent, startsWith s s2 = some (answer, extent) ∧ extent ≤ t.length + 1 ∧
      (answer = true ↔ f <+: t) := by
  rw [startsWith]
  split
  · rename_i hlt
    rw [hs.len, hs2.len] at hlt
    refine ⟨false, 0, rfl, Nat.zero_le _, iff_of_false (by decide) ?_⟩
    intro h
    have := h.length_le
    omega
  · obtain ⟨answer, extent, hstarts, hextent, hanswer⟩ :=
      startsExactly_of_le hs hs2 (Nat.zero_le _) (Nat.zero_le _)
    refine ⟨answer, extent, hstarts, hextent, ?_⟩
    rw [hanswer, ← prefix_drop_iff (Nat.zero_le _), List.drop_zero]

/-! ### The last occurrence -/

/-- **The last occurrence** that begins up to an index. -/
def LastUpTo (f t : List UInt8) (n : ℕ) : Option ℕ → Prop
  | none => ∀ i ≤ n, ¬f <+: t.drop i
  | some k => IsGreatest {i | i ≤ n ∧ f <+: t.drop i} k

theorem LastBelow.upTo {n : ℕ} {answer : Option ℕ} (h : LastBelow f t (n + 1) answer) :
    LastUpTo f t n answer := by
  cases answer with
  | none =>
      intro i hi
      exact h i (Nat.lt_succ_of_le hi)
  | some k =>
      obtain ⟨hk, hoccurs, hlast⟩ := h
      refine ⟨⟨Nat.le_of_lt_succ hk, hoccurs⟩, ?_⟩
      rintro i ⟨hi, hi'⟩
      by_contra hlt
      exact hlast i (by omega) (by omega) hi'

/-- No occurrence begins between two indices. -/
theorem LastUpTo.mono {n m : ℕ} {answer : Option ℕ} (h : LastUpTo f t n answer) (hnm : n ≤ m)
    (hnone : ∀ i, n < i → ¬f <+: t.drop i) : LastUpTo f t m answer := by
  cases answer with
  | none =>
      intro i _
      by_cases hi : i ≤ n
      · exact h i hi
      · exact hnone i (Nat.lt_of_not_le hi)
  | some k =>
      obtain ⟨⟨hk, hoccurs⟩, hlast⟩ := h
      refine ⟨⟨Nat.le_trans hk hnm, hoccurs⟩, ?_⟩
      rintro i ⟨-, hi⟩
      by_cases hin : i ≤ n
      · exact hlast ⟨hin, hi⟩
      · exact absurd hi (hnone i (Nat.lt_of_not_le hin))

/-- An index behind the text counts as the last one. -/
theorem lastIndexOf_clamp (fromIndex : ℕ) :
    lastIndexOf s s2 fromIndex = lastIndexOf s s2 (min fromIndex (s.len - 1)) := by
  rw [lastIndexOf, lastIndexOf]
  split
  · rfl
  · rename_i hcond
    by_cases hle : s.len ≤ fromIndex
    · rw [Nat.min_eq_right (by omega), if_pos hle, if_neg (by omega)]
    · rw [Nat.min_eq_left (by omega)]

/-- **`lastIndexOf` returns the last occurrence** that begins up to an index, or with one operand
the last one in the text; every byte that it reads lies in the buffers. -/
theorem lastIndexOf_last (hs : HasText s t) (hs2 : HasText s2 f) (hpos : 0 < s2.len)
    (hle : s2.len ≤ s.len) :
    (∀ fromIndex, ∃ answer, lastIndexOf s s2 fromIndex = some answer ∧
      LastUpTo f t (min fromIndex (t.length - 1)) answer) ∧
    ∃ answer, lastIndexOfAll s s2 = some answer ∧ LastUpTo f t t.length answer := by
  have hlen := hs.length_le
  rw [hs2.len] at hpos
  rw [hs.len, hs2.len] at hle
  have hf : f ≠ [] := List.ne_nil_of_length_pos hpos
  have hlast : ∀ fromIndex, ∃ answer, lastIndexOf s s2 fromIndex = some answer ∧
      LastUpTo f t (min fromIndex (t.length - 1)) answer := by
    intro fromIndex
    have hlt : min fromIndex (t.length - 1) < t.length := by omega
    obtain ⟨answer, hanswer, hbelow⟩ := lastIndexOf_spec hs hs2 hf hlt
    refine ⟨answer, ?_, hbelow.upTo⟩
    rw [lastIndexOf_clamp, hs.len, hanswer]
  refine ⟨hlast, ?_⟩
  have hdiff : unsigned (s.len - s2.len) = t.length - f.length := by
    rw [hs.len, hs2.len]
    unfold unsigned
    omega
  obtain ⟨answer, hanswer, hupTo⟩ := hlast (t.length - f.length)
  rw [Nat.min_eq_left (by omega)] at hupTo
  -- behind the difference of the lengths there is no room for the word
  have hnone : ∀ i, t.length - f.length < i → ¬f <+: t.drop i := by
    intro i hi hoccurs
    have := hoccurs.length_le
    rw [List.length_drop] at this
    omega
  exact ⟨answer, by rw [lastIndexOfAll, hdiff, hanswer], hupTo.mono (Nat.sub_le _ _) hnone⟩

/-- `"aa"` in `"aaa"`. -/
theorem lastIndexOf_last_aaa :
    (∀ fromIndex, ∃ answer,
      lastIndexOf (holding [97, 97, 97] 3) (holding [97, 97] 2) fromIndex = some answer ∧
        LastUpTo [97, 97] [97, 97, 97] (min fromIndex 2) answer) ∧
    ∃ answer, lastIndexOfAll (holding [97, 97, 97] 3) (holding [97, 97] 2) = some answer ∧
      LastUpTo [97, 97] [97, 97, 97] 3 answer :=
  lastIndexOf_last (hasText_holding 3 (by decide) (by decide) (by decide))
    (hasText_holding 2 (by decide) (by decide) (by decide)) (by decide) (by decide)

end

end Pico.WString
