/-
**Fields of bits in a byte memory.**

The bits of a byte memory are counted from the lowest bit of its first byte on.  A table whose
entries are no whole bytes, or whose entries overlap in a byte, is a sequence of fields of bits;
writing one of them a byte at a time is a matter of which bits come out changed.

* `ByteMem.bit`, `ByteMem.field` — the bits of a memory, and the number in a range of them;
* `ByteMem.field_append`, `ByteMem.field_add` — a field in parts, and a field within another one;
* `ByteMem.Sets` — one memory is another one but for a range of bits, which are those of a number;
* `ByteMem.Sets.field_eq`, `ByteMem.Sets.field_of_disjoint` — reading the range back, and reading
  bits outside of it;
* `ByteMem.Sets.append` — a range that is written in two parts;
* `ByteMem.sets_byte` — writing some bits of one byte.
-/

import Mathlib.Data.Nat.Init
import WizioPico.ByteMem

set_option relaxedAutoImplicit false
set_option autoImplicit false

namespace ByteMem

variable {m m' m'' : ByteMem} {a b i k l n v w : ℕ}

/-! ### Bits and fields -/

/-- A bit of a memory. -/
def bit (m : ByteMem) (k : ℕ) : Bool := (m (k / 8)).toNat.testBit (k % 8)

/-- The number in the `n` bits from bit `a` on. -/
def field (m : ByteMem) (a n : ℕ) : ℕ := Nat.ofBits fun i : Fin n => m.bit (a + i)

@[simp] theorem testBit_field (m : ByteMem) (a n i : ℕ) :
    (m.field a n).testBit i = (decide (i < n) && m.bit (a + i)) := by
  by_cases h : i < n
  · simp [field, h]
  · simp [field, h, Nat.testBit_ofBits_ge _ i (Nat.le_of_not_lt h)]

theorem field_lt (m : ByteMem) (a n : ℕ) : m.field a n < 2 ^ n := Nat.ofBits_lt_two_pow _

/-- A field is a matter of its bits. -/
theorem field_congr (h : ∀ i < n, m'.bit (b + i) = m.bit (a + i)) :
    m'.field b n = m.field a n := by
  refine Nat.eq_of_testBit_eq fun i => ?_
  by_cases hi : i < n
  · simp [hi, h i hi]
  · simp [hi]

/-- A number is in a field if its bits are. -/
theorem field_eq (hv : v < 2 ^ n) (h : ∀ i < n, m.bit (a + i) = v.testBit i) :
    m.field a n = v := by
  refine Nat.eq_of_testBit_eq fun i => ?_
  by_cases hi : i < n
  · simp [hi, h i hi]
  · have hzero : v.testBit i = false :=
      Nat.testBit_lt_two_pow (Nat.lt_of_lt_of_le hv (Nat.pow_le_pow_right (by decide) (by omega)))
    simp [hi, hzero]

/-- The bits of one byte. -/
theorem bit_byte (m : ByteMem) (a : ℕ) (hi : i < 8) :
    m.bit (8 * a + i) = (m a).toNat.testBit i := by
  rw [bit, show (8 * a + i) / 8 = a by omega, show (8 * a + i) % 8 = i by omega]

theorem field_byte (m : ByteMem) (a : ℕ) : m.field (8 * a) 8 = (m a).toNat :=
  field_eq (m a).toNat_lt fun _ hi => bit_byte m a hi

/-- A field in two parts. -/
theorem field_append (m : ByteMem) (a n l : ℕ) :
    m.field a (n + l) = 2 ^ n * m.field (a + n) l + m.field a n := by
  refine Nat.eq_of_testBit_eq fun i => ?_
  rw [Nat.testBit_two_pow_mul_add _ (field_lt m a n)]
  by_cases hlow : i < n
  · simp [hlow, show i < n + l by omega]
  · rw [if_neg hlow, testBit_field, testBit_field, show a + n + (i - n) = a + i by omega]
    congr 1
    exact decide_eq_decide.2 (by omega)

/-- A field within another one. -/
theorem field_add (m : ByteMem) (a i : ℕ) (h : i + n ≤ l) :
    m.field (a + i) n = m.field a l >>> i % 2 ^ n := by
  refine Nat.eq_of_testBit_eq fun j => ?_
  rw [Nat.testBit_mod_two_pow, Nat.testBit_shiftRight, testBit_field, testBit_field]
  by_cases hj : j < n
  · simp [hj, show i + j < l by omega, Nat.add_assoc]
  · simp [hj]

/-- The lowest bits of a field. -/
theorem field_mod (m : ByteMem) (a : ℕ) (h : n ≤ l) : m.field a n = m.field a l % 2 ^ n := by
  have hsub := field_add (n := n) (l := l) m a 0 (by omega)
  rwa [Nat.add_zero, Nat.shiftRight_zero] at hsub

/-! ### Setting the bits of a range -/

/-- `m'` is `m`, but for the `n` bits from bit `a` on, which are the lowest ones of `v`. -/
def Sets (m m' : ByteMem) (a n v : ℕ) : Prop :=
  ∀ k, m'.bit k = if a ≤ k ∧ k < a + n then v.testBit (k - a) else m.bit k

theorem Sets.bit_add (h : Sets m m' a n v) (hi : i < n) : m'.bit (a + i) = v.testBit i := by
  rw [h, if_pos ⟨Nat.le_add_right a i, by omega⟩, Nat.add_sub_cancel_left]

theorem Sets.bit_of_not_mem (h : Sets m m' a n v) (hk : k < a ∨ a + n ≤ k) :
    m'.bit k = m.bit k := by
  rw [h, if_neg (by omega)]

/-- **Reading back what was set.** -/
theorem Sets.field_eq (h : Sets m m' a n v) : m'.field a n = v % 2 ^ n := by
  refine ByteMem.field_eq (Nat.mod_lt v (Nat.two_pow_pos n)) fun i hi => ?_
  rw [h.bit_add hi, Nat.testBit_mod_two_pow, decide_eq_true hi, Bool.true_and]

/-- **Reading bits that were not set.** -/
theorem Sets.field_of_disjoint (h : Sets m m' a n v) (hd : b + l ≤ a ∨ a + n ≤ b) :
    m'.field b l = m.field b l :=
  field_congr fun i hi => h.bit_of_not_mem (by omega)

/-- A range that is set in two parts. -/
theorem Sets.append (h : Sets m m' a n v) (h' : Sets m' m'' (a + n) l (v >>> n)) :
    Sets m m'' a (n + l) v := by
  intro k
  by_cases hhigh : a + n ≤ k ∧ k < a + n + l
  · rw [h', if_pos hhigh, if_pos (by omega), Nat.testBit_shiftRight]
    congr 1
    omega
  · rw [h', if_neg hhigh, h]
    by_cases hlow : a ≤ k ∧ k < a + n
    · rw [if_pos hlow, if_pos (by omega)]
    · rw [if_neg hlow, if_neg (by omega)]

/-- The bits that are set are what counts of the number. -/
theorem Sets.congr (h : Sets m m' a n v) (heq : ∀ i < n, w.testBit i = v.testBit i) :
    Sets m m' a n w := by
  intro k
  rw [h]
  by_cases hin : a ≤ k ∧ k < a + n
  · rw [if_pos hin, if_pos hin, heq _ (by omega)]
  · rw [if_neg hin, if_neg hin]

/-- No bit is set. -/
theorem sets_zero (m : ByteMem) (a v : ℕ) : Sets m m a 0 v := fun _ => (if_neg (by omega)).symm

/-- Only some bits of the range change. -/
theorem Sets.shrink (h : Sets m m' a (n + l) v)
    (hkeep : ∀ i, n ≤ i → i < n + l → v.testBit i = m.bit (a + i)) : Sets m m' a n v := by
  intro k
  rw [h]
  by_cases hlow : a ≤ k ∧ k < a + n
  · rw [if_pos hlow, if_pos (by omega)]
  · rw [if_neg hlow]
    split
    · rename_i hhigh
      rw [hkeep (k - a) (by omega) (by omega), Nat.add_sub_cancel' hhigh.1]
    · rfl

/-- **Writing some bits of one byte**: those from bit `i` on become the ones of `v`, the others
are as they were. -/
theorem sets_byte {c : UInt8} (hin : i + n ≤ 8)
    (hset : ∀ j < n, c.toNat.testBit (i + j) = v.testBit j)
    (hkeep : ∀ j < 8, j < i ∨ i + n ≤ j → c.toNat.testBit j = (m a).toNat.testBit j) :
    Sets m (m.blit a 1 fun _ => c) (8 * a + i) n v := by
  intro k
  unfold bit
  by_cases hbyte : k / 8 = a
  · rw [hbyte, blit_of_mem (Nat.le_refl a) (Nat.lt_succ_self a)]
    by_cases hk : 8 * a + i ≤ k ∧ k < 8 * a + i + n
    · rw [if_pos hk, show k % 8 = i + (k - (8 * a + i)) by omega, hset _ (by omega)]
    · rw [if_neg hk, hkeep _ (Nat.mod_lt k (by decide)) (by omega)]
  · rw [blit_of_not_mem (by omega), if_neg (by omega)]

/-- Writing a whole byte. -/
theorem sets_whole {c : UInt8} (h : c.toNat = v % 256) :
    Sets m (m.blit a 1 fun _ => c) (8 * a) 8 v := by
  refine sets_byte (i := 0) (by omega) (fun j hj => ?_) (fun j hj hout => absurd hout (by omega))
  rw [h, show (256 : ℕ) = 2 ^ 8 by rfl, Nat.testBit_mod_two_pow, Nat.zero_add, decide_eq_true hj,
    Bool.true_and]

/-- A number that is written a byte at a time. -/
theorem Sets.byte {c : UInt8} (h : Sets m m' (8 * a) (8 * n) v)
    (hc : c.toNat = v >>> (8 * n) % 256) :
    Sets m (m'.blit (a + n) 1 fun _ => c) (8 * a) (8 * (n + 1)) v := by
  refine h.append ?_
  rw [← Nat.mul_add]
  exact sets_whole hc

end ByteMem
