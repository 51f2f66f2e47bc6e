/-
**Byte memories.**

A memory is a function from addresses to bytes.  Everything that C code does to one is an
overwriting of a range: `memset`, `memcpy`, the store of a word, and the erase and program
operations of a flash chip differ only in what they write.  So there is one operation,
`ByteMem.blit`, with two lemmas — inside the range and outside of it — and everything else is
derived from them.

* `ByteMem.blit` — overwriting the bytes of a range;
* `ByteMem.readWord`, `ByteMem.writeWord` — little-endian 32-bit words;
* `ByteMem.readWord_writeWord`, `ByteMem.readWord_writeWord_of_disjoint` — reading a word back,
  and reading another one.
-/

import Mathlib.Algebra.Group.Nat.Defs
import Mathlib.Data.Nat.Basic
import Mathlib.Tactic.Common

set_option relaxedAutoImplicit false
set_option autoImplicit false

/-- A byte memory. -/
abbrev ByteMem := ℕ → UInt8

namespace ByteMem

/-! ### Overwriting a range -/

/-- Overwriting the `n` bytes from address `a` on: the byte at `a + i` becomes `f i`. -/
def blit (m : ByteMem) (a n : ℕ) (f : ℕ → UInt8) : ByteMem := fun x =>
  if a ≤ x ∧ x < a + n then f (x - a) else m x

theorem blit_of_mem {m : ByteMem} {a n x : ℕ} {f : ℕ → UInt8} (h : a ≤ x) (h' : x < a + n) :
    m.blit a n f x = f (x - a) := if_pos ⟨h, h'⟩

theorem blit_of_not_mem {m : ByteMem} {a n x : ℕ} {f : ℕ → UInt8} (h : x < a ∨ a + n ≤ x) :
    m.blit a n f x = m x := if_neg (by omega)

/-- The byte at a given place of the overwritten range. -/
theorem blit_add {m : ByteMem} {a n i : ℕ} {f : ℕ → UInt8} (h : i < n) :
    m.blit a n f (a + i) = f i := by
  rw [blit_of_mem (by omega) (by omega), Nat.add_sub_cancel_left]

@[simp] theorem blit_zero (m : ByteMem) (a : ℕ) (f : ℕ → UInt8) : m.blit a 0 f = m := by
  funext x
  exact blit_of_not_mem (by omega)

/-- A byte behind a run of bytes. -/
theorem blit_concat (m : ByteMem) (a : ℕ) (l : List UInt8) (b : UInt8) :
    (m.blit a l.length fun i => l.getD i 0).blit (a + l.length) 1 (fun _ => b) =
      m.blit a (l ++ [b]).length fun i => (l ++ [b]).getD i 0 := by
  funext x
  rw [List.length_append, List.length_singleton]
  by_cases hlast : x = a + l.length
  · subst hlast
    rw [blit_of_mem (Nat.le_refl _) (Nat.lt_succ_self _),
      blit_of_mem (Nat.le_add_right _ _) (Nat.lt_succ_self _), Nat.add_sub_cancel_left]
    simp
  · rw [blit_of_not_mem (by omega)]
    by_cases hin : a ≤ x ∧ x < a + l.length
    · rw [blit_of_mem hin.1 hin.2, blit_of_mem hin.1 (by omega), List.getD_eq_getElem?_getD,
        List.getD_eq_getElem?_getD, List.getElem?_append_left (by omega)]
    · rw [blit_of_not_mem (by omega), blit_of_not_mem (by omega)]

/-- What a run of bytes leaves tells which bytes they were. -/
theorem blit_inj {m : ByteMem} {a n : ℕ} {l l' : List UInt8} (hl : l.length = n)
    (hl' : l'.length = n) (h : (m.blit a n fun i => l.getD i 0) = m.blit a n fun i => l'.getD i 0) :
    l = l' := by
  refine List.ext_getElem (hl.trans hl'.symm) fun i hi hi' => ?_
  have hat := congrFun h (a + i)
  rwa [blit_add (hl ▸ hi), blit_add (hl ▸ hi), List.getD_eq_getElem?_getD,
    List.getD_eq_getElem?_getD, List.getElem?_eq_getElem hi, List.getElem?_eq_getElem hi'] at hat

/-- A run of bytes behind a byte. -/
theorem blit_cons (m : ByteMem) (a n : ℕ) (b : UInt8) (l : List UInt8) :
    (m.blit a 1 fun _ => b).blit (a + 1) n (fun i => l.getD i 0) =
      m.blit a (n + 1) fun i => (b :: l).getD i 0 := by
  funext x
  by_cases hfirst : x = a
  · subst hfirst
    rw [blit_of_not_mem (.inl (Nat.lt_succ_self _)), blit_of_mem (Nat.le_refl _) (by omega),
      blit_of_mem (Nat.le_refl _) (by omega), Nat.sub_self]
    rfl
  · by_cases hin : a + 1 ≤ x ∧ x < a + 1 + n
    · obtain ⟨i, rfl⟩ := Nat.exists_eq_add_of_le hin.1
      rw [blit_of_mem hin.1 hin.2, blit_of_mem (by omega) (by omega), Nat.add_sub_cancel_left,
        Nat.add_assoc, Nat.add_sub_cancel_left, Nat.add_comm 1 i]
      rfl
    · rw [blit_of_not_mem (by omega), blit_of_not_mem (by omega), blit_of_not_mem (by omega)]

/-! ### Words -/

/-- The little-endian word at address `a`. -/
def readWord (m : ByteMem) (a : ℕ) : ℕ :=
  (m a).toNat + 256 * (m (a + 1)).toNat + 65536 * (m (a + 2)).toNat
    + 16777216 * (m (a + 3)).toNat

/-- Storing a word at address `a`, little-endian. -/
def writeWord (m : ByteMem) (a v : ℕ) : ByteMem :=
  m.blit a 4 fun i => UInt8.ofNat (v / 256 ^ i)

theorem readWord_lt (m : ByteMem) (a : ℕ) : m.readWord a < 2 ^ 32 := by
  have h₀ := (m a).toNat_lt
  have h₁ := (m (a + 1)).toNat_lt
  have h₂ := (m (a + 2)).toNat_lt
  have h₃ := (m (a + 3)).toNat_lt
  unfold readWord
  omega

/-- A word is read off its four bytes. -/
theorem readWord_congr {m m' : ByteMem} {a : ℕ} (h : ∀ i < 4, m' (a + i) = m (a + i)) :
    m'.readWord a = m.readWord a := by
  have h₀ := h 0 (by omega)
  rw [Nat.add_zero] at h₀
  unfold readWord
  rw [h₀, h 1 (by omega), h 2 (by omega), h 3 (by omega)]

/-- Reading back the word that was just stored. -/
theorem readWord_writeWord (m : ByteMem) (a v : ℕ) :
    (m.writeWord a v).readWord a = v % 2 ^ 32 := by
  have h₀ := blit_add (m := m) (a := a) (n := 4) (i := 0)
    (f := fun i => UInt8.ofNat (v / 256 ^ i)) (by omega)
  rw [Nat.add_zero] at h₀
  unfold readWord writeWord
  rw [h₀, blit_add (by omega), blit_add (by omega), blit_add (by omega)]
  simp only [UInt8.toNat_ofNat']
  omega

/-- The bytes outside the word that is stored. -/
theorem writeWord_of_not_mem {m : ByteMem} {a v x : ℕ} (h : x < a ∨ a + 4 ≤ x) :
    m.writeWord a v x = m x := blit_of_not_mem h

/-- Storing a word leaves the words that do not overlap it alone. -/
theorem readWord_writeWord_of_disjoint {m : ByteMem} {a b v : ℕ} (h : a + 4 ≤ b ∨ b + 4 ≤ a) :
    (m.writeWord b v).readWord a = m.readWord a :=
  readWord_congr fun _ _ => writeWord_of_not_mem (by omega)

end ByteMem
