/-
**`calloc` over the core heap.**

`calloc` multiplies the number of elements by their size in a word of 32 bits, asks for as many
bytes, and clears them.

* `calloc` — the function;
* `represents_calloc` — the block that it returns, if it returns one;
* `calloc_enough_iff` — **when the block has room for the elements**: the product fits in a word, or
  what is left of it is a request that is refused.
-/

import WizioPico.Realloc

set_option relaxedAutoImplicit false
set_option autoImplicit false

namespace Pico.Heap4

open FreeList Tiling Runs

/-- The product of two words. -/
def mulWord (a b : ℕ) : ℕ := a * b % 2 ^ 32

/-- `memset` with zeros. -/
def clear (m : ByteMem) (dst n : ℕ) : ByteMem := m.blit dst n fun _ => 0

/-- **`calloc`**. -/
def calloc (r : Region) (h : Heap) (element size : ℕ) : Option (Heap × ℕ) :=
  let total := mulWord element size
  (malloc r h total).map fun result =>
    if result.2 ≠ 0 then ({ result.1 with mem := clear result.1.mem result.2 total }, result.2)
    else result

/-- **What `calloc` is for**: a null pointer, or a block with as many bytes as the elements have,
all of them zero. -/
def Enough (element size : ℕ) (result : Heap × ℕ) : Prop :=
  result.2 = 0 ∨
    element * size ≤ capacity result.1 result.2 ∧
      ∀ i < element * size, result.1.mem (result.2 + i) = 0

section

variable {r : Region} {s : Session} {bs : List (Block ℕ)}

/-- What an application has requested is in the block, and the block in the heap. -/
theorem Represents.capacity_bounds (hs : Represents r s bs) {e : ℕ × ℕ} (he : e ∈ s.live) :
    e.2 ≤ capacity s.heap e.1 ∧ capacity s.heap e.1 < 2 ^ 32 := by
  obtain ⟨a, w, hl, hea⟩ := hs.exists_block he
  have hroom := (hs.tiled.requests _ hl).2
  have hbounds := lives_bounds hs.tiled.tiles hl
  have hregion := r.bounds
  dsimp only at hroom hbounds
  rw [hea, hs.capacity_eq hl]
  omega

/-- **The block that `calloc` returns**: it is the one that `malloc` returns for the product in a
word, and it is cleared. -/
theorem represents_calloc (hs : Represents r s bs) (element size : ℕ) :
    ∃ h p bs', calloc r s.heap element size = some (h, p) ∧
      Represents r ⟨h, if p = 0 then s.live else (p, mulWord element size) :: s.live⟩ bs' ∧
      (p ≠ 0 ↔ Fits bs (mulWord element size)) ∧
      (p ≠ 0 → ∀ i < mulWord element size, h.mem (p + i) = 0) := by
  have hlt : mulWord element size < 2 ^ 32 := Nat.mod_lt _ (Nat.two_pow_pos 32)
  obtain ⟨h, p, bs', hmalloc, hs', -, hfits⟩ := hs.malloc hlt
  have hmalloc' : malloc r s.heap (mulWord element size) = some (h, p) := hmalloc
  by_cases hp : p = 0
  · refine ⟨h, p, bs', ?_, hs', hfits, fun hne => absurd hp hne⟩
    simp only [calloc, hmalloc', Option.map_some, if_neg (not_not.2 hp)]
  · rw [if_neg hp] at hs'
    have hkept : ∀ x, x < p ∨ p + mulWord element size ≤ x →
        clear h.mem p (mulWord element size) x = h.mem x := fun x hx => ByteMem.blit_of_not_mem hx
    have hzero : ∀ i < mulWord element size, clear h.mem p (mulWord element size) (p + i) = 0 :=
      fun i hi => ByteMem.blit_add hi
    refine ⟨{ h with mem := clear h.mem p (mulWord element size) }, p, bs', ?_, ?_, hfits,
      fun _ => hzero⟩
    · simp only [calloc, hmalloc', Option.map_some, ne_eq, hp, not_false_eq_true, if_true]
    · rw [if_neg hp]
      exact hs'.setMem List.mem_cons_self hkept

end

/-- **When `calloc` returns no block that is smaller than asked for.**  In every state of every
session and for all elements and sizes, exactly if their product fits in a word, or what a word
keeps of it is nothing, or more than any free block has room for. -/
theorem calloc_enough_iff (r : Region) (mem : ByteMem) (s : Session)
    (hreach : Reach (memStep r) (start r mem) s) (element size : UInt32) :
    (∃ result, calloc r s.heap element.toNat size.toNat = some result ∧
        Enough element.toNat size.toNat result) ↔
      element.toNat * size.toNat < 2 ^ 32 ∨
        mulWord element.toNat size.toNat = 0 ∨
        ∃ F, freeList r s.heap = some F ∧
          ∀ c ∈ F, c.2 < blockSize (mulWord element.toNat size.toNat) := by
  obtain ⟨bs, hs⟩ := reach_represents_realloc hreach
  obtain ⟨h, p, bs', hcalloc, hs', hfits, hzero⟩ := represents_calloc hs element.toNat size.toNat
  have hnone : p = 0 ↔ mulWord element.toNat size.toNat = 0 ∨
      ∃ F, freeList r s.heap = some F ∧
        ∀ c ∈ F, c.2 < blockSize (mulWord element.toNat size.toNat) := by
    rcases Nat.eq_zero_or_pos (mulWord element.toNat size.toNat) with hz | hpos
    · exact iff_of_true (by_contra fun hp => Nat.lt_irrefl 0 (hz ▸ (hfits.1 hp).1)) (.inl hz)
    · constructor
      · intro hp
        exact .inr ⟨frees bs, hs.freeList_eq, fun c hc => Nat.lt_of_not_le fun hle =>
          hfits.2 ((hs.fits_iff hpos).2 ⟨_, hs.freeList_eq, c, hc, hle⟩) hp⟩
      · rintro (hz | ⟨F, hF, hall⟩)
        · exact absurd hz (Nat.ne_of_gt hpos)
        · by_contra hp
          obtain ⟨F', hF', c, hc, hle⟩ := (hs.fits_iff hpos).1 (hfits.1 hp)
          cases hF.symm.trans hF'
          exact Nat.not_lt.2 hle (hall c hc)
  rw [← hnone]
  constructor
  · rintro ⟨result, hresult, henough⟩
    cases hcalloc.symm.trans hresult
    rcases henough with hp | ⟨hcapacity, -⟩
    · exact .inr hp
    · by_cases hp : p = 0
      · exact .inr hp
      · rw [if_neg hp] at hs'
        have hbound := (hs'.capacity_bounds List.mem_cons_self).2
        exact .inl (Nat.lt_of_le_of_lt hcapacity hbound)
  · intro hcase
    refine ⟨(h, p), hcalloc, ?_⟩
    by_cases hp : p = 0
    · exact .inl hp
    · rcases hcase with hproduct | hnull
      · have hword : mulWord element.toNat size.toNat = element.toNat * size.toNat :=
          Nat.mod_eq_of_lt hproduct
        rw [hword] at hzero hs'
        rw [if_neg hp] at hs'
        exact .inr ⟨(hs'.capacity_bounds List.mem_cons_self).1, hzero hp⟩
      · exact absurd hnull hp

/-- Three elements of 5 bytes, in a new heap. -/
theorem calloc_enough_three : ∃ result,
    calloc smallRegion (start smallRegion fun _ => 0xff).heap 3 5 = some result ∧
      Enough 3 5 result :=
  (calloc_enough_iff smallRegion (fun _ => 0xff) _ (Reach.refl _ _) 3 5).2 (.inl (by decide))

/-- **`calloc` returns a block that is smaller than asked for**: in a word, 134217729
elements of 32 bytes are 32 bytes. -/
theorem calloc_too_small :
    ¬∃ result, calloc smallRegion (start smallRegion fun _ => 0xff).heap
        (134217729 : UInt32).toNat (32 : UInt32).toNat = some result ∧
      Enough (134217729 : UInt32).toNat (32 : UInt32).toNat result := by
  rintro ⟨result, hresult, henough⟩
  have hrun : (calloc smallRegion (start smallRegion fun _ => 0xff).heap
      (134217729 : UInt32).toNat (32 : UInt32).toNat).map
        (fun result => (result.2, capacity result.1 result.2)) = some (0x20008010, 32) := by
    decide +kernel
  rw [hresult] at hrun
  obtain ⟨hnew, hcapacity⟩ : result.2 = 0x20008010 ∧ capacity result.1 result.2 = 32 := by
    simpa only [Option.map_some, Option.some.injEq, Prod.mk.injEq] using hrun
  rcases henough with hnull | ⟨hle, -⟩
  · rw [hnew] at hnull
    cases hnull
  · rw [hcapacity] at hle
    revert hle
    decide

end Pico.Heap4
