/-
**The blocks of the core heap.**

`Tiled r h bs` says that the blocks `bs` are those of the heap `h`: they tile the region between its
aligned start and `pxEnd`, no two free ones touch, the list of free blocks in the memory is that of
the free ones, and the other ones have the header that `pvPortMalloc` gives a block.  The owner of a
block is the size that was requested for it.

The three operations keep the heap tiled.  None of them writes to anything but `xStart` and blocks
that are free before or after it.

* `Tiled` — the blocks of a heap;
* `ChangesFree` — the memories agree but for `xStart` and the free blocks;
* `tiled_prvHeapInit`, `Tiled.malloc_of_fits`, `Tiled.malloc_of_not_fits`, `Tiled.free` — what
  the operations do to the blocks.
-/

import Mathlib.Data.Nat.Bitwise
import WizioPico.Heap4

set_option relaxedAutoImplicit false
set_option autoImplicit false

namespace Pico.Heap4

open FreeList Tiling

/-! ### The region -/

theorem Region.ucHeapSize_eq (r : Region) : r.ucHeapSize = r.ucHeapEnd - r.ucHeap := by
  have := r.room
  exact subWord_eq r.address (by omega)

/-- The first address of the heap that is aligned. -/
theorem Region.pucAlignedHeap_spec (r : Region) :
    r.ucHeap ≤ r.pucAlignedHeap ∧ r.pucAlignedHeap ≤ r.ucHeap + 7 ∧ 8 ∣ r.pucAlignedHeap := by
  have hroom := r.room
  have haddress := r.address
  unfold pucAlignedHeap misaligned alignDown misaligned portBYTE_ALIGNMENT
  rw [addWord_eq (by omega)]
  split_ifs <;> omega

/-- `pxEnd` is the last aligned address with room for a header. -/
theorem Region.endAddress_spec (r : Region) :
    r.endAddress + 8 ≤ r.ucHeapEnd ∧ r.ucHeapEnd < r.endAddress + 16 ∧ 8 ∣ r.endAddress := by
  have hroom := r.room
  have haddress := r.address
  obtain ⟨hle, hge, -⟩ := r.pucAlignedHeap_spec
  have hend : addWord r.pucAlignedHeap r.xTotalHeapSize = r.ucHeapEnd := by
    unfold xTotalHeapSize
    have hskip : subWord r.pucAlignedHeap r.ucHeap = r.pucAlignedHeap - r.ucHeap :=
      subWord_eq (by omega) hle
    rw [r.ucHeapSize_eq, hskip, subWord_eq (by omega) (by omega)]
    by_cases h : misaligned r.ucHeap ≠ 0
    · rw [if_pos h, addWord_eq (by omega)]
      omega
    · have heq : r.pucAlignedHeap = r.ucHeap := if_neg h
      rw [if_neg h, heq, addWord_eq (by omega)]
      omega
  unfold endAddress alignDown misaligned portBYTE_ALIGNMENT xHeapStructSize
  rw [hend, subWord_eq haddress (by omega)]
  omega

/-- What the bounds of the region come down to. -/
theorem Region.bounds (r : Region) :
    0 < r.pucAlignedHeap ∧ r.pucAlignedHeap + 8 ≤ r.endAddress ∧
      r.endAddress < r.pucAlignedHeap + 2 ^ 31 ∧ r.endAddress + 8 < 2 ^ 32 ∧
      (r.xStart + 8 ≤ r.pucAlignedHeap ∨ r.endAddress + 8 ≤ r.xStart) ∧
      r.endAddress + 2 ≤ r.pucAlignedHeap + r.fuel := by
  have hpos := r.pos
  have hroom := r.room
  have hsmall := r.small
  have haddress := r.address
  have houtside := r.outside
  obtain ⟨hle, hge, hdvd⟩ := r.pucAlignedHeap_spec
  obtain ⟨hend, hend', hdvd'⟩ := r.endAddress_spec
  unfold fuel
  rw [r.ucHeapSize_eq]
  omega

/-! ### The blocks of a heap -/

/-- **The blocks of a heap.** -/
structure Tiled (r : Region) (h : Heap) (bs : List (Block ℕ)) : Prop where
  tiles : Tiles 8 r.pucAlignedHeap bs r.endAddress
  coalesced : Coalesced bs
  nodes : Nodes h.mem ((r.xStart, 0) :: frees bs) r.endAddress
  endMark : next h.mem r.endAddress = 0
  headers : ∀ l ∈ lives bs, size h.mem l.1 = 2 ^ 31 + l.2.1 ∧ next h.mem l.1 = 0
  requests : ∀ l ∈ lives bs, 0 < l.2.2 ∧ l.2.2 + 8 ≤ l.2.1
  pxEnd : h.pxEnd = r.endAddress
  remaining : h.xFreeBytesRemaining = total (frees bs)
  bit : h.xBlockAllocatedBit = 2 ^ 31

/-- A free block has room for a header. -/
theorem frees_bounds {r : Region} {bs : List (Block ℕ)}
    (h : Tiles 8 r.pucAlignedHeap bs r.endAddress) {c : ℕ × ℕ} (hc : c ∈ frees bs) :
    r.pucAlignedHeap ≤ c.1 ∧ 8 ≤ c.2 ∧ c.1 + c.2 ≤ r.endAddress ∧ 8 ∣ c.1 ∧ 8 ∣ c.2 := by
  obtain ⟨hlo, hpos, hhi⟩ := h.frees_bounds hc
  obtain ⟨haddr, hsize⟩ := h.dvd r.pucAlignedHeap_spec.2.2 (mem_frees.1 hc)
  dsimp only at haddr hsize
  exact ⟨hlo, Nat.le_of_dvd hpos hsize, hhi, haddr, hsize⟩

theorem lives_bounds {r : Region} {bs : List (Block ℕ)}
    (h : Tiles 8 r.pucAlignedHeap bs r.endAddress) {l : ℕ × ℕ × ℕ} (hl : l ∈ lives bs) :
    r.pucAlignedHeap ≤ l.1 ∧ 8 ≤ l.2.1 ∧ l.1 + l.2.1 ≤ r.endAddress ∧ 8 ∣ l.1 := by
  obtain ⟨hlo, hpos, hhi⟩ := h.bounds (mem_lives.1 hl)
  obtain ⟨haddr, hsize⟩ := h.dvd r.pucAlignedHeap_spec.2.2 (mem_lives.1 hl)
  dsimp only at hlo hpos hhi haddr hsize
  exact ⟨hlo, Nat.le_of_dvd hpos hsize, hhi, haddr⟩

/-- The headers of the list of free blocks do not overlap. -/
theorem frees_apart {r : Region} {bs : List (Block ℕ)}
    (h : Tiles 8 r.pucAlignedHeap bs r.endAddress) :
    ((r.xStart, 0) :: frees bs).Pairwise fun c d => Apart c.1 d.1 := by
  refine List.pairwise_cons.2 ⟨fun c hc => ?_, ?_⟩
  · obtain ⟨-, -, -, -, houtside, -⟩ := r.bounds
    have := frees_bounds h hc
    unfold Apart
    dsimp only
    omega
  · have hpair : (frees bs).Pairwise fun c d => c.1 + c.2 ≤ d.1 := by
      refine h.pairwise.filterMap _ fun b c hbc d hd e he => ?_
      obtain ⟨b₁, b₂, _ | o⟩ := b
      · obtain ⟨c₁, c₂, _ | o⟩ := c
        · cases hd
          cases he
          exact hbc
        · cases he
      · cases hd
    refine hpair.imp_of_mem fun hc hd hcd => ?_
    have := frees_bounds h hc
    exact Or.inl (by omega)

/-! ### What an operation changes -/

/-- The memories agree but for `xStart` and the free blocks. -/
def ChangesFree (r : Region) (bs : List (Block ℕ)) (m m' : ByteMem) : Prop :=
  ∀ x, (x < r.xStart ∨ r.xStart + 8 ≤ x) → (∀ c ∈ frees bs, x < c.1 ∨ c.1 + c.2 ≤ x) → m' x = m x

/-- The header at `p` is `xStart` or in a free block. -/
def Scratch (r : Region) (bs : List (Block ℕ)) (p : ℕ) : Prop :=
  p = r.xStart ∨ ∃ c ∈ frees bs, c.1 ≤ p ∧ p + 8 ≤ c.1 + c.2

theorem ChangesFree.trans {r : Region} {bs : List (Block ℕ)} {m m' m'' : ByteMem}
    (h : ChangesFree r bs m m') (h' : ChangesFree r bs m' m'') : ChangesFree r bs m m'' :=
  fun x hx hfree => (h' x hx hfree).trans (h x hx hfree)

theorem changesFree_of_sameExcept {r : Region} {bs : List (Block ℕ)} {ps : List ℕ}
    {m m' : ByteMem} (h : SameExcept ps m m') (hps : ∀ p ∈ ps, Scratch r bs p) :
    ChangesFree r bs m m' := fun x hx hfree => h x fun p hp => by
  rcases hps p hp with rfl | ⟨c, hc, hcp, hpc⟩
  · exact hx
  · have := hfree c hc
    omega

/-- The headers at which the iterator of an insertion can be. -/
theorem scratch_of_mem {r : Region} {A B : List (Block ℕ)} {p : ℕ}
    (h : Tiles 8 r.pucAlignedHeap (A ++ B) r.endAddress)
    (hp : p ∈ r.xStart :: (frees A).map Prod.fst) : Scratch r (A ++ B) p := by
  rcases List.mem_cons.1 hp with rfl | hp
  · exact Or.inl rfl
  · obtain ⟨c, hc, rfl⟩ := List.mem_map.1 hp
    have hc' : c ∈ frees (A ++ B) := by
      rw [frees_append]
      exact List.mem_append_left _ hc
    have := frees_bounds h hc'
    exact Or.inr ⟨c, hc', Nat.le_refl _, by omega⟩

section

variable {r : Region} {bs : List (Block ℕ)} {m m' : ByteMem}

/-- **No byte of a live block changes.** -/
theorem ChangesFree.live (h : ChangesFree r bs m m')
    (ht : Tiles 8 r.pucAlignedHeap bs r.endAddress) {l : ℕ × ℕ × ℕ} (hl : l ∈ lives bs) {x : ℕ}
    (hx : l.1 ≤ x) (hx' : x < l.1 + l.2.1) : m' x = m x := by
  obtain ⟨-, -, -, -, houtside, -⟩ := r.bounds
  have hbounds := lives_bounds ht hl
  refine h x (by omega) fun c hc => ?_
  have := ht.frees_lives_disjoint hc hl
  omega

/-- No header of a live block changes. -/
theorem ChangesFree.live_header (h : ChangesFree r bs m m')
    (ht : Tiles 8 r.pucAlignedHeap bs r.endAddress) {l : ℕ × ℕ × ℕ} (hl : l ∈ lives bs) :
    size m' l.1 = size m l.1 ∧ next m' l.1 = next m l.1 := by
  have hbounds := lives_bounds ht hl
  exact header_congr fun x hx hx' => h.live ht hl hx (by omega)

/-- The mark at the end of the heap does not change. -/
theorem ChangesFree.endMark (h : ChangesFree r bs m m')
    (ht : Tiles 8 r.pucAlignedHeap bs r.endAddress) :
    next m' r.endAddress = next m r.endAddress := by
  obtain ⟨-, hroom, -, -, houtside, -⟩ := r.bounds
  refine ByteMem.readWord_congr fun i hi => h _ (by omega) fun c hc => ?_
  have := frees_bounds ht hc
  omega

end

/-! ### Initialisation -/

/-- **The heap begins as one free block.** -/
theorem tiled_prvHeapInit (r : Region) (h : Heap) :
    Tiled r (prvHeapInit r h) [⟨r.pucAlignedHeap, r.endAddress - r.pucAlignedHeap, none⟩] := by
  obtain ⟨-, hroom, hsmall, haddress, houtside, -⟩ := r.bounds
  have hlo : 8 ∣ r.pucAlignedHeap := r.pucAlignedHeap_spec.2.2
  have hhi : 8 ∣ r.endAddress := r.endAddress_spec.2.2
  have hsub : subWord r.endAddress r.pucAlignedHeap = r.endAddress - r.pucAlignedHeap :=
    subWord_eq (by omega) (by omega)
  -- the three headers, in the order in which they are written
  let m₁ := setSize (setNext h.mem r.xStart r.pucAlignedHeap) r.xStart 0
  let m₂ := setNext (setSize m₁ r.endAddress 0) r.endAddress 0
  let m₃ := setNext (setSize m₂ r.pucAlignedHeap (r.endAddress - r.pucAlignedHeap))
    r.pucAlignedHeap r.endAddress
  have hmem : (prvHeapInit r h).mem = m₃ := by
    rw [prvHeapInit, hsub]
  have hsame₂ : SameExcept [r.endAddress] m₁ m₂ :=
    (sameExcept_setSize List.mem_cons_self _ _).trans (sameExcept_setNext List.mem_cons_self _ _)
  have hsame₃ : SameExcept [r.pucAlignedHeap] m₂ m₃ :=
    (sameExcept_setSize List.mem_cons_self _ _).trans (sameExcept_setNext List.mem_cons_self _ _)
  have hstart₂ : ∀ p ∈ [r.endAddress], Apart r.xStart p := by
    simpa using show Apart r.xStart r.endAddress by unfold Apart; omega
  have hstart₃ : ∀ p ∈ [r.pucAlignedHeap], Apart r.xStart p := by
    simpa using show Apart r.xStart r.pucAlignedHeap by unfold Apart; omega
  have hend₃ : ∀ p ∈ [r.pucAlignedHeap], Apart r.endAddress p := by
    simpa using show Apart r.endAddress r.pucAlignedHeap by unfold Apart; omega
  have hsize : size m₃ r.pucAlignedHeap = r.endAddress - r.pucAlignedHeap := by
    rw [size_setNext, size_setSize, Nat.mod_eq_of_lt (by omega)]
  constructor
  · refine ⟨rfl, ⟨?_, ?_⟩, ?_⟩
    · dsimp only
      omega
    · exact Nat.dvd_sub hhi hlo
    · exact Nat.add_sub_cancel' (by omega)
  · exact List.isChain_singleton _
  · rw [hmem, frees_cons_free, frees_nil]
    refine ⟨?_, ?_, hsize, ?_, trivial⟩
    · rw [hsame₃.size_eq hstart₃, hsame₂.size_eq hstart₂, size_setSize, Nat.zero_mod]
    · rw [hsame₃.next_eq hstart₃, hsame₂.next_eq hstart₂, next_setSize, next_setNext,
        Nat.mod_eq_of_lt (by omega), headAddr]
    · rw [next_setNext, Nat.mod_eq_of_lt (by omega), headAddr]
  · rw [hmem, hsame₃.next_eq hend₃, next_setNext, Nat.zero_mod]
  · exact fun l hl => absurd hl List.not_mem_nil
  · exact fun l hl => absurd hl List.not_mem_nil
  · rfl
  · have hrem : (prvHeapInit r h).xFreeBytesRemaining =
        size (prvHeapInit r h).mem r.pucAlignedHeap := rfl
    rw [hrem, hmem, hsize, frees_cons_free, frees_nil, total_cons, total_nil, Nat.add_zero]
  · rfl

/-- The first request initialises the heap. -/
theorem pvPortMalloc_reset (r : Region) (mem : ByteMem) (n : ℕ) :
    pvPortMalloc r (Heap.reset mem) n = pvPortMalloc r (prvHeapInit r (Heap.reset mem)) n := by
  have hend : (prvHeapInit r (Heap.reset mem)).pxEnd ≠ 0 := by
    have := r.bounds
    rw [(tiled_prvHeapInit r _).pxEnd]
    omega
  rw [pvPortMalloc, pvPortMalloc, if_neg hend]
  rfl

/-! ### Freeing -/

/-- The bit of a word that says that a block belongs to the application. -/
theorem and_bit_eq_zero {n : ℕ} (h : n < 2 ^ 32) : n &&& 2 ^ 31 = 0 ↔ n < 2 ^ 31 := by
  rw [Nat.and_two_pow, Nat.testBit_eq_decide_div_mod_eq]
  by_cases hn : n < 2 ^ 31
  · rw [Nat.div_eq_of_lt hn]
    simpa using hn
  · have hdiv : n / 2 ^ 31 % 2 = 1 := by omega
    rw [hdiv]
    simpa using hn

theorem or_bit {n : ℕ} (h : n < 2 ^ 31) : n ||| 2 ^ 31 = 2 ^ 31 + n := by
  have := Nat.two_pow_add_eq_or_of_lt h 1
  rw [Nat.mul_one] at this
  rw [Nat.or_comm, this]

/-- Inserting a block of a tiling into the list of the free blocks on either side of it. -/
theorem insert_spec {r : Region} {m : ByteMem} {A B : List (Block ℕ)} {a s : ℕ} {o : Option ℕ}
    (ht : Tiles 8 r.pucAlignedHeap (A ++ ⟨a, s, o⟩ :: B) r.endAddress)
    (hnodes : Nodes m ((r.xStart, 0) :: frees A ++ frees B) r.endAddress) (hsize : size m a = s) :
    ∃ m' it, prvInsertBlockIntoFreeList r m r.endAddress a = some m' ∧
      it ∈ r.xStart :: (frees A).map Prod.fst ∧ SameExcept [it, a] m m' ∧
      a + size m' a ≤ r.endAddress ∧
      Nodes m' ((r.xStart, 0) :: insertSpan (frees A) (a, s) (frees B)) r.endAddress := by
  obtain ⟨-, -, -, haddress, -, hfuel⟩ := r.bounds
  obtain ⟨hA, -, hB⟩ := tiles_append_cons.1 ht
  have hapart := frees_apart (ht.setOwner none)
  have hlength := hA.total_frees_le.2
  have hle := hB.le
  rw [frees_append, frees_cons_free] at hapart
  dsimp only at hA hB hlength hle
  refine prvInsertBlockIntoFreeList_spec hnodes hsize hapart (fun c hc => ?_) (fun c hc => ?_)
    hle (by omega) (by omega)
  · have := hA.frees_bounds hc
    omega
  · have := hB.frees_bounds hc
    omega

/-- What `vPortFree` does with a block that belongs to the application. -/
theorem vPortFree_eq {r : Region} {h : Heap} {a s : ℕ} (hbit : h.xBlockAllocatedBit = 2 ^ 31)
    (hsize : size h.mem a = 2 ^ 31 + s) (hnext : next h.mem a = 0) (hs : s < 2 ^ 31)
    (ha : a + 8 < 2 ^ 32) :
    vPortFree r h (a + 8) =
      (prvInsertBlockIntoFreeList r (setSize h.mem a s) h.pxEnd a).map fun mem =>
        { h with
          mem := mem
          xFreeBytesRemaining := addWord h.xFreeBytesRemaining s
          xNumberOfSuccessfulFrees := addWord h.xNumberOfSuccessfulFrees 1 } := by
  have hlink : subWord (a + 8) xHeapStructSize = a := by
    unfold xHeapStructSize
    rw [subWord_eq (by omega) (by omega), Nat.add_sub_cancel]
  have hset : size h.mem a &&& h.xBlockAllocatedBit ≠ 0 := by
    rw [hbit, hsize, Ne, and_bit_eq_zero (by omega)]
    omega
  have hmask : size h.mem a &&& (2 ^ 32 - 1 - h.xBlockAllocatedBit) = s := by
    have hones : 2 ^ 32 - 1 - 2 ^ 31 = 2 ^ 31 - 1 := by omega
    rw [hbit, hsize, hones, Nat.and_two_pow_sub_one_eq_mod]
    omega
  rw [vPortFree, if_pos (Nat.succ_ne_zero (a + 7)), hlink, if_pos ⟨hset, hnext⟩, hmask]
  dsimp only
  rw [size_setSize, Nat.mod_eq_of_lt (by omega)]

/-- The memory after a live block has been released. -/
theorem Tiled.release_mem {r : Region} {h : Heap} {a s n : ℕ} {A B : List (Block ℕ)}
    (ht : Tiled r h (A ++ ⟨a, s, some n⟩ :: B)) :
    ∃ m', prvInsertBlockIntoFreeList r (setSize h.mem a s) r.endAddress a = some m' ∧
      ChangesFree r (A ++ ⟨a, s, none⟩ :: B) h.mem m' ∧
      (∀ x, a + 8 ≤ x → x < a + s → m' x = h.mem x) ∧ a + size m' a ≤ r.endAddress ∧
      Nodes m' ((r.xStart, 0) :: frees (release A a s B)) r.endAddress := by
  obtain ⟨-, -, hsmall, haddress, houtside, -⟩ := r.bounds
  have htiles := ht.tiles.setOwner none
  obtain ⟨hlo, hs, hhi, -⟩ := lives_bounds ht.tiles (l := (a, s, n)) (by simp)
  dsimp only at hlo hs hhi
  have hnodes := ht.nodes
  rw [frees_append, frees_cons_live, ← List.cons_append] at hnodes
  have hsame₁ : SameExcept [a] h.mem (setSize h.mem a s) :=
    sameExcept_setSize List.mem_cons_self _ _
  have hsize₁ : size (setSize h.mem a s) a = s := by
    rw [size_setSize, Nat.mod_eq_of_lt (by omega)]
  have hapart : ∀ c ∈ (r.xStart, 0) :: frees A ++ frees B, ∀ p ∈ [a], Apart c.1 p := by
    have := frees_apart htiles
    rw [frees_append, frees_cons_free, ← List.cons_append] at this
    simpa using apart_of_pairwise this
  obtain ⟨m', it, hinsert, hit, hsame', hclear, hnodes'⟩ :=
    insert_spec ht.tiles (hnodes.frame hsame₁ hapart) hsize₁
  have hsame : SameExcept [it, a] h.mem m' := (hsame₁.mono (by simp)).trans hsame'
  have hscratch : Scratch r (A ++ ⟨a, s, none⟩ :: B) it := scratch_of_mem htiles hit
  refine ⟨m', hinsert, changesFree_of_sameExcept hsame fun p hp => ?_, fun x hx hx' => ?_, hclear,
    ?_⟩
  · rcases List.mem_cons.1 hp with rfl | hp
    · exact hscratch
    · rw [List.mem_singleton.1 hp]
      exact Or.inr ⟨(a, s), by simp, Nat.le_refl _, by dsimp only; omega⟩
  · -- the payload lies behind the header of the block, and no other free block overlaps it
    refine hsame x fun p hp => ?_
    rcases List.mem_cons.1 hp with rfl | hp
    · rcases List.mem_cons.1 hit with rfl | hit
      · omega
      · obtain ⟨c, hc, rfl⟩ := List.mem_map.1 hit
        have hc' : c ∈ frees (A ++ ⟨a, s, some n⟩ :: B) := by
          rw [frees_append]
          exact List.mem_append_left _ hc
        have := frees_bounds ht.tiles hc'
        have := ht.tiles.frees_lives_disjoint hc' (l := (a, s, n)) (by simp)
        dsimp only at this
        omega
    · rw [List.mem_singleton.1 hp]
      exact Or.inr hx
  · rwa [(release_spec ht.tiles ht.coalesced).2.2.2]

/-- **Freeing a live block** releases it. -/
theorem Tiled.free {r : Region} {h : Heap} {bs : List (Block ℕ)} (ht : Tiled r h bs)
    {a s n : ℕ} (hl : (a, s, n) ∈ lives bs) :
    ∃ h' bs', vPortFree r h (a + 8) = some h' ∧ Tiled r h' bs' ∧
      (lives bs).Perm ((a, s, n) :: lives bs') ∧
      (∀ l ∈ lives bs', ∀ x, l.1 ≤ x → x < l.1 + l.2.1 → h'.mem x = h.mem x) ∧
      (∀ x, a + 8 ≤ x → x < a + s → h'.mem x = h.mem x) ∧ size h'.mem a < 2 ^ 31 := by
  obtain ⟨-, -, hsmall, haddress, -, -⟩ := r.bounds
  have hbounds := lives_bounds ht.tiles hl
  obtain ⟨hsize, hnext⟩ := ht.headers _ hl
  dsimp only at hbounds hsize hnext
  obtain ⟨A, B, rfl⟩ := exists_of_mem_lives hl
  have htiles := ht.tiles.setOwner none
  obtain ⟨m', hinsert, hchange, hpayload, hclear, hnodes⟩ := ht.release_mem
  obtain ⟨htiles', hcoal', hlives', hfrees'⟩ := release_spec ht.tiles ht.coalesced
  have hlives : ∀ l ∈ lives (release A a s B), l ∈ lives (A ++ ⟨a, s, none⟩ :: B) := by
    rw [hlives', lives_append, lives_cons_free]
    exact fun l => id
  have hlives₀ : ∀ l ∈ lives (release A a s B), l ∈ lives (A ++ ⟨a, s, some n⟩ :: B) := by
    rw [hlives', lives_append, lives_cons_live]
    exact fun l hl => (List.Sublist.append_left (List.sublist_cons_self _ _) _).subset hl
  have hadd : addWord h.xFreeBytesRemaining s = total (frees (release A a s B)) := by
    have hle := htiles'.total_frees_le.1
    have htotal : total (frees (release A a s B)) = h.xFreeBytesRemaining + s := by
      rw [hfrees', total_insertSpan, ht.remaining, frees_append, frees_cons_live, total_append]
      omega
    rw [htotal, addWord_eq (by omega)]
  have hfree : vPortFree r h (a + 8) = some
      { h with
        mem := m'
        xFreeBytesRemaining := addWord h.xFreeBytesRemaining s
        xNumberOfSuccessfulFrees := addWord h.xNumberOfSuccessfulFrees 1 } := by
    rw [vPortFree_eq ht.bit hsize hnext (by omega) (by omega), ht.pxEnd, hinsert]
    rfl
  refine ⟨_, release A a s B, hfree,
    ⟨htiles', hcoal', hnodes, ?_, ?_, ?_, ht.pxEnd, hadd, ht.bit⟩, ?_, ?_, hpayload, ?_⟩
  · exact (hchange.endMark htiles).trans ht.endMark
  · intro l hl
    obtain ⟨hsize', hnext'⟩ := hchange.live_header htiles (hlives l hl)
    obtain ⟨hsize₀, hnext₀⟩ := ht.headers l (hlives₀ l hl)
    exact ⟨hsize'.trans hsize₀, hnext'.trans hnext₀⟩
  · exact fun l hl => ht.requests l (hlives₀ l hl)
  · rw [hlives', lives_append, lives_cons_live]
    exact List.perm_middle
  · exact fun l hl x hx hx' => hchange.live htiles (hlives l hl) hx hx'
  · dsimp only
    omega

/-! ### Allocating -/

/-- The memory after the rest of a free block has been split off and inserted. -/
theorem split_mem {r : Region} {m : ByteMem} {A B : List (Block ℕ)} {a s w : ℕ}
    (ht : Tiles 8 r.pucAlignedHeap (A ++ ⟨a, s, none⟩ :: B) r.endAddress)
    (hc : Coalesced (A ++ ⟨a, s, none⟩ :: B))
    (hnodes : Nodes m ((r.xStart, 0) :: frees A ++ frees B) r.endAddress)
    (hw : 8 ≤ w) (hdvd : 8 ∣ w) (hws : w + 8 ≤ s) :
    ∃ m', prvInsertBlockIntoFreeList r (setSize (setSize m (a + w) (s - w)) a w) r.endAddress
        (a + w) = some m' ∧ size m' a = w ∧ ChangesFree r (A ++ ⟨a, s, none⟩ :: B) m m' ∧
      Nodes m' ((r.xStart, 0) :: (frees A ++ (a + w, s - w) :: frees B)) r.endAddress := by
  obtain ⟨-, -, hsmall, haddress, -, -⟩ := r.bounds
  obtain ⟨hlo, -, hhi, -, -⟩ := frees_bounds ht (c := (a, s)) (by simp)
  dsimp only at hlo hhi
  -- the two blocks, as the neighbours that they now are
  have htiles := (split_spec (o := 0) ht hc (by omega) hdvd (by omega)).1
  rw [List.append_cons] at htiles
  have hfront : frees (A ++ [⟨a, w, some 0⟩]) = frees A := by simp
  have hapart : ∀ c ∈ (r.xStart, 0) :: frees A ++ frees B, Apart c.1 a := by
    have := frees_apart ht
    rw [frees_append, frees_cons_free, ← List.cons_append] at this
    exact apart_of_pairwise this
  have hapart' : ∀ c ∈ (r.xStart, 0) :: frees A ++ frees B, Apart c.1 (a + w) := by
    have := frees_apart htiles
    rw [frees_append, hfront, frees_cons_free, ← List.cons_append] at this
    exact apart_of_pairwise this
  have hrest : Apart (a + w) a := Or.inr (by omega)
  -- their sizes are written, that of the rest first
  let m₁ := setSize (setSize m (a + w) (s - w)) a w
  have hsame₁ : SameExcept [a] (setSize m (a + w) (s - w)) m₁ :=
    sameExcept_setSize List.mem_cons_self _ _
  have hsame : SameExcept [a, a + w] m m₁ :=
    (sameExcept_setSize (by simp) _ _).trans (hsame₁.mono (by simp))
  have hsizea : size m₁ a = w := by rw [size_setSize, Nat.mod_eq_of_lt (by omega)]
  have hsizew : size m₁ (a + w) = s - w := by
    rw [hsame₁.size_eq (by simpa using hrest), size_setSize, Nat.mod_eq_of_lt (by omega)]
  have hnodes₁ : Nodes m₁ ((r.xStart, 0) :: frees A ++ frees B) r.endAddress :=
    hnodes.frame hsame fun c hc => by simpa using And.intro (hapart c hc) (hapart' c hc)
  -- and the rest is inserted where the whole block was
  rw [← hfront] at hnodes₁
  obtain ⟨m', it, hinsert, hit, hsame', -, hnodes'⟩ := insert_spec htiles hnodes₁ hsizew
  rw [hfront] at hit hnodes'
  have hita : Apart it a := by
    have hitF : it ∈ ((r.xStart, 0) :: frees A).map Prod.fst := hit
    obtain ⟨c, hcF, rfl⟩ := List.mem_map.1 hitF
    exact hapart c (List.mem_append_left _ hcF)
  have hblock : ∀ p, a ≤ p → p + 8 ≤ a + s → Scratch r (A ++ ⟨a, s, none⟩ :: B) p :=
    fun p hp hp' => Or.inr ⟨(a, s), by simp, hp, hp'⟩
  have hscratch := hblock (a + w) (by omega) (by omega)
  refine ⟨m', hinsert, ?_, ?_, ?_⟩
  · have hkeep : ∀ p ∈ [it, a + w], Apart a p := by
      simpa using And.intro hita.symm hrest.symm
    rw [hsame'.size_eq hkeep, hsizea]
  · refine (changesFree_of_sameExcept hsame ?_).trans (changesFree_of_sameExcept hsame' ?_)
    · simpa using And.intro (hblock a (Nat.le_refl a) (by omega)) hscratch
    · simpa using And.intro (scratch_of_mem ht hit) hscratch
  · rwa [← insertSpan_rest ht hc (by omega)]

/-- A block of at least `w` bytes, the rest of which is split off if it is large. -/
theorem splitBlock_spec {r : Region} {m : ByteMem} {A B : List (Block ℕ)} {a s w : ℕ} (n : ℕ)
    (ht : Tiles 8 r.pucAlignedHeap (A ++ ⟨a, s, none⟩ :: B) r.endAddress)
    (hc : Coalesced (A ++ ⟨a, s, none⟩ :: B))
    (hnodes : Nodes m ((r.xStart, 0) :: frees A ++ frees B) r.endAddress) (hsize : size m a = s)
    (hw : 8 ≤ w) (hdvd : 8 ∣ w) (hws : w ≤ s) :
    ∃ m' w' bs', splitBlock r m r.endAddress w a = some m' ∧ w ≤ w' ∧
      Tiles 8 r.pucAlignedHeap bs' r.endAddress ∧ Coalesced bs' ∧
      lives bs' = lives A ++ (a, w', n) :: lives B ∧
      total (frees bs') + w' = total (frees A) + s + total (frees B) ∧ size m' a = w' ∧
      ChangesFree r (A ++ ⟨a, s, none⟩ :: B) m m' ∧
      Nodes m' ((r.xStart, 0) :: frees bs') r.endAddress := by
  obtain ⟨-, -, hsmall, haddress, -, -⟩ := r.bounds
  obtain ⟨hlo, -, hhi, hdvda, -⟩ := frees_bounds ht (c := (a, s)) (by simp)
  have hsub : subWord s w = s - w := subWord_eq (by omega) hws
  dsimp only at hlo hhi hdvda
  by_cases hsplit : heapMINIMUM_BLOCK_SIZE < s - w
  · have hroom : 16 < s - w := hsplit
    have hnew : addWord a w = a + w := addWord_eq (by omega)
    have halign : misaligned (a + w) = 0 := Nat.mod_eq_zero_of_dvd (Nat.dvd_add hdvda hdvd)
    obtain ⟨htiles, hcoal⟩ := split_spec (o := n) ht hc (by omega) hdvd (by omega)
    obtain ⟨m', hinsert, hsize', hchange, hnodes'⟩ := split_mem ht hc hnodes hw hdvd (by omega)
    refine ⟨m', w, _, ?_, Nat.le_refl w, htiles, hcoal, ?_, ?_, hsize', hchange, ?_⟩
    · rw [splitBlock, hsize, hsub, if_pos hsplit, hnew]
      exact (if_pos halign).trans hinsert
    · rw [lives_append, lives_cons_live, lives_cons_free]
    · rw [frees_append, frees_cons_live, frees_cons_free, total_append, total_cons]
      dsimp only
      omega
    · rwa [frees_append, frees_cons_live, frees_cons_free]
  · obtain ⟨htiles, hcoal⟩ := take_spec (o := n) ht hc
    refine ⟨m, s, _, ?_, hws, htiles, hcoal, ?_, ?_, hsize, fun x _ _ => rfl, ?_⟩
    · rw [splitBlock, hsize, hsub, if_neg hsplit]
    · rw [lives_append, lives_cons_live]
    · rw [frees_append, frees_cons_live, total_append]
      omega
    · rwa [frees_append, frees_cons_live]

/-- The list without a free block: the header in front of it is linked to the one behind it. -/
theorem Tiled.unlink_mem {r : Region} {h : Heap} {A B : List (Block ℕ)} {a s : ℕ}
    (ht : Tiled r h (A ++ ⟨a, s, none⟩ :: B)) :
    next h.mem (lastAddr r.xStart (frees A)) = a ∧ Apart a (lastAddr r.xStart (frees A)) ∧
      Scratch r (A ++ ⟨a, s, none⟩ :: B) (lastAddr r.xStart (frees A)) ∧
      Nodes (setNext h.mem (lastAddr r.xStart (frees A)) (next h.mem a))
        ((r.xStart, 0) :: frees A ++ frees B) r.endAddress := by
  obtain ⟨G, t, hlast⟩ := exists_snoc_lastAddr (r.xStart, 0) (frees A)
  have hmem : (lastAddr r.xStart (frees A), t) ∈ (r.xStart, 0) :: frees A := by
    rw [hlast]
    exact List.mem_append_right G (List.mem_singleton_self _)
  have hnodes := ht.nodes
  have hapart := frees_apart ht.tiles
  rw [frees_append, frees_cons_free, ← List.cons_append, hlast, ← List.append_cons]
    at hnodes hapart
  dsimp only at hnodes hapart
  have hafter := (List.pairwise_append.1 hapart).2.1
  obtain ⟨hprev, -⟩ := List.pairwise_cons.1 hafter
  refine ⟨(nodes_append_cons.1 hnodes).2.2.1, (hprev (a, s) List.mem_cons_self).symm,
    scratch_of_mem ht.tiles (List.mem_map_of_mem (f := Prod.fst) hmem), ?_⟩
  rw [hlast, ← List.append_cons]
  refine hnodes.unlink (fun c hc => ?_) fun c hc => ?_
  · exact (List.pairwise_append.1 hapart).2.2 c hc _ List.mem_cons_self
  · exact (hprev c (List.mem_cons_of_mem _ hc)).symm

/-- The headers of the blocks of the application, after a change of free memory. -/
theorem Tiled.headers_of_changesFree {r : Region} {h : Heap} {bs : List (Block ℕ)}
    (ht : Tiled r h bs) {m : ByteMem} (hchange : ChangesFree r bs h.mem m) {l : ℕ × ℕ × ℕ}
    (hl : l ∈ lives bs) : size m l.1 = 2 ^ 31 + l.2.1 ∧ next m l.1 = 0 := by
  obtain ⟨hsize, hnext⟩ := hchange.live_header ht.tiles hl
  obtain ⟨hsize₀, hnext₀⟩ := ht.headers l hl
  exact ⟨hsize.trans hsize₀, hnext.trans hnext₀⟩

/-- **Marking a block** that is not in the list: it belongs to the application, and is linked to
nothing. -/
theorem mark_mem {r : Region} {m : ByteMem} {bs : List (Block ℕ)} {a w n : ℕ}
    (ht : Tiles 8 r.pucAlignedHeap bs r.endAddress) (hmark : (a, w, n) ∈ lives bs)
    (hstart : Apart r.xStart a) (hnodes : Nodes m ((r.xStart, 0) :: frees bs) r.endAddress) :
    SameExcept [a] m (setNext (setSize m a (2 ^ 31 + w)) a 0) ∧
      size (setNext (setSize m a (2 ^ 31 + w)) a 0) a = 2 ^ 31 + w ∧
      next (setNext (setSize m a (2 ^ 31 + w)) a 0) a = 0 ∧
      Nodes (setNext (setSize m a (2 ^ 31 + w)) a 0) ((r.xStart, 0) :: frees bs) r.endAddress := by
  obtain ⟨-, -, hsmall, haddress, -, -⟩ := r.bounds
  obtain ⟨hlo, hw, hhi, -⟩ := lives_bounds ht hmark
  dsimp only at hlo hw hhi
  have hsame : SameExcept [a] m (setNext (setSize m a (2 ^ 31 + w)) a 0) :=
    (sameExcept_setSize List.mem_cons_self _ _).trans (sameExcept_setNext List.mem_cons_self _ _)
  refine ⟨hsame, ?_, ?_, hnodes.frame hsame fun c hc => ?_⟩
  · rw [size_setNext, size_setSize, Nat.mod_eq_of_lt (by omega)]
  · rw [next_setNext, Nat.zero_mod]
  · rcases List.mem_cons.1 hc with rfl | hc
    · simpa using hstart
    · have hbounds := frees_bounds ht hc
      have hdisj := ht.frees_lives_disjoint hc hmark
      dsimp only at hdisj
      have hca : Apart c.1 a := by
        unfold Apart
        omega
      simpa using hca

/-- Handing out a free block: it is taken out of the list, split if it is large, and marked. -/
theorem Tiled.takeBlock_spec {r : Region} {h : Heap} {A B : List (Block ℕ)} {a s w n : ℕ}
    (ht : Tiled r h (A ++ ⟨a, s, none⟩ :: B)) (hn : 0 < n) (hw : n + 8 ≤ w) (hdvd : 8 ∣ w)
    (hws : w ≤ s) :
    ∃ h' w' bs', takeBlock r h w (lastAddr r.xStart (frees A)) a = some (h', a + 8) ∧
      Tiled r h' bs' ∧ (lives bs').Perm ((a, w', n) :: lives (A ++ ⟨a, s, none⟩ :: B)) ∧
      ChangesFree r (A ++ ⟨a, s, none⟩ :: B) h.mem h'.mem := by
  obtain ⟨-, -, hsmall, haddress, -, -⟩ := r.bounds
  have hfree : (a, s) ∈ frees (A ++ ⟨a, s, none⟩ :: B) := by simp
  obtain ⟨hlo, hs, hhi, -, -⟩ := frees_bounds ht.tiles hfree
  dsimp only at hlo hs hhi
  obtain ⟨hnext, hprev, hscratch, hnodes⟩ := ht.unlink_mem
  have hsame : SameExcept [lastAddr r.xStart (frees A)] h.mem
      (setNext h.mem (lastAddr r.xStart (frees A)) (next h.mem a)) :=
    sameExcept_setNext List.mem_cons_self _ _
  have hsize : size h.mem a = s := by
    have hnodes₀ := ht.nodes
    rw [frees_append, frees_cons_free, ← List.cons_append] at hnodes₀
    exact (nodes_append_cons.1 hnodes₀).2.1
  obtain ⟨m', w', bs', hsplit, hww, htiles', hcoal', hlives', htotal, hsize', hchange, hnodes'⟩ :=
    splitBlock_spec n ht.tiles ht.coalesced hnodes
      ((hsame.size_eq (by simpa using hprev)).trans hsize) (by omega) hdvd hws
  have hmark : (a, w', n) ∈ lives bs' := by
    rw [hlives']
    simp
  have hstart : Apart r.xStart a :=
    (List.pairwise_cons.1 (frees_apart ht.tiles)).1 (a, s) hfree
  obtain ⟨hsame', hsizea, hnexta, hnodes''⟩ := mark_mem htiles' hmark hstart hnodes'
  have hchange' := ((changesFree_of_sameExcept hsame (by simpa using hscratch)).trans hchange).trans
    (changesFree_of_sameExcept hsame' fun p hp => by
      rw [List.mem_singleton.1 hp]
      exact Or.inr ⟨(a, s), hfree, Nat.le_refl a, by dsimp only; omega⟩)
  have hrem : subWord h.xFreeBytesRemaining w' = total (frees bs') := by
    have hle := ht.tiles.total_frees_le.1
    have hsum : h.xFreeBytesRemaining = total (frees bs') + w' := by
      rw [ht.remaining, htotal, frees_append, frees_cons_free, total_append, total_cons]
      omega
    rw [← ht.remaining] at hle
    rw [subWord_eq (by omega) (by omega)]
    omega
  have hreturn : addWord (next h.mem (lastAddr r.xStart (frees A))) xHeapStructSize = a + 8 := by
    unfold xHeapStructSize
    rw [hnext, addWord_eq (by omega)]
  have hw' : w' < 2 ^ 31 := by
    have := lives_bounds htiles' hmark
    dsimp only at this
    omega
  have htake : takeBlock r h w (lastAddr r.xStart (frees A)) a = some
      ({ h with
          mem := setNext (setSize m' a (2 ^ 31 + w')) a 0
          xFreeBytesRemaining := total (frees bs')
          xMinimumEverFreeBytesRemaining :=
            if total (frees bs') < h.xMinimumEverFreeBytesRemaining then total (frees bs')
            else h.xMinimumEverFreeBytesRemaining
          xNumberOfSuccessfulAllocations := addWord h.xNumberOfSuccessfulAllocations 1 },
        a + 8) := by
    rw [takeBlock, hreturn, ht.pxEnd, hsplit, Option.map_some, hsize', hrem, ht.bit, or_bit hw']
  -- the blocks of the application are the new one and those that there were
  have hperm : (lives bs').Perm ((a, w', n) :: lives (A ++ ⟨a, s, none⟩ :: B)) := by
    rw [hlives', lives_append, lives_cons_free]
    exact List.perm_middle
  have hcases : ∀ l ∈ lives bs', l = (a, w', n) ∨ l ∈ lives (A ++ ⟨a, s, none⟩ :: B) :=
    fun l hl => List.mem_cons.1 (hperm.mem_iff.1 hl)
  refine ⟨_, w', bs', htake, ⟨htiles', hcoal', hnodes'', ?_, ?_, ?_, ht.pxEnd, rfl, ht.bit⟩, hperm,
    hchange'⟩
  · exact (hchange'.endMark ht.tiles).trans ht.endMark
  · intro l hl
    rcases hcases l hl with rfl | hl
    · exact ⟨hsizea, hnexta⟩
    · exact ht.headers_of_changesFree hchange' hl
  · intro l hl
    rcases hcases l hl with rfl | hl
    · exact ⟨hn, Nat.le_trans hw hww⟩
    · exact ht.requests l hl

/-- Some free block has room for `n` bytes and a header. -/
def Fits (bs : List (Block ℕ)) (n : ℕ) : Prop :=
  0 < n ∧ n < 2 ^ 31 ∧ ∃ c ∈ frees bs, blockSize n ≤ c.2

/-- The search in a tiled heap. -/
theorem Tiled.findBlock_spec {r : Region} {h : Heap} {bs : List (Block ℕ)} (ht : Tiled r h bs)
    (w : ℕ) :
    (∃ A B a s, bs = A ++ ⟨a, s, none⟩ :: B ∧ w ≤ s ∧
        findBlock h.mem w r.fuel r.xStart (next h.mem r.xStart) =
          some (lastAddr r.xStart (frees A), a)) ∨
      (∀ c ∈ frees bs, c.2 < w) ∧
        findBlock h.mem w r.fuel r.xStart (next h.mem r.xStart) =
          some (lastAddr r.xStart (frees bs), r.endAddress) := by
  obtain ⟨hpos, hroom, -, -, -, hfuel⟩ := r.bounds
  have hlength := ht.tiles.total_frees_le.2
  have hne : ∀ c ∈ frees bs, c.1 ≠ 0 := fun c hc => by
    have := frees_bounds ht.tiles hc
    omega
  rcases Heap4.findBlock_spec (w := w) ht.nodes hne (by omega) ht.endMark
    (Nat.lt_of_lt_of_le (by omega) (Nat.le_refl r.fuel)) with
    ⟨F₁, ⟨a, s⟩, F₂, hF, -, hws, hfind⟩ | ⟨hsmall, hfind⟩
  · obtain ⟨A, B, hbs, rfl, -⟩ := exists_of_frees_eq hF
    exact Or.inl ⟨A, B, a, s, hbs, hws, hfind⟩
  · exact Or.inr ⟨hsmall, hfind⟩

/-- **A request that fits is granted.** -/
theorem Tiled.malloc_of_fits {r : Region} {h : Heap} {bs : List (Block ℕ)} (ht : Tiled r h bs)
    {n : ℕ} (hn : Fits bs n) :
    ∃ h' a w bs', pvPortMalloc r h n = some (h', a + 8) ∧ Tiled r h' bs' ∧
      (lives bs').Perm ((a, w, n) :: lives bs) ∧ ChangesFree r bs h.mem h'.mem := by
  obtain ⟨hpos, hlt, c, hc, hfit⟩ := hn
  obtain ⟨hlo, hroom, -, -, -, -⟩ := r.bounds
  obtain ⟨hge, -, hdvd⟩ := blockSize_spec n
  have hend : h.pxEnd ≠ 0 := by
    rw [ht.pxEnd]
    omega
  have hbit : n &&& h.xBlockAllocatedBit = 0 := by
    rw [ht.bit, and_bit_eq_zero (by omega)]
    exact hlt
  have henough : 0 < blockSize n ∧ blockSize n ≤ h.xFreeBytesRemaining := by
    have := le_total_of_mem hc
    rw [ht.remaining]
    omega
  rcases ht.findBlock_spec (blockSize n) with ⟨A, B, a, s, rfl, hws, hfind⟩ | ⟨hsmall, -⟩
  · obtain ⟨h', w, bs', htake, ht', hlives, hchange⟩ := ht.takeBlock_spec hpos hge hdvd hws
    obtain ⟨-, -, hhi, hdvda, -⟩ := frees_bounds ht.tiles (c := (a, s)) (by simp)
    have hne : a ≠ h.pxEnd := by
      have := Nat.le_trans hge hws
      rw [ht.pxEnd]
      dsimp only at hhi
      omega
    refine ⟨h', a, w, bs', ?_, ht', hlives, hchange⟩
    have hallocate : allocate r h n = some (h', a + 8) := by
      rw [allocate, if_pos hbit, wantedSize_spec hpos hlt, Option.bind_some, if_pos henough, hfind,
        Option.bind_some, if_pos hne, htake]
    rw [pvPortMalloc, if_neg hend, hallocate, Option.bind_some]
    exact if_pos (Nat.mod_eq_zero_of_dvd (Nat.dvd_add hdvda (Nat.dvd_refl 8)))
  · exact absurd hfit (Nat.not_le.2 (hsmall c hc))

/-- **A request that does not fit is refused**, and changes nothing. -/
theorem Tiled.malloc_of_not_fits {r : Region} {h : Heap} {bs : List (Block ℕ)} (ht : Tiled r h bs)
    {n : ℕ} (hn : n < 2 ^ 32) (hfits : ¬Fits bs n) : pvPortMalloc r h n = some (h, 0) := by
  obtain ⟨hlo, hroom, -, -, -, -⟩ := r.bounds
  have hend : h.pxEnd ≠ 0 := by
    rw [ht.pxEnd]
    omega
  have hallocate : allocate r h n = some (h, 0) := by
    by_cases hlt : n < 2 ^ 31
    · have hbit : n &&& h.xBlockAllocatedBit = 0 := by
        rw [ht.bit, and_bit_eq_zero hn]
        exact hlt
      rw [allocate, if_pos hbit]
      rcases Nat.eq_zero_or_pos n with rfl | hpos
      · rfl
      · rw [wantedSize_spec hpos hlt, Option.bind_some]
        split_ifs
        · rcases ht.findBlock_spec (blockSize n) with ⟨A, B, a, s, rfl, hws, -⟩ | ⟨-, hfind⟩
          · exact absurd ⟨hpos, hlt, (a, s), by simp, hws⟩ hfits
          · rw [hfind, Option.bind_some]
            exact if_neg (not_not.2 ht.pxEnd.symm)
        · rfl
    · refine if_neg ?_
      rw [ht.bit, and_bit_eq_zero hn]
      exact hlt
  rw [pvPortMalloc, if_neg hend, hallocate]
  rfl

end Pico.Heap4
