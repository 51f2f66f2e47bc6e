/-
**The core allocator.**

The heap of the Arduino core is the memory between the end of the program's data and the stack of
the second core.  Its free blocks form a list in the order of their addresses, kept in the blocks
themselves: a block begins with a `BlockLink_t`, whose fields `pxNextFreeBlock` and `xBlockSize`
are the words `FreeList.next` and `FreeList.size` of a header.  `xStart` is a header outside the
heap, in front of the first free block, and `pxEnd` one at the end of the heap, of size zero.

An operation has no outcome if an assertion of it fails, or if it follows a list that does not end.

Main definitions:

* `Region` — where the linker puts the heap;
* `Heap` — the memory and the static variables of the allocator;
* `prvHeapInit`, `prvInsertBlockIntoFreeList`, `pvPortMalloc`, `vPortFree` — the allocator.

Main results:

* `prvInsertBlockIntoFreeList_spec` — inserting a block into the list of free blocks joins its span
  with those that touch it, and changes no header but that of the block and that of one other free
  block;
* `findBlock_spec` — the search finds the first free block that is large enough, or the end.
-/

import WizioPico.FreeList
import WizioPico.Tiling

set_option relaxedAutoImplicit false
set_option autoImplicit false

namespace Pico.Heap4

open FreeList Tiling

/-! ### Words -/

def addWord (a b : ℕ) : ℕ := (a + b) % 2 ^ 32

def subWord (a b : ℕ) : ℕ := (a + 2 ^ 32 - b) % 2 ^ 32

theorem addWord_eq {a b : ℕ} (h : a + b < 2 ^ 32) : addWord a b = a + b := Nat.mod_eq_of_lt h

theorem subWord_eq {a b : ℕ} (ha : a < 2 ^ 32) (h : b ≤ a) : subWord a b = a - b := by
  unfold subWord
  omega

/-- `portBYTE_ALIGNMENT`. -/
def portBYTE_ALIGNMENT : ℕ := 8

/-- The bits of an address under `portBYTE_ALIGNMENT_MASK`. -/
def misaligned (a : ℕ) : ℕ := a % portBYTE_ALIGNMENT

/-- An address without the bits under `portBYTE_ALIGNMENT_MASK`. -/
def alignDown (a : ℕ) : ℕ := a - misaligned a

/-- `xHeapStructSize`: a `BlockLink_t` is two words, which is a multiple of the alignment. -/
def xHeapStructSize : ℕ := 8

/-- `heapMINIMUM_BLOCK_SIZE`. -/
def heapMINIMUM_BLOCK_SIZE : ℕ := xHeapStructSize * 2

/-! ### The heap -/

/-- Where the linker puts the heap and the variable `xStart`.  The heap ends in another memory bank
than the program's data, so that there is room in it. -/
structure Region where
  ucHeap : ℕ
  ucHeapEnd : ℕ
  xStart : ℕ
  pos : 0 < ucHeap
  room : ucHeap + 7 + 16 ≤ ucHeapEnd
  small : ucHeapEnd < ucHeap + 2 ^ 31
  address : ucHeapEnd < 2 ^ 32
  address_xStart : xStart + 8 ≤ 2 ^ 32
  outside : xStart + 8 ≤ ucHeap ∨ ucHeapEnd ≤ xStart

/-- The memory, and the static variables other than `xStart`. -/
structure Heap where
  mem : ByteMem
  pxEnd : ℕ
  xFreeBytesRemaining : ℕ
  xMinimumEverFreeBytesRemaining : ℕ
  xNumberOfSuccessfulAllocations : ℕ
  xNumberOfSuccessfulFrees : ℕ
  xBlockAllocatedBit : ℕ

/-- The static variables as the program starts. -/
def Heap.reset (mem : ByteMem) : Heap := ⟨mem, 0, 0, 0, 0, 0, 0⟩

namespace Region

variable (r : Region)

/-- `ucHeapSize`. -/
def ucHeapSize : ℕ := subWord r.ucHeapEnd r.ucHeap

/-- A bound for the length of every list of free blocks: a block has more than one byte. -/
def fuel : ℕ := r.ucHeapSize + 2

/-- `pucAlignedHeap` of `prvHeapInit`. -/
def pucAlignedHeap : ℕ :=
  if misaligned r.ucHeap ≠ 0 then alignDown (addWord r.ucHeap (portBYTE_ALIGNMENT - 1))
  else r.ucHeap

/-- `xTotalHeapSize` of `prvHeapInit`. -/
def xTotalHeapSize : ℕ :=
  if misaligned r.ucHeap ≠ 0 then subWord r.ucHeapSize (subWord r.pucAlignedHeap r.ucHeap)
  else r.ucHeapSize

/-- The value of `pxEnd` that `prvHeapInit` computes. -/
def endAddress : ℕ :=
  alignDown (subWord (addWord r.pucAlignedHeap r.xTotalHeapSize) xHeapStructSize)

end Region

/-- `prvHeapInit`. -/
def prvHeapInit (r : Region) (h : Heap) : Heap :=
  let pxFirstFreeBlock := r.pucAlignedHeap
  let pxEnd := r.endAddress
  let mem := setNext h.mem r.xStart r.pucAlignedHeap
  let mem := setSize mem r.xStart 0
  let mem := setSize mem pxEnd 0
  let mem := setNext mem pxEnd 0
  let mem := setSize mem pxFirstFreeBlock (subWord pxEnd pxFirstFreeBlock)
  let mem := setNext mem pxFirstFreeBlock pxEnd
  { h with
    mem := mem
    pxEnd := pxEnd
    xMinimumEverFreeBytesRemaining := size mem pxFirstFreeBlock
    xFreeBytesRemaining := size mem pxFirstFreeBlock
    xBlockAllocatedBit := 1 <<< 31 }

/-! ### Inserting a free block -/

@[simp] theorem headAddr_joinSpan (b : ℕ × ℕ) (F : List (ℕ × ℕ)) (e : ℕ) :
    headAddr (joinSpan b F) e = b.1 := by
  cases F with
  | nil => rfl
  | cons c F =>
      rw [joinSpan]
      split_ifs <;> rfl

/-- The loop of `prvInsertBlockIntoFreeList`, from the iterator on. -/
def findIterator (mem : ByteMem) (pxBlockToInsert : ℕ) : ℕ → ℕ → Option ℕ
  | 0, _ => none
  | fuel + 1, pxIterator =>
      if next mem pxIterator < pxBlockToInsert then
        findIterator mem pxBlockToInsert fuel (next mem pxIterator)
      else some pxIterator

/-- The block is merged with the one before it, if they are contiguous: the memory, and the block to
insert. -/
def mergeBefore (mem : ByteMem) (pxIterator pxBlockToInsert : ℕ) : ByteMem × ℕ :=
  if addWord pxIterator (size mem pxIterator) = pxBlockToInsert then
    (setSize mem pxIterator (addWord (size mem pxIterator) (size mem pxBlockToInsert)), pxIterator)
  else (mem, pxBlockToInsert)

/-- The block is merged with the one behind it, if they are contiguous, and linked to the list. -/
def mergeAfter (mem : ByteMem) (pxEnd pxIterator pxBlockToInsert : ℕ) : ByteMem :=
  if addWord pxBlockToInsert (size mem pxBlockToInsert) = next mem pxIterator then
    if next mem pxIterator ≠ pxEnd then
      let mem := setSize mem pxBlockToInsert
        (addWord (size mem pxBlockToInsert) (size mem (next mem pxIterator)))
      setNext mem pxBlockToInsert (next mem (next mem pxIterator))
    else setNext mem pxBlockToInsert pxEnd
  else setNext mem pxBlockToInsert (next mem pxIterator)

/-- `prvInsertBlockIntoFreeList` behind its loop. -/
def insertAfter (mem : ByteMem) (pxEnd pxIterator pxBlockToInsert : ℕ) : ByteMem :=
  let merged := mergeBefore mem pxIterator pxBlockToInsert
  let mem := mergeAfter merged.1 pxEnd pxIterator merged.2
  if pxIterator ≠ merged.2 then setNext mem pxIterator merged.2 else mem

/-- `prvInsertBlockIntoFreeList`. -/
def prvInsertBlockIntoFreeList (r : Region) (mem : ByteMem) (pxEnd pxBlockToInsert : ℕ) :
    Option ByteMem :=
  (findIterator mem pxBlockToInsert r.fuel r.xStart).map fun pxIterator =>
    insertAfter mem pxEnd pxIterator pxBlockToInsert

/-- **The loop ends at the last block in front of the one to insert.** -/
theorem findIterator_spec {m : ByteMem} {b p t fuel e : ℕ} {F : List (ℕ × ℕ)}
    (h : Nodes m ((p, t) :: F) e) (hF : ∀ c ∈ F, c.1 < b) (he : b ≤ e) (hfuel : F.length < fuel) :
    findIterator m b fuel p = some (lastAddr p F) := by
  induction F generalizing p t fuel with
  | nil =>
      obtain ⟨fuel, rfl⟩ := Nat.exists_eq_succ_of_ne_zero (Nat.ne_of_gt hfuel)
      obtain ⟨-, hnext, -⟩ := h
      have hnext' : next m p = e := hnext
      rw [findIterator, hnext', if_neg (Nat.not_lt.2 he), lastAddr]
  | cons c F ih =>
      obtain ⟨fuel, rfl⟩ := Nat.exists_eq_succ_of_ne_zero (Nat.ne_zero_of_lt hfuel)
      obtain ⟨-, hnext, hnodes⟩ := h
      have hnext' : next m p = c.1 := hnext
      rw [findIterator, hnext', if_pos (hF c List.mem_cons_self)]
      exact ih hnodes (fun d hd => hF d (List.mem_cons_of_mem _ hd)) (Nat.lt_of_succ_lt_succ hfuel)

/-- A block linked to the list behind the iterator, and merged with the first block of it if they
are contiguous. -/
theorem mergeAfter_spec {m : ByteMem} {it b s e : ℕ} {F : List (ℕ × ℕ)} (hsize : size m b = s)
    (hit : next m it = headAddr F e) (hitb : it = b ∨ Apart it b) (hF : Nodes m F e)
    (hapart : ∀ c ∈ F, Apart c.1 b) (hbound : ∀ c ∈ F, b + s ≤ c.1 ∧ c.1 + c.2 ≤ e ∧ c.1 < e)
    (hbs : b + s ≤ e) (he : e < 2 ^ 32) :
    SameExcept [b] m (mergeAfter m e it b) ∧ Nodes (mergeAfter m e it b) (joinSpan (b, s) F) e := by
  have hadd : addWord b s = b + s := addWord_eq (by omega)
  cases F with
  | nil =>
      -- whether the block touches the end or not, it is linked to it
      have hmerge : mergeAfter m e it b = setNext m b e := by
        rw [mergeAfter, hit, headAddr]
        split_ifs with h h' <;> first | rfl | exact absurd rfl h'
      rw [hmerge]
      refine ⟨sameExcept_setNext List.mem_cons_self m e, ?_, ?_, trivial⟩
      · rw [size_setNext, hsize]
      · rw [next_setNext, Nat.mod_eq_of_lt he, headAddr]
  | cons c F =>
      obtain ⟨hsizec, hnextc, hnodes⟩ := hF
      obtain ⟨hle, hce, hlt⟩ := hbound c List.mem_cons_self
      have hapartc : ∀ p ∈ [b], Apart c.1 p := by simpa using hapart c List.mem_cons_self
      have hapartF : ∀ d ∈ F, ∀ p ∈ [b], Apart d.1 p := by
        simpa using fun d hd => hapart d (List.mem_cons_of_mem c hd)
      have hF : headAddr F e < 2 ^ 32 := hnextc ▸ next_lt m c.1
      rw [headAddr] at hit
      by_cases htouch : b + s = c.1
      · have hsame : SameExcept [b] m (setSize m b (s + c.2)) :=
          sameExcept_setSize List.mem_cons_self m _
        have hit' : next (setSize m b (s + c.2)) it = c.1 := by
          rcases hitb with rfl | hitb
          · rw [next_setSize, hit]
          · rw [hsame.next_eq (by simpa using hitb), hit]
        have hmerge : mergeAfter m e it b = setNext (setSize m b (s + c.2)) b (headAddr F e) := by
          rw [mergeAfter, hsize, hadd, hit, if_pos htouch, if_pos (Nat.ne_of_lt hlt), hsizec,
            addWord_eq (by omega)]
          dsimp only
          rw [hit', hsame.next_eq hapartc, hnextc]
        have hsame' : SameExcept [b] m (mergeAfter m e it b) := by
          rw [hmerge]
          exact hsame.trans (sameExcept_setNext List.mem_cons_self _ _)
        rw [joinSpan, if_pos htouch]
        refine ⟨hsame', ?_, ?_, hnodes.frame hsame' hapartF⟩
        · rw [hmerge, size_setNext, size_setSize, Nat.mod_eq_of_lt (by omega)]
        · rw [hmerge, next_setNext, Nat.mod_eq_of_lt hF]
      · have hmerge : mergeAfter m e it b = setNext m b c.1 := by
          rw [mergeAfter, hsize, hadd, hit, if_neg htouch]
        have hsame' : SameExcept [b] m (mergeAfter m e it b) := by
          rw [hmerge]
          exact sameExcept_setNext List.mem_cons_self m c.1
        rw [joinSpan, if_neg htouch]
        refine ⟨hsame', ?_, ?_, ?_, ?_, hnodes.frame hsame' hapartF⟩
        · rw [hmerge, size_setNext, hsize]
        · rw [hmerge, next_setNext, Nat.mod_eq_of_lt (by omega), headAddr]
        · rw [hsame'.size_eq hapartc, hsizec]
        · rw [hsame'.next_eq hapartc, hnextc]

/-- **Inserting a block behind the iterator** joins its span with those that touch it. -/
theorem insertAfter_spec {m : ByteMem} {it t b s e : ℕ} {G F : List (ℕ × ℕ)}
    (h : Nodes m (G ++ (it, t) :: F) e) (hsize : size m b = s)
    (hapart : (G ++ (it, t) :: (b, s) :: F).Pairwise fun c d => Apart c.1 d.1)
    (hit : it + t < 2 ^ 32)
    (hbound : ∀ c ∈ F, b + s ≤ c.1 ∧ c.1 + c.2 ≤ e ∧ c.1 < e) (hbs : b + s ≤ e) (he : e < 2 ^ 32) :
    SameExcept [it, b] m (insertAfter m e it b) ∧ b + size (insertAfter m e it b) b ≤ e ∧
      Nodes (insertAfter m e it b) (insertSpan (G ++ [(it, t)]) (b, s) F) e := by
  obtain ⟨hG, hsizeit, hnextit, hF⟩ := nodes_append_cons.1 h
  obtain ⟨-, hcons, hapartG⟩ := List.pairwise_append.1 hapart
  obtain ⟨hapartit, hapartF⟩ := List.pairwise_cons.1 hcons
  have hitb : Apart it b := hapartit (b, s) List.mem_cons_self
  have hGit : ∀ c ∈ G, ∀ p ∈ [it], Apart c.1 p := by
    simpa using fun c hc => hapartG c hc (it, t) List.mem_cons_self
  have hFit : ∀ c ∈ F, Apart c.1 it := fun c hc => (hapartit c (List.mem_cons_of_mem _ hc)).symm
  have hFb : ∀ c ∈ F, Apart c.1 b := fun c hc => ((List.pairwise_cons.1 hapartF).1 c hc).symm
  by_cases htouch : it + t = b
  · -- the block becomes the end of the one before it
    have hmerge : mergeBefore m it b = (setSize m it (t + s), it) := by
      rw [mergeBefore, hsizeit, hsize, addWord_eq hit, if_pos htouch, addWord_eq (by omega)]
    have hsame : SameExcept [it] m (setSize m it (t + s)) :=
      sameExcept_setSize List.mem_cons_self m _
    have hFit' : ∀ c ∈ F, ∀ p ∈ [it], Apart c.1 p := by simpa using hFit
    have hsize' : size (setSize m it (t + s)) it = t + s := by
      rw [size_setSize, Nat.mod_eq_of_lt (by omega)]
    have hnext' : next (setSize m it (t + s)) it = headAddr F e := by rw [next_setSize, hnextit]
    obtain ⟨hsame', hnodes⟩ := mergeAfter_spec hsize' hnext' (Or.inl rfl) (hF.frame hsame hFit')
      hFit (fun c hc => by have := hbound c hc; omega) (by omega) he
    have hinsert : insertAfter m e it b = mergeAfter (setSize m it (t + s)) e it it := by
      rw [insertAfter, hmerge]
      exact if_neg fun h => h rfl
    have hsame'' : SameExcept [it] m (insertAfter m e it b) := hinsert ▸ hsame.trans hsame'
    refine ⟨hsame''.mono (by simp), ?_, ?_⟩
    · rw [hsame''.size_eq (by simpa using hitb.symm), hsize]
      exact hbs
    rw [← htouch, insertSpan_snoc_eq, htouch]
    refine nodes_append.2 ⟨?_, hinsert ▸ hnodes⟩
    rw [headAddr_joinSpan]
    exact hG.frame hsame'' hGit
  · have hmerge : mergeBefore m it b = (m, b) := by
      rw [mergeBefore, hsizeit, addWord_eq hit, if_neg htouch]
    obtain ⟨hsame, hnodes⟩ := mergeAfter_spec hsize hnextit (Or.inr hitb) hF hFb hbound hbs he
    have hinsert : insertAfter m e it b = setNext (mergeAfter m e it b) it b := by
      rw [insertAfter, hmerge]
      exact if_pos fun h => by unfold Apart at hitb; omega
    have hsame' : SameExcept [it] (mergeAfter m e it b) (insertAfter m e it b) :=
      hinsert ▸ sameExcept_setNext List.mem_cons_self _ b
    have hsame'' : SameExcept [it, b] m (insertAfter m e it b) :=
      (hsame.mono (by simp)).trans (hsame'.mono (by simp))
    have hitb' : ∀ p ∈ [b], Apart it p := by simpa using hitb
    refine ⟨hsame'', ?_, ?_⟩
    · obtain ⟨t', F', hjoin, hle⟩ := exists_joinSpan hbs fun c hc => (hbound c hc).2.1
      rw [hjoin] at hnodes
      rw [hsame'.size_eq (by simpa using hitb.symm), hnodes.1]
      exact hle
    rw [insertSpan_snoc_of_ne htouch]
    refine nodes_append_cons.2
      ⟨hG.frame hsame'' fun c hc => ?_, ?_, ?_, hnodes.frame hsame' fun c hc => ?_⟩
    · have hcb : Apart c.1 b := hapartG c hc (b, s) (by simp)
      simpa using And.intro (hGit c hc it List.mem_cons_self) hcb
    · rw [hinsert, size_setNext, hsame.size_eq hitb', hsizeit]
    · rw [hinsert, next_setNext, Nat.mod_eq_of_lt (by omega), headAddr_joinSpan]
    · rcases mem_joinSpan hc with hcb | hc
      · simpa [hcb] using hitb.symm
      · simpa using hFit c hc

/-- **Inserting a block into the list of free blocks** joins its span with those that touch it, and
changes no header but that of the block and that of the block in front of it. -/
theorem prvInsertBlockIntoFreeList_spec {r : Region} {m : ByteMem} {b s e : ℕ}
    {F₁ F₂ : List (ℕ × ℕ)} (h : Nodes m ((r.xStart, 0) :: F₁ ++ F₂) e) (hsize : size m b = s)
    (hapart : ((r.xStart, 0) :: F₁ ++ (b, s) :: F₂).Pairwise fun c d => Apart c.1 d.1)
    (hfront : ∀ c ∈ F₁, c.1 + c.2 ≤ b ∧ c.1 < b)
    (hbound : ∀ c ∈ F₂, b + s ≤ c.1 ∧ c.1 + c.2 ≤ e ∧ c.1 < e) (hbs : b + s ≤ e) (he : e < 2 ^ 32)
    (hfuel : F₁.length < r.fuel) :
    ∃ m' it, prvInsertBlockIntoFreeList r m e b = some m' ∧ it ∈ r.xStart :: F₁.map Prod.fst ∧
      SameExcept [it, b] m m' ∧ b + size m' b ≤ e ∧
      Nodes m' ((r.xStart, 0) :: insertSpan F₁ (b, s) F₂) e := by
  obtain ⟨G, t, hlast⟩ := exists_snoc_lastAddr (r.xStart, 0) F₁
  have hstart : Apart r.xStart b :=
    (List.pairwise_append.1 hapart).2.2 (r.xStart, 0) List.mem_cons_self (b, s) List.mem_cons_self
  have hend : b ≤ headAddr F₂ e := by
    cases F₂ with
    | nil => exact Nat.le_trans (Nat.le_add_right b s) hbs
    | cons c F₂ => exact Nat.le_trans (Nat.le_add_right b s) (hbound c List.mem_cons_self).1
  have hfind : findIterator m b r.fuel r.xStart = some (lastAddr r.xStart F₁) :=
    findIterator_spec (nodes_append.1 h).1 (fun c hc => (hfront c hc).2) hend hfuel
  have hmem : (lastAddr r.xStart F₁, t) ∈ (r.xStart, 0) :: F₁ := by
    rw [hlast]
    exact List.mem_append_right G (List.mem_singleton_self _)
  have hit : lastAddr r.xStart F₁ + t < 2 ^ 32 := by
    rcases List.mem_cons.1 hmem with heq | hmem
    · have := r.address_xStart
      have := congrArg Prod.fst heq
      have := congrArg Prod.snd heq
      dsimp only at *
      omega
    · have := (hfront _ hmem).1
      dsimp only at this
      omega
  rw [hlast, ← List.append_cons] at h hapart
  obtain ⟨hsame, hle, hnodes⟩ := insertAfter_spec h hsize hapart hit hbound hbs he
  refine ⟨_, lastAddr r.xStart F₁, by rw [prvInsertBlockIntoFreeList, hfind]; rfl, ?_, hsame, hle,
    ?_⟩
  · exact List.mem_map_of_mem (f := Prod.fst) hmem
  · rwa [← hlast, insertSpan_cons_of_ne fun hx => by unfold Apart at hstart; omega] at hnodes

/-! ### Allocating and freeing -/

/-- The wanted size with room for a header, rounded up to the alignment. -/
def wantedSize (xWantedSize : ℕ) : Option ℕ :=
  if 0 < xWantedSize then
    let xWantedSize := addWord xWantedSize xHeapStructSize
    if misaligned xWantedSize ≠ 0 then
      let xWantedSize := addWord xWantedSize (portBYTE_ALIGNMENT - misaligned xWantedSize)
      if misaligned xWantedSize = 0 then some xWantedSize else none -- `configASSERT`
    else some xWantedSize
  else some xWantedSize

/-- The loop of `pvPortMalloc`: the block it ends at, and the one before it. -/
def findBlock (mem : ByteMem) (xWantedSize : ℕ) : ℕ → ℕ → ℕ → Option (ℕ × ℕ)
  | 0, _, _ => none
  | fuel + 1, pxPreviousBlock, pxBlock =>
      if size mem pxBlock < xWantedSize ∧ next mem pxBlock ≠ 0 then
        findBlock mem xWantedSize fuel pxBlock (next mem pxBlock)
      else some (pxPreviousBlock, pxBlock)

/-- A block that is larger than required is split into two, the second of them free. -/
def splitBlock (r : Region) (mem : ByteMem) (pxEnd xWantedSize pxBlock : ℕ) : Option ByteMem :=
  if heapMINIMUM_BLOCK_SIZE < subWord (size mem pxBlock) xWantedSize then
    let pxNewBlockLink := addWord pxBlock xWantedSize
    if misaligned pxNewBlockLink = 0 then
      let mem := setSize mem pxNewBlockLink (subWord (size mem pxBlock) xWantedSize)
      let mem := setSize mem pxBlock xWantedSize
      prvInsertBlockIntoFreeList r mem pxEnd pxNewBlockLink
    else none -- `configASSERT`
  else some mem

/-- Handing out the block that the search has found. -/
def takeBlock (r : Region) (h : Heap) (xWantedSize pxPreviousBlock pxBlock : ℕ) :
    Option (Heap × ℕ) :=
  let pvReturn := addWord (next h.mem pxPreviousBlock) xHeapStructSize
  let mem := setNext h.mem pxPreviousBlock (next h.mem pxBlock)
  (splitBlock r mem h.pxEnd xWantedSize pxBlock).map fun mem =>
    let xFreeBytesRemaining := subWord h.xFreeBytesRemaining (size mem pxBlock)
    let mem := setSize mem pxBlock (size mem pxBlock ||| h.xBlockAllocatedBit)
    let mem := setNext mem pxBlock 0
    ({ h with
        mem := mem
        xFreeBytesRemaining := xFreeBytesRemaining
        xMinimumEverFreeBytesRemaining :=
          if xFreeBytesRemaining < h.xMinimumEverFreeBytesRemaining then xFreeBytesRemaining
          else h.xMinimumEverFreeBytesRemaining
        xNumberOfSuccessfulAllocations := addWord h.xNumberOfSuccessfulAllocations 1 }, pvReturn)

/-- `pvPortMalloc` between its initialisation and its last assertion. -/
def allocate (r : Region) (h : Heap) (xWantedSize : ℕ) : Option (Heap × ℕ) :=
  if xWantedSize &&& h.xBlockAllocatedBit = 0 then
    (wantedSize xWantedSize).bind fun xWantedSize =>
      if 0 < xWantedSize ∧ xWantedSize ≤ h.xFreeBytesRemaining then
        (findBlock h.mem xWantedSize r.fuel r.xStart (next h.mem r.xStart)).bind fun found =>
          if found.2 ≠ h.pxEnd then takeBlock r h xWantedSize found.1 found.2 else some (h, 0)
      else some (h, 0)
  else some (h, 0)

/-- **`pvPortMalloc`**: the heap, and the pointer that is returned. -/
def pvPortMalloc (r : Region) (h : Heap) (xWantedSize : ℕ) : Option (Heap × ℕ) :=
  (allocate r (if h.pxEnd = 0 then prvHeapInit r h else h) xWantedSize).bind fun result =>
    if misaligned result.2 = 0 then some result else none -- `configASSERT`

/-- **`vPortFree`**. -/
def vPortFree (r : Region) (h : Heap) (pv : ℕ) : Option Heap :=
  if pv ≠ 0 then
    let pxLink := subWord pv xHeapStructSize
    -- two `configASSERT`s: the block belongs to the application, and is in no list
    if size h.mem pxLink &&& h.xBlockAllocatedBit ≠ 0 ∧ next h.mem pxLink = 0 then
      let mem := setSize h.mem pxLink (size h.mem pxLink &&& (2 ^ 32 - 1 - h.xBlockAllocatedBit))
      let xFreeBytesRemaining := addWord h.xFreeBytesRemaining (size mem pxLink)
      (prvInsertBlockIntoFreeList r mem h.pxEnd pxLink).map fun mem =>
        { h with
          mem := mem
          xFreeBytesRemaining := xFreeBytesRemaining
          xNumberOfSuccessfulFrees := addWord h.xNumberOfSuccessfulFrees 1 }
    else none
  else some h

/-! ### The wanted size and the search -/

/-- A size with room for a header, rounded up to the alignment. -/
def blockSize (n : ℕ) : ℕ := (n + 15) / 8 * 8

theorem blockSize_spec (n : ℕ) :
    n + 8 ≤ blockSize n ∧ blockSize n < n + 16 ∧ 8 ∣ blockSize n := by
  unfold blockSize
  omega

theorem wantedSize_spec {n : ℕ} (hn : 0 < n) (h : n < 2 ^ 31) :
    wantedSize n = some (blockSize n) := by
  have hadd : addWord n xHeapStructSize = n + 8 := addWord_eq (by unfold xHeapStructSize; omega)
  rw [wantedSize, if_pos hn, hadd]
  by_cases hmod : misaligned (n + 8) = 0
  · dsimp only
    rw [if_neg (not_not.2 hmod)]
    unfold misaligned portBYTE_ALIGNMENT at hmod
    unfold blockSize
    exact congrArg some (by omega)
  · have hadd' : addWord (n + 8) (portBYTE_ALIGNMENT - misaligned (n + 8)) = blockSize n := by
      unfold misaligned portBYTE_ALIGNMENT at *
      unfold blockSize
      rw [addWord_eq (by omega)]
      omega
    dsimp only
    rw [if_pos hmod, hadd']
    exact if_pos (Nat.mod_eq_zero_of_dvd (blockSize_spec n).2.2)

/-- **The search** ends at the first free block that is large enough, or at the end of the list. -/
theorem findBlock_spec {m : ByteMem} {w p t e fuel : ℕ} {F : List (ℕ × ℕ)}
    (h : Nodes m ((p, t) :: F) e) (hF : ∀ c ∈ F, c.1 ≠ 0) (he : e ≠ 0) (hend : next m e = 0)
    (hfuel : F.length < fuel) :
    (∃ F₁ c F₂, F = F₁ ++ c :: F₂ ∧ (∀ d ∈ F₁, d.2 < w) ∧ w ≤ c.2 ∧
        findBlock m w fuel p (next m p) = some (lastAddr p F₁, c.1)) ∨
      (∀ c ∈ F, c.2 < w) ∧ findBlock m w fuel p (next m p) = some (lastAddr p F, e) := by
  induction F generalizing p t fuel with
  | nil =>
      obtain ⟨fuel, rfl⟩ := Nat.exists_eq_succ_of_ne_zero (Nat.ne_of_gt hfuel)
      obtain ⟨-, hnext, -⟩ := h
      have hnext' : next m p = e := hnext
      refine Or.inr ⟨fun c hc => absurd hc List.not_mem_nil, ?_⟩
      rw [findBlock, hnext', if_neg fun h => h.2 hend, lastAddr]
  | cons c F ih =>
      obtain ⟨fuel, rfl⟩ := Nat.exists_eq_succ_of_ne_zero (Nat.ne_zero_of_lt hfuel)
      obtain ⟨-, hnext, hnodes⟩ := h
      have hnext' : next m p = c.1 := hnext
      have hF' := fun d hd => hF d (List.mem_cons_of_mem c hd)
      have hnextc : next m c.1 ≠ 0 := by
        rw [hnodes.2.1]
        cases F with
        | nil => exact he
        | cons d F => exact hF' d List.mem_cons_self
      rw [findBlock, hnext', hnodes.1]
      by_cases hw : c.2 < w
      · rw [if_pos ⟨hw, hnextc⟩]
        rcases ih hnodes hF' (Nat.lt_of_succ_lt_succ hfuel) with
          ⟨F₁, d, F₂, rfl, hF₁, hd, hfound⟩ | ⟨hsmall, hfound⟩
        · exact Or.inl ⟨c :: F₁, d, F₂, rfl, List.forall_mem_cons.2 ⟨hw, hF₁⟩, hd, hfound⟩
        · exact Or.inr ⟨List.forall_mem_cons.2 ⟨hw, hsmall⟩, hfound⟩
      · rw [if_neg fun h => hw h.1]
        exact Or.inl
          ⟨[], c, F, rfl, fun d hd => absurd hd List.not_mem_nil, Nat.le_of_not_lt hw, rfl⟩

end Pico.Heap4
