/-
**Safety of the core heap over whole runs.**

The application calls the allocator in any order: it requests blocks, frees those that it holds, and
writes to the bytes it has requested.  A `Session` is the heap together with the pointers that the
application holds.  Every state of a session is the image of a tiling (`Represents`), so that the
safety of the heap and its being coalesced are read off the tiling.

* `Session`, `Call`, `step`, `start` — the application and the heap;
* `Represents` — the blocks of the heap that belong to the application are those it holds;
* `freeList` — the list of free blocks, as the memory has it;
* `Safe`, `heap_safe` — **the blocks of the application are its own**: they do not overlap anything
  else, and no operation of the allocator changes them;
* `heap_coalesced` — **the heap loses nothing and stays coalesced**.
-/

import WizioPico.HeapTiling
import WizioPico.Runs

set_option relaxedAutoImplicit false
set_option autoImplicit false

namespace Pico.Heap4

open FreeList Tiling Runs

/-! ### Sessions -/

/-- The heap, and the pointers the application holds with the sizes it requested. -/
structure Session where
  heap : Heap
  live : List (ℕ × ℕ)

/-- What the application does. -/
inductive Call
  | malloc (xWantedSize : UInt32)
  | free (pv : ℕ)
  | write (addr : ℕ) (value : UInt8)

/-- The byte at an address set to a value. -/
def Heap.write (h : Heap) (addr : ℕ) (value : UInt8) : Heap :=
  { h with mem := h.mem.blit addr 1 fun _ => value }

theorem Heap.write_of_ne {h : Heap} {addr x : ℕ} {value : UInt8} (hx : x ≠ addr) :
    (h.write addr value).mem x = h.mem x := by
  have hmem : (h.write addr value).mem = h.mem.blit addr 1 fun _ => value := rfl
  rw [hmem]
  exact ByteMem.blit_of_not_mem (by omega)

/-- A call of the application.  It frees pointers that it holds, and writes to bytes that it has
requested; nothing else is a call. -/
def step (r : Region) (s : Session) : Call → Option Session
  | .malloc n =>
      (pvPortMalloc r s.heap n.toNat).map fun result =>
        ⟨result.1, if result.2 = 0 then s.live else (result.2, n.toNat) :: s.live⟩
  | .free pv =>
      if pv ∈ s.live.map Prod.fst then
        (vPortFree r s.heap pv).map fun heap => ⟨heap, s.live.filter fun e => e.1 ≠ pv⟩
      else none
  | .write addr value =>
      if ∃ e ∈ s.live, e.1 ≤ addr ∧ addr < e.1 + e.2 then
        some { s with heap := s.heap.write addr value }
      else none

/-- The session that begins with `prvHeapInit`. -/
def start (r : Region) (mem : ByteMem) : Session := ⟨prvHeapInit r (Heap.reset mem), []⟩

/-- The pointer to the payload of a block of the application, and the size of its request. -/
def payload (l : ℕ × ℕ × ℕ) : ℕ × ℕ := (l.1 + 8, l.2.2)

/-- **The blocks of a session**: those that belong to the application are those that it holds. -/
structure Represents (r : Region) (s : Session) (bs : List (Block ℕ)) : Prop where
  tiled : Tiled r s.heap bs
  live : s.live.Perm ((lives bs).map payload)

theorem represents_start (r : Region) (mem : ByteMem) :
    Represents r (start r mem) [⟨r.pucAlignedHeap, r.endAddress - r.pucAlignedHeap, none⟩] :=
  ⟨tiled_prvHeapInit r _, List.Perm.refl _⟩

section

variable {r : Region} {s : Session} {bs : List (Block ℕ)}

/-- The block of a pointer that the application holds. -/
theorem Represents.exists_block (hs : Represents r s bs) {e : ℕ × ℕ} (he : e ∈ s.live) :
    ∃ a w, (a, w, e.2) ∈ lives bs ∧ e.1 = a + 8 := by
  obtain ⟨⟨a, w, n⟩, hl, rfl⟩ := List.mem_map.1 (hs.live.mem_iff.1 he)
  exact ⟨a, w, hl, rfl⟩

theorem Represents.malloc (hs : Represents r s bs) {n : ℕ} (hn : n < 2 ^ 32) :
    ∃ h p bs', pvPortMalloc r s.heap n = some (h, p) ∧
      Represents r ⟨h, if p = 0 then s.live else (p, n) :: s.live⟩ bs' ∧
      ChangesFree r bs s.heap.mem h.mem ∧ (p ≠ 0 ↔ Fits bs n) := by
  by_cases hfits : Fits bs n
  · obtain ⟨h, a, w, bs', hmalloc, ht, hlives, hchange⟩ := hs.tiled.malloc_of_fits hfits
    have hne : a + 8 ≠ 0 := Nat.succ_ne_zero (a + 7)
    refine ⟨h, a + 8, bs', hmalloc, ⟨ht, ?_⟩, hchange, iff_of_true hne hfits⟩
    rw [if_neg hne]
    exact (hs.live.cons (a + 8, n)).trans (hlives.map payload).symm
  · refine ⟨s.heap, 0, bs, hs.tiled.malloc_of_not_fits hn hfits, ?_, fun _ _ _ => rfl,
      iff_of_false (fun h => h rfl) hfits⟩
    rw [if_pos rfl]
    exact hs

theorem Represents.free (hs : Represents r s bs) {e : ℕ × ℕ} (he : e ∈ s.live) :
    ∃ h bs', vPortFree r s.heap e.1 = some h ∧
      Represents r ⟨h, s.live.filter fun f => f.1 ≠ e.1⟩ bs' ∧
      (∀ l ∈ lives bs', ∀ x, l.1 ≤ x → x < l.1 + l.2.1 → h.mem x = s.heap.mem x) ∧
      (∀ f ∈ s.live, ∀ x, f.1 ≤ x → x < f.1 + f.2 → h.mem x = s.heap.mem x) ∧
      size h.mem (e.1 - 8) < 2 ^ 31 := by
  obtain ⟨a, w, hl, hea⟩ := hs.exists_block he
  obtain ⟨h, bs', hfree, ht, hlives, hkeep, hpayload, hclear⟩ := hs.tiled.free hl
  -- no other block of the application begins where this one does
  have hne : ∀ k ∈ lives bs', k.1 ≠ a := by
    have hpair : (lives bs).Pairwise fun l k => l.1 ≠ k.1 := by
      refine hs.tiled.tiles.lives_pairwise.imp_of_mem fun hl _ hlk => ?_
      have := lives_bounds hs.tiled.tiles hl
      omega
    have hpair' := (hlives.pairwise_iff fun h => h.symm).1 hpair
    exact fun k hk => ((List.pairwise_cons.1 hpair').1 k hk).symm
  refine ⟨h, bs', hea ▸ hfree, ⟨ht, ?_⟩, hkeep, fun f hf x hx hx' => ?_,
    by rwa [hea, Nat.add_sub_cancel]⟩
  · have hperm := hs.live.trans (hlives.map payload)
    refine (hperm.filter _).trans (List.Perm.of_eq ?_)
    rw [List.map_cons, List.filter_cons_of_neg (by simp [payload, hea]),
      List.filter_eq_self.2 fun f hf => ?_]
    obtain ⟨k, hk, rfl⟩ := List.mem_map.1 hf
    refine decide_eq_true fun heq => hne k hk ?_
    dsimp only [payload] at heq
    omega
  · obtain ⟨b, v, hk, hfb⟩ := hs.exists_block hf
    have hroom := (hs.tiled.requests _ hk).2
    dsimp only at hroom
    rcases List.mem_cons.1 (hlives.mem_iff.1 hk) with heq | hk'
    · obtain ⟨rfl, rfl, -⟩ : b = a ∧ v = w ∧ f.2 = e.2 := by simpa using heq
      exact hpayload x (by omega) (by omega)
    · exact hkeep _ hk' x (by dsimp only; omega) (by dsimp only; omega)

/-- The application writes to its own payloads only. -/
theorem Represents.setMem (hs : Represents r s bs) {e : ℕ × ℕ} (he : e ∈ s.live) {mem : ByteMem}
    (hmem : ∀ x, x < e.1 ∨ e.1 + e.2 ≤ x → mem x = s.heap.mem x) :
    Represents r { s with heap := { s.heap with mem := mem } } bs := by
  obtain ⟨a, w, hl, hea⟩ := hs.exists_block he
  have ht := hs.tiled
  have hbounds := lives_bounds ht.tiles hl
  have hroom := (ht.requests _ hl).2
  obtain ⟨-, -, -, -, houtside, -⟩ := r.bounds
  dsimp only at hbounds hroom
  -- no header is in the payload
  have hheader : ∀ p, p + 8 ≤ e.1 ∨ e.1 + e.2 ≤ p →
      size mem p = size s.heap.mem p ∧ next mem p = next s.heap.mem p := fun p hp =>
    header_congr fun x hx hx' => hmem x (by omega)
  refine ⟨⟨ht.tiles, ht.coalesced, ht.nodes.congr fun c hc => hheader _ ?_, ?_, fun k hk => ?_,
    ht.requests, ht.pxEnd, ht.remaining, ht.bit⟩, hs.live⟩
  · rcases List.mem_cons.1 hc with rfl | hc
    · dsimp only
      omega
    · have := frees_bounds ht.tiles hc
      have := ht.tiles.frees_lives_disjoint hc hl
      dsimp only at this
      omega
  · rw [(hheader r.endAddress (by omega)).2, ht.endMark]
  · have hk' := lives_bounds ht.tiles hk
    obtain ⟨hsize, hnext⟩ := hheader k.1 <| by
      rcases ht.tiles.lives_disjoint hk hl with rfl | hdisj
      · dsimp only
        omega
      · dsimp only at hdisj
        omega
    obtain ⟨hsize₀, hnext₀⟩ := ht.headers k hk
    exact ⟨hsize.trans hsize₀, hnext.trans hnext₀⟩

end

/-- **A call leads from blocks to blocks.** -/
theorem represents_step {r : Region} {s s' : Session} {bs : List (Block ℕ)} {c : Call}
    (hs : Represents r s bs) (hstep : step r s c = some s') : ∃ bs', Represents r s' bs' := by
  rcases c with n | pv | ⟨addr, value⟩
  · obtain ⟨h, p, bs', hmalloc, hs', -⟩ := hs.malloc n.toNat_lt
    rw [step, hmalloc] at hstep
    cases hstep
    exact ⟨bs', hs'⟩
  · rw [step] at hstep
    split_ifs at hstep with hmem
    obtain ⟨e, he, rfl⟩ := List.mem_map.1 hmem
    obtain ⟨h, bs', hfree, hs', -⟩ := hs.free he
    rw [hfree] at hstep
    cases hstep
    exact ⟨bs', hs'⟩
  · rw [step] at hstep
    split_ifs at hstep with hmem
    obtain ⟨e, he, hlo, hhi⟩ := hmem
    cases hstep
    exact ⟨bs, hs.setMem he fun x hx => Heap.write_of_ne (by omega)⟩

/-- Every state of a session has blocks. -/
theorem reach_represents {r : Region} {mem : ByteMem} {s : Session}
    (h : Reach (step r) (start r mem) s) : ∃ bs, Represents r s bs :=
  h.invariant (P := fun s => ∃ bs, Represents r s bs) ⟨_, represents_start r mem⟩
    fun _ _ _ ⟨_, hs⟩ hstep => represents_step hs hstep

/-! ### Safety -/

/-- The list of free blocks that the memory holds, from `xStart` to `pxEnd`: addresses and sizes. -/
def freeList (r : Region) (h : Heap) : Option (List (ℕ × ℕ)) :=
  spans h.mem h.pxEnd r.fuel (next h.mem r.xStart)

/-- The payloads of the application are aligned, lie in the region in front of `pxEnd` behind a
header of their own, and overlap neither another payload, nor its header, nor a free block. -/
structure Safe (r : Region) (s : Session) : Prop where
  aligned : ∀ e ∈ s.live, e.1 % 8 = 0
  inside : ∀ e ∈ s.live, r.ucHeap + 8 ≤ e.1 ∧ e.1 + e.2 ≤ s.heap.pxEnd
  below : s.heap.pxEnd + 8 ≤ r.ucHeapEnd
  apart : s.live.Pairwise fun e f => e.1 + e.2 ≤ f.1 - 8 ∨ f.1 + f.2 ≤ e.1 - 8
  apartFree : ∃ F, freeList r s.heap = some F ∧
    ∀ e ∈ s.live, ∀ c ∈ F, e.1 + e.2 ≤ c.1 ∨ c.1 + c.2 ≤ e.1 - 8

/-- The payloads of the blocks and their recorded sizes are the same in both heaps. -/
def Keeps (live : List (ℕ × ℕ)) (h h' : Heap) : Prop :=
  ∀ e ∈ live, (∀ x, e.1 ≤ x → x < e.1 + e.2 → h'.mem x = h.mem x) ∧
    size h'.mem (e.1 - 8) = size h.mem (e.1 - 8)

section

variable {r : Region} {s : Session} {bs : List (Block ℕ)}

theorem Represents.freeList_eq (hs : Represents r s bs) :
    freeList r s.heap = some (frees bs) := by
  obtain ⟨-, -, -, -, -, hfuel⟩ := r.bounds
  obtain ⟨-, hnext, hnodes⟩ := hs.tiled.nodes
  have hlength := hs.tiled.tiles.total_frees_le.2
  rw [freeList, hs.tiled.pxEnd, hnext]
  refine hnodes.spans_eq (fun c hc => ?_) (by omega)
  have := frees_bounds hs.tiled.tiles hc
  omega

theorem Represents.safe (hs : Represents r s bs) : Safe r s := by
  have ht := hs.tiled
  have hlo := r.pucAlignedHeap_spec
  have hend := r.endAddress_spec
  refine ⟨fun e he => ?_, fun e he => ?_, by rw [ht.pxEnd]; exact hend.1, ?_,
    frees bs, hs.freeList_eq, fun e he c hc => ?_⟩
  · obtain ⟨a, w, hl, hea⟩ := hs.exists_block he
    have := lives_bounds ht.tiles hl
    dsimp only at this
    omega
  · obtain ⟨a, w, hl, hea⟩ := hs.exists_block he
    have hbounds := lives_bounds ht.tiles hl
    have hroom := ht.requests _ hl
    rw [ht.pxEnd]
    dsimp only at hbounds hroom
    omega
  · refine (hs.live.pairwise_iff fun h => Or.symm h).2 (List.pairwise_map.2 ?_)
    refine ht.tiles.lives_pairwise.imp_of_mem fun hl _ hlk => ?_
    have hroom := ht.requests _ hl
    refine Or.inl ?_
    dsimp only [payload]
    omega
  · obtain ⟨a, w, hl, hea⟩ := hs.exists_block he
    have hroom := ht.requests _ hl
    have hdisj := ht.tiles.frees_lives_disjoint hc hl
    dsimp only at hroom hdisj
    omega

/-- What is kept of the blocks of a tiling is kept of the payloads of a session. -/
theorem Represents.keeps {bs : List (Block ℕ)} (hs : Represents r s bs) {h h' : Heap}
    (hkeep : ∀ l ∈ lives bs, ∀ x, l.1 ≤ x → x < l.1 + l.2.1 → h'.mem x = h.mem x) :
    Keeps s.live h h' := by
  intro e he
  obtain ⟨a, w, hl, hea⟩ := hs.exists_block he
  have hroom := hs.tiled.requests _ hl
  dsimp only at hroom
  refine ⟨fun x hx hx' => hkeep _ hl x ?_ ?_, (header_congr fun x hx hx' => ?_).1⟩
  · dsimp only
    omega
  · dsimp only
    omega
  · exact hkeep _ hl x (by dsimp only; omega) (by dsimp only; omega)

end

/-- **Safety of the core heap.**  In every state of every session the payloads of the application
are its own; a request always returns, and what it returns is again a payload of its own; a pointer
of the application can be freed; and neither operation changes a byte of a payload of the
application, or the recorded size of a block that it goes on holding. -/
theorem heap_safe (r : Region) (mem : ByteMem) (s : Session)
    (hreach : Reach (step r) (start r mem) s) :
    Safe r s ∧
      (∀ n : UInt32, ∃ h p, pvPortMalloc r s.heap n.toNat = some (h, p) ∧
        Keeps s.live s.heap h ∧ (p ≠ 0 → Safe r ⟨h, (p, n.toNat) :: s.live⟩)) ∧
      (∀ e ∈ s.live, ∃ h, vPortFree r s.heap e.1 = some h ∧
        Keeps (s.live.filter fun f => f.1 ≠ e.1) s.heap h ∧
        ∀ x, e.1 ≤ x → x < e.1 + e.2 → h.mem x = s.heap.mem x) := by
  obtain ⟨bs, hs⟩ := reach_represents hreach
  refine ⟨hs.safe, fun n => ?_, fun e he => ?_⟩
  · obtain ⟨h, p, bs', hmalloc, hs', hchange, -⟩ := hs.malloc n.toNat_lt
    refine ⟨h, p, hmalloc, hs.keeps fun l hl x hx hx' => ?_, fun hp => ?_⟩
    · exact hchange.live hs.tiled.tiles hl hx hx'
    · rw [if_neg hp] at hs'
      exact hs'.safe
  · obtain ⟨h, bs', hfree, hs', hkeep, hpayload, -⟩ := hs.free he
    exact ⟨h, hfree, hs'.keeps hkeep, hpayload e he⟩

/-- A heap of 256 bytes. -/
def smallRegion : Region where
  ucHeap := 0x20008004
  ucHeapEnd := 0x20008104
  xStart := 0x20000100
  pos := by decide
  room := by decide
  small := by decide
  address := by decide
  address_xStart := by decide
  outside := by decide

/-- Two requests, a write, and the first block freed and taken again. -/
def smallRun : List Call :=
  [.malloc 20, .malloc 40, .write 0x20008031 7, .free 0x20008010, .malloc 8]

theorem reach_smallRun : ∃ s, Reach (step smallRegion) (start smallRegion fun _ => 0xff) s ∧
    s.live = [(0x20008010, 8), (0x20008030, 40)] := by
  have hrun : (exec (step smallRegion) (start smallRegion fun _ => 0xff) smallRun).map Session.live =
      some [(0x20008010, 8), (0x20008030, 40)] := by decide +kernel
  obtain ⟨s, hs, hlive⟩ := Option.map_eq_some_iff.1 hrun
  exact ⟨s, ⟨smallRun, hs⟩, hlive⟩

theorem heap_safe_smallRun : ∃ s : Session,
    s.live = [(0x20008010, 8), (0x20008030, 40)] ∧ Safe smallRegion s := by
  obtain ⟨s, hs, hlive⟩ := reach_smallRun
  exact ⟨s, hlive, (heap_safe smallRegion (fun _ => 0xff) s hs).1⟩

/-! ### Coalescing -/

section

variable {r : Region} {s : Session} {bs : List (Block ℕ)}

/-- The application holds no pointer twice. -/
theorem Represents.nodup (hs : Represents r s bs) : (s.live.map Prod.fst).Nodup := by
  have hperm := hs.live.map Prod.fst
  rw [List.map_map] at hperm
  refine hperm.nodup_iff.2 (List.pairwise_map.2 ?_)
  refine hs.tiled.tiles.lives_pairwise.imp_of_mem fun hl _ hlk => ?_
  have := lives_bounds hs.tiled.tiles hl
  dsimp only [Function.comp_apply, payload]
  omega

/-- **Freeing everything**, in any order. -/
theorem Represents.freeAll {ps : List ℕ} (hs : Represents r s bs)
    (hps : ps.Perm (s.live.map Prod.fst)) :
    ∃ s' bs', exec (step r) s (ps.map Call.free) = some s' ∧ Represents r s' bs' ∧
      s'.live = [] := by
  induction ps generalizing s bs with
  | nil => exact ⟨s, bs, rfl, hs, List.map_eq_nil_iff.1 (List.nil_perm.1 hps)⟩
  | cons p ps ih =>
      have hmem : p ∈ s.live.map Prod.fst := hps.mem_iff.1 List.mem_cons_self
      obtain ⟨e, he, rfl⟩ := List.mem_map.1 hmem
      obtain ⟨h, bs', hfree, hs', -⟩ := hs.free he
      have hnodup := List.nodup_cons.1 (hps.nodup_iff.2 hs.nodup)
      -- the pointers that are left are those that remain to be freed
      have hrest : ps.Perm ((s.live.filter fun f => f.1 ≠ e.1).map Prod.fst) := by
        have hfilter := hps.filter fun p => decide (p ≠ e.1)
        rw [List.filter_cons_of_neg (by simp), List.filter_map, List.filter_eq_self.2] at hfilter
        · exact hfilter
        · exact fun q hq => decide_eq_true fun heq => hnodup.1 (heq ▸ hq)
      obtain ⟨s', bs'', hexec, hs'', hlive⟩ := ih hs' hrest
      refine ⟨s', bs'', ?_, hs'', hlive⟩
      rw [List.map_cons, exec_cons, step, if_pos hmem, hfree]
      exact hexec

/-- Without a block of the application the heap is one free block. -/
theorem Represents.of_live_nil (hs : Represents r s bs) (hlive : s.live = []) :
    bs = [⟨r.pucAlignedHeap, r.endAddress - r.pucAlignedHeap, none⟩] := by
  have hnil := hs.live
  rw [hlive] at hnil
  have hlives : lives bs = [] := List.map_eq_nil_iff.1 (List.nil_perm.1 hnil)
  have hroom := r.bounds.2.1
  exact eq_singleton_of_lives_nil hs.tiled.tiles hs.tiled.coalesced hlives (by omega)

end

/-- **The core heap loses nothing and stays coalesced.**  In every state of every session the free
blocks and those of the application tile the heap; the list of free blocks is that of the tiling,
from `xStart` to `pxEnd`, in the order of their addresses and without two that touch;
`xFreeBytesRemaining` is the sum of their sizes; a request is refused only if none of them is large
enough; and freeing the blocks of the application in any order restores the one free block that the
heap began with. -/
theorem heap_coalesced (r : Region) (mem : ByteMem) (s : Session)
    (hreach : Reach (step r) (start r mem) s) :
    ∃ bs : List (Block ℕ), Tiles 8 r.pucAlignedHeap bs s.heap.pxEnd ∧
      freeList r s.heap = some (frees bs) ∧ s.live.Perm ((lives bs).map payload) ∧
      (∀ l ∈ lives bs, size s.heap.mem l.1 = 2 ^ 31 + l.2.1) ∧
      (frees bs).Pairwise (fun c d => c.1 + c.2 < d.1) ∧
      s.heap.xFreeBytesRemaining = total (frees bs) ∧
      (∀ n : UInt32, 0 < n.toNat → n.toNat < 2 ^ 31 →
        ∀ h, pvPortMalloc r s.heap n.toNat = some (h, 0) →
          ∀ c ∈ frees bs, c.2 < blockSize n.toNat) ∧
      ∀ ps : List ℕ, ps.Perm (s.live.map Prod.fst) →
        ∃ s', exec (step r) s (ps.map Call.free) = some s' ∧ s'.live = [] ∧
          freeList r s'.heap =
            some [(r.pucAlignedHeap, s.heap.pxEnd - r.pucAlignedHeap)] ∧
          freeList r s'.heap = freeList r (start r mem).heap ∧
          s'.heap.xFreeBytesRemaining = (start r mem).heap.xFreeBytesRemaining := by
  obtain ⟨bs, hs⟩ := reach_represents hreach
  have ht := hs.tiled
  have hstart := represents_start r mem
  refine ⟨bs, ht.pxEnd ▸ ht.tiles, hs.freeList_eq, hs.live, fun l hl => (ht.headers l hl).1,
    frees_pairwise ht.tiles ht.coalesced, ht.remaining, fun n hpos hlt h hnull c hc => ?_,
    fun ps hps => ?_⟩
  · refine Nat.lt_of_not_le fun hfit => ?_
    obtain ⟨h', a, w, bs', hmalloc, -⟩ := ht.malloc_of_fits ⟨hpos, hlt, c, hc, hfit⟩
    rw [hmalloc] at hnull
    cases hnull
  · obtain ⟨s', bs', hexec, hs', hlive⟩ := hs.freeAll hps
    obtain rfl := hs'.of_live_nil hlive
    refine ⟨s', hexec, hlive, ?_, ?_, ?_⟩
    · rw [hs'.freeList_eq, ht.pxEnd, frees_cons_free, frees_nil]
    · rw [hs'.freeList_eq, hstart.freeList_eq]
    · rw [hs'.tiled.remaining, hstart.tiled.remaining]

theorem heap_coalesced_smallRun : ∃ (s : Session) (bs : List (Block ℕ)),
    s.live = [(0x20008010, 8), (0x20008030, 40)] ∧ freeList smallRegion s.heap = some (frees bs) ∧
      (frees bs).Pairwise fun c d => c.1 + c.2 < d.1 := by
  obtain ⟨s, hs, hlive⟩ := reach_smallRun
  obtain ⟨bs, -, hlist, -, -, hpair, -⟩ := heap_coalesced smallRegion (fun _ => 0xff) s hs
  exact ⟨s, bs, hlive, hlist, hpair⟩

end Pico.Heap4
