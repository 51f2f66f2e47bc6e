/-
**`realloc` over the core heap.**

The C library's `malloc`, `free` and `realloc` are put on top of the core allocator.  `realloc` asks
for a new block, copies as many bytes as the new block has from the old one, and frees the old one.
It does not know how large the old block is, and frees it whether there is a new one or not.

* `realloc` — the function, with the number of bytes it reads;
* `ReallocContract` — what a caller of `realloc` may rely on;
* `reach_represents_realloc` — the heap has blocks in every state of a session with `realloc`;
* `realloc_contract_iff` — **the contract is met exactly if** a free block is large enough for the
  new size and the old block is no smaller than it.
-/

import WizioPico.HeapSafety

set_option relaxedAutoImplicit false
set_option autoImplicit false

namespace Pico.Heap4

open FreeList Tiling Runs

/-! ### The functions of the C library -/

/-- `malloc`. -/
def malloc (r : Region) (h : Heap) (size : ℕ) : Option (Heap × ℕ) := pvPortMalloc r h size

/-- `free`. -/
def free (r : Region) (h : Heap) (p : ℕ) : Option Heap :=
  if p ≠ 0 then vPortFree r h p else some h

/-- `memcpy`. -/
def memcpy (m : ByteMem) (dst src n : ℕ) : ByteMem := m.blit dst n fun i => m (src + i)

/-- What `realloc` leaves: the heap, the pointer it returns, and the number of bytes that it has
read from the old block on. -/
structure Realloc where
  heap : Heap
  new : ℕ
  read : ℕ

/-- **`realloc`**. -/
def realloc (r : Region) (h : Heap) (mem newsize : ℕ) : Option Realloc :=
  (malloc r h newsize).bind fun result =>
    let new := result.2
    let copied : Heap × ℕ :=
      if new ≠ 0 ∧ mem ≠ 0 then
        ({ result.1 with mem := memcpy result.1.mem new mem newsize }, newsize)
      else (result.1, 0)
    (free r copied.1 mem).map fun heap => ⟨heap, new, copied.2⟩

/-- The block of a pointer belongs to the application, by its header. -/
def belongs (h : Heap) (p : ℕ) : Bool := size h.mem (p - 8) &&& h.xBlockAllocatedBit != 0

/-- The size of the payload of the block of a pointer, by its header. -/
def capacity (h : Heap) (p : ℕ) : ℕ :=
  (size h.mem (p - 8) &&& (2 ^ 32 - 1 - h.xBlockAllocatedBit)) - xHeapStructSize

/-- **The contract of `realloc`**, for a block `p` of the application with a request of `n` bytes
and a new size `m`. -/
structure ReallocContract (h : Heap) (p n m : ℕ) (out : Realloc) : Prop where
  moved : out.new ≠ 0 →
    (∀ i < min n m, out.heap.mem (out.new + i) = h.mem (p + i)) ∧ belongs out.heap p = false
  kept : out.new = 0 → belongs out.heap p = true ∧ ∀ i < n, out.heap.mem (p + i) = h.mem (p + i)
  inside : out.read ≤ capacity h p

/-- What the application does, with `realloc`. -/
inductive MemCall
  | call (c : Call)
  | realloc (mem : ℕ) (newsize : UInt32)

/-- A call of the application.  The pointer that it passes to `realloc` is null or one that it
holds, and it does not hold it afterwards. -/
def memStep (r : Region) (s : Session) : MemCall → Option Session
  | .call c => step r s c
  | .realloc mem newsize =>
      if mem = 0 ∨ mem ∈ s.live.map Prod.fst then
        (realloc r s.heap mem newsize.toNat).map fun out =>
          ⟨out.heap, (if out.new = 0 then s.live else (out.new, newsize.toNat) :: s.live).filter
            fun e => e.1 ≠ mem⟩
      else none

/-! ### What `realloc` does -/

section

variable {r : Region} {s : Session} {bs : List (Block ℕ)} {e : ℕ × ℕ}

theorem Represents.ne_zero (hs : Represents r s bs) (he : e ∈ s.live) : e.1 ≠ 0 := by
  obtain ⟨a, w, -, hea⟩ := hs.exists_block he
  omega

/-- The block of a pointer that the application holds, by its header. -/
theorem Represents.capacity_eq (hs : Represents r s bs) {a w n : ℕ} (hl : (a, w, n) ∈ lives bs) :
    capacity s.heap (a + 8) = w - 8 := by
  obtain ⟨-, -, hsmall, -, -, -⟩ := r.bounds
  have hbounds := lives_bounds hs.tiled.tiles hl
  have hsize := (hs.tiled.headers _ hl).1
  have hones : 2 ^ 32 - 1 - 2 ^ 31 = 2 ^ 31 - 1 := by omega
  dsimp only at hbounds hsize
  rw [capacity, Nat.add_sub_cancel, hs.tiled.bit, hsize, hones, Nat.and_two_pow_sub_one_eq_mod]
  unfold xHeapStructSize
  omega

/-- A request that is not empty fits if some block of the list of free blocks has room for it. -/
theorem Represents.fits_iff (hs : Represents r s bs) {n : ℕ} (hn : 0 < n) :
    Fits bs n ↔ ∃ F, freeList r s.heap = some F ∧ ∃ c ∈ F, blockSize n ≤ c.2 := by
  rw [hs.freeList_eq]
  constructor
  · exact fun ⟨_, _, c, hc, hfit⟩ => ⟨frees bs, rfl, c, hc, hfit⟩
  · rintro ⟨F, hF, c, hc, hfit⟩
    cases hF
    have hc' := frees_bounds hs.tiled.tiles hc
    have hbounds := r.bounds
    have := (blockSize_spec n).1
    exact ⟨hn, by omega, c, hc, hfit⟩

/-- `realloc` of a null pointer is `malloc`. -/
theorem realloc_null (r : Region) (h : Heap) (n : ℕ) :
    realloc r h 0 n = (malloc r h n).map fun result => ⟨result.1, result.2, 0⟩ := by
  rw [realloc]
  cases malloc r h n with
  | none => rfl
  | some result =>
      have hcond : ¬(result.2 ≠ 0 ∧ (0 : ℕ) ≠ 0) := fun h => h.2 rfl
      simp only [Option.bind_some, Option.map_some, if_neg hcond]
      rfl

/-- `realloc` without a new block. -/
theorem realloc_of_refused {h h₁ : Heap} {p n : ℕ} (hmalloc : malloc r h n = some (h₁, 0))
    (hp : p ≠ 0) :
    realloc r h p n = (vPortFree r h₁ p).map fun heap => ⟨heap, 0, 0⟩ := by
  have hcond : ¬((0 : ℕ) ≠ 0 ∧ p ≠ 0) := fun h => h.1 rfl
  rw [realloc, hmalloc, Option.bind_some]
  simp only [if_neg hcond]
  rw [free, if_pos hp]

/-- `realloc` with a new block. -/
theorem realloc_of_granted {h h₁ : Heap} {p q n : ℕ} (hmalloc : malloc r h n = some (h₁, q))
    (hp : p ≠ 0) (hq : q ≠ 0) :
    realloc r h p n =
      (vPortFree r { h₁ with mem := memcpy h₁.mem q p n } p).map fun heap => ⟨heap, q, n⟩ := by
  rw [realloc, hmalloc, Option.bind_some]
  simp only [if_pos (And.intro hq hp)]
  rw [free, if_pos hp]

/-- **`realloc` of a block of the application.**  It always frees the block, and copies as many
bytes as the new block has if there is one.  The bytes of every block stay where they are, those of
the block that is freed too, and the new block lies apart from them. -/
theorem Represents.realloc (hs : Represents r s bs) (he : e ∈ s.live) (m : UInt32) :
    ∃ out bs', realloc r s.heap e.1 m.toNat = some out ∧
      Represents r ⟨out.heap, (if out.new = 0 then s.live
        else (out.new, m.toNat) :: s.live).filter fun f => f.1 ≠ e.1⟩ bs' ∧
      belongs out.heap e.1 = false ∧ (out.new ≠ 0 ↔ Fits bs m.toNat) ∧
      (out.new ≠ 0 → out.read = m.toNat ∧
        ∀ i < min e.2 m.toNat, out.heap.mem (out.new + i) = s.heap.mem (e.1 + i)) ∧
      ∀ f ∈ s.live, (∀ i < f.2, out.heap.mem (f.1 + i) = s.heap.mem (f.1 + i)) ∧
        (out.new ≠ 0 → f.1 + f.2 ≤ out.new ∨ out.new + m.toNat ≤ f.1) := by
  have hne := hs.ne_zero he
  obtain ⟨h₁, p, bs₁, hmalloc, hs₁, hchange, hfits⟩ := hs.malloc m.toNat_lt
  have hkeep := hs.keeps fun l hl x hx hx' => hchange.live hs.tiled.tiles hl hx hx'
  -- what is freed has the bit cleared
  have hclear : ∀ {s' : Session} {bs' : List (Block ℕ)}, Represents r s' bs' →
      size s'.heap.mem (e.1 - 8) < 2 ^ 31 → belongs s'.heap e.1 = false := fun hs' hlt => by
    rw [belongs, hs'.tiled.bit, (and_bit_eq_zero (by omega)).2 hlt]
    rfl
  by_cases hp : p = 0
  · rw [if_pos hp] at hs₁
    obtain ⟨h', bs', hfree, hs', -, hpayload, hlt⟩ := hs₁.free he
    have hbelongs := hclear hs' hlt
    subst hp
    refine ⟨⟨h', 0, 0⟩, bs', ?_, hs', hbelongs, hfits, fun h => absurd rfl h,
      fun f hf => ⟨fun i hi => ?_, fun h => absurd rfl h⟩⟩
    · rw [realloc_of_refused hmalloc hne, hfree]
      rfl
    · exact (hpayload f hf _ (Nat.le_add_right _ _) (by omega)).trans
        ((hkeep f hf).1 _ (Nat.le_add_right _ _) (by omega))
  · rw [if_neg hp] at hs₁
    have hin : ∀ i < m.toNat, memcpy h₁.mem p e.1 m.toNat (p + i) = h₁.mem (e.1 + i) :=
      fun i hi => ByteMem.blit_add hi
    have hout : ∀ x, x < p ∨ p + m.toNat ≤ x → memcpy h₁.mem p e.1 m.toNat x = h₁.mem x :=
      fun x hx => ByteMem.blit_of_not_mem hx
    have hs₂ : Represents r ⟨{ h₁ with mem := memcpy h₁.mem p e.1 m.toNat },
        (p, m.toNat) :: s.live⟩ bs₁ := hs₁.setMem List.mem_cons_self hout
    obtain ⟨h', bs', hfree, hs', -, hpayload, hlt⟩ := hs₂.free (List.mem_cons_of_mem _ he)
    have hbelongs := hclear hs' hlt
    have hapart := (List.pairwise_cons.1 hs₁.safe.apart).1
    refine ⟨⟨h', p, m.toNat⟩, bs', ?_, ?_, hbelongs, hfits, fun _ => ⟨rfl, fun i hi => ?_⟩,
      fun f hf => ⟨fun i hi => ?_, fun _ => ?_⟩⟩
    · rw [realloc_of_granted hmalloc hne hp, hfree]
      rfl
    · dsimp only
      rw [if_neg hp]
      exact hs'
    · have hbyte := (hkeep e he).1 (e.1 + i) (by omega) (by omega)
      calc h'.mem (p + i) = memcpy h₁.mem p e.1 m.toNat (p + i) :=
            hpayload (p, m.toNat) List.mem_cons_self _ (by dsimp only; omega) (by dsimp only; omega)
        _ = h₁.mem (e.1 + i) := hin i (by omega)
        _ = s.heap.mem (e.1 + i) := hbyte
    · have hf' := hapart f hf
      have hbyte := (hkeep f hf).1 (f.1 + i) (by omega) (by omega)
      dsimp only at hf'
      calc h'.mem (f.1 + i) = memcpy h₁.mem p e.1 m.toNat (f.1 + i) :=
            hpayload f (List.mem_cons_of_mem _ hf) _ (by omega) (by omega)
        _ = h₁.mem (f.1 + i) := hout _ (by omega)
        _ = s.heap.mem (f.1 + i) := hbyte
    · have hf' := hapart f hf
      dsimp only at hf' ⊢
      omega

end

/-! ### The contract -/

/-- Every state of a session with `realloc` has blocks. -/
theorem reach_represents_realloc {r : Region} {mem : ByteMem} {s : Session}
    (h : Reach (memStep r) (start r mem) s) : ∃ bs, Represents r s bs := by
  refine h.invariant (P := fun s => ∃ bs, Represents r s bs) ⟨_, represents_start r mem⟩ ?_
  rintro s (c | ⟨p, n⟩) s' ⟨bs, hs⟩ hstep
  · exact represents_step hs hstep
  · rw [memStep] at hstep
    split_ifs at hstep with hmem
    rcases hmem with rfl | hmem
    · obtain ⟨h, q, bs', hmalloc, hs', -⟩ := hs.malloc n.toNat_lt
      have hnull : realloc r s.heap 0 n.toNat = some ⟨h, q, 0⟩ := by
        rw [realloc_null, malloc, hmalloc]
        rfl
      rw [hnull] at hstep
      cases hstep
      -- no pointer of the application is null
      have hall : (if q = 0 then s.live else (q, n.toNat) :: s.live).filter (fun e => e.1 ≠ 0) =
          if q = 0 then s.live else (q, n.toNat) :: s.live :=
        List.filter_eq_self.2 fun e he => decide_eq_true (hs'.ne_zero he)
      refine ⟨bs', ?_⟩
      dsimp only
      rw [hall]
      exact hs'
    · obtain ⟨e, he, rfl⟩ := List.mem_map.1 hmem
      obtain ⟨out, bs', hrealloc, hs', -⟩ := hs.realloc he n
      rw [hrealloc] at hstep
      cases hstep
      exact ⟨bs', hs'⟩

/-- **When `realloc` meets its contract.**  In every state of every session, for every block of the
application and every new size other than zero, exactly if some free block has room for the new size
and a header, and the payload of the old block is no smaller than the new size.  And `realloc` of a
null pointer is `malloc`. -/
theorem realloc_contract_iff (r : Region) (mem : ByteMem) (s : Session)
    (hreach : Reach (memStep r) (start r mem) s) (e : ℕ × ℕ) (he : e ∈ s.live) (m : UInt32)
    (hm : 0 < m.toNat) :
    ((∃ out, realloc r s.heap e.1 m.toNat = some out ∧
        ReallocContract s.heap e.1 e.2 m.toNat out) ↔
      (∃ F, freeList r s.heap = some F ∧ ∃ c ∈ F, blockSize m.toNat ≤ c.2) ∧
        m.toNat ≤ capacity s.heap e.1) ∧
    realloc r s.heap 0 m.toNat =
      (malloc r s.heap m.toNat).map fun result => ⟨result.1, result.2, 0⟩ := by
  obtain ⟨bs, hs⟩ := reach_represents_realloc hreach
  obtain ⟨out, bs', hrealloc, hs', hbelongs, hfits, hcopy, -⟩ := hs.realloc he m
  have hroom : out.new ≠ 0 ↔ ∃ F, freeList r s.heap = some F ∧ ∃ c ∈ F, blockSize m.toNat ≤ c.2 := by
    rw [hfits, hs.fits_iff hm]
  refine ⟨⟨?_, ?_⟩, realloc_null r s.heap m.toNat⟩
  · rintro ⟨out', hrealloc', hcontract⟩
    cases hrealloc.symm.trans hrealloc'
    have hnew : out.new ≠ 0 := fun hnew => by
      have := (hcontract.kept hnew).1
      rw [hbelongs] at this
      cases this
    exact ⟨hroom.1 hnew, (hcopy hnew).1 ▸ hcontract.inside⟩
  · rintro ⟨hfit, hcapacity⟩
    have hnew := hroom.2 hfit
    obtain ⟨hread, hbytes⟩ := hcopy hnew
    exact ⟨out, hrealloc, fun _ => ⟨hbytes, hbelongs⟩, fun h => absurd h hnew, hread ▸ hcapacity⟩

/-- A block of 20 bytes, with room for 24, shrunk to 16. -/
theorem realloc_contract_iff_shrink : ∃ s : Session, (0x20008010, 20) ∈ s.live ∧
    ∃ out, realloc smallRegion s.heap 0x20008010 16 = some out ∧
      ReallocContract s.heap 0x20008010 20 16 out := by
  have hrun : (exec (memStep smallRegion) (start smallRegion fun _ => 0xff)
      [.call (.malloc 20)]).map (fun s => (s.live, freeList smallRegion s.heap,
        capacity s.heap 0x20008010)) =
      some ([(0x20008010, 20)], some [(0x20008028, 208)], 24) := by decide +kernel
  obtain ⟨s, hs, heval⟩ := Option.map_eq_some_iff.1 hrun
  obtain ⟨hlive, hlist, hcapacity⟩ : _ ∧ _ ∧ _ := by simpa only [Prod.mk.injEq] using heval
  have hmem : (0x20008010, 20) ∈ s.live := hlive ▸ List.mem_singleton_self _
  have hiff := realloc_contract_iff smallRegion _ s ⟨_, hs⟩ _ hmem 16 (by decide)
  exact ⟨s, hmem, hiff.1.2 ⟨⟨_, hlist, _, List.mem_singleton_self _, by decide⟩,
    hcapacity ▸ by decide⟩⟩

/-- **`realloc` does not meet its contract.**  Growing the block reads beyond its payload; and if
there is no room for the new size the block is gone, although a null pointer is returned. -/
theorem realloc_contract_violated : ∃ s : Session,
    Reach (memStep smallRegion) (start smallRegion fun _ => 0xff) s ∧ (0x20008010, 20) ∈ s.live ∧
      (¬∃ out, realloc smallRegion s.heap 0x20008010 40 = some out ∧
        ReallocContract s.heap 0x20008010 20 40 out) ∧
      ¬∃ out, realloc smallRegion s.heap 0x20008010 300 = some out ∧
        ReallocContract s.heap 0x20008010 20 300 out := by
  have hrun : (exec (memStep smallRegion) (start smallRegion fun _ => 0xff)
      [.call (.malloc 20)]).map (fun s => (s.live, capacity s.heap 0x20008010,
        (realloc smallRegion s.heap 0x20008010 40).map Realloc.read,
        (realloc smallRegion s.heap 0x20008010 300).map fun out =>
          (out.new, belongs out.heap 0x20008010))) =
      some ([(0x20008010, 20)], 24, some 40, some (0, false)) := by decide +kernel
  obtain ⟨s, hs, heval⟩ := Option.map_eq_some_iff.1 hrun
  obtain ⟨hlive, hcapacity, hgrow, hfail⟩ : _ ∧ _ ∧ _ ∧ _ := by
    simpa only [Prod.mk.injEq] using heval
  refine ⟨s, ⟨_, hs⟩, hlive ▸ List.mem_singleton_self _, ?_, ?_⟩
  · rintro ⟨out, hout, hcontract⟩
    have hread : out.read = 40 := by simpa [hout] using hgrow
    have := hcontract.inside
    omega
  · rintro ⟨out, hout, hcontract⟩
    obtain ⟨hnew, hbelongs⟩ : out.new = 0 ∧ belongs out.heap 0x20008010 = false := by
      simpa [hout] using hfail
    have := (hcontract.kept hnew).1
    rw [hbelongs] at this
    cases this

end Pico.Heap4
