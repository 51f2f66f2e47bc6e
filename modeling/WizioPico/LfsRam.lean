/-
**The RAM disk as a littlefs block device.**

The RAM disk of `library/VFS/VFS_LFS.c` keeps its bytes in `lfs_ram_memory`, which is declared as
an array of *pointers to* bytes.  The driver adds block and offset to the array, so the place of
a region is measured in pointers of four bytes each, while `memcpy` measures the region itself in
bytes.  A byte therefore lies in a different place depending on the offset at which the region
that contains it was cut.

Main definitions:

* `Pico.Ram.lfsRamRead`, `Pico.Ram.lfsRamWrite`, `Pico.Ram.lfsRamErase` — the driver;
* `Pico.Ram.StepOk` — what a byte-addressed block device owes littlefs at one call;
* `Pico.Ram.SameCut`, `Pico.Ram.CutsAgree` — the read looks where the last write to the position
  has put it, and nothing has been written over it since.

Main results:

* `Pico.Ram.RamHolds.step` — the array holds what was stored, at the places the writes were cut;
* `Pico.Ram.ramDisk_blockDevice` — **on a run whose reads agree with the cuts of the writes, the
  driver is a byte-addressed block device**;
* `Pico.Ram.sameCut_of_aligned` — reads and writes that are all cut at the same places agree.
-/

import WizioPico.Lfs
import WizioPico.Runs

set_option relaxedAutoImplicit false
set_option autoImplicit false

namespace Pico.Ram

/-! ### The driver -/

/-- The size of a pointer, which is the size of an element of `lfs_ram_memory`. -/
def sizeofPtr : ℕ := 4

/-- The byte of the array that `lfs_ram_memory + (c->block_size * block) + off` points to. -/
def element (c : LfsConfig) (block off : ℕ) : ℕ :=
  sizeofPtr * (c.blockSize * block % 2 ^ 32 + off)

/-- `lfs_ram_read`: the result and the buffer it leaves. -/
def lfsRamRead (c : LfsConfig) (block off : ℕ) (buffer : ByteMem) (size : ℕ) (ram : ByteMem) :
    ℤ × ByteMem :=
  (lfsErrOk, buffer.blit 0 size fun i => ram (element c block off + i))

/-- `lfs_ram_write`: the result and the array it leaves. -/
def lfsRamWrite (c : LfsConfig) (block off : ℕ) (buffer : ByteMem) (size : ℕ) (ram : ByteMem) :
    ℤ × ByteMem :=
  (lfsErrOk, ram.blit (element c block off) size buffer)

/-- `lfs_ram_erase`: the result and the array it leaves. -/
def lfsRamErase (c : LfsConfig) (block : ℕ) (ram : ByteMem) : ℤ × ByteMem :=
  (lfsErrOk, ram.blit (element c block 0) c.blockSize fun _ => 0)

/-! ### The device and its runs -/

/-- A RAM disk whose array, of one pointer for each byte of the device, fits the address space. -/
structure RamDisk where
  cfg : LfsConfig
  fits : sizeofPtr * (cfg.blockSize * cfg.blockCount) ≤ 2 ^ 32

/-- The geometry of `lfs_ram_cfg`. -/
def lfsRamDisk : RamDisk := ⟨⟨16, 128, 128⟩, by decide⟩

variable (d : RamDisk)

/-- The array after one call. -/
def apply (ram : ByteMem) : BlockOp → ByteMem
  | .erase block => (lfsRamErase d.cfg block ram).2
  | .prog block off buffer size => (lfsRamWrite d.cfg block off buffer size ram).2
  | .read _ _ _ _ => ram

/-- The array, and the calls littlefs has made so far, from the newest on. -/
abbrev State := ByteMem × List BlockOp

/-- littlefs makes one call. -/
def step (s : State) (op : BlockCall d.cfg) : Option State :=
  some (apply d s.1 op.1, op.1 :: s.2)

/-- The call does not concern the region. -/
def Apart (op : BlockOp) (block off size : ℕ) : Prop :=
  match op with
  | .erase b => b ≠ block
  | .prog b o _ n => b ≠ block ∨ o + n ≤ off ∨ off + size ≤ o
  | .read _ _ _ _ => True

/-- **What a byte-addressed block device owes littlefs at one call.**  The call leaves every region
it does not concern as it was, and a read returns the byte stored last at each position. -/
def StepOk (s : State) (op : BlockCall d.cfg) : Prop :=
  (∀ block off size, block < d.cfg.blockCount → off + size ≤ d.cfg.blockSize →
    Apart op.1 block off size → ∀ buffer,
      (lfsRamRead d.cfg block off buffer size (apply d s.1 op.1)).2 =
        (lfsRamRead d.cfg block off buffer size s.1).2) ∧
  match op.1 with
  | .read block off buffer size =>
      ∀ i < size, ∀ v older, storedSince s.2 block (off + i) = v :: older →
        (lfsRamRead d.cfg block off buffer size s.1).2 i = v
  | _ => True

/-- A region cut at `off` shows the byte stored last at `pos`: the write that stored it was cut at
`off` as well, and no later write to the block, of another region, has gone over the place in the
array.  The place is `pos - off` bytes behind element `off`, and a write cut at `o` goes over the
`size` bytes behind element `o`. -/
def SameCut : List BlockOp → ℕ → ℕ → ℕ → Prop
  | [], _, _, _ => True
  | .erase b :: h, block, off, pos => b = block ∨ SameCut h block off pos
  | .prog b o _ size :: h, block, off, pos =>
      if b = block ∧ o ≤ pos ∧ pos < o + size then o = off
      else SameCut h block off pos ∧ (b = block → storedSince h block pos ≠ [] →
        sizeofPtr * off + (pos - off) < sizeofPtr * o ∨
          sizeofPtr * o + size ≤ sizeofPtr * off + (pos - off))
  | .read _ _ _ _ :: h, block, off, pos => SameCut h block off pos

/-- The call, if it is a read, shows the bytes stored last at the positions it covers. -/
def CutsAgree (s : State) (op : BlockCall d.cfg) : Prop :=
  match op.1 with
  | .read block off _ size => ∀ i < size, SameCut s.2 block off (off + i)
  | _ => True

/-! ### One call -/

section
variable {d}

theorem lfsRamRead_buffer (c : LfsConfig) (block off : ℕ) (buffer : ByteMem) (size : ℕ)
    (ram : ByteMem) : (lfsRamRead c block off buffer size ram).2 =
      buffer.blit 0 size fun i => ram (element c block off + i) := rfl

theorem apply_erase (ram : ByteMem) (block : ℕ) : apply d ram (.erase block) =
    ram.blit (element d.cfg block 0) d.cfg.blockSize fun _ => 0 := rfl

theorem apply_prog (ram buffer : ByteMem) (block off size : ℕ) :
    apply d ram (.prog block off buffer size) = ram.blit (element d.cfg block off) size buffer :=
  rfl

/-- No block lies beyond the reach of a 32-bit address. -/
theorem element_eq {block off : ℕ} (hb : block < d.cfg.blockCount) (hpos : 0 < d.cfg.blockSize) :
    element d.cfg block off = sizeofPtr * (d.cfg.blockSize * block) + sizeofPtr * off := by
  have hfits := d.fits
  have hend := block_end_le d.cfg.blockSize hb
  rw [sizeofPtr] at hfits
  rw [element, Nat.mod_eq_of_lt (by omega), Nat.mul_add]

/-- The places of different blocks are different. -/
theorem element_apart {b b' : ℕ} (h : b < b') :
    sizeofPtr * (d.cfg.blockSize * b) + sizeofPtr * d.cfg.blockSize ≤
      sizeofPtr * (d.cfg.blockSize * b') := by
  rw [← Nat.mul_add]
  exact Nat.mul_le_mul_left _ (block_end_le d.cfg.blockSize h)

/-- Reading a byte of a block. -/
theorem lfsRamRead_apply {ram buffer : ByteMem} {block off size i : ℕ} (hi : i < size) :
    (lfsRamRead d.cfg block off buffer size ram).2 i = ram (element d.cfg block off + i) := by
  have hblit := ByteMem.blit_add (m := buffer) (a := 0)
    (f := fun i => ram (element d.cfg block off + i)) hi
  rwa [Nat.zero_add] at hblit

/-- A call does not touch the bytes that a region it does not concern is read from. -/
theorem apply_of_apart {ram : ByteMem} {op : BlockOp} (hv : op.Valid d.cfg) {block off size i : ℕ}
    (hb : block < d.cfg.blockCount) (hle : off + size ≤ d.cfg.blockSize) (hi : i < size)
    (h : Apart op block off size) :
    apply d ram op (element d.cfg block off + i) = ram (element d.cfg block off + i) := by
  have hpos : 0 < d.cfg.blockSize := by omega
  rw [element_eq hb hpos]
  cases op with
  | erase b =>
      rw [apply_erase]
      refine ByteMem.blit_of_not_mem ?_
      rw [element_eq hv hpos]
      rcases Nat.lt_or_gt_of_ne h with hlt | hlt
      · have := element_apart (d := d) hlt
        simp only [sizeofPtr] at *
        omega
      · have := element_apart (d := d) hlt
        simp only [sizeofPtr] at *
        omega
  | prog b o buf n =>
      obtain ⟨hb', hle', -, -⟩ := hv
      rw [apply_prog]
      refine ByteMem.blit_of_not_mem ?_
      rw [element_eq hb' hpos]
      rcases Nat.lt_trichotomy b block with hlt | rfl | hlt
      · have := element_apart (d := d) hlt
        simp only [sizeofPtr] at *
        omega
      · have := h.resolve_left (fun hne => hne rfl)
        simp only [sizeofPtr] at *
        omega
      · have := element_apart (d := d) hlt
        simp only [sizeofPtr] at *
        omega
  | read b o buf n => rfl

/-! ### Runs -/

/-- The array shows the byte stored last at a position to every region of the right cut. -/
def RamHolds (d : RamDisk) (s : State) : Prop :=
  ∀ b < d.cfg.blockCount, ∀ off pos, off ≤ pos → pos < d.cfg.blockSize → ∀ v older,
    storedSince s.2 b pos = v :: older → SameCut s.2 b off pos →
      s.1 (element d.cfg b off + (pos - off)) = v

/-- Every call keeps the array in step with the history. -/
theorem RamHolds.step {s s' : State} {op : BlockCall d.cfg} (hs : RamHolds d s)
    (h : step d s op = some s') : RamHolds d s' := by
  obtain ⟨op, hv⟩ := op
  cases h
  intro b hb off pos hoff hpos v older hst hcut
  have hbs : 0 < d.cfg.blockSize := by omega
  cases op with
  | erase block =>
      have hne : block ≠ b := by
        rintro rfl
        simp [storedSince] at hst
      rw [storedSince, if_neg hne] at hst
      refine Eq.trans ?_ (hs b hb off pos hoff hpos v older hst (hcut.resolve_left hne))
      have hle : off + (d.cfg.blockSize - off) ≤ d.cfg.blockSize := by omega
      exact apply_of_apart hv hb hle (by omega) hne
  | prog block o buffer size =>
      have hb' := hv.1
      have hle' := hv.2.1
      by_cases hin : block = b ∧ o ≤ pos ∧ pos < o + size
      · -- the write is the one that stored the byte, and it was cut where the region is
        rw [SameCut, if_pos hin] at hcut
        obtain ⟨rfl, hlo, hhi⟩ := hin
        subst hcut
        rw [storedSince_prog_of_mem hlo hhi, List.cons.injEq] at hst
        rw [← hst.1]
        exact ByteMem.blit_add (by omega)
      · rw [SameCut, if_neg hin] at hcut
        rw [storedSince_prog_of_not_mem hin] at hst
        refine Eq.trans (ByteMem.blit_of_not_mem ?_)
          (hs b hb off pos hoff hpos v older hst hcut.1)
        rw [element_eq hb hbs, element_eq hb' hbs]
        rcases Nat.lt_trichotomy block b with hlt | rfl | hlt
        · have := element_apart (d := d) hlt
          simp only [sizeofPtr] at *
          omega
        · have := hcut.2 rfl (by rw [hst]; exact List.cons_ne_nil _ _)
          omega
        · have := element_apart (d := d) hlt
          simp only [sizeofPtr] at *
          omega
  | read block o buffer size => exact hs b hb off pos hoff hpos v older hst hcut

/-- While the array is in step with the history, a call whose cut agrees with those of the writes
is answered as by a block device. -/
theorem stepOk_of_cutsAgree {s : State} (hs : RamHolds d s) {op : BlockCall d.cfg}
    (hop : CutsAgree d s op) : StepOk d s op := by
  obtain ⟨op, hv⟩ := op
  refine ⟨fun block off size hb hle hap buffer => funext fun i => ?_, ?_⟩
  · by_cases hi : i < size
    · rw [lfsRamRead_apply hi, lfsRamRead_apply hi]
      exact apply_of_apart hv hb hle hi hap
    · rw [lfsRamRead_buffer, lfsRamRead_buffer, ByteMem.blit_of_not_mem (by omega),
        ByteMem.blit_of_not_mem (by omega)]
  · cases op with
    | erase block => trivial
    | prog block off buffer size => trivial
    | read block off buffer size =>
        obtain ⟨hb, hle⟩ := hv
        intro i hi v older hst
        rw [lfsRamRead_apply hi]
        have hbyte := hs block hb off (off + i) (by omega) (by omega) v older hst (hop i hi)
        rwa [Nat.add_sub_cancel_left] at hbyte

end

/-- **On a run whose reads agree with the cuts of the writes the RAM disk is a byte-addressed
block device**: from any contents of the array, every call leaves the regions it does not concern
alone, and every read returns, at each position, the byte stored there last. -/
theorem ramDisk_blockDevice (ram : ByteMem) (ops : List (BlockCall d.cfg))
    (h : Runs.Every (step d) (CutsAgree d) (ram, []) ops) :
    Runs.Every (step d) (StepOk d) (ram, []) ops := by
  have hall : Runs.Every (step d) (fun s op => CutsAgree d s op → StepOk d s op) (ram, []) ops := by
    refine Runs.every_of_invariant (P := RamHolds d) (fun s op hs hop => ?_)
      (fun s op s' hs h => hs.step h) ops ?_
    · exact stepOk_of_cutsAgree hs hop
    intro b _ off pos _ _ v older hst
    simp [storedSince] at hst
  exact hall.mp h

/-- Two pages stored one after the other and read back one after the other. -/
def pageByPage : List (BlockCall lfsRamDisk.cfg) :=
  [⟨.erase 0, by decide⟩,
    ⟨.prog 0 0 (fun _ => 0x11) 16, by decide⟩,
    ⟨.prog 0 16 (fun _ => 0x22) 16, by decide⟩,
    ⟨.read 0 16 (fun _ => 0x00) 16, by decide⟩]

theorem ramDisk_pageByPage :
    Runs.Every (step lfsRamDisk) (CutsAgree lfsRamDisk) (fun _ => 0xFF, []) pageByPage ∧
      Runs.Every (step lfsRamDisk) (StepOk lfsRamDisk) (fun _ => 0xFF, []) pageByPage := by
  have h : Runs.Every (step lfsRamDisk) (CutsAgree lfsRamDisk) (fun _ => 0xFF, []) pageByPage := by
    refine ⟨trivial, fun _ h => ?_⟩
    cases h
    refine ⟨trivial, fun _ h => ?_⟩
    cases h
    refine ⟨trivial, fun _ h => ?_⟩
    cases h
    refine ⟨fun i hi => ?_, fun _ _ => trivial⟩
    rw [SameCut, if_pos ⟨rfl, by omega, by omega⟩]
  exact ⟨h, ramDisk_blockDevice lfsRamDisk _ _ h⟩

/-- The same two pages read back in one piece. -/
def twoPagesAtOnce : List (BlockCall lfsRamDisk.cfg) :=
  [⟨.erase 0, by decide⟩,
    ⟨.prog 0 0 (fun _ => 0x11) 16, by decide⟩,
    ⟨.prog 0 16 (fun _ => 0x22) 16, by decide⟩,
    ⟨.read 0 0 (fun _ => 0x00) 32, by decide⟩]

/-- The RAM disk is not a byte-addressed block device on every run: the byte `0x22` stored at
position 16 is read back as the zero that the erase has left there. -/
theorem ramDisk_twoPages_lost :
    ¬ Runs.Every (step lfsRamDisk) (StepOk lfsRamDisk) (fun _ => 0xFF, []) twoPagesAtOnce := by
  intro h
  have hread := (((h.2 _ rfl).2 _ rfl).2 _ rfl).1.2 16 (by decide) 0x22 [] (by decide)
  exact absurd hread (by decide)

/-! ### Equal cuts -/

/-- Every write of the history is one unit long and starts at a multiple of the unit. -/
def Aligned (unit : ℕ) (h : List BlockOp) : Prop :=
  ∀ b o buffer size, BlockOp.prog b o buffer size ∈ h → unit ∣ o ∧ size = unit

/-- **Equal cuts agree**: if every write is one unit long and starts at a multiple of it, so does
every region that is read, and a unit of it shows the bytes stored last. -/
theorem sameCut_of_aligned {unit : ℕ} {h : List BlockOp} (hal : Aligned unit h)
    {block off pos : ℕ} (hoff : unit ∣ off) (hlo : off ≤ pos) (hhi : pos < off + unit) :
    SameCut h block off pos := by
  induction h with
  | nil => trivial
  | cons op h ih =>
      replace ih := ih fun b o buffer size hmem =>
        hal b o buffer size (List.mem_cons_of_mem _ hmem)
      cases op with
      | erase b => exact Or.inr ih
      | read b o buffer size => exact ih
      | prog b o buffer size =>
          obtain ⟨⟨k, rfl⟩, rfl⟩ := hal b o buffer size List.mem_cons_self
          obtain ⟨j, rfl⟩ := hoff
          have hcases : k = j ∨ size * k + size ≤ size * j ∨ size * j + size ≤ size * k := by
            rcases Nat.lt_trichotomy k j with hlt | rfl | hlt
            · exact Or.inr (Or.inl (block_end_le size hlt))
            · exact Or.inl rfl
            · exact Or.inr (Or.inr (block_end_le size hlt))
          rw [SameCut]
          rcases hcases with rfl | hlt | hlt
          · by_cases hin : b = block ∧ size * k ≤ pos ∧ pos < size * k + size
            · rw [if_pos hin]
            · rw [if_neg hin]
              exact ⟨ih, fun hb _ => absurd ⟨hb, hlo, hhi⟩ hin⟩
          · rw [if_neg (by omega)]
            refine ⟨ih, fun _ _ => Or.inr ?_⟩
            simp only [sizeofPtr]
            omega
          · rw [if_neg (by omega)]
            refine ⟨ih, fun _ _ => Or.inl ?_⟩
            simp only [sizeofPtr]
            omega

end Pico.Ram
