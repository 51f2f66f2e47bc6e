/-
**The internal flash as a littlefs block device.**

`library/VFS/VFS_LFS.c` gives littlefs the flash sectors behind the program image.  Flash is
NOR memory: erasing a sector sets its bytes to `0xFF`, and programming can only clear bits, so
that programming a byte twice stores the conjunction of the two.  A block device on top of it is
therefore only right if every program operation keeps to the bytes it was given.

Main definitions:

* `Pico.Rom.lfsRomRead`, `Pico.Rom.lfsRomWrite`, `Pico.Rom.lfsRomErase` — the driver, as the
  flash operations it issues;
* `Pico.Rom.RomDevice` — a device inside the flash window;
* `Pico.Rom.step` — littlefs calling the driver, together with the history of its calls;
* `Pico.Rom.StepOk` — what a NOR block device owes littlefs at one call.

Main results:

* `Pico.Rom.lfsRomWrite_programs` — what the driver programs: at an offset other than zero it
  programs to the end of the block, whatever the size;
* `Pico.Rom.FlashHolds.step` — the flash holds the conjunction of what was stored since the erase;
* `Pico.Rom.romDevice_nor_iff` — **a run behaves as on a NOR block device exactly when each of
  its program operations starts its block or ends it.**
-/

import WizioPico.Lfs
import WizioPico.Runs

set_option relaxedAutoImplicit false
set_option autoImplicit false

namespace Pico.Rom

/-! ### The driver -/

/-- `FLASH_SECTOR_SIZE`, from `hardware/flash.h`. -/
def flashSectorSize : ℕ := 4096

/-- `XIP_BASE`, the address at which the flash is mapped for reading. -/
def xipBase : ℕ := 0x10000000

/-- `lfs_rom_memory`: the first sector behind the program image, whose end is
`flashBinaryEnd`. -/
def lfsRomMemory (flashBinaryEnd : ℕ) : ℕ :=
  (flashBinaryEnd + flashSectorSize - 1) % 2 ^ 32 &&& (2 ^ 32 - 1 - (flashSectorSize - 1))

/-- `flash_range_erase`: the range becomes all ones. -/
def flashRangeErase (flash : ByteMem) (offs count : ℕ) : ByteMem :=
  flash.blit offs count fun _ => 0xFF

/-- A call of `flash_range_program`: the place in flash, the place in the caller's buffer the
bytes are taken from, and their number. -/
structure FlashProgram where
  offs : ℕ
  buf : ℕ
  len : ℕ

/-- `flash_range_program`: the bits of the range that are zero in the buffer are cleared. -/
def flashRangeProgram (buffer flash : ByteMem) (p : FlashProgram) : ByteMem :=
  flash.blit p.offs p.len fun i => flash (p.offs + i) &&& buffer (p.buf + i)

/-- `lfs_rom_read`: the result and the buffer it leaves. -/
def lfsRomRead (flashBinaryEnd : ℕ) (c : LfsConfig) (block off : ℕ) (buffer : ByteMem)
    (size : ℕ) (flash : ByteMem) : ℤ × ByteMem :=
  let src := (lfsRomMemory flashBinaryEnd + c.blockSize * block + off) % 2 ^ 32
  (lfsErrOk, buffer.blit 0 size fun i => flash (src + i - xipBase))

/-- The `while ((int)size > 0)` loop of `lfs_rom_write`, as the program operations it issues.
The subtraction from `size` is unsigned: it wraps to a negative `int` when less than a block
is left. -/
def lfsRomWriteLoop (c : LfsConfig) (h : c.blockSize = flashSectorSize) (flashOffs buf size : ℕ) :
    List FlashProgram :=
  if 0 < size ∧ size < 2 ^ 31 then
    ⟨flashOffs, buf, size⟩ ::
      lfsRomWriteLoop c h ((flashOffs + c.blockSize) % 2 ^ 32) (buf + c.blockSize)
        ((size + 2 ^ 32 - c.blockSize) % 2 ^ 32)
  else []
termination_by if size < 2 ^ 31 then size else 0
decreasing_by
  simp only [h, flashSectorSize]
  split <;> split <;> omega

/-- `lfs_rom_write`: the result and the program operations it issues. -/
def lfsRomWrite (flashBinaryEnd : ℕ) (c : LfsConfig) (block off size : ℕ) :
    ℤ × List FlashProgram :=
  if h : c.blockSize = flashSectorSize then
    let flashOffs :=
      (lfsRomMemory flashBinaryEnd + c.blockSize * block + 2 ^ 32 - xipBase) % 2 ^ 32
    if off ≠ 0 then
      let len := c.blockSize - off
      (lfsErrOk, ⟨(flashOffs + off) % 2 ^ 32, 0, len⟩ ::
        lfsRomWriteLoop c h ((flashOffs + len) % 2 ^ 32) len ((size + 2 ^ 32 - len) % 2 ^ 32))
    else (lfsErrOk, lfsRomWriteLoop c h flashOffs 0 size)
  else (lfsErrCorrupt, [])

/-- `lfs_rom_erase`: the result and the flash it leaves. -/
def lfsRomErase (flashBinaryEnd : ℕ) (c : LfsConfig) (block : ℕ) (flash : ByteMem) :
    ℤ × ByteMem :=
  if c.blockSize = flashSectorSize then
    (lfsErrOk, flashRangeErase flash
      ((lfsRomMemory flashBinaryEnd + c.blockSize * block + 2 ^ 32 - xipBase) % 2 ^ 32) c.blockSize)
  else (lfsErrCorrupt, flash)

/-! ### The device and its runs -/

/-- A device in the flash: its blocks are sectors, it starts inside the window the flash is
mapped to and it does not run over the end of the address space. -/
structure RomDevice where
  cfg : LfsConfig
  flashBinaryEnd : ℕ
  sector : cfg.blockSize = flashSectorSize
  base : xipBase ≤ lfsRomMemory flashBinaryEnd
  fits : lfsRomMemory flashBinaryEnd + cfg.blockSize * cfg.blockCount ≤ 2 ^ 32

/-- The geometry of `lfs_rom_cfg`, behind an image of 64 KiB. -/
def lfsRomDevice : RomDevice where
  cfg := ⟨256, 4096, 64⟩
  flashBinaryEnd := 0x10010000
  sector := rfl
  base := by decide
  fits := by decide

variable (d : RomDevice)

/-- Where in the flash a byte of a block lies. -/
def RomDevice.addr (block pos : ℕ) : ℕ :=
  lfsRomMemory d.flashBinaryEnd - xipBase + d.cfg.blockSize * block + pos

/-- The flash after one call. -/
def apply (flash : ByteMem) : BlockOp → ByteMem
  | .erase block => (lfsRomErase d.flashBinaryEnd d.cfg block flash).2
  | .prog block off buffer size =>
      (lfsRomWrite d.flashBinaryEnd d.cfg block off size).2.foldl (flashRangeProgram buffer) flash
  | .read _ _ _ _ => flash

/-- The flash, and the calls littlefs has made so far, from the newest on. -/
abbrev State := ByteMem × List BlockOp

/-- littlefs makes one call. -/
def step (s : State) (op : BlockCall d.cfg) : Option State :=
  some (apply d s.1 op.1, op.1 :: s.2)

/-- **What a NOR block device owes littlefs at one call.**  Programming reads only the `size`
bytes of the buffer and changes only the range it names; reading returns, for a byte that was
stored once since its block was erased, the byte that was stored. -/
def StepOk (s : State) (op : BlockCall d.cfg) : Prop :=
  match op.1 with
  | .erase _ => True
  | .prog block off buffer size =>
      (∀ p ∈ (lfsRomWrite d.flashBinaryEnd d.cfg block off size).2,
        ∀ i < p.len, p.buf + i < size) ∧
      ∀ x, (∀ i < size, x ≠ d.addr block (off + i)) →
        apply d s.1 (.prog block off buffer size) x = s.1 x
  | .read block off buffer size =>
      ∀ i < size, ∀ v, Erased s.2 block → storedSince s.2 block (off + i) = [v] →
        (lfsRomRead d.flashBinaryEnd d.cfg block off buffer size s.1).2 i = v

/-- The call is not a program operation that starts behind the beginning of its block and stops
before the end. -/
def StartsOrEnds (op : BlockCall d.cfg) : Prop :=
  match op.1 with
  | .prog _ off _ size => off = 0 ∨ off + size = d.cfg.blockSize
  | _ => True

/-! ### The operations a call issues -/

/-- At most one block is left to program, so the loop runs at most once. -/
theorem lfsRomWriteLoop_eq {c : LfsConfig} (h : c.blockSize = flashSectorSize)
    {flashOffs buf size : ℕ} (hs : 0 < size) (hle : size ≤ c.blockSize) :
    lfsRomWriteLoop c h flashOffs buf size = [⟨flashOffs, buf, size⟩] := by
  rw [h, flashSectorSize] at hle
  rw [lfsRomWriteLoop, if_pos (by omega), lfsRomWriteLoop, if_neg]
  rw [h, flashSectorSize]
  omega

/-- The loop issues nothing for a size that is zero or, read as an `int`, negative. -/
theorem lfsRomWriteLoop_eq_nil {c : LfsConfig} (h : c.blockSize = flashSectorSize)
    {flashOffs buf size : ℕ} (hs : size = 0 ∨ 2 ^ 31 ≤ size) :
    lfsRomWriteLoop c h flashOffs buf size = [] := by
  rw [lfsRomWriteLoop, if_neg (by omega)]

section
variable {d}

/-- The flash offset the driver computes for a block. -/
theorem flashOffs_eq {block : ℕ} (hb : block < d.cfg.blockCount) :
    (lfsRomMemory d.flashBinaryEnd + d.cfg.blockSize * block + 2 ^ 32 - xipBase) % 2 ^ 32 =
      d.addr block 0 := by
  have hbase := d.base
  have hfits := d.fits
  have hend := block_end_le d.cfg.blockSize hb
  rw [RomDevice.addr]
  simp only [xipBase] at *
  omega

/-- **What the driver programs.**  The length of the operation at an offset other than zero does
not depend on the size it was asked for. -/
theorem lfsRomWrite_programs {block off size : ℕ} (hb : block < d.cfg.blockCount)
    (hle : off + size ≤ d.cfg.blockSize) :
    (lfsRomWrite d.flashBinaryEnd d.cfg block off size).2 =
      if off ≠ 0 then [⟨d.addr block off, 0, d.cfg.blockSize - off⟩]
      else if size = 0 then [] else [⟨d.addr block 0, 0, size⟩] := by
  have hbase := d.base
  have hfits := d.fits
  have hend := block_end_le d.cfg.blockSize hb
  have hsec := d.sector
  rw [lfsRomWrite, dif_pos hsec]
  simp only [flashOffs_eq hb]
  by_cases hoff : off = 0
  · subst hoff
    rw [if_neg (by simp), if_neg (by simp)]
    by_cases hsize : size = 0
    · rw [if_pos hsize, lfsRomWriteLoop_eq_nil hsec (Or.inl hsize)]
    · rw [if_neg hsize, lfsRomWriteLoop_eq hsec (by omega) (by omega)]
  · rw [if_pos hoff, if_pos hoff]
    have haddr : (d.addr block 0 + off) % 2 ^ 32 = d.addr block off := by
      simp only [RomDevice.addr, xipBase] at *
      omega
    have hbs : d.cfg.blockSize = 4096 := hsec
    rw [haddr, lfsRomWriteLoop_eq_nil hsec (by omega)]

/-- The bytes of different places lie at different addresses. -/
theorem addr_inj {b b' p p' : ℕ} (hp : p < d.cfg.blockSize) (hp' : p' < d.cfg.blockSize)
    (h : d.addr b p = d.addr b' p') : b = b' ∧ p = p' := by
  refine block_pos_inj hp hp' ?_
  simp only [RomDevice.addr] at h
  omega

/-! ### One call -/

/-- Erasing a block. -/
theorem apply_erase {flash : ByteMem} {block : ℕ} (hb : block < d.cfg.blockCount) :
    apply d flash (.erase block) = flash.blit (d.addr block 0) d.cfg.blockSize fun _ => 0xFF := by
  rw [apply, lfsRomErase, if_pos d.sector, flashOffs_eq hb]
  rfl

/-- Programming at an offset other than zero conjoins the rest of the block with what lies behind
the pointer, whatever the size. -/
theorem apply_prog_of_ne {flash buffer : ByteMem} {block off size : ℕ}
    (hb : block < d.cfg.blockCount) (hle : off + size ≤ d.cfg.blockSize) (hoff : off ≠ 0) :
    apply d flash (.prog block off buffer size) =
      flash.blit (d.addr block off) (d.cfg.blockSize - off)
        fun i => flash (d.addr block off + i) &&& buffer i := by
  rw [apply, lfsRomWrite_programs hb hle, if_pos hoff, List.foldl_cons, List.foldl_nil]
  simp only [flashRangeProgram, Nat.zero_add]

/-- Programming a range that starts its block or ends it: the bytes of the range are conjoined
with those of the buffer. -/
theorem apply_prog {flash buffer : ByteMem} {block off size : ℕ} (hb : block < d.cfg.blockCount)
    (hle : off + size ≤ d.cfg.blockSize) (h : off = 0 ∨ off + size = d.cfg.blockSize) :
    apply d flash (.prog block off buffer size) =
      flash.blit (d.addr block off) size fun i => flash (d.addr block off + i) &&& buffer i := by
  by_cases hoff : off = 0
  · subst hoff
    rw [apply, lfsRomWrite_programs hb hle, if_neg (by simp)]
    by_cases hsize : size = 0
    · rw [if_pos hsize, hsize, List.foldl_nil, ByteMem.blit_zero]
    · rw [if_neg hsize, List.foldl_cons, List.foldl_nil]
      simp only [flashRangeProgram, Nat.zero_add]
  · have hlen : d.cfg.blockSize - off = size := by omega
    rw [apply_prog_of_ne hb hle hoff, hlen]

/-- A byte of a block is in a range of a block exactly when it is the same block and the position
is in the range. -/
theorem mem_range_iff {b p : ℕ} (b' off size : ℕ) (hp : p < d.cfg.blockSize)
    (hle : off + size ≤ d.cfg.blockSize) :
    (d.addr b' off ≤ d.addr b p ∧ d.addr b p < d.addr b' off + size) ↔
      b' = b ∧ off ≤ p ∧ p < off + size := by
  constructor
  · rintro ⟨hlo, hhi⟩
    have heq : d.addr b p = d.addr b' (off + (d.addr b p - d.addr b' off)) := by
      simp only [RomDevice.addr] at *
      omega
    obtain ⟨rfl, hpos⟩ := addr_inj hp (by omega) heq
    exact ⟨rfl, by omega, by omega⟩
  · rintro ⟨rfl, hlo, hhi⟩
    simp only [RomDevice.addr]
    omega

/-- Reading a byte of a block. -/
theorem lfsRomRead_apply {flash buffer : ByteMem} {block off size i : ℕ}
    (hb : block < d.cfg.blockCount) (hle : off + size ≤ d.cfg.blockSize) (hi : i < size) :
    (lfsRomRead d.flashBinaryEnd d.cfg block off buffer size flash).2 i =
      flash (d.addr block (off + i)) := by
  have hbase := d.base
  have hfits := d.fits
  have hend := block_end_le d.cfg.blockSize hb
  have hblit := ByteMem.blit_add (m := buffer) (a := 0) (f := fun i =>
    flash ((lfsRomMemory d.flashBinaryEnd + d.cfg.blockSize * block + off) % 2 ^ 32 + i - xipBase))
    hi
  rw [Nat.zero_add] at hblit
  rw [lfsRomRead]
  refine hblit.trans (congrArg flash ?_)
  simp only [RomDevice.addr, xipBase] at *
  omega

/-! ### Runs -/

/-- Every byte of an erased block holds the conjunction of the bytes stored there since. -/
def FlashHolds (d : RomDevice) (s : State) : Prop :=
  ∀ b < d.cfg.blockCount, ∀ p < d.cfg.blockSize, Erased s.2 b →
    s.1 (d.addr b p) = (storedSince s.2 b p).foldr (fun v acc => acc &&& v) 0xFF

/-- A call that starts its block or ends it keeps the flash in step with the history. -/
theorem FlashHolds.step {s s' : State} {op : BlockCall d.cfg} (hs : FlashHolds d s)
    (hop : StartsOrEnds d op) (h : step d s op = some s') : FlashHolds d s' := by
  obtain ⟨op, hv⟩ := op
  cases h
  intro b hb p hp her
  cases op with
  | erase block =>
      simp only [apply_erase hv, storedSince]
      have hrange := mem_range_iff (b := b) block 0 d.cfg.blockSize hp (by omega)
      by_cases hbb : block = b
      · have hin := hrange.2 ⟨hbb, by omega, by omega⟩
        rw [if_pos hbb, ByteMem.blit_of_mem hin.1 hin.2, List.foldr_nil]
      · have hout : ¬(d.addr block 0 ≤ d.addr b p ∧
            d.addr b p < d.addr block 0 + d.cfg.blockSize) := fun h => hbb (hrange.1 h).1
        rw [if_neg hbb, ByteMem.blit_of_not_mem (by omega)]
        refine hs b hb p hp ((List.mem_cons.1 her).resolve_left fun heq => hbb ?_)
        cases heq
        rfl
  | prog block off buffer size =>
      have hblock := hv.1
      have hle := hv.2.1
      have her' : Erased s.2 b := (List.mem_cons.1 her).resolve_left nofun
      have hrange := mem_range_iff (b := b) block off size hp hle
      simp only [apply_prog hblock hle hop]
      by_cases hin : block = b ∧ off ≤ p ∧ p < off + size
      · have haddr : d.addr block off + (d.addr b p - d.addr block off) = d.addr b p := by
          have := (hrange.2 hin).1
          omega
        have hpos : d.addr b p - d.addr block off = p - off := by
          rw [← hin.1]
          simp only [RomDevice.addr]
          omega
        rw [ByteMem.blit_of_mem (hrange.2 hin).1 (hrange.2 hin).2, haddr, hpos,
          hs b hb p hp her', ← hin.1, storedSince_prog_of_mem hin.2.1 hin.2.2, List.foldr_cons]
      · have hout : ¬(d.addr block off ≤ d.addr b p ∧
            d.addr b p < d.addr block off + size) := fun h => hin (hrange.1 h)
        rw [ByteMem.blit_of_not_mem (by omega), storedSince_prog_of_not_mem hin]
        exact hs b hb p hp her'
  | read block off buffer size =>
      exact hs b hb p hp ((List.mem_cons.1 her).resolve_left nofun)

/-- While the flash is in step with the history, a call is right exactly when it is not a program
operation inside its block. -/
theorem stepOk_iff {s : State} (hs : FlashHolds d s) (op : BlockCall d.cfg) :
    StepOk d s op ↔ StartsOrEnds d op := by
  obtain ⟨op, hv⟩ := op
  cases op with
  | erase block => exact Iff.rfl
  | prog block off buffer size =>
      obtain ⟨hb, hle, -, -⟩ := hv
      constructor
      · rintro ⟨hread, -⟩
        rw [lfsRomWrite_programs hb hle] at hread
        by_cases hoff : off = 0
        · exact Or.inl hoff
        · right
          rw [if_pos hoff] at hread
          have hlen : 0 < d.cfg.blockSize - off → d.cfg.blockSize - off - 1 < size := fun h => by
            simpa using hread _ List.mem_cons_self (d.cfg.blockSize - off - 1) (by simp; omega)
          omega
      · intro h
        refine ⟨?_, fun x hx => ?_⟩
        · rw [lfsRomWrite_programs hb hle]
          intro p hp i hi
          by_cases hoff : off = 0
          · rw [if_neg (by simpa using hoff)] at hp
            by_cases hsize : size = 0
            · rw [if_pos hsize] at hp
              simp at hp
            · rw [if_neg hsize, List.mem_singleton] at hp
              subst hp
              simpa using hi
          · rw [if_pos hoff, List.mem_singleton] at hp
            subst hp
            have hi' : i < d.cfg.blockSize - off := hi
            have hend : off + size = d.cfg.blockSize := h.resolve_left hoff
            simp only [Nat.zero_add]
            omega
        · simp only [apply_prog hb hle h]
          refine ByteMem.blit_of_not_mem ?_
          by_contra hin
          refine hx (x - d.addr block off) (by omega) ?_
          simp only [RomDevice.addr] at *
          omega
  | read block off buffer size =>
      obtain ⟨hb, hle⟩ := hv
      refine ⟨fun _ => trivial, fun _ => ?_⟩
      intro i hi v her hstored
      rw [lfsRomRead_apply hb hle hi, hs block hb (off + i) (by omega) her, hstored]
      exact UInt8.neg_one_and

end

/-- Before littlefs has made any call nothing is known of the flash. -/
theorem flashHolds_nil (flash : ByteMem) : FlashHolds d (flash, []) := by
  intro b _ p _ her
  cases her

/-- **The driver is a NOR block device exactly on the runs whose program operations each start
their block or end it.**  From any contents of the flash and for any run of calls that keep
littlefs's promise, every call of the run is answered as by a NOR block device if and only if
each program operation has offset zero or reaches the end of its block. -/
theorem romDevice_nor_iff (flash : ByteMem) (ops : List (BlockCall d.cfg)) :
    Runs.Every (step d) (StepOk d) (flash, []) ops ↔ ∀ op ∈ ops, StartsOrEnds d op := by
  rw [← Runs.every_forall_iff (step d) (fun _ _ => rfl) ops (flash, [])]
  exact Runs.every_iff (fun s op hs => stepOk_iff hs op)
    (fun s op s' hs hop h => hs.step hop h) ops (flashHolds_nil d flash)

/-- Two pages programmed one after the other, and the second one read back: the first of the two
calls has also cleared the page the second one is given. -/
def neighbours : List (BlockCall lfsRomDevice.cfg) :=
  [⟨.erase 0, by decide⟩,
    ⟨.prog 0 256 (fun _ => 0x00) 256, by decide⟩,
    ⟨.prog 0 512 (fun _ => 0x55) 256, by decide⟩,
    ⟨.read 0 512 (fun _ => 0x00) 256, by decide⟩]

/-- The driver is not a NOR block device on every run: the byte programmed at position 512 of the
erased block is `0x55`, and reading it gives `0x00`. -/
theorem romDevice_neighbours_damaged :
    ¬ Runs.Every (step lfsRomDevice) (StepOk lfsRomDevice) (fun _ => 0xFF, []) neighbours := by
  intro h
  have hread := (((h.2 _ rfl).2 _ rfl).2 _ rfl).1 0 (by decide) 0x55 (by simp [Erased]) (by
    simp [storedSince])
  rw [lfsRomRead_apply (by decide) (by decide) (by decide)] at hread
  dsimp only at hread
  rw [apply_prog_of_ne, ByteMem.blit_of_mem, apply_prog_of_ne, ByteMem.blit_of_mem,
    UInt8.and_zero] at hread
  · exact absurd hread (by decide)
  all_goals decide

end Pico.Rom
