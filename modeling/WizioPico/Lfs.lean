/-
**What littlefs asks of a block device.**

littlefs reaches its storage through the functions of a `struct lfs_config` (`library/lfs/lfs.h`):
it erases blocks, programs regions of them and reads regions back.  Both block devices of
`library/VFS/VFS_LFS.c`, the internal flash and the RAM disk, are verified against the contract
in this module.

* `Pico.LfsConfig` — the fields of `struct lfs_config` that the devices read;
* `Pico.BlockOp`, `Pico.BlockOp.Valid` — a call littlefs makes, and the ranges it promises to use;
* `Pico.storedSince` — the bytes a history of calls has stored at a position since the last
  erase of the block, which is what a read has to be compared with.
-/

import WizioPico.ByteMem

set_option relaxedAutoImplicit false
set_option autoImplicit false

namespace Pico

/-- `LFS_ERR_OK`. -/
def lfsErrOk : ℤ := 0

/-- `LFS_ERR_CORRUPT`. -/
def lfsErrCorrupt : ℤ := -84

/-- The geometry in `struct lfs_config`, as far as the devices and the promise refer to it. -/
structure LfsConfig where
  progSize : ℕ
  blockSize : ℕ
  blockCount : ℕ

/-- A call of one of the functions in `struct lfs_config`.  The buffer of a program operation is
the memory from the pointer on, so what lies behind its `size` bytes is there to be read too. -/
inductive BlockOp
  | erase (block : ℕ)
  | prog (block off : ℕ) (buffer : ByteMem) (size : ℕ)
  | read (block off : ℕ) (buffer : ByteMem) (size : ℕ)

/-- The promise of littlefs: the block exists, the region lies inside it, and what is programmed
is a multiple of `prog_size`.  Nothing is assumed of the granularity of reads. -/
def BlockOp.Valid (c : LfsConfig) : BlockOp → Prop
  | .erase block => block < c.blockCount
  | .prog block off _ size =>
      block < c.blockCount ∧ off + size ≤ c.blockSize ∧ c.progSize ∣ off ∧ c.progSize ∣ size
  | .read block off _ size =>
      block < c.blockCount ∧ off + size ≤ c.blockSize

instance (c : LfsConfig) : (op : BlockOp) → Decidable (op.Valid c)
  | .erase block => inferInstanceAs (Decidable (block < c.blockCount))
  | .prog block off _ size => inferInstanceAs (Decidable (block < c.blockCount ∧
      off + size ≤ c.blockSize ∧ c.progSize ∣ off ∧ c.progSize ∣ size))
  | .read block off _ size =>
      inferInstanceAs (Decidable (block < c.blockCount ∧ off + size ≤ c.blockSize))

/-- A call that keeps the promise. -/
abbrev BlockCall (c : LfsConfig) := {op : BlockOp // op.Valid c}

/-- The block has been erased in the history `h`, which lists the calls from the newest on. -/
def Erased (h : List BlockOp) (block : ℕ) : Prop := .erase block ∈ h

/-- The bytes stored at a position of a block since its last erase, from the newest on. -/
def storedSince : List BlockOp → ℕ → ℕ → List UInt8
  | [], _, _ => []
  | .erase b :: h, block, pos => if b = block then [] else storedSince h block pos
  | .prog b off buffer size :: h, block, pos =>
      if b = block ∧ off ≤ pos ∧ pos < off + size then
        buffer (pos - off) :: storedSince h block pos
      else storedSince h block pos
  | .read _ _ _ _ :: h, block, pos => storedSince h block pos

theorem storedSince_prog_of_mem {h : List BlockOp} {block off size pos : ℕ} {buffer : ByteMem}
    (hlo : off ≤ pos) (hhi : pos < off + size) :
    storedSince (.prog block off buffer size :: h) block pos =
      buffer (pos - off) :: storedSince h block pos := if_pos ⟨rfl, hlo, hhi⟩

theorem storedSince_prog_of_not_mem {h : List BlockOp} {b block off size pos : ℕ}
    {buffer : ByteMem} (hne : ¬(b = block ∧ off ≤ pos ∧ pos < off + size)) :
    storedSince (.prog b off buffer size :: h) block pos = storedSince h block pos := if_neg hne

/-- Blocks of equal size do not overlap, wherever in them one looks. -/
theorem block_pos_inj {size b b' p p' : ℕ} (hp : p < size) (hp' : p' < size)
    (h : size * b + p = size * b' + p') : b = b' ∧ p = p' := by
  have hb : b = b' := by
    have h₁ := congrArg (· / size) h
    simpa [Nat.mul_add_div (Nat.zero_lt_of_lt hp), Nat.div_eq_of_lt hp, Nat.div_eq_of_lt hp']
      using h₁
  subst hb
  exact ⟨rfl, by omega⟩

/-- The whole of a block lies before the end of the device. -/
theorem block_end_le (size : ℕ) {b count : ℕ} (hb : b < count) :
    size * b + size ≤ size * count := by
  calc size * b + size = size * (b + 1) := (Nat.mul_succ size b).symm
    _ ≤ size * count := Nat.mul_le_mul_left size hb

end Pico
