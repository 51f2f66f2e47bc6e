/-
**Seeking in files of FatFs.**

`f_lseek` of `library/fatfs/ff.c` follows the cluster chain of the file to the new position, and in
files open for writing makes it longer as it goes; `s_fatfs_seek` of `library/VFS/VFS_FATFS.c` hands
it a sum of signed numbers as an unsigned position.  What the chain consists of, and what the drive
answers, is left open: `create_chain`, `get_fat` and the transfers of sectors are parameters, over
a state `ν` of the volume.

Main definitions:

* `Pico.Fat.Volume`, `Pico.Fat.Fil` — a mounted volume, and a file object;
* `Pico.Fat.walk`, `Pico.Fat.fLseek` — the cluster following loop, and `f_lseek`;
* `Pico.Fat.chase`, `Pico.Fat.Landing` — how far a chain can be followed, and where that leads;
* `Pico.Fat.SeekHonest` — what is asked of `s_fatfs_seek`;
* `Pico.Fat.SeekHarmless` — the seeks that neither wrap around nor fall short.

Main results:

* `Pico.Fat.seekFrom_lands` — the loop goes as far as the chain can be followed;
* `Pico.Fat.fLseek_eq` — **the position and the size `f_lseek` leaves**;
* `Pico.Fat.seek_honest_iff` — **a seek is honest exactly if it is harmless**.
-/

import Mathlib.Algebra.Group.Nat.Defs
import WizioPico.FsDrivers

set_option relaxedAutoImplicit false
set_option autoImplicit false

namespace Pico.Fat

open Pico.Vfs
open FRESULT

variable {ν : Type*}

/-! ### The volume and the file -/

/-- `FF_MAX_SS`. -/
def sectorSize : UInt32 := 512

/-- A mounted volume: its geometry, and the functions that look at the FAT and at the drive.  The
number of sectors in a cluster is a power of two that fits into a byte. -/
structure Volume (ν : Type*) where
  noInit : ν → Bool
  createChain : UInt32 → ν → UInt32 × ν
  getFat : UInt32 → ν → UInt32 × ν
  diskRead : UInt32 → ν → Bool × ν
  diskWrite : UInt32 → ν → Bool × ν
  nFatent : UInt32
  database : UInt32
  csize : UInt32
  csize_pow : ∃ k ≤ 7, csize.toNat = 2 ^ k

/-- `FIL`, without the contents of its buffer. -/
structure Fil where
  mounted : Bool
  err : FRESULT
  flag : UInt8
  fptr : UInt32
  objsize : UInt32
  sclust : UInt32
  clust : UInt32
  sect : UInt32
  deriving DecidableEq

def FA_MODIFIED : UInt8 := 0x40
def FA_DIRTY : UInt8 := 0x80

/-- The file is open for writing. -/
def Fil.writes (fil : Fil) : Bool := fil.flag &&& FA_WRITE != 0

variable (vol : Volume ν)

/-- `bcs`: the size of a cluster. -/
def Volume.bcs : UInt32 := vol.csize * sectorSize

/-- `validate`: the file is one of this mount, and the drive is still there. -/
def Volume.validate (fil : Fil) (v : ν) : FRESULT :=
  if fil.mounted && !vol.noInit v then FR_OK else FR_INVALID_OBJECT

/-- `clst2sect`. -/
def Volume.clst2sect (clst : UInt32) : UInt32 :=
  let clst := clst - 2
  if vol.nFatent - 2 ≤ clst then 0 else vol.database + vol.csize * clst

/-! ### Seeking -/

/-- Where the cluster following loop stands: what is left of the way, and the cluster; or it has
been aborted. -/
structure Step (ν : Type*) where
  abort : Option FRESULT
  ofs : UInt32
  clst : UInt32
  fil : Fil
  v : ν

/-- The next cluster of a chain, which becomes longer if the file is open for writing. -/
def Volume.next (write : Bool) (clst : UInt32) (v : ν) : UInt32 × ν :=
  if write then vol.createChain clst v else vol.getFat clst v

theorem Volume.bcs_toNat : ∃ k ≤ 7, vol.bcs.toNat = 2 ^ (k + 9) := by
  obtain ⟨k, hk, hcsize⟩ := vol.csize_pow
  refine ⟨k, hk, ?_⟩
  have hle : 2 ^ k ≤ 2 ^ 7 := Nat.pow_le_pow_right (by decide) hk
  rw [Volume.bcs, UInt32.toNat_mul, hcsize, pow_add]
  have hsize : sectorSize.toNat = 2 ^ 9 := rfl
  rw [hsize]
  exact Nat.mod_eq_of_lt (by omega)

theorem Volume.bcs_pos : 0 < vol.bcs.toNat := by
  obtain ⟨k, -, hbcs⟩ := vol.bcs_toNat
  rw [hbcs]
  exact Nat.two_pow_pos _

/-- The cluster following loop of `f_lseek`. -/
def walk (ofs clst : UInt32) (fil : Fil) (v : ν) : Step ν :=
  if vol.bcs < ofs then
    let ofs := ofs - vol.bcs
    let fil := { fil with fptr := fil.fptr + vol.bcs }
    let r := vol.next fil.writes clst v
    if fil.writes && r.1 == 0 then ⟨none, 0, 0, fil, r.2⟩
    else if r.1 = 0xFFFFFFFF then ⟨some FR_DISK_ERR, ofs, r.1, fil, r.2⟩
    else if r.1 ≤ 1 ∨ vol.nFatent ≤ r.1 then ⟨some FR_INT_ERR, ofs, r.1, fil, r.2⟩
    else walk ofs r.1 { fil with clust := r.1 } r.2
  else ⟨none, ofs, clst, fil, v⟩
termination_by ofs.toNat
decreasing_by
  rename_i hlt _ _ _
  have hpos := vol.bcs_pos
  have hlt' := UInt32.lt_iff_toNat_lt.1 hlt
  change (_ - vol.bcs : UInt32).toNat < _
  rw [UInt32.toNat_sub_of_le _ _ (UInt32.le_of_lt hlt)]
  omega

/-- The part of `f_lseek` in front of the loop: the cluster to start from. -/
def seekStart (ifptr ofs : UInt32) (fil : Fil) (v : ν) : Step ν :=
  if 0 < ifptr ∧ (ifptr - 1) / vol.bcs ≤ (ofs - 1) / vol.bcs then
    let base := (ifptr - 1) &&& ~~~(vol.bcs - 1)
    ⟨none, ofs - base, fil.clust, { fil with fptr := base }, v⟩
  else if fil.sclust = 0 then
    let r := vol.createChain 0 v
    if r.1 = 1 then ⟨some FR_INT_ERR, ofs, r.1, fil, r.2⟩
    else if r.1 = 0xFFFFFFFF then ⟨some FR_DISK_ERR, ofs, r.1, fil, r.2⟩
    else ⟨none, ofs, r.1, { fil with sclust := r.1, clust := r.1 }, r.2⟩
  else ⟨none, ofs, fil.sclust, { fil with clust := fil.sclust }, v⟩

/-- The part behind the loop: the sector of the position. -/
def seekSector (t : Step ν) : Option FRESULT × UInt32 × Fil × ν :=
  let fil := { t.fil with fptr := t.fil.fptr + t.ofs }
  if t.ofs % sectorSize ≠ 0 then
    let nsect := vol.clst2sect t.clst
    if nsect = 0 then (some FR_INT_ERR, nsect, fil, t.v)
    else (none, nsect + t.ofs / sectorSize, fil, t.v)
  else (none, 0, fil, t.v)

/-- The way from a cluster on. -/
def seekFrom (ofs clst : UInt32) (fil : Fil) (v : ν) : Option FRESULT × UInt32 × Fil × ν :=
  let t := walk vol ofs clst fil v
  if t.abort.isSome then (t.abort, 0, t.fil, t.v) else seekSector vol t

/-- The way to a position other than 0. -/
def seekWay (ifptr ofs : UInt32) (fil : Fil) (v : ν) : Option FRESULT × UInt32 × Fil × ν :=
  let t := seekStart vol ifptr ofs fil v
  if t.abort.isSome then (t.abort, 0, t.fil, t.v)
  else if t.clst = 0 then (none, 0, t.fil, t.v)
  else seekFrom vol t.ofs t.clst t.fil t.v

/-- The end of `f_lseek`: the sector of the position is read into the buffer. -/
def seekFill (nsect : UInt32) (fil : Fil) (v : ν) : FRESULT × Fil × ν :=
  if fil.fptr % sectorSize ≠ 0 ∧ nsect ≠ fil.sect then
    let w := if fil.flag &&& FA_DIRTY ≠ 0 then vol.diskWrite fil.sect v else (true, v)
    if !w.1 then (FR_DISK_ERR, { fil with err := FR_DISK_ERR }, w.2)
    else
      let fil := { fil with flag := fil.flag &&& ~~~FA_DIRTY }
      let r := vol.diskRead nsect w.2
      if !r.1 then (FR_DISK_ERR, { fil with err := FR_DISK_ERR }, r.2)
      else (FR_OK, { fil with sect := nsect }, r.2)
  else (FR_OK, fil, v)

/-- `f_lseek`. -/
def fLseek (fil : Fil) (ofs : UInt32) (v : ν) : FRESULT × Fil × ν :=
  let res := vol.validate fil v
  let res := if res = FR_OK then fil.err else res
  if res ≠ FR_OK then (res, fil, v)
  else
    let ofs := if fil.objsize < ofs ∧ !fil.writes then fil.objsize else ofs
    let ifptr := fil.fptr
    let fil := { fil with fptr := 0 }
    let t : Option FRESULT × UInt32 × Fil × ν :=
      if 0 < ofs then seekWay vol ifptr ofs fil v else (none, 0, fil, v)
    match t.1 with
    | some res => (res, { t.2.2.1 with err := res }, t.2.2.2)
    | none =>
      let fil := t.2.2.1
      let fil := if fil.objsize < fil.fptr then
        { fil with objsize := fil.fptr, flag := fil.flag ||| FA_MODIFIED } else fil
      seekFill vol t.2.1 fil t.2.2.2

/-! ### Where a seek leads -/

/-- Where a seek leads, and whether it is aborted before the size of the file is looked at; else the
sector of the position, if it is inside of one, and the volume as it is then. -/
structure Landing (ν : Type*) where
  position : ℕ
  broken : Bool
  sect : UInt32
  v : ν

/-- The position behind so many further clusters of a chain: `position` is where the cluster begins,
and `ofs` how far it is from there. -/
def chase (write : Bool) : ℕ → ℕ → ℕ → UInt32 → ν → Landing ν
  | 0, position, ofs, clst, v =>
    if ofs % sectorSize.toNat = 0 then ⟨position + ofs, false, 0, v⟩
    else if vol.clst2sect clst = 0 then ⟨position + ofs, true, 0, v⟩
    else
      ⟨position + ofs, false, vol.clst2sect clst + UInt32.ofNat (ofs / sectorSize.toNat), v⟩
  | hops + 1, position, ofs, clst, v =>
    let r := vol.next write clst v
    if write && r.1 == 0 then ⟨position + vol.bcs.toNat, false, 0, r.2⟩
    else if r.1 = 0xFFFFFFFF ∨ r.1 ≤ 1 ∨ vol.nFatent ≤ r.1 then
      ⟨position + vol.bcs.toNat, true, 0, r.2⟩
    else chase write hops (position + vol.bcs.toNat) (ofs - vol.bcs.toNat) r.1 r.2

/-- Where a seek to a position leads: from the cluster of the file pointer, unless the way is
backwards, and else from the first cluster, if there is one or it can be had. -/
def landing (fil : Fil) (ofs : ℕ) (v : ν) : Landing ν :=
  let bcs := vol.bcs.toNat
  if ofs = 0 then ⟨0, false, 0, v⟩
  else if 0 < fil.fptr.toNat ∧ (fil.fptr.toNat - 1) / bcs ≤ (ofs - 1) / bcs then
    let position := (fil.fptr.toNat - 1) / bcs * bcs
    if fil.clust = 0 then ⟨position, false, 0, v⟩
    else chase vol fil.writes ((ofs - position - 1) / bcs) position (ofs - position) fil.clust v
  else if fil.sclust = 0 then
    let r := vol.createChain 0 v
    if r.1 = 1 ∨ r.1 = 0xFFFFFFFF then ⟨0, true, 0, r.2⟩
    else if r.1 = 0 then ⟨0, false, 0, r.2⟩
    else chase vol fil.writes ((ofs - 1) / bcs) 0 ofs r.1 r.2
  else chase vol fil.writes ((ofs - 1) / bcs) 0 ofs fil.sclust v

variable {vol} {fil : Fil} {v : ν}

variable (vol) in
/-- Where the sector of the position has to be read into the buffer, the drive refuses to, or it
refuses to take what the buffer holds. -/
def Refused (fil : Fil) (l : Landing ν) : Prop :=
  l.position % sectorSize.toNat ≠ 0 ∧ l.sect ≠ fil.sect ∧
    if fil.flag &&& FA_DIRTY ≠ 0 then
      (vol.diskWrite fil.sect l.v).1 = false ∨
        (vol.diskRead l.sect (vol.diskWrite fil.sect l.v).2).1 = false
    else (vol.diskRead l.sect l.v).1 = false

/-- What is left behind on the way to a position. -/
structure Lands (fil : Fil) (l : Landing ν) (t : Option FRESULT × UInt32 × Fil × ν) : Prop where
  fptr : t.2.2.1.fptr.toNat = l.position
  objsize : t.2.2.1.objsize = fil.objsize
  broken : t.1.isSome = l.broken
  abort : t.1 ≠ some FR_OK
  nsect : t.2.1 = l.sect
  volume : t.2.2.2 = l.v
  buffer : t.2.2.1.flag = fil.flag ∧ t.2.2.1.sect = fil.sect

/-- The rest of the way, in the last cluster. -/
theorem seekFrom_last {ofs clst : UInt32} (hofs : ¬vol.bcs < ofs)
    (hlt : fil.fptr.toNat + ofs.toNat < 2 ^ 32) :
    Lands fil (chase vol fil.writes 0 fil.fptr.toNat ofs.toNat clst v)
      (seekFrom vol ofs clst fil v) := by
  have hadd : (fil.fptr + ofs).toNat = fil.fptr.toNat + ofs.toNat := by
    rw [UInt32.toNat_add, Nat.mod_eq_of_lt hlt]
  have hmod : ofs % sectorSize ≠ 0 ↔ ofs.toNat % sectorSize.toNat ≠ 0 := by
    rw [Ne, ← UInt32.toNat_inj, UInt32.toNat_mod]
    rfl
  rw [seekFrom, walk, if_neg hofs]
  dsimp only [Option.isSome_none]
  rw [if_neg (by simp), seekSector, chase]
  dsimp only
  by_cases hsector : ofs % sectorSize ≠ 0
  · rw [if_pos hsector, if_neg (hmod.1 hsector)]
    by_cases hzero : vol.clst2sect clst = 0
    · rw [if_pos hzero, if_pos hzero]
      exact ⟨hadd, rfl, rfl, nofun, hzero, rfl, rfl, rfl⟩
    · have hdiv : ofs / sectorSize = UInt32.ofNat (ofs.toNat / sectorSize.toNat) := by
        rw [← UInt32.toNat_div, UInt32.ofNat_toNat]
      rw [if_neg hzero, if_neg hzero, hdiv]
      exact ⟨hadd, rfl, rfl, nofun, rfl, rfl, rfl, rfl⟩
  · have hsector' : ofs.toNat % sectorSize.toNat = 0 := not_not.1 fun h => hsector (hmod.2 h)
    rw [if_neg hsector, if_pos hsector']
    exact ⟨hadd, rfl, rfl, nofun, rfl, rfl, rfl, rfl⟩

/-- One round of the loop. -/
theorem walk_step {ofs clst : UInt32} (hgt : vol.bcs < ofs) :
    walk vol ofs clst fil v =
      let r := vol.next fil.writes clst v
      let fil' := { fil with fptr := fil.fptr + vol.bcs }
      if fil.writes && r.1 == 0 then ⟨none, 0, 0, fil', r.2⟩
      else if r.1 = 0xFFFFFFFF then ⟨some FR_DISK_ERR, ofs - vol.bcs, r.1, fil', r.2⟩
      else if r.1 ≤ 1 ∨ vol.nFatent ≤ r.1 then ⟨some FR_INT_ERR, ofs - vol.bcs, r.1, fil', r.2⟩
      else walk vol (ofs - vol.bcs) r.1 { fil' with clust := r.1 } r.2 := by
  rw [walk, if_pos hgt]
  rfl

/-- **The loop goes as far as the chain can be followed.** -/
theorem seekFrom_lands {hops : ℕ} {ofs clst : UInt32} (hpos : 0 < ofs.toNat)
    (hops_eq : (ofs.toNat - 1) / vol.bcs.toNat = hops)
    (hlt : fil.fptr.toNat + ofs.toNat < 2 ^ 32) :
    Lands fil (chase vol fil.writes hops fil.fptr.toNat ofs.toNat clst v)
      (seekFrom vol ofs clst fil v) := by
  induction hops generalizing ofs clst fil v with
  | zero =>
      refine seekFrom_last (fun hgt => ?_) hlt
      have hgt' := UInt32.lt_iff_toNat_lt.1 hgt
      have := (Nat.div_eq_zero_iff_lt vol.bcs_pos).1 hops_eq
      omega
  | succ hops ih =>
      have hbcs := vol.bcs_pos
      have hge : vol.bcs.toNat ≤ ofs.toNat - 1 := by
        by_contra hlt
        rw [Nat.div_eq_of_lt (by omega)] at hops_eq
        cases hops_eq
      have hgt : vol.bcs < ofs := UInt32.lt_iff_toNat_lt.2 (by omega)
      have hsub : (ofs - vol.bcs).toNat = ofs.toNat - vol.bcs.toNat :=
        UInt32.toNat_sub_of_le _ _ (UInt32.le_of_lt hgt)
      have hadd : (fil.fptr + vol.bcs).toNat = fil.fptr.toNat + vol.bcs.toNat := by
        rw [UInt32.toNat_add, Nat.mod_eq_of_lt (by omega)]
      rw [seekFrom, walk_step hgt, chase]
      dsimp only
      generalize vol.next fil.writes clst v = r
      by_cases hfull : (fil.writes && r.1 == 0) = true
      · -- no cluster is left, and the way ends in front of the next one
        rw [if_pos hfull, if_pos hfull]
        refine ⟨?_, rfl, rfl, nofun, rfl, rfl, rfl, rfl⟩
        change (fil.fptr + vol.bcs + 0).toNat = _
        rw [UInt32.add_zero, hadd]
      rw [if_neg hfull, if_neg hfull]
      by_cases hdisk : r.1 = 0xFFFFFFFF
      · rw [if_pos hdisk, if_pos (Or.inl hdisk)]
        exact ⟨hadd, rfl, rfl, nofun, rfl, rfl, rfl, rfl⟩
      by_cases hint : r.1 ≤ 1 ∨ vol.nFatent ≤ r.1
      · rw [if_neg hdisk, if_pos hint, if_pos (Or.inr hint)]
        exact ⟨hadd, rfl, rfl, nofun, rfl, rfl, rfl, rfl⟩
      rw [if_neg hdisk, if_neg hint, if_neg (not_or.2 ⟨hdisk, hint⟩)]
      have hdiv := Nat.div_eq_sub_div hbcs hge
      have hrest := @ih { fil with fptr := fil.fptr + vol.bcs, clust := r.1 } r.2 (ofs - vol.bcs)
        r.1 (by omega)
        (by rw [hsub, Nat.sub_right_comm]; omega)
        (by change (fil.fptr + vol.bcs).toNat + _ < _; omega)
      dsimp only at hrest
      rw [hsub, hadd] at hrest
      exact ⟨hrest.fptr, hrest.objsize, hrest.broken, hrest.abort, hrest.nsect, hrest.volume,
        hrest.buffer⟩

/-- Clearing bits takes away what they stand for. -/
theorem toNat_and_not (x m : UInt32) : (x &&& ~~~m).toNat = x.toNat - (x &&& m).toNat := by
  have hdisjoint : (x.toBitVec &&& ~~~m.toBitVec) &&& (x.toBitVec &&& m.toBitVec) = 0#32 := by
    ext i hi
    simp only [BitVec.getElem_and, BitVec.getElem_not]
    cases x.toBitVec[i] <;> cases m.toBitVec[i] <;> simp
  have hjoin : (x.toBitVec &&& ~~~m.toBitVec) ||| (x.toBitVec &&& m.toBitVec) = x.toBitVec := by
    ext i hi
    simp only [BitVec.getElem_and, BitVec.getElem_not, BitVec.getElem_or]
    cases x.toBitVec[i] <;> cases m.toBitVec[i] <;> simp
  have hsum := BitVec.toNat_add_of_and_eq_zero hdisjoint
  rw [BitVec.add_eq_or_of_and_eq_zero _ _ hdisjoint, hjoin] at hsum
  exact Nat.eq_sub_of_add_eq hsum.symm

/-- The mask rounds down to where a cluster begins. -/
theorem toNat_and_not_bcs (x : UInt32) :
    (x &&& ~~~(vol.bcs - 1)).toNat = x.toNat / vol.bcs.toNat * vol.bcs.toNat := by
  obtain ⟨k, -, hbcs⟩ := vol.bcs_toNat
  have hmask : (vol.bcs - 1).toNat = 2 ^ (k + 9) - 1 := by
    have hle : (1 : UInt32) ≤ vol.bcs := UInt32.le_iff_toNat_le.2 vol.bcs_pos
    rw [UInt32.toNat_sub_of_le _ _ hle, hbcs]
    rfl
  rw [toNat_and_not, UInt32.toNat_and, hmask, Nat.and_two_pow_sub_one_eq_mod, hbcs,
    Nat.div_mul_self_eq_mod_sub_self]

theorem toNat_sub_one {x : UInt32} (h : 0 < x.toNat) : (x - 1).toNat = x.toNat - 1 :=
  UInt32.toNat_sub_of_le _ _ (UInt32.le_iff_toNat_le.2 h)

/-- The test for the same or a following cluster. -/
theorem sameOrFollowing_iff {x ofs : UInt32} (hpos : 0 < ofs.toNat) :
    0 < x ∧ (x - 1) / vol.bcs ≤ (ofs - 1) / vol.bcs ↔
      0 < x.toNat ∧ (x.toNat - 1) / vol.bcs.toNat ≤ (ofs.toNat - 1) / vol.bcs.toNat := by
  rw [UInt32.lt_iff_toNat_lt, UInt32.toNat_zero]
  refine and_congr_right fun hx => ?_
  rw [UInt32.le_iff_toNat_le, UInt32.toNat_div, UInt32.toNat_div, toNat_sub_one hx,
    toNat_sub_one hpos]

/-- **The way leads where it should.** -/
theorem seekWay_lands {ofs : UInt32} (hpos : 0 < ofs.toNat) :
    Lands fil (landing vol fil ofs.toNat v)
      (seekWay vol fil.fptr ofs { fil with fptr := 0 } v) := by
  have hofs : ofs.toNat < 2 ^ 32 := ofs.toNat_lt
  have hgoing : ¬(none : Option FRESULT).isSome = true := nofun
  rw [landing, if_neg (Nat.ne_of_gt hpos), seekWay, seekStart]
  dsimp only
  by_cases hsame : 0 < fil.fptr ∧ (fil.fptr - 1) / vol.bcs ≤ (ofs - 1) / vol.bcs
  · have hsame' := (sameOrFollowing_iff hpos).1 hsame
    have hbase : (fil.fptr - 1 &&& ~~~(vol.bcs - 1)).toNat =
        (fil.fptr.toNat - 1) / vol.bcs.toNat * vol.bcs.toNat := by
      rw [toNat_and_not_bcs, toNat_sub_one hsame'.1]
    have hle : (fil.fptr - 1 &&& ~~~(vol.bcs - 1)).toNat ≤ ofs.toNat - 1 :=
      calc _ = (fil.fptr.toNat - 1) / vol.bcs.toNat * vol.bcs.toNat := hbase
        _ ≤ (ofs.toNat - 1) / vol.bcs.toNat * vol.bcs.toNat := Nat.mul_le_mul_right _ hsame'.2
        _ ≤ ofs.toNat - 1 := Nat.div_mul_le_self _ _
    rw [if_pos hsame, if_pos hsame', ← hbase, if_neg hgoing]
    dsimp only
    generalize fil.fptr - 1 &&& ~~~(vol.bcs - 1) = base at hle ⊢
    have hsub : (ofs - base).toNat = ofs.toNat - base.toNat :=
      UInt32.toNat_sub_of_le _ _ (UInt32.le_iff_toNat_le.2 (by omega))
    by_cases hclust : fil.clust = 0
    · rw [if_pos hclust, if_pos hclust]
      exact ⟨rfl, rfl, rfl, nofun, rfl, rfl, rfl, rfl⟩
    · have h := @seekFrom_lands _ vol { fil with fptr := base } v _ (ofs - base) fil.clust
        (by omega) rfl (by change base.toNat + _ < _; omega)
      rw [if_neg hclust, if_neg hclust]
      dsimp only at h
      rw [hsub] at h
      exact ⟨h.fptr, h.objsize, h.broken, h.abort, h.nsect, h.volume, h.buffer⟩
  · rw [if_neg hsame, if_neg (fun h => hsame ((sameOrFollowing_iff hpos).2 h))]
    have hfrom : ∀ fil' : Fil, fil'.fptr = 0 → fil'.objsize = fil.objsize →
        fil'.flag = fil.flag ∧ fil'.sect = fil.sect → ∀ clst v', Lands fil
          (chase vol fil.writes ((ofs.toNat - 1) / vol.bcs.toNat) 0 ofs.toNat clst v')
          (seekFrom vol ofs clst fil' v') := by
      intro fil' hfptr hsize hbuffer clst v'
      have hwrites : fil'.writes = fil.writes := congrArg (fun f => f &&& FA_WRITE != 0) hbuffer.1
      have h := @seekFrom_lands _ vol fil' v' _ ofs clst hpos rfl
        (by rw [hfptr, UInt32.toNat_zero, Nat.zero_add]; exact hofs)
      rw [hfptr, hwrites] at h
      exact ⟨h.fptr, h.objsize.trans hsize, h.broken, h.abort, h.nsect, h.volume,
        h.buffer.1.trans hbuffer.1, h.buffer.2.trans hbuffer.2⟩
    by_cases hsclust : fil.sclust = 0
    · rw [if_pos hsclust, if_pos hsclust]
      generalize vol.createChain 0 v = r
      by_cases hint : r.1 = 1
      · rw [if_pos hint, if_pos (Or.inl hint)]
        exact ⟨rfl, rfl, rfl, nofun, rfl, rfl, rfl, rfl⟩
      by_cases hdisk : r.1 = 0xFFFFFFFF
      · rw [if_neg hint, if_pos hdisk, if_pos (Or.inr hdisk)]
        exact ⟨rfl, rfl, rfl, nofun, rfl, rfl, rfl, rfl⟩
      rw [if_neg hint, if_neg hdisk, if_neg (not_or.2 ⟨hint, hdisk⟩), if_neg hgoing]
      by_cases hfull : r.1 = 0
      · rw [if_pos hfull, if_pos hfull]
        exact ⟨rfl, rfl, rfl, nofun, rfl, rfl, rfl, rfl⟩
      · rw [if_neg hfull, if_neg hfull]
        exact hfrom { fil with fptr := 0, sclust := r.1, clust := r.1 } rfl rfl ⟨rfl, rfl⟩ r.1 r.2
    · rw [if_neg hsclust, if_neg hsclust, if_neg hgoing, if_neg hsclust]
      exact hfrom { fil with fptr := 0, clust := fil.sclust } rfl rfl ⟨rfl, rfl⟩ fil.sclust v

/-! ### The position and the size -/

variable (vol) in
/-- The file object can be used. -/
def Ready (fil : Fil) (v : ν) : Prop := vol.validate fil v = FR_OK ∧ fil.err = FR_OK

/-- The position `f_lseek` goes for. -/
def Fil.clip (fil : Fil) (ofs : UInt32) : UInt32 :=
  if fil.objsize < ofs ∧ !fil.writes then fil.objsize else ofs

/-- A file object that cannot be used is left alone. -/
theorem fLseek_of_not_ready (h : ¬Ready vol fil v) (ofs : UInt32) :
    ∃ res, res ≠ FR_OK ∧ fLseek vol fil ofs v = (res, fil, v) := by
  refine ⟨if vol.validate fil v = FR_OK then fil.err else vol.validate fil v, ?_, ?_⟩
  · split
    · rename_i hvalid
      exact fun herr => h ⟨hvalid, herr⟩
    · rename_i hvalid
      exact hvalid
  · rw [fLseek]
    dsimp only
    refine if_pos ?_
    split
    · rename_i hvalid
      exact fun herr => h ⟨hvalid, herr⟩
    · rename_i hvalid
      exact hvalid

/-- Reading the sector of the position changes neither the position nor the size. -/
theorem seekFill_frame (nsect : UInt32) (fil : Fil) (v : ν) :
    (seekFill vol nsect fil v).2.1.fptr = fil.fptr ∧
      (seekFill vol nsect fil v).2.1.objsize = fil.objsize := by
  rw [seekFill]
  split
  · dsimp only
    generalize (if fil.flag &&& FA_DIRTY ≠ 0 then vol.diskWrite fil.sect v else (true, v)) = w
    by_cases hw : (!w.1) = true
    · rw [if_pos hw]
      exact ⟨rfl, rfl⟩
    · rw [if_neg hw]
      split <;> exact ⟨rfl, rfl⟩
  · exact ⟨rfl, rfl⟩

/-- It fails exactly if the drive refuses a transfer. -/
theorem seekFill_ok_iff {fil' : Fil} {l : Landing ν} (hfptr : fil'.fptr.toNat = l.position)
    (hflag : fil'.flag &&& FA_DIRTY = fil.flag &&& FA_DIRTY) (hsect : fil'.sect = fil.sect) :
    (seekFill vol l.sect fil' l.v).1 = FR_OK ↔ ¬Refused vol fil l := by
  have hmod : l.position % sectorSize.toNat ≠ 0 ↔ fil'.fptr % sectorSize ≠ 0 := by
    rw [← hfptr, Ne, Ne, ← UInt32.toNat_inj, UInt32.toNat_mod]
    rfl
  rw [Refused, hmod, ← hflag, ← hsect, seekFill]
  by_cases hfill : fil'.fptr % sectorSize ≠ 0 ∧ l.sect ≠ fil'.sect
  · rw [if_pos hfill, and_iff_right hfill.1, and_iff_right hfill.2]
    by_cases hdirty : fil'.flag &&& FA_DIRTY ≠ 0
    · rw [if_pos hdirty, if_pos hdirty]
      generalize vol.diskWrite fil'.sect l.v = w
      obtain ⟨written, v'⟩ := w
      cases written with
      | false => simp
      | true =>
          dsimp only
          cases (vol.diskRead l.sect v').1 <;> simp
    · rw [if_neg hdirty, if_neg hdirty]
      dsimp only
      cases (vol.diskRead l.sect l.v).1 <;> simp
  · rw [if_neg hfill]
    exact iff_of_true rfl fun h => hfill ⟨h.1, h.2.1⟩

/-- Setting one bit does not change others. -/
theorem or_and_of_disjoint {flag bit mask : UInt8} (h : bit &&& mask = 0) :
    (flag ||| bit) &&& mask = flag &&& mask := by
  refine UInt8.toBitVec_inj.1 ?_
  rw [UInt8.toBitVec_and, UInt8.toBitVec_or, BitVec.and_or_distrib_right, ← UInt8.toBitVec_and,
    ← UInt8.toBitVec_and, h]
  exact BitVec.or_zero

/-- **The position and the size `f_lseek` leaves**, and when it reports an error. -/
theorem fLseek_eq (h : Ready vol fil v) (ofs : UInt32) :
    let l := landing vol fil (fil.clip ofs).toNat v
    let t := fLseek vol fil ofs v
    t.2.1.fptr.toNat = l.position ∧
      t.2.1.objsize.toNat =
        (if l.broken then fil.objsize.toNat else max fil.objsize.toNat l.position) ∧
      (t.1 = FR_OK ↔ l.broken = false ∧ ¬Refused vol fil l) := by
  have hready : ¬(if vol.validate fil v = FR_OK then fil.err else vol.validate fil v) ≠ FR_OK := by
    rw [if_pos h.1]
    exact not_not_intro h.2
  have hlands : Lands fil (landing vol fil (fil.clip ofs).toNat v)
      (if 0 < fil.clip ofs then seekWay vol fil.fptr (fil.clip ofs) { fil with fptr := 0 } v
        else (none, 0, { fil with fptr := 0 }, v)) := by
    by_cases hpos : 0 < fil.clip ofs
    · rw [if_pos hpos]
      exact seekWay_lands (UInt32.lt_iff_toNat_lt.1 hpos)
    · have hzero : (fil.clip ofs).toNat = 0 := by
        rw [UInt32.lt_iff_toNat_lt, UInt32.toNat_zero] at hpos
        omega
      rw [if_neg hpos, landing, if_pos hzero]
      exact ⟨rfl, rfl, rfl, nofun, rfl, rfl, rfl, rfl⟩
  have hclip : (if fil.objsize < ofs ∧ !fil.writes then fil.objsize else ofs) = fil.clip ofs := rfl
  dsimp only
  rw [fLseek]
  dsimp only
  rw [if_neg hready, hclip]
  generalize (if 0 < fil.clip ofs then seekWay vol fil.fptr (fil.clip ofs) { fil with fptr := 0 } v
    else (none, 0, { fil with fptr := 0 }, v)) = t at hlands ⊢
  generalize landing vol fil (fil.clip ofs).toNat v = l at hlands ⊢
  obtain ⟨abort, nsect, fil', v'⟩ := t
  obtain ⟨hfptr, hsize, hbroken, habort, hnsect, hvolume, hflag, hsect⟩ := hlands
  cases abort with
  | some res =>
      have hb : l.broken = true := hbroken.symm
      rw [if_pos hb, hb]
      refine ⟨hfptr, congrArg UInt32.toNat hsize, ?_⟩
      exact iff_of_false (fun hres => habort (congrArg some hres)) nofun
  | none =>
      have hnot : l.broken = false := hbroken.symm
      dsimp only at hfptr hsize hnsect hvolume hflag hsect ⊢
      rw [(seekFill_frame _ _ _).1, (seekFill_frame _ _ _).2, hnot, if_neg Bool.false_ne_true,
        and_iff_right rfl, hnsect, hvolume]
      refine ⟨?_, ?_, seekFill_ok_iff ?_ ?_ ?_⟩
      · split <;> exact hfptr
      · split
        · rename_i hlt
          rw [UInt32.lt_iff_toNat_lt, hsize] at hlt
          change fil'.fptr.toNat = _
          omega
        · rename_i hle
          rw [UInt32.lt_iff_toNat_lt, hsize] at hle
          rw [hsize]
          omega
      · split <;> exact hfptr
      · rw [← hflag]
        split
        · exact or_and_of_disjoint rfl
        · rfl
      · split <;> exact hsect

/-! ### The driver -/

/-- The file objects of FatFs, by their address, and the volume. -/
structure SeekState (ν : Type*) where
  fils : ℕ → Fil
  v : ν

variable (vol) in
/-- FatFs, with the functions that `s_fatfs_seek` calls. -/
def seekLib (base : FatFs (SeekState ν)) : FatFs (SeekState ν) :=
  { base with
    fLseek := fun file ofs l =>
      let t := fLseek vol (l.fils file) ofs l.v
      (t.1, ⟨Function.update l.fils file t.2.1, t.2.2⟩)
    fTell := fun file l => (l.fils file).fptr
    fSize := fun file l => (l.fils file).objsize }

/-- From where an offset counts. -/
inductive Whence where
  | set
  | cur
  | fromEnd

/-- Its number. -/
def Whence.mode : Whence → ℤ
  | .set => SEEK_SET
  | .cur => SEEK_CUR
  | .fromEnd => SEEK_END

/-- The position that is asked for. -/
def target (fil : Fil) (whence : Whence) (offset : Int32) : ℤ :=
  match whence with
  | .set => offset.toInt
  | .cur => fil.fptr.toNat + offset.toInt
  | .fromEnd => fil.objsize.toNat + offset.toInt

/-- **What is asked of `s_fatfs_seek`**: a negative position is refused, with the file as it was,
and a result that is not negative is the position of the file. -/
def SeekHonest (vol : Volume ν) (base : FatFs (SeekState ν)) (File : VfsFile) (Fs : VfsT)
    (whence : Whence) (offset : Int32) (env : Env (SeekState ν)) : Prop :=
  let fil := env.lib.fils File.file
  let r := sFatfsSeek (seekLib vol base) File Fs offset.toInt whence.mode env
  let fil' := r.2.lib.fils File.file
  (target fil whence offset < 0 →
    r.1 < 0 ∧ fil'.objsize = fil.objsize ∧ fil'.fptr = fil.fptr) ∧
    (0 ≤ target fil whence offset → 0 ≤ r.1 → r.1 = fil'.fptr.toNat)

/-- The position in `f_lseek`, which is unsigned. -/
def handed (fil : Fil) (whence : Whence) (offset : Int32) : UInt32 :=
  toSize (target fil whence offset)

/-- **A seek is harmless**: the file object cannot be used; or the position that is asked for is not
negative, and it is one from `2 ^ 31` on without its sign, or the chain is broken on the way, or the
drive refuses the sector, or the chain leads to it, which for a file open for reading is not behind
the end; or it is negative, and where it leads as an unsigned number, or where the chain breaks on
the way, the file already is. -/
def SeekHarmless (vol : Volume ν) (fil : Fil) (whence : Whence) (offset : Int32) (v : ν) : Prop :=
  let ofs := handed fil whence offset
  let l := landing vol fil (fil.clip ofs).toNat v
  ¬Ready vol fil v ∨
    0 ≤ target fil whence offset ∧ (2 ^ 31 ≤ ofs.toNat ∨ l.broken = true ∨ Refused vol fil l ∨
      l.position = ofs.toNat) ∨
    target fil whence offset < 0 ∧ l.position = fil.fptr.toNat ∧
      (l.broken = true ∨ l.position ≤ fil.objsize.toNat)

/-- A sum of an `off_t` and an unsigned number, with both taken modulo `2 ^ 32`. -/
theorem toSize_toInt_add (n : UInt32) (i : ℤ) : toSize (toInt n + i) = toSize (n.toNat + i) := by
  have hmod : (toInt n + i) % 2 ^ 32 = (n.toNat + i) % 2 ^ 32 := by
    rw [toInt]
    split <;> omega
  rw [toSize, toSize, hmod]

/-- `new_pos` is the position that is asked for, as an `off_t`. -/
theorem fatfsNewPos_eq (base : FatFs (SeekState ν)) (file : ℕ) (whence : Whence) (offset : Int32)
    (l : SeekState ν) :
    fatfsNewPos (seekLib vol base) file offset.toInt whence.mode l =
      some (toInt (handed (l.fils file) whence offset)) := by
  have hmin := offset.le_toInt
  have hmax := offset.toInt_lt
  cases whence with
  | set =>
      have hrange : toInt (toSize offset.toInt) = offset.toInt := toInt_toSize hmin hmax
      rw [fatfsNewPos, Whence.mode, if_pos rfl, handed, target, hrange]
  | cur =>
      rw [fatfsNewPos, Whence.mode, if_neg (by decide), if_pos rfl, handed, target,
        ← toSize_toInt_add]
      rfl
  | fromEnd =>
      rw [fatfsNewPos, Whence.mode, if_neg (by decide), if_neg (by decide), if_pos rfl, handed,
        target, ← toSize_toInt_add]
      rfl

/-- `s_fatfs_seek`, with the position that is handed to `f_lseek`. -/
theorem sFatfsSeek_eq (base : FatFs (SeekState ν)) (File : VfsFile) (Fs : VfsT) (whence : Whence)
    (offset : Int32) (env : Env (SeekState ν)) :
    let fil := env.lib.fils File.file
    let ofs := handed fil whence offset
    let t := fLseek vol fil ofs env.lib.v
    sFatfsSeek (seekLib vol base) File Fs offset.toInt whence.mode env =
      (if t.1 ≠ FR_OK then ffsToerror t.1 else toInt ofs,
        { env with lib := ⟨Function.update env.lib.fils File.file t.2.1, t.2.2⟩ }) := by
  dsimp only
  rw [sFatfsSeek, fatfsNewPos_eq]
  dsimp only
  rw [toSize_toInt]
  rfl

/-- The number a negative position becomes. -/
theorem handed_of_neg {whence : Whence} {offset : Int32} (h : target fil whence offset < 0) :
    2 ^ 31 ≤ (handed fil whence offset).toNat := by
  have hmin := offset.le_toInt
  have hge : -2 ^ 31 ≤ target fil whence offset := by
    cases whence <;> rw [target] <;> omega
  rw [handed, toSize, UInt32.toNat_ofNat']
  omega

/-- What is returned for such a number. -/
theorem result_neg (res : FRESULT) {ofs : UInt32} (h : 2 ^ 31 ≤ ofs.toNat) :
    (if res ≠ FR_OK then ffsToerror res else toInt ofs) < 0 := by
  split
  · rename_i hres
    have herr := (ffsToerror_neg hres).2
    omega
  · have hlt := ofs.toNat_lt
    rw [toInt, if_neg (by omega)]
    omega

/-- **A seek is honest exactly if it is harmless.** -/
theorem seek_honest_iff (vol : Volume ν) (base : FatFs (SeekState ν)) (File : VfsFile) (Fs : VfsT)
    (whence : Whence) (offset : Int32) (env : Env (SeekState ν)) :
    SeekHonest vol base File Fs whence offset env ↔
      SeekHarmless vol (env.lib.fils File.file) whence offset env.lib.v := by
  have hself : ∀ (f : ℕ → Fil) (fil : Fil), Function.update f File.file fil File.file = fil :=
    fun f fil => Function.update_self File.file fil f
  rw [SeekHonest, sFatfsSeek_eq]
  dsimp only
  rw [hself]
  generalize env.lib.fils File.file = fil
  generalize env.lib.v = v
  by_cases hready : Ready vol fil v
  · obtain ⟨hfptr, hsize, hok⟩ := fLseek_eq hready (handed fil whence offset)
    rw [SeekHarmless, or_iff_right (not_not_intro hready)]
    generalize landing vol fil (fil.clip (handed fil whence offset)).toNat v = l
      at hfptr hsize hok ⊢
    generalize fLseek vol fil (handed fil whence offset) v = t at hfptr hsize hok ⊢
    by_cases hneg : target fil whence offset < 0
    · have hres := result_neg t.1 (handed_of_neg hneg)
      have hnot : ¬0 ≤ target fil whence offset := Int.not_le.2 hneg
      rw [← UInt32.toNat_inj, ← UInt32.toNat_inj, hfptr, hsize]
      simp only [hneg, hnot, hres, true_and, false_and, false_or, forall_const, false_imp_iff,
        and_true]
      rw [and_comm]
      refine and_congr_right fun _ => ?_
      cases l.broken with
      | false =>
          rw [if_neg Bool.false_ne_true, or_iff_right Bool.false_ne_true]
          omega
      | true => exact iff_of_true rfl (Or.inl rfl)
    · have hnonneg : 0 ≤ target fil whence offset := Int.not_lt.1 hneg
      simp only [hneg, hnonneg, true_and, false_and, or_false, false_imp_iff, forall_const]
      rw [hfptr]
      have hfails : t.1 ≠ FR_OK ↔ l.broken = true ∨ Refused vol fil l := by
        rw [Ne, hok, not_and_or, not_not, Bool.not_eq_false]
      rw [← or_assoc (a := l.broken = true), ← hfails]
      by_cases hres : t.1 ≠ FR_OK
      · have herr := (ffsToerror_neg hres).2
        rw [if_pos hres]
        exact iff_of_true (fun h => by omega) (Or.inr (Or.inl hres))
      rw [if_neg hres, or_iff_right hres]
      by_cases hlarge : 2 ^ 31 ≤ (handed fil whence offset).toNat
      · have hlt := result_neg FR_OK hlarge
        rw [if_neg (not_not_intro rfl)] at hlt
        exact iff_of_true (fun h => by omega) (Or.inl hlarge)
      · rw [toInt, if_pos (by omega), or_iff_right hlarge]
        omega
  · obtain ⟨res, hres, heq⟩ := fLseek_of_not_ready hready (handed fil whence offset)
    rw [heq]
    dsimp only
    rw [if_pos hres]
    have herr := (ffsToerror_neg hres).2
    exact iff_of_true ⟨fun _ => ⟨by omega, rfl, rfl⟩, fun _ h => by omega⟩ (Or.inl hready)

/-! ### A file of ten bytes -/

/-- A volume of one-sector clusters that is full. -/
def fullVolume : Volume Unit where
  noInit _ := false
  createChain _ v := (0, v)
  getFat _ v := (0x0FFFFFFF, v)
  diskRead _ v := (true, v)
  diskWrite _ v := (true, v)
  nFatent := 100
  database := 64
  csize := 1
  csize_pow := ⟨0, by decide, rfl⟩

/-- FatFs with nothing else in it. -/
def bareFat : FatFs (SeekState Unit) where
  calloc l := (0, l)
  free _ l := l
  fMount _ l := (FR_OK, l)
  fUnmount _ l := (FR_OK, l)
  fOpen _ _ _ l := (FR_NO_FILE, l)
  fClose _ l := (FR_OK, l)
  fWrite _ _ _ l := ((FR_DENIED, 0), l)
  fRead _ _ _ l := ((FR_DENIED, 0), l)
  fLseek _ _ l := (FR_OK, l)
  fTell _ _ := 0
  fSize _ _ := 0

/-- A file of ten bytes that is open for reading, at its fourth byte. -/
def tenBytes : Fil := ⟨true, FR_OK, FA_READ, 3, 10, 5, 5, 0⟩

/-- A seek to the position -1 goes to the end of the file. -/
theorem seek_tenBytes_not_honest :
    ¬SeekHonest fullVolume bareFat ⟨1, 0, 3, 0⟩ ⟨0, 70, 58, 0⟩ .set (-1)
      ⟨0, ⟨fun _ => tenBytes, ()⟩⟩ := by
  intro h
  obtain ⟨-, -, hfptr⟩ := h.1 (by decide)
  rw [sFatfsSeek_eq] at hfptr
  have hready : Ready fullVolume tenBytes () := ⟨by decide, rfl⟩
  obtain ⟨hland, -⟩ := fLseek_eq hready (handed tenBytes .set (-1))
  have hend : (landing fullVolume tenBytes
      (tenBytes.clip (handed tenBytes .set (-1))).toNat ()).position = 10 := by decide
  rw [hend] at hland
  have hstay := congrArg UInt32.toNat hfptr
  dsimp only at hstay
  rw [Function.update_self, hland] at hstay
  exact absurd hstay (by decide)

end Pico.Fat
