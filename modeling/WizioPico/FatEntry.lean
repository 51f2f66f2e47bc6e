/-
**The entries of a FAT.**

`get_fat` and `put_fat` of `library/fatfs/ff.c`, for the three kinds of FAT.  The FAT is a table of
fields of bits: 12 bits for each cluster, which may lie in two sectors; 16 bits; or 28 of 32 bits,
the others being kept.  Both go through the window, and the drive may fail at any time.

Main definitions:

* `Pico.Fat.getFat`, `Pico.Fat.putFat` — `get_fat` and `put_fat`;
* `Pico.Fat.Geometry.fatMem`, `Pico.Fat.Geometry.entry` — the FAT as a byte memory, and what it says
  of a cluster.

Main results:

* `Pico.Fat.getFat_spec` — **`get_fat` tells what the FAT says of a cluster**, or that the drive has
  failed;
* `Pico.Fat.putFat_spec` — **`put_fat` changes one entry and nothing else**; when the drive fails,
  nothing is changed, but for an entry of 12 bits, of which the first byte may be.
-/

import WizioPico.BitTable
import WizioPico.FatWindow

set_option relaxedAutoImplicit false
set_option autoImplicit false

namespace Pico.Fat

open Pico.Vfs
open FRESULT FsType

/-! ### The FAT -/

/-- The FAT, as a byte memory. -/
def Geometry.fatMem (g : Geometry) (view : UInt32 → Sector) : ByteMem := fun i =>
  if i < 512 * g.fsize.toNat then
    view (g.fatbase + UInt32.ofNat (i / 512)) (sectorIndex i)
  else 0

/-- What the FAT says of a cluster. -/
def Geometry.entry (g : Geometry) (view : UInt32 → Sector) (clst : ℕ) : ℕ :=
  (g.fatMem view).field (g.fsType.stride * clst) g.fsType.width

section

variable {δ : Type*} (dr : Drive δ) (g : Geometry)

/-- `get_fat`. -/
def getFat (clst : UInt32) (fs : Fatfs δ) : UInt32 × Fatfs δ :=
  if clst < 2 ∨ g.nFatent ≤ clst then (1, fs)
  else
    match g.fsType with
    | FS_FAT12 =>
      let bc := clst + clst / 2
      let r := moveWindow dr g (g.fatbase + bc / sectorSize) fs
      if r.1 ≠ FR_OK then (0xFFFFFFFF, r.2)
      else
        let wc := (r.2.win.byte (bc % sectorSize)).toUInt32
        let bc := bc + 1
        let t := moveWindow dr g (g.fatbase + bc / sectorSize) r.2
        if t.1 ≠ FR_OK then (0xFFFFFFFF, t.2)
        else
          let wc := wc ||| (t.2.win.byte (bc % sectorSize)).toUInt32 <<< 8
          (if clst &&& 1 ≠ 0 then wc >>> 4 else wc &&& 0xFFF, t.2)
    | FS_FAT16 =>
      let r := moveWindow dr g (g.fatbase + clst / (sectorSize / 2)) fs
      if r.1 ≠ FR_OK then (0xFFFFFFFF, r.2)
      else ((ldWord r.2.win (clst * 2 % sectorSize)).toUInt32, r.2)
    | FS_FAT32 =>
      let r := moveWindow dr g (g.fatbase + clst / (sectorSize / 4)) fs
      if r.1 ≠ FR_OK then (0xFFFFFFFF, r.2)
      else (ldDword r.2.win (clst * 4 % sectorSize) &&& 0x0FFFFFFF, r.2)

/-- `put_fat`. -/
def putFat (clst val : UInt32) (fs : Fatfs δ) : FRESULT × Fatfs δ :=
  if 2 ≤ clst ∧ clst < g.nFatent then
    match g.fsType with
    | FS_FAT12 =>
      let bc := clst + clst / 2
      let r := moveWindow dr g (g.fatbase + bc / sectorSize) fs
      if r.1 ≠ FR_OK then r
      else
        let p := bc % sectorSize
        let old := r.2.win.byte p
        let new : UInt8 :=
          if clst &&& 1 ≠ 0 then old &&& (0x0F : UInt8) ||| val.toUInt8 <<< 4 else val.toUInt8
        let fs := { r.2 with win := r.2.win.set p new, wflag := true }
        let bc := bc + 1
        let r := moveWindow dr g (g.fatbase + bc / sectorSize) fs
        if r.1 ≠ FR_OK then r
        else
          let p := bc % sectorSize
          let old := r.2.win.byte p
          let new : UInt8 := if clst &&& 1 ≠ 0 then (val >>> 4).toUInt8
            else old &&& (0xF0 : UInt8) ||| (val >>> 8).toUInt8 &&& 0x0F
          (r.1, { r.2 with win := r.2.win.set p new, wflag := true })
    | FS_FAT16 =>
      let r := moveWindow dr g (g.fatbase + clst / (sectorSize / 2)) fs
      if r.1 ≠ FR_OK then r
      else
        let win := stWord r.2.win (clst * 2 % sectorSize) val.toUInt16
        (r.1, { r.2 with win := win, wflag := true })
    | FS_FAT32 =>
      let r := moveWindow dr g (g.fatbase + clst / (sectorSize / 4)) fs
      if r.1 ≠ FR_OK then r
      else
        let old := ldDword r.2.win (clst * 4 % sectorSize)
        let val := (val &&& 0x0FFFFFFF) ||| (old &&& 0xF0000000)
        let win := stDword r.2.win (clst * 4 % sectorSize) val
        (r.1, { r.2 with win := win, wflag := true })
  else (FR_INT_ERR, fs)

end

/-! ### Sectors of the FAT -/

section

variable {g : Geometry} {view : UInt32 → Sector} {win : Sector} {q i : UInt32}

/-- The sectors of the FAT are different ones. -/
theorem fatbase_add_inj {n : ℕ} (hn : n < 512 * g.fsize.toNat) :
    g.fatbase + UInt32.ofNat (n / 512) = g.fatbase + q ↔ n / 512 = q.toNat := by
  have hlt := g.fsize.toNat_lt
  have hsmall : (UInt32.ofNat (n / 512)).toNat = n / 512 := UInt32.toNat_ofNat_of_lt' (by
    change n / 512 < 2 ^ 32
    omega)
  constructor
  · intro h
    rw [← hsmall, UInt32.add_right_inj _ |>.1 h]
  · intro h
    rw [h, UInt32.ofNat_toNat]

/-- A sector of the FAT is one the window may show. -/
theorem ordinary_fat (hq : q < g.fsize) : g.Ordinary (g.fatbase + q) := by
  have hq' := UInt32.lt_iff_toNat_lt.1 hq
  have hfats := g.fats_fit
  have hdata := g.data_fits
  have hsum : g.fatbase.toNat + q.toNat < 2 ^ 32 - 1 := by
    rcases g.fats with h | h
    all_goals
      rw [h] at hfats
      simp only [UInt8.reduceToNat] at hfats
      have := g.clusters.1
      obtain ⟨k, -, hk⟩ := g.csize_pow
      have := Nat.two_pow_pos k
      have : 1 * 1 ≤ g.csize.toNat * (g.nFatent.toNat - 2) := Nat.mul_le_mul (by omega) (by omega)
      omega
  have hadd : (g.fatbase + q).toNat = g.fatbase.toNat + q.toNat := by
    rw [UInt32.toNat_add, Nat.mod_eq_of_lt (by omega)]
  refine ⟨fun h => ?_, fun htwo hmirror => ?_⟩
  · rw [h] at hadd
    have : (0 - 1 : UInt32).toNat = 2 ^ 32 - 1 := rfl
    omega
  · rw [htwo] at hfats
    simp only [UInt8.reduceToNat] at hfats
    rw [show g.fatbase + q - (g.fatbase + g.fsize) = q - g.fsize by grind] at hmirror
    have hm := UInt32.lt_iff_toNat_lt.1 hmirror
    rw [UInt32.toNat_sub] at hm
    omega

/-- A byte of the FAT, in a sector of it. -/
theorem byte_fat (hq : q < g.fsize) (hi : i.toNat < 512) :
    (view (g.fatbase + q)).byte i = g.fatMem view (512 * q.toNat + i.toNat) := by
  have hq' := UInt32.lt_iff_toNat_lt.1 hq
  have hdiv : (512 * q.toNat + i.toNat) / 512 = q.toNat := by omega
  rw [Geometry.fatMem, if_pos (by omega), hdiv, UInt32.ofNat_toNat, Sector.byte]
  congr 1
  exact Fin.ext (by simp)

/-- Changing a byte in a sector of the FAT. -/
theorem fatMem_set (hq : q < g.fsize) (hi : i.toNat < 512) (b : UInt8) :
    g.fatMem (Function.update view (g.fatbase + q) (win.set i b)) =
      (g.fatMem (Function.update view (g.fatbase + q) win)).blit (512 * q.toNat + i.toNat) 1
        fun _ => b := by
  have hq' := UInt32.lt_iff_toNat_lt.1 hq
  funext n
  unfold Geometry.fatMem
  by_cases hn : n < 512 * g.fsize.toNat
  · rw [if_pos hn]
    by_cases hsect : n / 512 = q.toNat
    · have hat := (fatbase_add_inj hn).2 hsect
      rw [hat, Function.update_self, Sector.set]
      by_cases hbyte : n = 512 * q.toNat + i.toNat
      · subst hbyte
        rw [ByteMem.blit_of_mem (Nat.le_refl _) (Nat.lt_succ_self _)]
        rw [show sectorIndex (512 * q.toNat + i.toNat) = sectorIndex i.toNat from
          Fin.ext (by simp), Function.update_self]
      · rw [ByteMem.blit_of_not_mem (by omega), if_pos hn, hat, Function.update_self,
          Function.update_of_ne]
        intro heq
        have hmod := congrArg Fin.val heq
        simp only [val_sectorIndex] at hmod
        omega
    · have hne := mt (fatbase_add_inj hn).1 hsect
      rw [ByteMem.blit_of_not_mem (by omega), if_pos hn, Function.update_of_ne hne,
        Function.update_of_ne hne]
  · rw [if_neg hn, ByteMem.blit_of_not_mem (by omega), if_neg hn]

/-! ### Words in a sector of the FAT -/

/-- A byte of a word. -/
theorem toNat_add_of_le {k : UInt32} (hi : i.toNat + 4 ≤ 512) (hk : k.toNat ≤ 3) :
    (i + k).toNat = i.toNat + k.toNat := by
  rw [UInt32.toNat_add]
  exact Nat.mod_eq_of_lt (by omega)

/-- A byte in front of a number. -/
theorem toNat_shiftLeft_or {x y : UInt32} (hx : x.toNat < 2 ^ 24) (hy : y.toNat < 2 ^ 8) :
    (x <<< 8 ||| y).toNat = 2 ^ 8 * x.toNat + y.toNat := by
  rw [UInt32.toNat_or, UInt32.toNat_shiftLeft]
  rw [show (8 : UInt32).toNat % 32 = 8 by rfl, Nat.mod_eq_of_lt (by
    rw [Nat.shiftLeft_eq]
    omega), ← Nat.shiftLeft_add_eq_or_of_lt hy, Nat.shiftLeft_eq, Nat.mul_comm]

/-- `ld_word` of a sector of the FAT. -/
theorem toNat_ldWord (view : UInt32 → Sector) (hq : q < g.fsize) (hi : i.toNat + 2 ≤ 512) :
    (ldWord (view (g.fatbase + q)) i).toUInt32.toNat =
      (g.fatMem view).field (8 * (512 * q.toNat + i.toNat)) 16 := by
  have h₁ : (i + 1).toNat = i.toNat + 1 := by
    rw [UInt32.toNat_add]
    exact Nat.mod_eq_of_lt (by change i.toNat + 1 < _; omega)
  rw [ldWord, byte_fat hq (by omega), byte_fat hq (by omega), h₁, ← Nat.add_assoc]
  generalize 512 * q.toNat + i.toNat = a
  rw [ByteMem.field_append _ _ 8 8, ByteMem.field_byte, ← Nat.mul_succ, ByteMem.field_byte]
  have hlow := (g.fatMem view a).toNat_lt
  have hhigh := (g.fatMem view (a + 1)).toNat_lt
  rw [UInt16.toNat_toUInt32, UInt16.toNat_or, UInt16.toNat_shiftLeft, UInt8.toNat_toUInt16,
    UInt8.toNat_toUInt16, show (8 : UInt16).toNat % 16 = 8 by rfl, Nat.mod_eq_of_lt (by
      rw [Nat.shiftLeft_eq]
      omega), ← Nat.shiftLeft_add_eq_or_of_lt hlow, Nat.shiftLeft_eq, Nat.mul_comm]

/-- `ld_dword` of a sector of the FAT. -/
theorem toNat_ldDword (view : UInt32 → Sector) (hq : q < g.fsize) (hi : i.toNat + 4 ≤ 512) :
    (ldDword (view (g.fatbase + q)) i).toNat =
      (g.fatMem view).field (8 * (512 * q.toNat + i.toNat)) 32 := by
  have e₁ : (i + 1).toNat = i.toNat + 1 := toNat_add_of_le hi (by decide)
  have e₂ : (i + 2).toNat = i.toNat + 2 := toNat_add_of_le hi (by decide)
  have e₃ : (i + 3).toNat = i.toNat + 3 := toNat_add_of_le hi (by decide)
  rw [ldDword, byte_fat hq (by omega), byte_fat hq (by omega), byte_fat hq (by omega),
    byte_fat hq (by omega), e₁, e₂, e₃]
  simp only [← Nat.add_assoc]
  generalize 512 * q.toNat + i.toNat = a
  have h₀ := (g.fatMem view a).toNat_lt
  have h₁ := (g.fatMem view (a + 1)).toNat_lt
  have h₂ := (g.fatMem view (a + 2)).toNat_lt
  have h₃ := (g.fatMem view (a + 3)).toNat_lt
  rw [ByteMem.field_append _ _ 8 24, ByteMem.field_append _ _ 8 16, ByteMem.field_append _ _ 8 8,
    ByteMem.field_byte, ← Nat.mul_succ, ByteMem.field_byte, ← Nat.mul_succ, ByteMem.field_byte,
    ← Nat.mul_succ, ByteMem.field_byte]
  have hlow : ∀ b : UInt8, b.toUInt32.toNat < 2 ^ 8 := fun b => by
    rw [UInt8.toNat_toUInt32]
    exact b.toNat_lt
  have h₃₂ := toNat_shiftLeft_or (x := (g.fatMem view (a + 3)).toUInt32)
    (Nat.lt_trans (hlow _) (by decide)) (hlow (g.fatMem view (a + 2)))
  have h₃₁ := toNat_shiftLeft_or (by rw [h₃₂]; simp only [UInt8.toNat_toUInt32]; omega)
    (hlow (g.fatMem view (a + 1)))
  have h₃₀ := toNat_shiftLeft_or
    (by rw [h₃₁, h₃₂]; simp only [UInt8.toNat_toUInt32]; omega) (hlow (g.fatMem view a))
  rw [h₃₀, h₃₁, h₃₂]
  simp only [UInt8.toNat_toUInt32]

/-- `st_word` to a sector of the FAT. -/
theorem sets_stWord (view : UInt32 → Sector) (hq : q < g.fsize) (hi : i.toNat + 2 ≤ 512)
    (val : UInt16) :
    (g.fatMem view).Sets
      (g.fatMem (Function.update view (g.fatbase + q) (stWord (view (g.fatbase + q)) i val)))
      (8 * (512 * q.toNat + i.toNat)) 16 val.toNat := by
  have h₁ : (i + 1).toNat = i.toNat + 1 := by
    rw [UInt32.toNat_add]
    exact Nat.mod_eq_of_lt (by change i.toNat + 1 < _; omega)
  rw [stWord, fatMem_set hq (by omega), fatMem_set hq (by omega), Function.update_eq_self, h₁]
  have hlow := (ByteMem.sets_zero (g.fatMem view) (8 * (512 * q.toNat + i.toNat)) val.toNat).byte
    (n := 0) (c := val.toUInt8) (by simp)
  exact hlow.byte (n := 1) (by simp)

/-- `st_dword` to a sector of the FAT. -/
theorem sets_stDword (view : UInt32 → Sector) (hq : q < g.fsize) (hi : i.toNat + 4 ≤ 512)
    (val : UInt32) :
    (g.fatMem view).Sets
      (g.fatMem (Function.update view (g.fatbase + q) (stDword (view (g.fatbase + q)) i val)))
      (8 * (512 * q.toNat + i.toNat)) 32 val.toNat := by
  have e₁ : (i + 1).toNat = i.toNat + 1 := toNat_add_of_le hi (by decide)
  have e₂ : (i + 2).toNat = i.toNat + 2 := toNat_add_of_le hi (by decide)
  have e₃ : (i + 3).toNat = i.toNat + 3 := toNat_add_of_le hi (by decide)
  rw [stDword, fatMem_set hq (by omega), fatMem_set hq (by omega), fatMem_set hq (by omega),
    fatMem_set hq (by omega), Function.update_eq_self, e₁, e₂, e₃]
  have h₀ := (ByteMem.sets_zero (g.fatMem view) (8 * (512 * q.toNat + i.toNat)) val.toNat).byte
    (n := 0) (c := val.toUInt8) (by simp)
  have h₁ := h₀.byte (n := 1) (c := (val >>> 8).toUInt8) (by simp)
  have h₂ := h₁.byte (n := 2) (c := (val >>> 8 >>> 8).toUInt8)
    (by simp [← Nat.shiftRight_add])
  exact h₂.byte (n := 3) (by simp [← Nat.shiftRight_add])

/-! ### Where the entries are -/

variable {clst : UInt32}

/-- The sector of an entry of whole bytes, and where it is there. -/
theorem position_word {b : UInt32} (hb : b = 2 ∨ b = 4)
    (hfit : b.toNat * g.nFatent.toNat ≤ 512 * g.fsize.toNat) (hlt : clst < g.nFatent) :
    clst / (sectorSize / b) < g.fsize ∧ (clst * b % sectorSize).toNat + b.toNat ≤ 512 ∧
      512 * (clst / (sectorSize / b)).toNat + (clst * b % sectorSize).toNat =
        b.toNat * clst.toNat := by
  have hlt' := UInt32.lt_iff_toNat_lt.1 hlt
  have hmax : g.nFatent.toNat ≤ 0x0FFFFFF7 :=
    Nat.le_trans g.clusters.2 (by cases g.fsType <;> decide)
  rw [UInt32.lt_iff_toNat_lt]
  rcases hb with rfl | rfl
  · have hmul : (clst * 2).toNat = clst.toNat * 2 := by
      rw [UInt32.toNat_mul]
      exact Nat.mod_eq_of_lt (by change clst.toNat * 2 < _; omega)
    have hmod : (clst * 2 % sectorSize).toNat = clst.toNat * 2 % 512 := by
      rw [UInt32.toNat_mod, hmul]
      rfl
    have hquot : (clst / (sectorSize / 2)).toNat = clst.toNat / 256 := UInt32.toNat_div _ _
    simp only [UInt32.reduceToNat] at hfit ⊢
    omega
  · have hmul : (clst * 4).toNat = clst.toNat * 4 := by
      rw [UInt32.toNat_mul]
      exact Nat.mod_eq_of_lt (by change clst.toNat * 4 < _; omega)
    have hmod : (clst * 4 % sectorSize).toNat = clst.toNat * 4 % 512 := by
      rw [UInt32.toNat_mod, hmul]
      rfl
    have hquot : (clst / (sectorSize / 4)).toNat = clst.toNat / 128 := UInt32.toNat_div _ _
    simp only [UInt32.reduceToNat] at hfit ⊢
    omega

/-- The FAT has room for the entries. -/
theorem fits_fat16 (htype : g.fsType = FS_FAT16) :
    (2 : UInt32).toNat * g.nFatent.toNat ≤ 512 * g.fsize.toNat := by
  have hfit := g.fat_fits
  rw [htype, FsType.stride] at hfit
  simp only [UInt32.reduceToNat]
  omega

theorem fits_fat32 (htype : g.fsType = FS_FAT32) :
    (4 : UInt32).toNat * g.nFatent.toNat ≤ 512 * g.fsize.toNat := by
  have hfit := g.fat_fits
  rw [htype, FsType.stride] at hfit
  simp only [UInt32.reduceToNat]
  omega

/-- The bytes of an entry of 12 bits. -/
theorem offset_fat12 (htype : g.fsType = FS_FAT12) (hlt : clst < g.nFatent) :
    (clst + clst / 2).toNat = clst.toNat + clst.toNat / 2 ∧
      (clst + clst / 2 + 1).toNat = clst.toNat + clst.toNat / 2 + 1 ∧
        clst.toNat + clst.toNat / 2 + 1 < 512 * g.fsize.toNat := by
  have hfit := g.fat_fits
  have hmax := g.clusters.2
  rw [htype, FsType.stride] at hfit
  rw [htype, FsType.maxClst] at hmax
  have hlt' := UInt32.lt_iff_toNat_lt.1 hlt
  have hfirst : (clst + clst / 2).toNat = clst.toNat + clst.toNat / 2 := by
    rw [UInt32.toNat_add, UInt32.toNat_div]
    exact Nat.mod_eq_of_lt (by change clst.toNat + clst.toNat / 2 < _; omega)
  refine ⟨hfirst, ?_, by omega⟩
  rw [UInt32.toNat_add, hfirst]
  exact Nat.mod_eq_of_lt (by change clst.toNat + clst.toNat / 2 + 1 < _; omega)

/-- The sector of a byte of the FAT. -/
theorem position_byte (g : Geometry) (bc : UInt32) (h : bc.toNat < 512 * g.fsize.toNat) :
    bc / sectorSize < g.fsize ∧ (bc % sectorSize).toNat < 512 ∧
      512 * (bc / sectorSize).toNat + (bc % sectorSize).toNat = bc.toNat := by
  have hquot : (bc / sectorSize).toNat = bc.toNat / 512 := UInt32.toNat_div _ _
  have hmod : (bc % sectorSize).toNat = bc.toNat % 512 := UInt32.toNat_mod _ _
  rw [UInt32.lt_iff_toNat_lt, hquot, hmod]
  omega

end

/-! ### Reading an entry -/

section

variable {δ : Type*} {dr : Drive δ} {g : Geometry} {fs : Fatfs δ} {clst val : UInt32}

/-- What is asked of `get_fat`, of a cluster that there is. -/
structure GetSpec (dr : Drive δ) (g : Geometry) (clst : UInt32) (fs : Fatfs δ)
    (r : UInt32 × Fatfs δ) : Prop where
  keeps : Keeps dr g fs r.2
  value : Coherent dr g fs → r.1 ≠ 0xFFFFFFFF → r.1.toNat = g.entry (fs.view dr) clst.toNat
  reliable : Coherent dr g fs → dr.Reliable → r.1 ≠ 0xFFFFFFFF

/-- The entries are smaller than any error. -/
theorem entry_lt (g : Geometry) (view : UInt32 → Sector) (c : ℕ) : g.entry view c < 2 ^ 28 := by
  refine Nat.lt_of_lt_of_le (ByteMem.field_lt _ _ _) (Nat.pow_le_pow_right (by decide) ?_)
  cases g.fsType <;> decide

/-- Where an entry is a value that the window shows. -/
theorem getSpec_of_move {sect value : UInt32} {fs' : Fatfs δ} {r : FRESULT × Fatfs δ}
    (hk : Keeps dr g fs fs') (hr : MoveSpec dr g sect fs' r)
    (hvalue : Coherent dr g fs → r.1 = FR_OK → value.toNat = g.entry (fs.view dr) clst.toNat) :
    GetSpec dr g clst fs (if r.1 ≠ FR_OK then (0xFFFFFFFF, r.2) else (value, r.2)) := by
  by_cases hok : r.1 = FR_OK
  · rw [if_neg (by simpa using hok)]
    refine ⟨hk.trans hr.keeps, fun hc _ => hvalue hc hok, fun hc _ h => ?_⟩
    have hentry := hvalue hc hok
    dsimp only at h
    rw [h] at hentry
    have hlt := entry_lt g (fs.view dr) clst.toNat
    rw [← hentry] at hlt
    exact absurd hlt (by decide)
  · rw [if_pos hok]
    exact ⟨hk.trans hr.keeps, fun _ h => absurd rfl h, fun _ hrel _ => hok (hr.reliable hrel)⟩

/-- Whether a cluster has an odd number. -/
theorem and_one_ne_zero_iff : clst &&& 1 ≠ 0 ↔ clst.toNat % 2 = 1 := by
  rw [Ne, ← UInt32.toNat_inj, UInt32.toNat_and]
  change ¬(clst.toNat &&& 1 = 0) ↔ _
  rw [Nat.and_one_is_mod]
  omega

/-- An entry of 12 bits, from its two bytes. -/
theorem toNat_fat12 {b₀ b₁ : UInt8} {m : ByteMem} (h₀ : b₀ = m (clst.toNat + clst.toNat / 2))
    (h₁ : b₁ = m (clst.toNat + clst.toNat / 2 + 1)) :
    (if clst &&& 1 ≠ 0 then (b₀.toUInt32 ||| b₁.toUInt32 <<< 8) >>> 4
      else (b₀.toUInt32 ||| b₁.toUInt32 <<< 8) &&& 0xFFF).toNat =
        m.field (12 * clst.toNat) 12 := by
  have hwide : (b₀.toUInt32 ||| b₁.toUInt32 <<< 8).toNat =
      m.field (8 * (clst.toNat + clst.toNat / 2)) 16 := by
    have hlt₀ := b₀.toNat_lt
    have hlt₁ := b₁.toNat_lt
    rw [UInt32.or_comm, toNat_shiftLeft_or (by rw [UInt8.toNat_toUInt32]; omega)
      (by rw [UInt8.toNat_toUInt32]; omega), ByteMem.field_append _ _ 8 8, ByteMem.field_byte,
      ← Nat.mul_succ, ByteMem.field_byte, h₀, h₁]
    simp only [UInt8.toNat_toUInt32, Nat.succ_eq_add_one]
  by_cases hpar : clst.toNat % 2 = 1
  · rw [if_pos (and_one_ne_zero_iff.2 hpar), UInt32.toNat_shiftRight, hwide,
      show 12 * clst.toNat = 8 * (clst.toNat + clst.toNat / 2) + 4 by omega,
      ByteMem.field_add (l := 16) _ _ _ (by omega)]
    have hlt := ByteMem.field_lt m (8 * (clst.toNat + clst.toNat / 2)) 16
    rw [show (4 : UInt32).toNat % 32 = 4 by rfl, Nat.mod_eq_of_lt]
    rw [Nat.shiftRight_eq_div_pow]
    omega
  · rw [if_neg (mt and_one_ne_zero_iff.1 hpar), UInt32.toNat_and, hwide,
      show 12 * clst.toNat = 8 * (clst.toNat + clst.toNat / 2) by omega,
      ByteMem.field_mod (n := 12) (l := 16) _ _ (by omega)]
    exact Nat.and_two_pow_sub_one_eq_mod _ 12

/-- **`get_fat` tells what the FAT says of a cluster.** -/
theorem getFat_spec (dr : Drive δ) (fs : Fatfs δ) (htwo : 2 ≤ clst) (hlt : clst < g.nFatent) :
    GetSpec dr g clst fs (getFat dr g clst fs) := by
  rw [getFat, if_neg (by grind)]
  have hentry : ∀ view, g.entry view clst.toNat =
      (g.fatMem view).field (g.fsType.stride * clst.toNat) g.fsType.width := fun _ => rfl
  cases htype : g.fsType with
  | FS_FAT16 =>
      obtain ⟨hq, hi, hpos⟩ := position_word (Or.inl rfl) (fits_fat16 htype) hlt
      have hmove := moveWindow_moves dr g
        (g.fatbase + clst / (sectorSize / 2)) fs
      refine getSpec_of_move (Keeps.refl fs) hmove fun hc hok => ?_
      rw [hmove.win_eq hc (ordinary_fat hq) hok, toNat_ldWord _ hq hi, hpos, hentry, htype]
      simp only [UInt32.reduceToNat, FsType.stride, FsType.width, ← Nat.mul_assoc]
  | FS_FAT32 =>
      obtain ⟨hq, hi, hpos⟩ := position_word (Or.inr rfl) (fits_fat32 htype) hlt
      have hmove := moveWindow_moves dr g
        (g.fatbase + clst / (sectorSize / 4)) fs
      refine getSpec_of_move (Keeps.refl fs) hmove fun hc hok => ?_
      rw [hmove.win_eq hc (ordinary_fat hq) hok, UInt32.toNat_and, toNat_ldDword _ hq hi, hpos,
        hentry, htype]
      simp only [UInt32.reduceToNat, FsType.stride, FsType.width, ← Nat.mul_assoc]
      rw [ByteMem.field_mod (n := 28) (l := 32) _ _ (by omega)]
      exact Nat.and_two_pow_sub_one_eq_mod _ 28
  | FS_FAT12 =>
      obtain ⟨hfirst, hsecond, hin⟩ := offset_fat12 htype hlt
      obtain ⟨hq, hi, hpos⟩ := position_byte g (clst + clst / 2) (by omega)
      obtain ⟨hq', hi', hpos'⟩ := position_byte g (clst + clst / 2 + 1) (by omega)
      have hmove := moveWindow_moves dr g
        (g.fatbase + (clst + clst / 2) / sectorSize) fs
      dsimp only
      revert hmove
      generalize moveWindow dr g (g.fatbase + (clst + clst / 2) / sectorSize) fs = r
      intro hmove
      by_cases hok : r.1 = FR_OK
      · have hmove' := moveWindow_moves dr g
          (g.fatbase + (clst + clst / 2 + 1) / sectorSize) r.2
        rw [if_neg (by simpa using hok)]
        refine getSpec_of_move hmove.keeps hmove' fun hc hok' => ?_
        rw [hmove.win_eq hc (ordinary_fat hq) hok,
          hmove'.win_eq (hmove.keeps.coherent hc) (ordinary_fat hq') hok',
          hmove.keeps.view hc _ (ordinary_fat hq'), hentry, htype]
        exact toNat_fat12 (by rw [byte_fat hq hi, hpos, hfirst])
          (by rw [byte_fat hq' hi', hpos', hsecond])
      · rw [if_pos hok]
        exact ⟨hmove.keeps, fun _ h => absurd rfl h, fun _ hrel _ => hok (hmove.reliable hrel)⟩

/-! ### Changing an entry -/

/-- The bits of an entry that a write which fails has still changed: of an entry of 12 bits, those
in the first of its two bytes. -/
def FsType.torn (t : FsType) (clst : ℕ) : ℕ :=
  if t = FS_FAT12 then if clst % 2 = 1 then 4 else 8 else 0

theorem torn_le (clst : ℕ) : FS_FAT12.torn clst ≤ 12 := by
  rw [FsType.torn, if_pos rfl]
  split
  · decide
  · decide

/-- What is asked of `put_fat`, of a cluster that there is. -/
structure PutSpec (dr : Drive δ) (g : Geometry) (clst val : UInt32) (fs : Fatfs δ)
    (r : FRESULT × Fatfs δ) : Prop where
  coherent : Coherent dr g fs → Coherent dr g r.2
  sets : Coherent dr g fs → ∃ n, (g.fatMem (fs.view dr)).Sets (g.fatMem (r.2.view dr))
    (g.fsType.stride * clst.toNat) n val.toNat ∧ (r.1 = FR_OK → n = g.fsType.width) ∧
      (r.1 ≠ FR_OK → n = 0 ∨ n = g.fsType.torn clst.toNat)
  frame : Coherent dr g fs → ∀ s, g.Ordinary s → ¬s - g.fatbase < g.fsize →
    r.2.view dr s = fs.view dr s
  lastClst : r.2.lastClst = fs.lastClst
  freeClst : r.2.freeClst = fs.freeClst
  fsiFlag : r.2.fsiFlag = fs.fsiFlag
  result : r.1 = FR_OK ∨ r.1 = FR_DISK_ERR
  reliable : dr.Reliable → r.1 = FR_OK

/-- The FAT is seen as before. -/
theorem Keeps.fatMem {fs' : Fatfs δ} (h : Keeps dr g fs fs') (hc : Coherent dr g fs) :
    g.fatMem (fs'.view dr) = g.fatMem (fs.view dr) := by
  funext i
  unfold Geometry.fatMem
  split
  · rename_i hi
    have hq : UInt32.ofNat (i / 512) < g.fsize := by
      have hlt := g.fsize.toNat_lt
      rw [UInt32.lt_iff_toNat_lt, UInt32.toNat_ofNat_of_lt' (by change i / 512 < 2 ^ 32; omega)]
      omega
    rw [h.view hc _ (ordinary_fat hq)]
  · rfl

/-- A drive that has failed has left the FAT alone. -/
theorem putSpec_of_keeps {r : FRESULT × Fatfs δ} (h : Keeps dr g fs r.2) (herr : r.1 = FR_DISK_ERR)
    (hrel : dr.Reliable → r.1 = FR_OK) : PutSpec dr g clst val fs r where
  coherent := h.coherent
  sets hc := by
    refine ⟨0, ?_, fun hok => ?_, fun _ => Or.inl rfl⟩
    · rw [h.fatMem hc]
      exact ByteMem.sets_zero _ _ _
    · rw [herr] at hok
      cases hok
  frame hc s hs _ := h.view hc s hs
  lastClst := h.lastClst
  freeClst := h.freeClst
  fsiFlag := h.fsiFlag
  result := Or.inr herr
  reliable := hrel

/-- A sector of the FAT is one of it. -/
theorem ne_fatbase_add {q s : UInt32} (hq : q < g.fsize) (hs : ¬s - g.fatbase < g.fsize) :
    s ≠ g.fatbase + q := by
  rintro rfl
  rw [show g.fatbase + q - g.fatbase = q by grind] at hs
  exact hs hq

/-- Changing the window in a sector of the FAT. -/
theorem view_fat {q : UInt32} {win : Sector} (hw : fs.winsect = g.fatbase + q) :
    ({ fs with win := win, wflag := true } : Fatfs δ).view dr =
      Function.update (fs.view dr) (g.fatbase + q) win := by
  rw [view_win, hw]

/-- An entry that lies in one sector. -/
theorem putSpec_of_move {q : UInt32} {win : Sector} {r : FRESULT × Fatfs δ} (hq : q < g.fsize)
    (hr : MoveSpec dr g (g.fatbase + q) fs r)
    (hsets : r.2.view dr (g.fatbase + q) = r.2.win → (g.fatMem (r.2.view dr)).Sets
      (g.fatMem (Function.update (r.2.view dr) (g.fatbase + q) win))
      (g.fsType.stride * clst.toNat) g.fsType.width val.toNat) :
    PutSpec dr g clst val fs
      (if r.1 ≠ FR_OK then r else (r.1, { r.2 with win := win, wflag := true })) := by
  by_cases hok : r.1 = FR_OK
  · rw [if_neg (by simpa using hok)]
    have hwin := hr.winsect hok
    refine ⟨fun _ => coherent_win (hwin ▸ ordinary_fat hq), fun hc => ?_, fun hc s hs hout => ?_,
      hr.keeps.lastClst, hr.keeps.freeClst, hr.keeps.fsiFlag, Or.inl hok, fun _ => hok⟩
    · refine ⟨_, ?_, fun _ => rfl, fun h => absurd hok h⟩
      rw [view_fat hwin, ← hr.keeps.fatMem hc]
      exact hsets (hwin ▸ view_winsect r.2)
    · rw [view_fat hwin, Function.update_of_ne (ne_fatbase_add hq hout), hr.keeps.view hc s hs]
  · rw [if_pos hok]
    exact putSpec_of_keeps hr.keeps (hr.result.resolve_left hok) hr.reliable

/-- A byte of the FAT has been stored. -/
structure Stored (dr : Drive δ) (g : Geometry) (fs : Fatfs δ) (a : ℕ) (b : UInt8)
    (fs' : Fatfs δ) : Prop where
  coherent : Coherent dr g fs'
  fatMem : Coherent dr g fs →
    g.fatMem (fs'.view dr) = (g.fatMem (fs.view dr)).blit a 1 fun _ => b
  frame : Coherent dr g fs → ∀ s, g.Ordinary s → ¬s - g.fatbase < g.fsize →
    fs'.view dr s = fs.view dr s
  lastClst : fs'.lastClst = fs.lastClst
  freeClst : fs'.freeClst = fs.freeClst
  fsiFlag : fs'.fsiFlag = fs.fsiFlag

/-- Storing a byte through the window. -/
theorem stored_of_move {q i : UInt32} {r : FRESULT × Fatfs δ} (hq : q < g.fsize)
    (hi : i.toNat < 512) (hr : MoveSpec dr g (g.fatbase + q) fs r) (hok : r.1 = FR_OK) (b : UInt8) :
    Stored dr g fs (512 * q.toNat + i.toNat) b
      { r.2 with win := r.2.win.set i b, wflag := true } where
  coherent := coherent_win (hr.winsect hok ▸ ordinary_fat hq)
  fatMem hc := by
    have hwin : r.2.view dr (g.fatbase + q) = r.2.win := hr.winsect hok ▸ view_winsect r.2
    rw [view_fat (hr.winsect hok), fatMem_set hq hi, ← hwin, Function.update_eq_self,
      hr.keeps.fatMem hc]
  frame hc s hs hout := by
    rw [view_fat (hr.winsect hok), Function.update_of_ne (ne_fatbase_add hq hout),
      hr.keeps.view hc s hs]
  lastClst := hr.keeps.lastClst
  freeClst := hr.keeps.freeClst
  fsiFlag := hr.keeps.fsiFlag

/-- A byte of the FAT, in the window. -/
theorem byte_of_move {q i : UInt32} {r : FRESULT × Fatfs δ} (hq : q < g.fsize)
    (hi : i.toNat < 512) (hr : MoveSpec dr g (g.fatbase + q) fs r) (hok : r.1 = FR_OK)
    (hc : Coherent dr g fs) :
    r.2.win.byte i = g.fatMem (fs.view dr) (512 * q.toNat + i.toNat) := by
  rw [hr.win_eq hc (ordinary_fat hq) hok, byte_fat hq hi]

theorem testBit_low : ∀ j < 8, (0x0F : UInt8).toNat.testBit j = decide (j < 4) := by decide

theorem testBit_high : ∀ j < 8, (0xF0 : UInt8).toNat.testBit j = decide (4 ≤ j) := by decide

/-- The lowest bits of a byte are replaced. -/
theorem sets_low {m : ByteMem} {a v : ℕ} {c : UInt8} (hc : c.toNat = v % 256) :
    m.Sets (m.blit a 1 fun _ => m a &&& 0xF0 ||| c &&& 0x0F) (8 * a) 4 v := by
  refine ByteMem.sets_byte (i := 0) (by omega) (fun j hj => ?_) (fun j hj hout => ?_)
  · rw [UInt8.toNat_or, UInt8.toNat_and, UInt8.toNat_and, Nat.testBit_or, Nat.testBit_and,
      Nat.testBit_and, Nat.zero_add, testBit_low j (by omega), testBit_high j (by omega), hc,
      show (256 : ℕ) = 2 ^ 8 by rfl, Nat.testBit_mod_two_pow]
    simp [hj, show ¬4 ≤ j by omega, show j < 8 by omega]
  · rw [UInt8.toNat_or, UInt8.toNat_and, UInt8.toNat_and, Nat.testBit_or, Nat.testBit_and,
      Nat.testBit_and, testBit_low j hj, testBit_high j hj]
    simp [show ¬j < 4 by omega, show 4 ≤ j by omega]

/-- The highest bits of a byte are replaced. -/
theorem sets_high {m : ByteMem} {a v : ℕ} {c : UInt8} (hc : c.toNat = v % 256) :
    m.Sets (m.blit a 1 fun _ => m a &&& (0x0F : UInt8) ||| c <<< 4) (8 * a + 4) 4 v := by
  refine ByteMem.sets_byte (by omega) (fun j hj => ?_) (fun j hj hout => ?_)
  · rw [UInt8.toNat_or, UInt8.toNat_and, UInt8.toNat_shiftLeft, Nat.testBit_or, Nat.testBit_and,
      testBit_low _ (by omega), hc, show (4 : UInt8).toNat % 8 = 4 by rfl,
      Nat.testBit_mod_two_pow, Nat.testBit_shiftLeft, show (256 : ℕ) = 2 ^ 8 by rfl,
      Nat.testBit_mod_two_pow, Nat.add_sub_cancel_left]
    simp [show ¬4 + j < 4 by omega, show 4 + j < 8 by omega, show j < 8 by omega]
  · rw [UInt8.toNat_or, UInt8.toNat_and, UInt8.toNat_shiftLeft, Nat.testBit_or, Nat.testBit_and,
      testBit_low j hj, show (4 : UInt8).toNat % 8 = 4 by rfl, Nat.testBit_mod_two_pow,
      Nat.testBit_shiftLeft]
    simp [show j < 4 by omega, show ¬4 ≤ j by omega]

/-- The first byte of an entry of 12 bits. -/
theorem sets_first (m : ByteMem) (clst val : UInt32) :
    m.Sets (m.blit (clst.toNat + clst.toNat / 2) 1 fun _ =>
      if clst &&& 1 ≠ 0 then
        m (clst.toNat + clst.toNat / 2) &&& (0x0F : UInt8) ||| val.toUInt8 <<< 4
      else val.toUInt8) (12 * clst.toNat) (FS_FAT12.torn clst.toNat) val.toNat := by
  have hval : val.toUInt8.toNat = val.toNat % 256 := UInt32.toNat_toUInt8 val
  by_cases hpar : clst.toNat % 2 = 1
  · rw [if_pos (and_one_ne_zero_iff.2 hpar), FsType.torn, if_pos rfl, if_pos hpar,
      show 12 * clst.toNat = 8 * (clst.toNat + clst.toNat / 2) + 4 by omega]
    exact sets_high hval
  · rw [if_neg (mt and_one_ne_zero_iff.1 hpar), FsType.torn, if_pos rfl, if_neg hpar,
      show 12 * clst.toNat = 8 * (clst.toNat + clst.toNat / 2) by omega]
    exact ByteMem.sets_whole hval

/-- The second byte. -/
theorem sets_second (m : ByteMem) (clst val : UInt32) :
    m.Sets (m.blit (clst.toNat + clst.toNat / 2 + 1) 1 fun _ =>
      if clst &&& 1 ≠ 0 then (val >>> 4).toUInt8
      else m (clst.toNat + clst.toNat / 2 + 1) &&& (0xF0 : UInt8) ||| (val >>> 8).toUInt8 &&& 0x0F)
      (12 * clst.toNat + FS_FAT12.torn clst.toNat) (12 - FS_FAT12.torn clst.toNat)
      (val.toNat >>> FS_FAT12.torn clst.toNat) := by
  by_cases hpar : clst.toNat % 2 = 1
  · rw [if_pos (and_one_ne_zero_iff.2 hpar), FsType.torn, if_pos rfl, if_pos hpar,
      show 12 * clst.toNat + 4 = 8 * (clst.toNat + clst.toNat / 2 + 1) by omega]
    exact ByteMem.sets_whole (by simp)
  · rw [if_neg (mt and_one_ne_zero_iff.1 hpar), FsType.torn, if_pos rfl, if_neg hpar,
      show 12 * clst.toNat + 8 = 8 * (clst.toNat + clst.toNat / 2 + 1) by omega]
    exact sets_low (by simp)

theorem testBit_reserved :
    ∀ j < 32, (0xF0000000 : UInt32).toNat.testBit j = decide (28 ≤ j) := by decide

/-- An entry of 32 bits keeps its highest ones. -/
theorem sets_masked {m m' : ByteMem} {a : ℕ} {old : UInt32} (hold : old.toNat = m.field a 32)
    (h : m.Sets m' a 32 (val &&& 0x0FFFFFFF ||| old &&& 0xF0000000).toNat) :
    m.Sets m' a 28 val.toNat := by
  have hlow : ∀ j, (0x0FFFFFFF : UInt32).toNat.testBit j = decide (j < 28) :=
    fun j => Nat.testBit_two_pow_sub_one 28 j
  refine (h.shrink (n := 28) (l := 4) fun j hj hj' => ?_).congr fun j hj => ?_
  · rw [UInt32.toNat_or, UInt32.toNat_and, UInt32.toNat_and, Nat.testBit_or, Nat.testBit_and,
      Nat.testBit_and, hlow, testBit_reserved j (by omega), hold, ByteMem.testBit_field]
    simp [hj, show ¬j < 28 by omega, show j < 32 by omega]
  · rw [UInt32.toNat_or, UInt32.toNat_and, UInt32.toNat_and, Nat.testBit_or, Nat.testBit_and,
      Nat.testBit_and, hlow, testBit_reserved j (by omega)]
    simp [hj, show ¬28 ≤ j by omega]

/-- **`put_fat` changes one entry.** -/
theorem putFat_spec (dr : Drive δ) (fs : Fatfs δ) (val : UInt32) (htwo : 2 ≤ clst)
    (hlt : clst < g.nFatent) :
    PutSpec dr g clst val fs (putFat dr g clst val fs) := by
  rw [putFat, if_pos ⟨htwo, hlt⟩]
  cases htype : g.fsType with
  | FS_FAT16 =>
      obtain ⟨hq, hi, hpos⟩ := position_word (Or.inl rfl) (fits_fat16 htype) hlt
      have hmove := moveWindow_moves dr g
        (g.fatbase + clst / (sectorSize / 2)) fs
      refine putSpec_of_move hq hmove fun hwin => ?_
      have hsets := sets_stWord ((moveWindow dr g
        (g.fatbase + clst / (sectorSize / 2)) fs).2.view dr) hq hi val.toUInt16
      rw [hpos, hwin, ← Nat.mul_assoc] at hsets
      rw [htype]
      refine hsets.congr fun j hj => ?_
      rw [UInt32.toNat_toUInt16, Nat.testBit_mod_two_pow, decide_eq_true hj, Bool.true_and]
  | FS_FAT32 =>
      obtain ⟨hq, hi, hpos⟩ := position_word (Or.inr rfl) (fits_fat32 htype) hlt
      have hmove := moveWindow_moves dr g
        (g.fatbase + clst / (sectorSize / 4)) fs
      refine putSpec_of_move hq hmove fun hwin => ?_
      have hold := toNat_ldDword ((moveWindow dr g
        (g.fatbase + clst / (sectorSize / 4)) fs).2.view dr) hq hi
      have hsets := sets_stDword ((moveWindow dr g
        (g.fatbase + clst / (sectorSize / 4)) fs).2.view dr) hq hi
        (val &&& 0x0FFFFFFF ||| ldDword (moveWindow dr g
          (g.fatbase + clst / (sectorSize / 4)) fs).2.win (clst * 4 % sectorSize) &&& 0xF0000000)
      rw [hpos, hwin, ← Nat.mul_assoc] at hsets
      rw [hpos, hwin, ← Nat.mul_assoc] at hold
      rw [htype]
      exact sets_masked hold hsets
  | FS_FAT12 =>
      obtain ⟨hfirst, hsecond, hin⟩ := offset_fat12 htype hlt
      obtain ⟨hq, hi, hpos⟩ := position_byte g (clst + clst / 2) (by omega)
      obtain ⟨hq', hi', hpos'⟩ := position_byte g (clst + clst / 2 + 1) (by omega)
      have hmove := moveWindow_moves dr g
        (g.fatbase + (clst + clst / 2) / sectorSize) fs
      dsimp only
      revert hmove
      generalize moveWindow dr g (g.fatbase + (clst + clst / 2) / sectorSize) fs = r
      intro hmove
      by_cases hok : r.1 = FR_OK
      · rw [if_neg (by simpa using hok)]
        have hstore := stored_of_move hq hi hmove hok
          (if clst &&& 1 ≠ 0 then
            r.2.win.byte ((clst + clst / 2) % sectorSize) &&& (0x0F : UInt8) ||| val.toUInt8 <<< 4
          else val.toUInt8)
        rw [hpos, hfirst] at hstore
        have hold := byte_of_move hq hi hmove hok
        rw [hpos, hfirst] at hold
        have hbytes := sets_first (g.fatMem (fs.view dr)) clst val
        revert hstore
        generalize { r.2 with win := r.2.win.set ((clst + clst / 2) % sectorSize) _
                              wflag := true : Fatfs δ } = fs₁
        intro hstore
        have hmove' := moveWindow_moves dr g
          (g.fatbase + (clst + clst / 2 + 1) / sectorSize) fs₁
        revert hmove'
        generalize moveWindow dr g (g.fatbase + (clst + clst / 2 + 1) / sectorSize) fs₁ = t
        intro hmove'
        have hc₁ := hstore.coherent
        have hfirst' : Coherent dr g fs → (g.fatMem (fs.view dr)).Sets (g.fatMem (fs₁.view dr))
            (12 * clst.toNat) (FS_FAT12.torn clst.toNat) val.toNat := fun hc => by
          rw [hstore.fatMem hc, hold hc]
          exact hbytes
        by_cases hok' : t.1 = FR_OK
        · rw [if_neg (by simpa using hok')]
          have hstore' := stored_of_move hq' hi' hmove' hok'
            (if clst &&& 1 ≠ 0 then (val >>> 4).toUInt8
            else t.2.win.byte ((clst + clst / 2 + 1) % sectorSize) &&& (0xF0 : UInt8) |||
              (val >>> 8).toUInt8 &&& 0x0F)
          have hold' := byte_of_move hq' hi' hmove' hok' hc₁
          rw [hpos', hsecond] at hstore' hold'
          refine ⟨fun _ => hstore'.coherent, fun hc => ⟨12, ?_, fun _ => by rw [htype]; rfl,
            fun h => absurd hok' h⟩, fun hc s hs hout => ?_,
            hstore'.lastClst.trans hstore.lastClst, hstore'.freeClst.trans hstore.freeClst,
            hstore'.fsiFlag.trans hstore.fsiFlag, Or.inl hok', fun _ => hok'⟩
          · have hrest := sets_second (g.fatMem (fs₁.view dr)) clst val
            rw [← hold', ← hstore'.fatMem hc₁] at hrest
            have hall := (hfirst' hc).append hrest
            rw [Nat.add_sub_cancel' (torn_le clst.toNat)] at hall
            rw [htype]
            exact hall
          · rw [hstore'.frame hc₁ s hs hout, hstore.frame hc s hs hout]
        · rw [if_pos hok']
          refine ⟨fun _ => hmove'.keeps.coherent hc₁, fun hc => ⟨_, ?_, fun h => absurd h hok',
            fun _ => Or.inr rfl⟩, fun hc s hs hout => ?_,
            hmove'.keeps.lastClst.trans hstore.lastClst,
            hmove'.keeps.freeClst.trans hstore.freeClst,
            hmove'.keeps.fsiFlag.trans hstore.fsiFlag, hmove'.result,
            fun hrel => hmove'.reliable hrel⟩
          · rw [htype, hmove'.keeps.fatMem hc₁]
            exact hfirst' hc
          · rw [hmove'.keeps.view hc₁ s hs, hstore.frame hc s hs hout]
      · rw [if_pos hok]
        exact putSpec_of_keeps hmove.keeps (hmove.result.resolve_left hok) hmove.reliable

end

end Pico.Fat
