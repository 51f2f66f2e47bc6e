/-
**The window of FatFs on the drive.**

`library/fatfs/ff.c` looks at the FAT and at the directories through a buffer of one sector, the
window.  It is moved with `move_window`, which first writes back what has been changed in it.  The
sectors of the first FAT are written to the second FAT as well, and there whether the drive has
taken them is not looked at.

A drive is a parameter, `Pico.Fat.Drive`: it may fail at any time, and then leaves anything in the
sector it was to write or in the buffer it was to fill.

Main definitions:

* `Pico.Fat.Geometry` — where the FAT and the clusters of a mounted volume are;
* `Pico.Fat.Fatfs` — the part of `FATFS` that changes, and the drive;
* `Pico.Fat.syncWindow`, `Pico.Fat.moveWindow` — `sync_window` and `move_window`;
* `Pico.Fat.Fatfs.view` — the volume, as it is seen through the window;
* `Pico.Fat.Keeps` — a volume that is seen as before.

Main results:

* `Pico.Fat.syncWindow_spec`, `Pico.Fat.moveWindow_spec` — **whatever the drive answers, the volume
  is seen as before**, and only where the window is moved successfully it shows the sector.
-/

import Mathlib.Logic.Function.Basic
import WizioPico.FatSeek

set_option relaxedAutoImplicit false
set_option autoImplicit false

namespace Pico.Fat

open Pico.Vfs
open FRESULT

/-! ### Sectors -/

/-- The bytes of a sector. -/
abbrev Sector := Fin 512 → UInt8

/-- A place in a sector. -/
def sectorIndex (n : ℕ) : Fin 512 := Fin.ofNat 512 n

@[simp] theorem val_sectorIndex (n : ℕ) : (sectorIndex n).val = n % 512 := rfl

/-- `p[i]`, for a pointer `p` to the buffer of a sector. -/
def Sector.byte (win : Sector) (i : UInt32) : UInt8 := win (sectorIndex i.toNat)

/-- `p[i] = b`. -/
def Sector.set (win : Sector) (i : UInt32) (b : UInt8) : Sector :=
  Function.update win (sectorIndex i.toNat) b

/-- `ld_word`. -/
def ldWord (win : Sector) (i : UInt32) : UInt16 :=
  (win.byte (i + 1)).toUInt16 <<< 8 ||| (win.byte i).toUInt16

/-- `ld_dword`. -/
def ldDword (win : Sector) (i : UInt32) : UInt32 :=
  (((win.byte (i + 3)).toUInt32 <<< 8 ||| (win.byte (i + 2)).toUInt32) <<< 8
    ||| (win.byte (i + 1)).toUInt32) <<< 8 ||| (win.byte i).toUInt32

/-- `st_word`. -/
def stWord (win : Sector) (i : UInt32) (val : UInt16) : Sector :=
  (win.set i val.toUInt8).set (i + 1) (val >>> 8).toUInt8

/-- `st_dword`. -/
def stDword (win : Sector) (i val : UInt32) : Sector :=
  (((win.set i val.toUInt8).set (i + 1) (val >>> 8).toUInt8).set (i + 2)
    (val >>> 8 >>> 8).toUInt8).set (i + 3) (val >>> 8 >>> 8 >>> 8).toUInt8

/-! ### The drive and the volume -/

/-- A drive that is read and written a sector at a time, with `disk_read` and `disk_write`, and that
is told with `disk_ioctl` to bring pending writes to an end.  Each answers whether it has succeeded;
`disk_read` gets the buffer that it is to fill. -/
structure Drive (δ : Type*) where
  contents : δ → UInt32 → Sector
  diskRead : UInt32 → Sector → δ → Bool × Sector × δ
  diskWrite : UInt32 → Sector → δ → Bool × δ
  ctrlSync : δ → Bool × δ
  contents_ctrlSync : ∀ d, contents (ctrlSync d).2 = contents d
  contents_diskRead : ∀ s b d, contents (diskRead s b d).2.2 = contents d
  diskRead_ok : ∀ {s b d}, (diskRead s b d).1 = true → (diskRead s b d).2.1 = contents d s
  diskWrite_ok : ∀ {s b d}, (diskWrite s b d).1 = true → contents (diskWrite s b d).2 s = b
  contents_diskWrite : ∀ {s b d t}, t ≠ s → contents (diskWrite s b d).2 t = contents d t

/-- A drive that never fails. -/
structure Drive.Reliable {δ : Type*} (dr : Drive δ) : Prop where
  diskRead : ∀ s b d, (dr.diskRead s b d).1 = true
  diskWrite : ∀ s b d, (dr.diskWrite s b d).1 = true
  ctrlSync : ∀ d, (dr.ctrlSync d).1 = true

/-- A drive in memory. -/
def ramDrive : Drive (UInt32 → Sector) where
  contents d := d
  diskRead s _ d := (true, d s, d)
  diskWrite s b d := (true, Function.update d s b)
  ctrlSync d := (true, d)
  contents_ctrlSync _ := rfl
  contents_diskRead _ _ _ := rfl
  diskRead_ok _ := rfl
  diskWrite_ok _ := Function.update_self _ _ _
  contents_diskWrite h := Function.update_of_ne h _ _

theorem ramDrive_reliable : ramDrive.Reliable := ⟨fun _ _ _ => rfl, fun _ _ _ => rfl, fun _ => rfl⟩

/-- `fs_type`, of a volume that is mounted. -/
inductive FsType where
  | FS_FAT12 | FS_FAT16 | FS_FAT32
  deriving DecidableEq

open FsType

/-- From one entry of the FAT to the next one, in bits. -/
def FsType.stride : FsType → ℕ
  | FS_FAT12 => 12
  | FS_FAT16 => 16
  | FS_FAT32 => 32

/-- The bits of an entry that count. -/
def FsType.width : FsType → ℕ
  | FS_FAT12 => 12
  | FS_FAT16 => 16
  | FS_FAT32 => 28

/-- The most clusters there can be: `MAX_FAT12`, `MAX_FAT16` and `MAX_FAT32`. -/
def FsType.maxClst : FsType → ℕ
  | FS_FAT12 => 0xFF5
  | FS_FAT16 => 0xFFF5
  | FS_FAT32 => 0x0FFFFFF5

/-- Where the parts of a mounted volume are: the fields of `FATFS` that do not change.  The FAT has
room for the entries of all clusters, and FATs and clusters lie within the sectors that there
are. -/
structure Geometry where
  fsType : FsType
  nFats : UInt8
  csize : UInt32
  nFatent : UInt32
  fsize : UInt32
  volbase : UInt32
  fatbase : UInt32
  database : UInt32
  csize_pow : ∃ k ≤ 7, csize.toNat = 2 ^ k
  clusters : 3 ≤ nFatent.toNat ∧ nFatent.toNat ≤ fsType.maxClst + 2
  fat_fits : fsType.stride * nFatent.toNat ≤ 8 * (512 * fsize.toNat)
  fats_fit : fatbase.toNat + nFats.toNat * fsize.toNat ≤ database.toNat
  data_fits : database.toNat + csize.toNat * (nFatent.toNat - 2) < 2 ^ 32
  fats : nFats = 1 ∨ nFats = 2

/-- What changes of `FATFS`, and the drive. -/
structure Fatfs (δ : Type*) where
  winsect : UInt32
  win : Sector
  wflag : Bool
  lastClst : UInt32
  freeClst : UInt32
  fsiFlag : UInt8
  drive : δ

/-! ### The window -/

section

variable {δ : Type*} (dr : Drive δ) (g : Geometry)

/-- `sync_window`. -/
def syncWindow (fs : Fatfs δ) : FRESULT × Fatfs δ :=
  if fs.wflag then
    let w := dr.diskWrite fs.winsect fs.win fs.drive
    if w.1 then
      let fs := { fs with wflag := false, drive := w.2 }
      if fs.winsect - g.fatbase < g.fsize ∧ g.nFats = 2 then
        -- what the drive answers is not looked at
        let w := dr.diskWrite (fs.winsect + g.fsize) fs.win fs.drive
        (FR_OK, { fs with drive := w.2 })
      else (FR_OK, fs)
    else (FR_DISK_ERR, { fs with drive := w.2 })
  else (FR_OK, fs)

/-- `move_window`. -/
def moveWindow (sect : UInt32) (fs : Fatfs δ) : FRESULT × Fatfs δ :=
  if sect ≠ fs.winsect then
    let r := syncWindow dr g fs
    if r.1 = FR_OK then
      let d := dr.diskRead sect r.2.win r.2.drive
      if d.1 then (FR_OK, { r.2 with win := d.2.1, winsect := sect, drive := d.2.2 })
      else (FR_DISK_ERR, { r.2 with win := d.2.1, winsect := 0 - 1, drive := d.2.2 })
    else r
  else (FR_OK, fs)

/-- The volume, as it is seen through the window. -/
def Fatfs.view (fs : Fatfs δ) : UInt32 → Sector :=
  Function.update (dr.contents fs.drive) fs.winsect fs.win

/-- A sector that the window may show: there is one of this number, and it is not one of the
second FAT. -/
structure Geometry.Ordinary (s : UInt32) : Prop where
  exists_sector : s ≠ 0 - 1
  not_mirror : g.nFats = 2 → ¬s - (g.fatbase + g.fsize) < g.fsize

/-- What has not been changed in the window is on the drive. -/
structure Coherent (fs : Fatfs δ) : Prop where
  ordinary : fs.wflag = true → g.Ordinary fs.winsect
  clean : fs.wflag = false → g.Ordinary fs.winsect → fs.win = dr.contents fs.drive fs.winsect

/-- **The volume is seen as before.** -/
structure Keeps (fs fs' : Fatfs δ) : Prop where
  coherent : Coherent dr g fs → Coherent dr g fs'
  view : Coherent dr g fs → ∀ s, g.Ordinary s → fs'.view dr s = fs.view dr s
  lastClst : fs'.lastClst = fs.lastClst
  freeClst : fs'.freeClst = fs.freeClst
  fsiFlag : fs'.fsiFlag = fs.fsiFlag

variable {dr g} {fs fs' fs'' : Fatfs δ} {s sect : UInt32} {win : Sector}

theorem Keeps.refl (fs : Fatfs δ) : Keeps dr g fs fs := ⟨id, fun _ _ _ => rfl, rfl, rfl, rfl⟩

theorem Keeps.trans (h : Keeps dr g fs fs') (h' : Keeps dr g fs' fs'') : Keeps dr g fs fs'' where
  coherent hc := h'.coherent (h.coherent hc)
  view hc s hs := (h'.view (h.coherent hc) s hs).trans (h.view hc s hs)
  lastClst := h'.lastClst.trans h.lastClst
  freeClst := h'.freeClst.trans h.freeClst
  fsiFlag := h'.fsiFlag.trans h.fsiFlag

@[simp] theorem view_winsect (fs : Fatfs δ) : fs.view dr fs.winsect = fs.win :=
  Function.update_self _ _ _

theorem view_of_ne (fs : Fatfs δ) (h : s ≠ fs.winsect) : fs.view dr s = dr.contents fs.drive s :=
  Function.update_of_ne h _ _

/-- A sector of the first FAT is mirrored in the second one. -/
theorem not_ordinary_mirror (hfat : s - g.fatbase < g.fsize) (htwo : g.nFats = 2) :
    ¬g.Ordinary (s + g.fsize) := by
  intro h
  refine h.not_mirror htwo ?_
  rwa [show s + g.fsize - (g.fatbase + g.fsize) = s - g.fatbase by grind]

/-- Once the window is written back, the drive has what is seen. -/
theorem Coherent.contents (h : Coherent dr g fs) (hw : fs.wflag = false) (hs : g.Ordinary s) :
    dr.contents fs.drive s = fs.view dr s := by
  by_cases heq : s = fs.winsect
  · subst heq
    rw [view_winsect, h.clean hw hs]
  · rw [view_of_ne fs heq]

/-- Changing what is in the window. -/
theorem view_win (fs : Fatfs δ) (win : Sector) :
    ({ fs with win := win, wflag := true } : Fatfs δ).view dr =
      Function.update (fs.view dr) fs.winsect win := by
  unfold Fatfs.view
  rw [Function.update_idem]

theorem coherent_win (h : g.Ordinary fs.winsect) :
    Coherent dr g { fs with win := win, wflag := true } := ⟨fun _ => h, nofun⟩

/-- A write elsewhere than to the sectors that count. -/
theorem keeps_drive {d : δ} (hd : Coherent dr g fs → ∀ t, g.Ordinary t → t ≠ fs.winsect →
    dr.contents d t = dr.contents fs.drive t)
    (hwin : Coherent dr g fs → fs.wflag = false → g.Ordinary fs.winsect →
      dr.contents d fs.winsect = dr.contents fs.drive fs.winsect) :
    Keeps dr g fs { fs with drive := d } where
  coherent hc := ⟨hc.ordinary, fun hw hs => (hc.clean hw hs).trans (hwin hc hw hs).symm⟩
  view hc s hs := by
    by_cases heq : s = fs.winsect
    · subst heq
      simp [Fatfs.view]
    · rw [view_of_ne fs heq, view_of_ne { fs with drive := d } heq, hd hc s hs heq]
  lastClst := rfl
  freeClst := rfl
  fsiFlag := rfl

/-- The window has been written back. -/
theorem keeps_clean {d : δ} (hwin : dr.contents d fs.winsect = fs.win)
    (hd : ∀ t, t ≠ fs.winsect → dr.contents d t = dr.contents fs.drive t) :
    Keeps dr g fs { fs with wflag := false, drive := d } where
  coherent _ := ⟨nofun, fun _ _ => hwin.symm⟩
  view _ s _ := by
    by_cases heq : s = fs.winsect
    · subst heq
      simp [Fatfs.view]
    · rw [view_of_ne fs heq, view_of_ne { fs with wflag := false, drive := d } heq, hd s heq]
  lastClst := rfl
  freeClst := rfl
  fsiFlag := rfl

/-- What is asked of `sync_window`. -/
structure SyncSpec (dr : Drive δ) (g : Geometry) (fs : Fatfs δ) (r : FRESULT × Fatfs δ) :
    Prop where
  keeps : Keeps dr g fs r.2
  winsect : r.2.winsect = fs.winsect
  win : r.2.win = fs.win
  result : r.1 = FR_OK ∨ r.1 = FR_DISK_ERR
  clean : r.1 = FR_OK → r.2.wflag = false
  reliable : dr.Reliable → r.1 = FR_OK

/-- **`sync_window` writes back what is in the window.** -/
theorem syncWindow_spec (dr : Drive δ) (g : Geometry) (fs : Fatfs δ) :
    SyncSpec dr g fs (syncWindow dr g fs) := by
  unfold syncWindow
  by_cases hflag : fs.wflag = true
  case neg =>
      rw [if_neg hflag]
      exact ⟨Keeps.refl fs, rfl, rfl, Or.inl rfl, fun _ => eq_false_of_ne_true hflag,
        fun _ => rfl⟩
  case pos =>
      rw [if_pos hflag]
      dsimp only
      cases hw : (dr.diskWrite fs.winsect fs.win fs.drive).1 with
      | false =>
          rw [if_neg (by simp)]
          refine ⟨keeps_drive (fun _ t _ hne => dr.contents_diskWrite hne) ?_, rfl, rfl,
            Or.inr rfl, nofun, fun hr => ?_⟩
          · intro _ hclean
            rw [hflag] at hclean
            cases hclean
          · rw [hr.diskWrite] at hw
            cases hw
      | true =>
          rw [if_pos rfl]
          have hback : Keeps dr g fs { fs with
              wflag := false, drive := (dr.diskWrite fs.winsect fs.win fs.drive).2 } :=
            keeps_clean (dr.diskWrite_ok hw) fun t hne => dr.contents_diskWrite hne
          split
          · rename_i hfat
            -- the mirror is no sector that counts
            have hmirror := not_ordinary_mirror hfat.1 hfat.2
            refine ⟨hback.trans (keeps_drive (fun _ t ht _ => ?_) fun _ _ ht => ?_), rfl, rfl,
              Or.inl rfl, fun _ => rfl, fun _ => rfl⟩
            · exact dr.contents_diskWrite fun heq => hmirror (heq ▸ ht)
            · exact dr.contents_diskWrite fun heq => hmirror (heq ▸ ht)
          · exact ⟨hback, rfl, rfl, Or.inl rfl, fun _ => rfl, fun _ => rfl⟩

/-- The window gets another sector. -/
theorem keeps_window {d : δ} (hflag : fs.wflag = false)
    (hd : dr.contents d = dr.contents fs.drive)
    (hwin : g.Ordinary sect → win = dr.contents fs.drive sect) :
    Keeps dr g fs { fs with win := win, winsect := sect, drive := d } where
  coherent hc := by
    refine ⟨fun hdirty => ?_, fun _ hs => ?_⟩
    · rw [hflag] at hdirty
      cases hdirty
    · exact (hwin hs).trans (by rw [hd])
  view hc s hs := by
    rw [← hc.contents hflag hs]
    by_cases heq : s = sect
    · subst heq
      simp [Fatfs.view, hwin hs]
    · rw [view_of_ne { fs with win := win, winsect := sect, drive := d } heq, hd]
  lastClst := rfl
  freeClst := rfl
  fsiFlag := rfl

/-- What is asked of `move_window`. -/
structure MoveSpec (dr : Drive δ) (g : Geometry) (sect : UInt32) (fs : Fatfs δ)
    (r : FRESULT × Fatfs δ) : Prop where
  keeps : Keeps dr g fs r.2
  winsect : r.1 = FR_OK → r.2.winsect = sect
  result : r.1 = FR_OK ∨ r.1 = FR_DISK_ERR
  reliable : dr.Reliable → r.1 = FR_OK

/-- What the window shows. -/
theorem MoveSpec.win_eq {r : FRESULT × Fatfs δ} (h : MoveSpec dr g sect fs r)
    (hc : Coherent dr g fs) (hs : g.Ordinary sect) (hok : r.1 = FR_OK) :
    r.2.win = fs.view dr sect := by
  rw [← h.keeps.view hc sect hs, ← h.winsect hok, view_winsect]

/-- The window is moved. -/
theorem moveWindow_moves (dr : Drive δ) (g : Geometry) (sect : UInt32) (fs : Fatfs δ) :
    MoveSpec dr g sect fs (moveWindow dr g sect fs) := by
  unfold moveWindow
  by_cases hsect : sect = fs.winsect
  · rw [if_neg (by simpa using hsect)]
    exact ⟨Keeps.refl fs, fun _ => hsect.symm, Or.inl rfl, fun _ => rfl⟩
  · rw [if_pos hsect]
    have hsync := syncWindow_spec dr g fs
    revert hsync
    generalize syncWindow dr g fs = r
    intro hsync
    dsimp only
    by_cases hok : r.1 = FR_OK
    · rw [if_pos hok]
      have hread := dr.contents_diskRead sect r.2.win r.2.drive
      cases hd : (dr.diskRead sect r.2.win r.2.drive).1 with
      | true =>
          rw [if_pos rfl]
          refine ⟨hsync.keeps.trans (keeps_window (hsync.clean hok) hread fun _ => ?_),
            fun _ => rfl, Or.inl rfl, fun _ => rfl⟩
          exact dr.diskRead_ok hd
      | false =>
          rw [if_neg (by simp)]
          -- there is no sector of this number
          refine ⟨hsync.keeps.trans (keeps_window (hsync.clean hok) hread fun hs => ?_), nofun,
            Or.inr rfl, fun hr => ?_⟩
          · exact absurd rfl hs.exists_sector
          · rw [hr.diskRead] at hd
            cases hd
    · rw [if_neg hok]
      exact ⟨hsync.keeps, fun h => absurd h hok, hsync.result, fun hr => hsync.reliable hr⟩

/-- **`move_window` does not change what is seen of the volume.** -/
theorem moveWindow_spec (dr : Drive δ) (g : Geometry) (sect : UInt32) (fs : Fatfs δ) :
    MoveSpec dr g sect fs (moveWindow dr g sect fs) :=
  moveWindow_moves dr g sect fs

end

/-! ### An empty volume -/

/-- A small volume with two FATs of 12 bits, each in one sector. -/
def smallGeometry : Geometry where
  fsType := FS_FAT12
  nFats := 2
  csize := 4
  nFatent := 100
  fsize := 1
  volbase := 0
  fatbase := 1
  database := 4
  csize_pow := ⟨2, by decide, rfl⟩
  clusters := by decide
  fat_fits := by decide
  fats_fit := by decide
  data_fits := by decide
  fats := Or.inr rfl

/-- A volume with two FATs of 32 bits, and what is known of the free clusters in front of them. -/
def wideGeometry : Geometry where
  fsType := FS_FAT32
  nFats := 2
  csize := 8
  nFatent := 65600
  fsize := 513
  volbase := 0
  fatbase := 32
  database := 1058
  csize_pow := ⟨3, by decide, rfl⟩
  clusters := by decide
  fat_fits := by decide
  fats_fit := by decide
  data_fits := by decide
  fats := Or.inr rfl

/-- A volume in memory that has just been mounted, with all bytes zero. -/
def emptyFatfs : Fatfs (UInt32 → Sector) where
  winsect := 0
  win := fun _ => 0
  wflag := false
  lastClst := 0xFFFFFFFF
  freeClst := 0xFFFFFFFF
  fsiFlag := 0x80
  drive := fun _ _ => 0

theorem view_emptyFatfs (s : UInt32) (i : Fin 512) : emptyFatfs.view ramDrive s i = 0 := by
  by_cases hs : s = emptyFatfs.winsect
  · subst hs
    rw [view_winsect]
    rfl
  · rw [view_of_ne _ hs]
    rfl

theorem emptyFatfs_coherent (g : Geometry) : Coherent ramDrive g emptyFatfs :=
  ⟨nofun, fun _ _ => rfl⟩

end Pico.Fat
