/-
**The drivers of FatFs and littlefs.**

`library/VFS/VFS_FATFS.c` and `library/VFS/VFS_LFS.c` put the two file systems behind the tables of
the virtual file system.  The file systems themselves are parameters: structures of the functions
that the drivers call, over a state `φ` of everything the functions work on.  A driver sees their
results, and translates the error codes to those of newlib.

Main definitions:

* `Pico.Vfs.Env` — the environment of the drivers: `errno`, and the state of the file systems;
* `Pico.Vfs.FRESULT`, `Pico.Vfs.ffsToerror`, `Pico.Vfs.fatfsOper` — the driver of FatFs;
* `Pico.Vfs.LfsError`, `Pico.Vfs.lfsToerror`, `Pico.Vfs.lfsOper` — the driver of littlefs;
* `Pico.Vfs.LfsError.newlib` — the error code of newlib for each error of littlefs.

Main results:

* `Pico.Vfs.ffsToerror_neg` — every error of FatFs is translated to a negative code;
* `Pico.Vfs.lfsToerror_code_iff` — every error of littlefs is translated to the code of its
  meaning, but for two that are not in the table and have other numbers in newlib.
-/

import Mathlib.Data.Int.Notation
import WizioPico.Vfs

set_option relaxedAutoImplicit false
set_option autoImplicit false

namespace Pico.Vfs

variable {φ : Type*}

/-- What the drivers work on: `errno`, and the state of the file systems. -/
structure Env (φ : Type*) where
  errno : ℤ
  lib : φ

/-- A result of a file system, with the state it leaves. -/
def Env.after {α : Type*} (env : Env φ) (r : α × φ) : α × Env φ := (r.1, { env with lib := r.2 })

/-! ### FatFs -/

/-- `FRESULT`. -/
inductive FRESULT where
  | FR_OK | FR_DISK_ERR | FR_INT_ERR | FR_NOT_READY | FR_NO_FILE | FR_NO_PATH | FR_INVALID_NAME
  | FR_DENIED | FR_EXIST | FR_INVALID_OBJECT | FR_WRITE_PROTECTED | FR_INVALID_DRIVE
  | FR_NOT_ENABLED | FR_NO_FILESYSTEM | FR_MKFS_ABORTED | FR_TIMEOUT | FR_LOCKED
  | FR_NOT_ENOUGH_CORE | FR_TOO_MANY_OPEN_FILES | FR_INVALID_PARAMETER
  deriving DecidableEq

open FRESULT

/-- `ffs_toerror`.  Every code of the enumeration has a case. -/
def ffsToerror : FRESULT → ℤ
  | FR_DISK_ERR => - EIO
  | FR_INT_ERR => - EIO
  | FR_NOT_READY => -ENODEV
  | FR_NO_FILE => -ENOENT
  | FR_NO_PATH => -ENOENT
  | FR_INVALID_NAME => -EINVAL
  | FR_DENIED => -EACCES
  | FR_EXIST => -EEXIST
  | FR_INVALID_OBJECT => -EBADF
  | FR_WRITE_PROTECTED => -EACCES
  | FR_INVALID_DRIVE => - ENXIO
  | FR_NOT_ENABLED => -ENODEV
  | FR_NO_FILESYSTEM => -ENODEV
  | FR_MKFS_ABORTED => -EINTR
  | FR_TIMEOUT => -ETIMEDOUT
  | FR_LOCKED => -EACCES
  | FR_NOT_ENOUGH_CORE => -ENOMEM
  | FR_TOO_MANY_OPEN_FILES => -ENFILE
  | FR_INVALID_PARAMETER => -EINVAL
  | FR_OK => 0

/-- Errors are translated to negative codes, none of them `-1`, and nothing else is. -/
theorem ffsToerror_neg {fr : FRESULT} (h : fr ≠ FR_OK) :
    -2 ^ 31 ≤ ffsToerror fr ∧ ffsToerror fr < -1 := by
  cases fr <;> first | exact absurd rfl h | decide

theorem ffsToerror_eq_zero_iff (fr : FRESULT) : ffsToerror fr = 0 ↔ fr = FR_OK := by
  cases fr <;> decide

/-- The flags of `f_open`. -/
def FA_READ : UInt8 := 0x01
def FA_WRITE : UInt8 := 0x02
def FA_OPEN_EXISTING : UInt8 := 0x00
def FA_CREATE_NEW : UInt8 := 0x04
def FA_CREATE_ALWAYS : UInt8 := 0x08
def FA_OPEN_ALWAYS : UInt8 := 0x10

/-- `ffs_tomode`. -/
def ffsTomode (m : UInt32) : UInt8 :=
  let accMode := m &&& O_ACCMODE
  let access :=
    if accMode = O_RDONLY then FA_READ
    else if accMode = O_WRONLY then FA_WRITE
    else if accMode = O_RDWR then FA_READ ||| FA_WRITE
    else 0
  let create :=
    if m &&& O_CREAT ≠ 0 ∧ m &&& O_EXCL ≠ 0 then FA_CREATE_NEW
    else if m &&& O_CREAT ≠ 0 ∧ m &&& O_TRUNC ≠ 0 then FA_CREATE_ALWAYS
    else if m &&& O_APPEND ≠ 0 then FA_OPEN_ALWAYS
    else FA_OPEN_EXISTING
  access ||| create

/-- FatFs, and the allocation of its file objects.  `fRead` and `fWrite` return the count of bytes
along with their result; positions and sizes are of 32 bits, as `FF_FS_EXFAT` is 0. -/
structure FatFs (φ : Type*) where
  calloc : φ → ℕ × φ
  free : ℕ → φ → φ
  fMount : VfsT → φ → FRESULT × φ
  fUnmount : VfsT → φ → FRESULT × φ
  fOpen : ℕ → CString → UInt8 → φ → FRESULT × φ
  fClose : ℕ → φ → FRESULT × φ
  fWrite : ℕ → ℕ → UInt32 → φ → (FRESULT × UInt32) × φ
  fRead : ℕ → ℕ → UInt32 → φ → (FRESULT × UInt32) × φ
  fLseek : ℕ → UInt32 → φ → FRESULT × φ
  fTell : ℕ → φ → UInt32
  fSize : ℕ → φ → UInt32

/-- `s_fatfs_open`. -/
def sFatfsOpen (lib : FatFs φ) (_Fs : VfsT) (path : CString) (flags _mode : UInt32) (env : Env φ) :
    ℕ × Env φ :=
  let (file, l) := lib.calloc env.lib
  if file ≠ 0 then
    let (fr, l) := lib.fOpen file path (ffsTomode flags) l
    if ffsToerror fr ≠ 0 then (0, ⟨ffsToerror fr, lib.free file l⟩)
    else (file, ⟨ffsToerror fr, l⟩)
  else (0, ⟨ENOMEM, l⟩)

/-- It fails if there is no memory for the file, or FatFs fails. -/
theorem sFatfsOpen_fst_eq_zero_iff (lib : FatFs φ) (Fs : VfsT) (path : CString)
    (flags mode : UInt32) (env : Env φ) :
    (sFatfsOpen lib Fs path flags mode env).1 = 0 ↔ (lib.calloc env.lib).1 = 0 ∨
      (lib.fOpen (lib.calloc env.lib).1 path (ffsTomode flags) (lib.calloc env.lib).2).1 ≠ FR_OK := by
  simp only [sFatfsOpen, ne_eq, ffsToerror_eq_zero_iff]
  split
  · rename_i hfile
    split
    · rename_i hfr
      exact ⟨fun _ => Or.inr hfr, fun _ => rfl⟩
    · rename_i hfr
      exact ⟨fun h => Or.inl h, fun h => h.resolve_right fun h => h (not_not.1 hfr)⟩
  · rename_i hfile
    exact ⟨fun _ => Or.inl (not_not.1 hfile), fun _ => rfl⟩

/-- `s_fatfs_close`. -/
def sFatfsClose (lib : FatFs φ) (File : VfsFile) (_Fs : VfsT) (env : Env φ) : ℤ × Env φ :=
  let (fr, l) := lib.fClose File.file env.lib
  (ffsToerror fr, { env with lib := lib.free File.file l })

/-- What `s_fatfs_write` and `s_fatfs_read` make of a result and a count. -/
def fatfsCount (fr : FRESULT) (n : UInt32) : UInt32 := if n ≠ 0 then n else toSize (ffsToerror fr)

/-- `s_fatfs_write`. -/
def sFatfsWrite (lib : FatFs φ) (File : VfsFile) (_Fs : VfsT) (buf : ℕ) (size : UInt32)
    (env : Env φ) : UInt32 × Env φ :=
  let ((fr, wr), l) := lib.fWrite File.file buf size env.lib
  (fatfsCount fr wr, { env with lib := l })

/-- `s_fatfs_read`. -/
def sFatfsRead (lib : FatFs φ) (File : VfsFile) (_Fs : VfsT) (buf : ℕ) (size : UInt32)
    (env : Env φ) : UInt32 × Env φ :=
  let ((fr, rd), l) := lib.fRead File.file buf size env.lib
  (fatfsCount fr rd, { env with lib := l })

def SEEK_SET : ℤ := 0
def SEEK_CUR : ℤ := 1
def SEEK_END : ℤ := 2

/-- `new_pos` of `s_fatfs_seek`, an `off_t` of 32 bits. -/
def fatfsNewPos (lib : FatFs φ) (file : ℕ) (offset mode : ℤ) (l : φ) : Option ℤ :=
  if mode = SEEK_SET then some offset
  else if mode = SEEK_CUR then some (toInt (toSize (toInt (lib.fTell file l) + offset)))
  else if mode = SEEK_END then some (toInt (toSize (toInt (lib.fSize file l) + offset)))
  else none

/-- `s_fatfs_seek`. -/
def sFatfsSeek (lib : FatFs φ) (File : VfsFile) (_Fs : VfsT) (offset mode : ℤ) (env : Env φ) :
    ℤ × Env φ :=
  match fatfsNewPos lib File.file offset mode env.lib with
  | none => (-1, env)
  | some newPos =>
      let (fr, l) := lib.fLseek File.file (toSize newPos) env.lib
      (if fr ≠ FR_OK then ffsToerror fr else newPos, { env with lib := l })

/-- `fatfs_oper`. -/
def fatfsOper (lib : FatFs φ) : VfsOper (Env φ) where
  init := none
  mount := some fun Fs env => let r := env.after (lib.fMount Fs env.lib); (ffsToerror r.1, r.2)
  unmount := some fun Fs env => let r := env.after (lib.fUnmount Fs env.lib); (ffsToerror r.1, r.2)
  «open» := some (sFatfsOpen lib)
  close := some (sFatfsClose lib)
  write := some (sFatfsWrite lib)
  read := some (sFatfsRead lib)
  seek := some (sFatfsSeek lib)

/-! ### littlefs -/

/-- The errors of `enum lfs_error`. -/
inductive LfsError where
  | io | corrupt | noent | exist | notdir | isdir | notempty | badf | fbig | inval | nospc | nomem
  | noattr | nametoolong
  deriving DecidableEq

namespace LfsError

/-- Their numbers. -/
def code : LfsError → ℤ
  | io => -5
  | corrupt => -84
  | noent => -2
  | exist => -17
  | notdir => -20
  | isdir => -21
  | notempty => -39
  | badf => -9
  | fbig => -27
  | inval => -22
  | nospc => -28
  | nomem => -12
  | noattr => -61
  | nametoolong => -36

/-- All of them. -/
def all : List LfsError :=
  [io, corrupt, noent, exist, notdir, isdir, notempty, badf, fbig, inval, nospc, nomem, noattr,
    nametoolong]

/-- The error codes of newlib with the same meaning: the ones in the table of `lfs_toerror`, and for
the errors without an entry those of the same name. -/
def newlib : LfsError → ℤ
  | io => EIO
  | corrupt => EILSEQ
  | noent => ENOENT
  | exist => EEXIST
  | notdir => ENOTDIR
  | isdir => EISDIR
  | notempty => ENOTEMPTY
  | badf => EBADF
  | fbig => EFBIG
  | inval => EINVAL
  | nospc => ENOSPC
  | nomem => ENOMEM
  | noattr => ENODATA
  | nametoolong => ENAMETOOLONG

/-- None of them is the code 1 that a failed `vfs_open` leaves. -/
theorem one_lt_newlib (e : LfsError) : 1 < e.newlib := by cases e <;> decide

theorem code_neg (e : LfsError) : e.code < 0 := by cases e <;> decide

theorem code_inj {e e' : LfsError} : e.code = e'.code ↔ e = e' := by
  cases e <;> cases e' <;> decide

end LfsError

/-- `lfs_toerror`. -/
def lfsToerror (err : ℤ) : ℤ :=
  if err = 0 then 0
  else if err = LfsError.io.code then - EIO
  else if err = LfsError.noent.code then -ENOENT
  else if err = LfsError.exist.code then -EEXIST
  else if err = LfsError.notdir.code then -ENOTDIR
  else if err = LfsError.isdir.code then -EISDIR
  else if err = LfsError.inval.code then -EINVAL
  else if err = LfsError.nospc.code then -ENOSPC
  else if err = LfsError.nomem.code then -ENOMEM
  else if err = LfsError.corrupt.code then -EILSEQ
  else err

/-- Results that are no errors are passed on. -/
theorem lfsToerror_of_nonneg {r : ℤ} (h : 0 ≤ r) : lfsToerror r = r := by
  rcases eq_or_ne r 0 with rfl | hr
  · rfl
  · have hne : ∀ e : LfsError, r ≠ e.code := by
      intro e
      have : e.code < 0 := by cases e <;> decide
      omega
    simp only [lfsToerror, hr, hne, if_false]

private theorem ite_code {err a b : ℤ} {c : Prop} [Decidable c] (h : err ≠ 0)
    (ha : -138 ≤ a ∧ a < 0) (hb : err ≠ 0 ∧ (-138 ≤ b ∧ b < 0) ∨ b = err) :
    err ≠ 0 ∧ (-138 ≤ (if c then a else b) ∧ (if c then a else b) < 0) ∨
      (if c then a else b) = err := by
  split
  · exact Or.inl ⟨h, ha⟩
  · exact hb

/-- An error is translated to a code of newlib, or is passed on. -/
theorem lfsToerror_cases (err : ℤ) :
    err ≠ 0 ∧ (-138 ≤ lfsToerror err ∧ lfsToerror err < 0) ∨ lfsToerror err = err := by
  rcases eq_or_ne err 0 with rfl | h
  · exact Or.inr rfl
  · rw [lfsToerror, if_neg h]
    refine ite_code h (by decide) (ite_code h (by decide) (ite_code h (by decide) ?_))
    refine ite_code h (by decide) (ite_code h (by decide) (ite_code h (by decide) ?_))
    refine ite_code h (by decide) (ite_code h (by decide) (ite_code h (by decide) ?_))
    exact Or.inr rfl

theorem lfsToerror_eq_zero_iff (err : ℤ) : lfsToerror err = 0 ↔ err = 0 := by
  rcases lfsToerror_cases err with ⟨h, h'⟩ | h <;> omega

/-- **The errors that are translated to the code of their meaning.** -/
theorem lfsToerror_code_iff (e : LfsError) :
    lfsToerror e.code = -e.newlib ↔ e ≠ .notempty ∧ e ≠ .nametoolong := by
  cases e <;> decide

/-- Every error is translated to a negative code. -/
theorem lfsToerror_code_neg (e : LfsError) : lfsToerror e.code < -1 := by cases e <;> decide

def LFS_O_RDONLY : UInt32 := 1
def LFS_O_WRONLY : UInt32 := 2
def LFS_O_RDWR : UInt32 := 3
def LFS_O_CREAT : UInt32 := 0x0100
def LFS_O_EXCL : UInt32 := 0x0200
def LFS_O_TRUNC : UInt32 := 0x0400
def LFS_O_APPEND : UInt32 := 0x0800

/-- `lfs_tomode`. -/
def lfsTomode (m : UInt32) : UInt32 :=
  (if m &&& 3 = O_RDONLY then LFS_O_RDONLY else 0) |||
  (if m &&& 3 = O_WRONLY then LFS_O_WRONLY else 0) |||
  (if m &&& 3 = O_RDWR then LFS_O_RDWR else 0) |||
  (if m &&& O_CREAT ≠ 0 then LFS_O_CREAT else 0) |||
  (if m &&& O_EXCL ≠ 0 then LFS_O_EXCL else 0) |||
  (if m &&& O_TRUNC ≠ 0 then LFS_O_TRUNC else 0) |||
  (if m &&& O_APPEND ≠ 0 then LFS_O_APPEND else 0)

/-- littlefs, and the allocation of its file objects.  The first argument of its functions is the
context that names the `lfs_t`. -/
structure LittleFs (φ : Type*) where
  calloc : φ → ℕ × φ
  free : ℕ → φ → φ
  lfsMount : ℕ → φ → Int32 × φ
  lfsFormat : ℕ → φ → Int32 × φ
  lfsFileOpen : ℕ → ℕ → CString → UInt32 → φ → Int32 × φ
  lfsFileClose : ℕ → ℕ → φ → Int32 × φ
  lfsFileWrite : ℕ → ℕ → ℕ → UInt32 → φ → Int32 × φ
  lfsFileRead : ℕ → ℕ → ℕ → UInt32 → φ → Int32 × φ
  lfsFileSeek : ℕ → ℕ → ℤ → ℤ → φ → Int32 × φ

/-- `s_lfs_mount`: a device that cannot be mounted is formatted, and mounted then. -/
def sLfsMount (lib : LittleFs φ) (Fs : VfsT) (env : Env φ) : ℤ × Env φ :=
  let (err, l) := lib.lfsMount Fs.ctx env.lib
  let (err, l) :=
    if err ≠ 0 then
      let (err, l) := lib.lfsFormat Fs.ctx l
      if err = 0 then lib.lfsMount Fs.ctx l else (err, l)
    else (err, l)
  (lfsToerror err.toInt, { env with lib := l })

/-- `s_lfs_open`: the name of the drive and the slash behind it are cut off. -/
def sLfsOpen (lib : LittleFs φ) (Fs : VfsT) (path : CString) (flags _mode : UInt32) (env : Env φ) :
    ℕ × Env φ :=
  let (file, l) := lib.calloc env.lib
  if file ≠ 0 then
    let (err, l) := lib.lfsFileOpen Fs.ctx file (path.drop 3) (lfsTomode flags) l
    if lfsToerror err.toInt ≠ 0 then (0, ⟨lfsToerror err.toInt, lib.free file l⟩)
    else (file, ⟨0, l⟩)
  else (0, ⟨ENOMEM, l⟩)

/-- It fails if there is no memory for the file, or littlefs does not answer zero. -/
theorem sLfsOpen_fst_eq_zero_iff (lib : LittleFs φ) (Fs : VfsT) (path : CString)
    (flags mode : UInt32) (env : Env φ) :
    (sLfsOpen lib Fs path flags mode env).1 = 0 ↔ (lib.calloc env.lib).1 = 0 ∨
      (lib.lfsFileOpen Fs.ctx (lib.calloc env.lib).1 (path.drop 3) (lfsTomode flags)
        (lib.calloc env.lib).2).1 ≠ 0 := by
  have hzero : ∀ r : Int32, r.toInt = 0 ↔ r = 0 := fun r => Int32.toInt_inj (y := 0)
  simp only [sLfsOpen, ne_eq, lfsToerror_eq_zero_iff, hzero]
  split
  · rename_i hfile
    split
    · rename_i hr
      exact ⟨fun _ => Or.inr hr, fun _ => rfl⟩
    · rename_i hr
      exact ⟨fun h => Or.inl h, fun h => h.resolve_right fun h => h (not_not.1 hr)⟩
  · rename_i hfile
    exact ⟨fun _ => Or.inl (not_not.1 hfile), fun _ => rfl⟩

/-- `s_lfs_close`. -/
def sLfsClose (lib : LittleFs φ) (File : VfsFile) (Fs : VfsT) (env : Env φ) : ℤ × Env φ :=
  let (err, l) := lib.lfsFileClose Fs.ctx File.file env.lib
  (lfsToerror err.toInt, { env with lib := lib.free File.file l })

/-- `s_lfs_write`. -/
def sLfsWrite (lib : LittleFs φ) (File : VfsFile) (Fs : VfsT) (buf : ℕ) (size : UInt32)
    (env : Env φ) : UInt32 × Env φ :=
  let (err, l) := lib.lfsFileWrite Fs.ctx File.file buf size env.lib
  (toSize (lfsToerror err.toInt), { env with lib := l })

/-- `s_lfs_read`. -/
def sLfsRead (lib : LittleFs φ) (File : VfsFile) (Fs : VfsT) (buf : ℕ) (size : UInt32)
    (env : Env φ) : UInt32 × Env φ :=
  let (err, l) := lib.lfsFileRead Fs.ctx File.file buf size env.lib
  (toSize (lfsToerror err.toInt), { env with lib := l })

/-- `s_lfs_seek`. -/
def sLfsSeek (lib : LittleFs φ) (File : VfsFile) (Fs : VfsT) (pos whence : ℤ) (env : Env φ) :
    ℤ × Env φ :=
  let (err, l) := lib.lfsFileSeek Fs.ctx File.file pos whence env.lib
  (lfsToerror err.toInt, { env with lib := l })

/-- `lfs_oper`. -/
def lfsOper (lib : LittleFs φ) : VfsOper (Env φ) where
  init := none
  mount := some (sLfsMount lib)
  unmount := some fun _ env => (0, env)
  «open» := some (sLfsOpen lib)
  close := some (sLfsClose lib)
  write := some (sLfsWrite lib)
  read := some (sLfsRead lib)
  seek := some (sLfsSeek lib)

end Pico.Vfs
