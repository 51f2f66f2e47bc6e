/-
**Opening files on both file systems.**

`ffs_tomode` of `library/VFS/VFS_FATFS.c` and `lfs_tomode` of `library/VFS/VFS_LFS.c` translate the
flags of `open` to those of FatFs and of littlefs.  What opening a file then does to it, and where
the writes that follow go, is compared with what POSIX says.

* `Pico.Vfs.word` — the word of flags;
* `Pico.Vfs.Driver`, `Pico.Vfs.fatDriver`, `Pico.Vfs.lfsDriver` — the drivers, with what there is in
  their files;
* `Pico.Vfs.OpensTo`, `Pico.Vfs.AppendsAfter` — what opening a file comes to, and where the writes
  that follow go;
* `Pico.Vfs.Creation`, `Pico.Vfs.fatOpened`, `Pico.Vfs.lfsOpened` — what the flags come to on the
  two file systems;
* `Pico.Vfs.fat_opensTo`, `Pico.Vfs.lfs_opensTo` — **the drivers open files that way**;
* `Pico.Vfs.Agrees`, `Pico.Vfs.open_agrees_iff` — **when both drivers open a file as POSIX has it**.
-/

import Mathlib.Logic.Function.Basic
import WizioPico.FatFile
import WizioPico.LfsFile

set_option relaxedAutoImplicit false
set_option autoImplicit false

namespace Pico.Vfs

open Posix FatFile FRESULT

variable {φ : Type*}

/-! ### What is compared -/

/-- The word of an access mode. -/
def accessWord : Access → UInt32
  | .rdonly => O_RDONLY
  | .wronly => O_WRONLY
  | .rdwr => O_RDWR

/-- The word of flags that a file is opened with. -/
def word (f : OpenFlags) : UInt32 :=
  accessWord f.access ||| (if f.creat then O_CREAT else 0) ||| (if f.excl then O_EXCL else 0) |||
  (if f.trunc then O_TRUNC else 0) ||| (if f.append then O_APPEND else 0)

/-- A driver, with what can be seen from outside: the name on the drive that a path is for, the
bytes of the files, those of an open file, and a memory that bytes can be written from. -/
structure Driver (φ : Type*) where
  openFile : VfsT → CString → UInt32 → UInt32 → Env φ → ℕ × Env φ
  close : VfsFile → VfsT → Env φ → ℤ × Env φ
  write : VfsFile → VfsT → ℕ → UInt32 → Env φ → UInt32 × Env φ
  read : VfsFile → VfsT → ℕ → UInt32 → Env φ → UInt32 × Env φ
  seek : VfsFile → VfsT → ℤ → ℤ → Env φ → ℤ × Env φ
  name : CString → CString
  files : φ → CString → Option (List UInt8)
  data : φ → ℕ → Option (List UInt8)
  load : List UInt8 → φ → φ

/-- **What opening a file comes to**: the call fails and leaves the files as they were, or the file
has these bytes from then on, and keeps them when it is closed. -/
def OpensTo (D : Driver φ) (Fs : VfsT) (path : CString) (flags mode : UInt32) (env : Env φ) :
    Option (List UInt8) → Prop
  | none =>
    (D.openFile Fs path flags mode env).1 = 0 ∧
      D.files (D.openFile Fs path flags mode env).2.lib = D.files env.lib
  | some bytes =>
    let r := D.openFile Fs path flags mode env
    r.1 ≠ 0 ∧ D.data r.2.lib r.1 = some bytes ∧
      ∀ File : VfsFile, File.file = r.1 → D.files (D.close File Fs r.2).2.lib =
        Function.update (D.files env.lib) (D.name path) (some bytes)

/-- It comes to one thing. -/
theorem OpensTo.unique {D : Driver φ} {Fs : VfsT} {path : CString} {flags mode : UInt32}
    {env : Env φ} {p q : Option (List UInt8)} (hp : OpensTo D Fs path flags mode env p)
    (hq : OpensTo D Fs path flags mode env q) : p = q := by
  cases p with
  | none =>
      cases q with
      | none => rfl
      | some bytes => exact absurd hp.1 hq.1
  | some bytes =>
      cases q with
      | none => exact absurd hq.1 hp.1
      | some bytes' => exact hp.2.1.symm.trans hq.2.1

/-- A call on an open file. -/
inductive FileCall where
  | write (bytes : List UInt8)
  | read (n : UInt32)
  | seek (offset whence : ℤ)

/-- Bytes are written from the beginning of the memory. -/
def Driver.writeBytes (D : Driver φ) (File : VfsFile) (Fs : VfsT) (bytes : List UInt8)
    (env : Env φ) : Env φ :=
  (D.write File Fs 0 (UInt32.ofNat bytes.length) { env with lib := D.load bytes env.lib }).2

/-- A call on an open file is made. -/
def Driver.call (D : Driver φ) (File : VfsFile) (Fs : VfsT) (env : Env φ) : FileCall → Env φ
  | .write bytes => D.writeBytes File Fs bytes env
  | .read n => (D.read File Fs 0 n env).2
  | .seek offset whence => (D.seek File Fs offset whence env).2

/-- **Writes land at the end of a file that is opened**, whatever is done with it before. -/
def AppendsAfter (D : Driver φ) (Fs : VfsT) (path : CString) (flags mode : UInt32) (env : Env φ) :
    Prop :=
  let r := D.openFile Fs path flags mode env
  r.1 ≠ 0 → ∀ (File : VfsFile) (calls : List FileCall) (bytes data data' : List UInt8),
    File.file = r.1 →
    D.data (calls.foldl (D.call File Fs) r.2).lib r.1 = some data →
    D.data (D.writeBytes File Fs bytes (calls.foldl (D.call File Fs) r.2)).lib r.1 = some data' →
    Appends data bytes data'

/-- **A driver opens a file as POSIX has it**, and appends to it if that is asked for. -/
def OpensAsPosix (D : Driver φ) (Fs : VfsT) (path : CString) (f : OpenFlags) (mode : UInt32)
    (env : Env φ) : Prop :=
  OpensTo D Fs path (word f) mode env (opened f (D.files env.lib (D.name path))) ∧
    (f.append = true → f.access.writes = true → AppendsAfter D Fs path (word f) mode env)

/-! ### FatFs -/

/-- The flags of `f_open` that `ffs_tomode` chooses from. -/
inductive Creation where
  | new
  | always
  | openAlways
  | existing

namespace Creation

/-- Their bits. -/
def bits : Creation → UInt8
  | new => FA_CREATE_NEW
  | always => FA_CREATE_ALWAYS
  | openAlways => FA_OPEN_ALWAYS
  | existing => FA_OPEN_EXISTING

/-- What they do to a file. -/
def opened : Creation → Option (List UInt8) → Option (List UInt8)
  | new, none => some []
  | new, some _ => none
  | always, _ => some []
  | openAlways, none => some []
  | openAlways, some bytes => some bytes
  | existing, prior => prior

end Creation

/-- The choice. -/
def creation (f : OpenFlags) : Creation :=
  if f.creat ∧ f.excl then .new
  else if f.creat ∧ f.trunc then .always
  else if f.append then .openAlways
  else .existing

/-- The bits of an access mode. -/
def accessBits : Access → UInt8
  | .rdonly => FA_READ
  | .wronly => FA_WRITE
  | .rdwr => FA_READ ||| FA_WRITE

theorem ffsTomode_word (f : OpenFlags) :
    ffsTomode (word f) = accessBits f.access ||| (creation f).bits := by
  obtain ⟨access, creat, excl, trunc, append⟩ := f
  cases access <;> cases creat <;> cases excl <;> cases trunc <;> cases append <;> rfl

/-- A file is opened for certain bytes, by a call of `f_open`. -/
def FilOpened (d : FatFile.Drive) (fp : ℕ) (path : CString) (a : Access) (bytes : List UInt8)
    (r : FRESULT × FatFile.Drive) : Prop :=
  ∃ (flag : UInt8) (d' : FatFile.Drive), (flag &&& FA_WRITE = 0 ↔ a.writes = false) ∧
    d'.files = Function.update d.files path (some bytes) ∧
    r = (FR_OK, d'.setFil fp (some ⟨path, flag, 0, bytes⟩))

/-- `f_open` looks at all of the bits. -/
theorem mode_mask (a : Access) (c : Creation) :
    (accessBits a ||| c.bits) &&& (FA_READ ||| FA_WRITE ||| FA_CREATE_ALWAYS ||| FA_CREATE_NEW |||
      FA_OPEN_ALWAYS ||| FA_OPEN_APPEND) = accessBits a ||| c.bits := by
  cases a <;> cases c <;> rfl

theorem mode_creates {c : Creation} (hc : c.bits ≠ 0) (a : Access) :
    (accessBits a ||| c.bits) &&& (FA_CREATE_ALWAYS ||| FA_OPEN_ALWAYS ||| FA_CREATE_NEW) ≠ 0 := by
  cases c with
  | existing => exact absurd rfl hc
  | new | always | openAlways => cases a <;> decide

/-- A path that is absent is created. -/
theorem fOpen_absent {d : FatFile.Drive} {path : CString} (h : d.entries path = none) (fp : ℕ)
    (a : Access) {c : Creation} (hc : c.bits ≠ 0) :
    FilOpened d fp path a [] (fOpen fp path (accessBits a ||| c.bits) d) := by
  have hcreated := fOpen_ok fp (mode_mask a c)
    (by rw [if_pos (mode_creates hc a), createOrOpen_absent h (by cases a <;> cases c <;> decide)])
    (Drive.entries_setEntry _ _ _) (by cases a <;> cases c <;> decide)
  refine ⟨_, _, ?_, ?_, hcreated⟩
  · cases a <;> cases c <;> decide
  · rw [Drive.files_setEntry, Drive.files_setEntry, Function.update_idem]

/-- A file that is found is opened as it is. -/
theorem FilOpened.kept {d : FatFile.Drive} {path : CString} {e : FatFile.Entry}
    (h : d.entries path = some e) {fp : ℕ} {a : Access} {c : Creation}
    (hfind : (if (accessBits a ||| c.bits) &&&
        (FA_CREATE_ALWAYS ||| FA_OPEN_ALWAYS ||| FA_CREATE_NEW) ≠ 0 then
      createOrOpen path (accessBits a ||| c.bits) d
      else openExisting path (accessBits a ||| c.bits) d) = (FR_OK, accessBits a ||| c.bits, d)) :
    FilOpened d fp path a e.data (fOpen fp path (accessBits a ||| c.bits) d) := by
  have hopen := fOpen_ok fp (mode_mask a c) hfind h (by cases a <;> cases c <;> decide)
  refine ⟨_, _, ?_, ?_, hopen⟩
  · cases a <;> cases c <;> decide
  · exact (Function.update_eq_self_iff.2 (by simp [Drive.files, h])).symm

/-- **What `f_open` comes to**, with the flags that `ffs_tomode` chooses. -/
theorem fOpen_opened {d : FatFile.Drive} {path : CString} (hplain : d.Plain path) (fp : ℕ)
    (a : Access) (c : Creation) :
    match c.opened (d.files path) with
    | none => ∃ fr, fr ≠ FR_OK ∧ fOpen fp path (accessBits a ||| c.bits) d = (fr, d)
    | some bytes => FilOpened d fp path a bytes (fOpen fp path (accessBits a ||| c.bits) d) := by
  cases h : d.entries path with
  | none =>
      rw [Drive.files, h]
      cases c with
      | existing =>
          refine ⟨FR_NO_FILE, by decide, fOpen_fails (mode_mask a _) ?_ (by decide)⟩
          rw [if_neg (by cases a <;> decide), openExisting, h]
      | new | always | openAlways => exact fOpen_absent h fp a (by decide)
  | some e =>
      have he := hplain e h
      rw [Drive.files, h]
      cases c with
      | existing =>
          refine FilOpened.kept h ?_
          rw [if_neg (by cases a <;> decide), openExisting_present h he]
      | new =>
          refine ⟨FR_EXIST, by decide, fOpen_fails (mode_mask a _) ?_ (by decide)⟩
          rw [if_pos (mode_creates (by decide) a), createOrOpen_present h he,
            if_pos (by cases a <;> decide)]
      | always =>
          have hopen := fOpen_ok fp (mode_mask a .always)
            (by rw [if_pos (mode_creates (by decide) a), createOrOpen_present h he,
              if_neg (by cases a <;> decide), if_pos (by cases a <;> decide)])
            (Drive.entries_setEntry _ _ _) (by cases a <;> decide)
          refine ⟨_, _, ?_, ?_, hopen⟩
          · cases a <;> decide
          · rw [Drive.files_setEntry]
      | openAlways =>
          refine FilOpened.kept h ?_
          rw [if_pos (mode_creates (by decide) a), createOrOpen_present h he,
            if_neg (by cases a <;> decide), if_neg (by cases a <;> decide)]

/-- The driver of FatFs, on a volume that is mounted. -/
def fatDriver : Driver FatFile.Drive where
  openFile := sFatfsOpen fatFs
  close := sFatfsClose fatFs
  write := sFatfsWrite fatFs
  read := sFatfsRead fatFs
  seek := sFatfsSeek fatFs
  name path := path
  files := Drive.files
  data l fp := (l.fils fp).map Fil.data
  load bytes l := l.store 0 bytes

/-- What the driver does to a file that is opened with certain flags. -/
def fatOpened (f : OpenFlags) : Option (List UInt8) → Option (List UInt8) := (creation f).opened

/-- What `s_fatfs_open` leaves: nothing, or a file object with the bytes of the file. -/
theorem sFatfsOpen_opened {env : Env FatFile.Drive} {path : CString} (hplain : env.lib.Plain path)
    (Fs : VfsT) (f : OpenFlags) (mode : UInt32) :
    match fatOpened f (env.lib.files path) with
    | none => ∃ env', sFatfsOpen fatFs Fs path (word f) mode env = (0, env') ∧
      env'.lib.files = env.lib.files
    | some bytes => ∃ (flag : UInt8) (d' : FatFile.Drive),
      (flag &&& FA_WRITE = 0 ↔ f.access.writes = false) ∧
      d'.files = Function.update env.lib.files path (some bytes) ∧
      sFatfsOpen fatFs Fs path (word f) mode env = (env.lib.next + 1,
        ⟨0, d'.setFil (env.lib.next + 1) (some ⟨path, flag, 0, bytes⟩)⟩) := by
  have hspec := fOpen_opened (d := { env.lib with next := env.lib.next + 1 }) hplain
    (env.lib.next + 1) f.access (creation f)
  change match fatOpened f (env.lib.files path) with | none => _ | some bytes => _ at hspec
  cases hprior : fatOpened f (env.lib.files path) with
  | none =>
      rw [hprior] at hspec
      obtain ⟨fr, hfr, hopen⟩ := hspec
      refine ⟨⟨ffsToerror fr, Drive.setFil { env.lib with next := env.lib.next + 1 }
        (env.lib.next + 1) none⟩, ?_, rfl⟩
      simp [sFatfsOpen, fatFs, ffsTomode_word, hopen, ffsToerror_eq_zero_iff, hfr]
  | some bytes =>
      rw [hprior] at hspec
      obtain ⟨flag, d', hflag, hd', hopen⟩ := hspec
      refine ⟨flag, d', hflag, hd', ?_⟩
      simp [sFatfsOpen, fatFs, ffsTomode_word, hopen, ffsToerror]

/-- **What opening a file comes to on FatFs.** -/
theorem fat_opensTo {env : Env FatFile.Drive} {path : CString} (hplain : env.lib.Plain path)
    (Fs : VfsT) (f : OpenFlags) (mode : UInt32) :
    OpensTo fatDriver Fs path (word f) mode env (fatOpened f (env.lib.files path)) := by
  have hspec := sFatfsOpen_opened hplain Fs f mode
  cases hprior : fatOpened f (env.lib.files path) with
  | none =>
      rw [hprior] at hspec
      obtain ⟨env', hopen, hfiles⟩ := hspec
      refine ⟨?_, ?_⟩
      · simp only [fatDriver, hopen]
      · simp only [fatDriver, hopen, hfiles]
  | some bytes =>
      rw [hprior] at hspec
      obtain ⟨flag, d', -, hd', hopen⟩ := hspec
      have hfile : d'.files path = some bytes := by rw [hd', Function.update_self]
      simp only [OpensTo, fatDriver, hopen]
      refine ⟨Nat.succ_ne_zero _, by rw [Drive.fils_setFil]; rfl, ?_⟩
      intro File hhandle
      rw [← hd', sFatfsClose, hhandle]
      exact files_fClose (d := d'.setFil (env.lib.next + 1) _) (Drive.fils_setFil _ _ _) hfile

/-- A byte is written at the beginning of a file object. -/
theorem fat_write_first {env : Env FatFile.Drive} {File : VfsFile} {fil : Fil}
    (hfil : env.lib.fils File.file = some fil) (hfptr : fil.fptr = 0)
    (hwrite : fil.flag &&& FA_WRITE ≠ 0) (Fs : VfsT) (x : UInt8) :
    (fatDriver.writeBytes File Fs [x] env).lib.fils File.file = some { fil with
      flag := fil.flag ||| FA_MODIFIED, fptr := 1, data := x :: fil.data.drop 1 } := by
  have hbytes : (env.lib.store 0 [x]).bytesAt 0 1 = [x] := env.lib.bytesAt_store 0 [x]
  simp [Driver.writeBytes, fatDriver, sFatfsWrite, fatFs, fWrite, hfil, hfptr, hwrite, hbytes,
    splice_zero_one]

/-- A file object is put back to its beginning. -/
theorem fat_seek_first {env : Env FatFile.Drive} {File : VfsFile} {fil : Fil}
    (hfil : env.lib.fils File.file = some fil) (Fs : VfsT) :
    (fatDriver.call File Fs env (.seek 0 SEEK_SET)).lib.fils File.file =
      some { fil with fptr := 0 } := by
  have hzero : toSize 0 = 0 := rfl
  simp [Driver.call, fatDriver, sFatfsSeek, fatFs, fLseek, hfil, fatfsNewPos, hzero]

/-- **FatFs does not append**: a byte is written, and another one is written over it. -/
theorem fat_not_appendsAfter {env : Env FatFile.Drive} {path : CString}
    (hplain : env.lib.Plain path) {f : OpenFlags} (hwrites : f.access.writes = true)
    {bytes : List UInt8} (hprior : fatOpened f (env.lib.files path) = some bytes) (Fs : VfsT)
    (mode : UInt32) : ¬ AppendsAfter fatDriver Fs path (word f) mode env := by
  have hspec := sFatfsOpen_opened hplain Fs f mode
  rw [hprior] at hspec
  obtain ⟨flag, d', hflag, -, hopen⟩ := hspec
  have hflag' : flag &&& FA_WRITE ≠ 0 := by
    intro h
    exact absurd (hwrites.symm.trans (hflag.1 h)) (by decide)
  have hkept : (flag ||| FA_MODIFIED) &&& FA_WRITE ≠ 0 := by
    have hbits : (flag ||| FA_MODIFIED) &&& FA_WRITE = flag &&& FA_WRITE := by
      refine UInt8.eq_of_toBitVec_eq ?_
      simp only [UInt8.toBitVec_and, UInt8.toBitVec_or, BitVec.and_or_distrib_right]
      exact BitVec.or_zero
    rwa [hbits]
  -- after the first byte the file object is at its beginning again
  let File : VfsFile := ⟨env.lib.next + 1, 0, 0, 0⟩
  have hopened := Drive.fils_setFil d' (env.lib.next + 1) (some ⟨path, flag, 0, bytes⟩)
  have hone := @fat_write_first ⟨0, d'.setFil _ _⟩ File _ hopened rfl hflag' Fs 0
  have hseek := fat_seek_first hone Fs
  have htwo := fat_write_first hseek rfl hkept Fs 1
  intro happends
  simp only [AppendsAfter, fatDriver, hopen] at happends
  have happends := happends (Nat.add_one_ne_zero _) File [.write [0], .seek 0 SEEK_SET] [1]
    (0 :: bytes.drop 1) (1 :: bytes.drop 1) rfl (congrArg (Option.map Fil.data) hseek)
    (congrArg (Option.map Fil.data) htwo)
  exact absurd happends.head_eq (by decide)

/-! ### littlefs -/

/-- The driver of littlefs, on a device that is mounted. -/
def lfsDriver : Driver LfsFile.Drive where
  openFile := sLfsOpen LfsFile.littleFs
  close := sLfsClose LfsFile.littleFs
  write := sLfsWrite LfsFile.littleFs
  read := sLfsRead LfsFile.littleFs
  seek := sLfsSeek LfsFile.littleFs
  name path := path.drop 3
  files := LfsFile.Drive.contents
  data l file := (l.files file).map LfsFile.File.data
  load bytes l := l.store 0 bytes

/-- What the driver does to a file that is opened with certain flags. -/
def lfsOpened (f : OpenFlags) : Option (List UInt8) → Option (List UInt8)
  | none => if f.creat then some [] else none
  | some bytes =>
    if f.excl then none
    else if f.trunc then some []
    else some bytes

theorem lfsTomode_word_creat (f : OpenFlags) :
    lfsTomode (word f) &&& LFS_O_CREAT = 0 ↔ ¬ f.creat = true := by
  obtain ⟨access, creat, excl, trunc, append⟩ := f
  cases access <;> cases creat <;> cases excl <;> cases trunc <;> cases append <;> decide

theorem lfsTomode_word_excl (f : OpenFlags) :
    lfsTomode (word f) &&& LFS_O_EXCL ≠ 0 ↔ f.excl = true := by
  obtain ⟨access, creat, excl, trunc, append⟩ := f
  cases access <;> cases creat <;> cases excl <;> cases trunc <;> cases append <;> decide

theorem lfsTomode_word_trunc (f : OpenFlags) :
    lfsTomode (word f) &&& LFS_O_TRUNC ≠ 0 ↔ f.trunc = true := by
  obtain ⟨access, creat, excl, trunc, append⟩ := f
  cases access <;> cases creat <;> cases excl <;> cases trunc <;> cases append <;> decide

theorem lfsTomode_word_dirty (f : OpenFlags) :
    let flags := (lfsTomode (word f) ||| LfsFile.LFS_F_DIRTY ||| LfsFile.LFS_F_OPENED) &&&
      ~~~LfsFile.LFS_F_READING
    flags &&& LfsFile.LFS_F_WRITING = 0 ∧ flags &&& LfsFile.LFS_F_DIRTY ≠ 0 ∧
      flags &&& LfsFile.LFS_F_ERRED = 0 := by
  obtain ⟨access, creat, excl, trunc, append⟩ := f
  cases access <;> cases creat <;> cases excl <;> cases trunc <;> cases append <;> decide

/-- A file object that is emptied when it is opened has something to be written. -/
theorem flush_dirty (f : OpenFlags) {file : LfsFile.File}
    (h : file.flags = lfsTomode (word f) ||| LfsFile.LFS_F_DIRTY ||| LfsFile.LFS_F_OPENED) :
    file.flush.flags &&& LfsFile.LFS_F_DIRTY ≠ 0 ∧
      file.flush.flags &&& LfsFile.LFS_F_ERRED = 0 := by
  obtain ⟨hwriting, hdirty⟩ := lfsTomode_word_dirty f
  rwa [LfsFile.File.flush_flags, h, if_neg (not_not.2 hwriting)]

/-- A file is opened for certain bytes, by a call of `lfs_file_opencfg`. -/
def FileOpened (d : LfsFile.Drive) (file : ℕ) (path : CString) (bytes : List UInt8)
    (r : Int32 × LfsFile.Drive) : Prop :=
  ∃ (f : LfsFile.File), r.1 = 0 ∧ r.2.files file = some f ∧ f.data = bytes ∧
    (LfsFile.lfsFileClose file r.2).2.contents = Function.update d.contents path (some bytes)

/-- A file object has been made for what there is at a path now. -/
theorem FileOpened.intro {d d' : LfsFile.Drive} {file : ℕ} {f : LfsFile.File}
    (hdata : d'.contents f.path = some f.data ∨ f.flush.flags &&& LfsFile.LFS_F_DIRTY ≠ 0 ∧
      f.flush.flags &&& LfsFile.LFS_F_ERRED = 0)
    (hothers : Function.update d'.contents f.path (some f.data) =
      Function.update d.contents f.path (some f.data)) :
    FileOpened d file f.path f.data (0, d'.setFile file (some f)) := by
  have hfile := d'.files_setFile file (some f)
  exact ⟨f, rfl, hfile, rfl, (LfsFile.contents_lfsFileClose hfile hdata).trans hothers⟩

/-- **What `lfs_file_opencfg` comes to**, with the flags that `lfs_tomode` gives. -/
theorem lfsFileOpencfg_opened {d : LfsFile.Drive} {path : CString}
    (hplain : d.entries path ≠ some .dir) (file : ℕ) (f : OpenFlags) :
    match lfsOpened f (d.contents path) with
    | none => ∃ err : Int32, err ≠ 0 ∧
      LfsFile.lfsFileOpencfg file path (lfsTomode (word f)) d = (err, d)
    | some bytes =>
      FileOpened d file path bytes (LfsFile.lfsFileOpencfg file path (lfsTomode (word f)) d) := by
  cases h : d.entries path with
  | none =>
      have hprior : d.contents path = none := by rw [LfsFile.Drive.contents, h]
      rw [hprior, LfsFile.lfsFileOpencfg, h]
      by_cases hcreat : f.creat = true
      · simp only [lfsOpened, lfsTomode_word_creat, hcreat, not_true_eq_false,
          if_false]
        refine FileOpened.intro (Or.inl ?_) ?_
        · rw [LfsFile.Drive.contents_setEntry, Function.update_self]
        · rw [LfsFile.Drive.contents_setEntry, Function.update_idem]
      · simp only [lfsOpened, if_neg hcreat, (lfsTomode_word_creat f).2 hcreat, if_true]
        exact ⟨-2, by decide, rfl⟩
  | some e =>
      cases e with
      | dir => exact absurd h hplain
      | reg data =>
          have hprior : d.contents path = some data := by rw [LfsFile.Drive.contents, h]
          rw [hprior, LfsFile.lfsFileOpencfg, h]
          by_cases hexcl : f.excl = true
          · simp only [lfsOpened, lfsTomode_word_excl, hexcl, if_true]
            exact ⟨-17, by decide, rfl⟩
          · by_cases htrunc : f.trunc = true
            · simp only [lfsOpened, lfsTomode_word_excl, lfsTomode_word_trunc, hexcl, htrunc,
                if_true]
              exact FileOpened.intro (Or.inr (flush_dirty f rfl)) rfl
            · simp only [lfsOpened, lfsTomode_word_excl, lfsTomode_word_trunc, hexcl, htrunc]
              exact FileOpened.intro (Or.inl hprior) rfl

/-- **What opening a file comes to on littlefs.** -/
theorem lfs_opensTo {env : Env LfsFile.Drive} {path : CString}
    (hplain : env.lib.entries (path.drop 3) ≠ some .dir) (Fs : VfsT) (f : OpenFlags)
    (mode : UInt32) :
    OpensTo lfsDriver Fs path (word f) mode env
      (lfsOpened f (env.lib.contents (path.drop 3))) := by
  have hspec := lfsFileOpencfg_opened (d := { env.lib with next := env.lib.next + 1 }) hplain
    (env.lib.next + 1) f
  change match lfsOpened f (env.lib.contents (path.drop 3)) with
    | none => _
    | some bytes => _ at hspec
  cases hprior : lfsOpened f (env.lib.contents (path.drop 3)) with
  | none =>
      rw [hprior] at hspec
      obtain ⟨err, herr, hopen⟩ := hspec
      have herr' : lfsToerror err.toInt ≠ 0 := by
        rw [ne_eq, lfsToerror_eq_zero_iff]
        exact fun h => herr (Int32.toInt_inj.1 (h.trans Int32.toInt_zero.symm))
      simp [OpensTo, lfsDriver, sLfsOpen, LfsFile.littleFs, hopen, herr']
      rfl
  | some bytes =>
      rw [hprior] at hspec
      obtain ⟨file, herr, hfile, hbytes, hclose⟩ := hspec
      have hopen : sLfsOpen LfsFile.littleFs Fs path (word f) mode env = (env.lib.next + 1,
          ⟨0, (LfsFile.lfsFileOpencfg (env.lib.next + 1) (path.drop 3) (lfsTomode (word f))
            { env.lib with next := env.lib.next + 1 }).2⟩) := by
        simp [sLfsOpen, LfsFile.littleFs, herr, lfsToerror]
      simp only [OpensTo, lfsDriver, hopen]
      refine ⟨Nat.add_one_ne_zero _, by rw [hfile, ← hbytes]; rfl, ?_⟩
      intro File hhandle
      rw [sLfsClose, hhandle]
      exact hclose

/-! ### The comparison -/

/-- The flags and the file with which FatFs does what POSIX says. -/
def FatAgrees (f : OpenFlags) : Option (List UInt8) → Prop
  | none => if f.creat then f.excl ∨ f.trunc ∨ f.append else f.append = false
  | some bytes => f.creat ∧ f.excl ∨ bytes = [] ∨ (f.trunc → (f.creat ↔ f.access.writes))

/-- Those with which littlefs does. -/
def LfsAgrees (f : OpenFlags) : Option (List UInt8) → Prop
  | none => True
  | some bytes => if f.excl then f.creat else bytes = [] ∨ (f.trunc → f.access.writes)

theorem fatOpened_eq_opened_iff (f : OpenFlags) (prior : Option (List UInt8)) :
    fatOpened f prior = opened f prior ↔ FatAgrees f prior := by
  obtain ⟨access, creat, excl, trunc, append⟩ := f
  cases prior with
  | none =>
      cases creat <;> cases excl <;> cases trunc <;> cases append <;>
        simp [fatOpened, creation, Creation.opened, opened, FatAgrees]
  | some bytes =>
      cases creat <;> cases excl <;> cases trunc <;> cases append <;> cases access <;>
        simp [fatOpened, creation, Creation.opened, opened, FatAgrees, Access.writes, eq_comm]

theorem lfsOpened_eq_opened_iff (f : OpenFlags) (prior : Option (List UInt8)) :
    lfsOpened f prior = opened f prior ↔ LfsAgrees f prior := by
  obtain ⟨access, creat, excl, trunc, append⟩ := f
  cases prior with
  | none => simp [lfsOpened, opened, LfsAgrees]
  | some bytes =>
      cases creat <;> cases excl <;> cases trunc <;> cases access <;>
        simp [lfsOpened, opened, LfsAgrees, Access.writes, eq_comm]

/-- **The flags and the file with which both drivers do what POSIX says.** -/
def Agrees (f : OpenFlags) : Option (List UInt8) → Prop
  | none =>
    if f.creat then (f.excl ∨ f.trunc ∨ f.append) ∧ ¬ (f.append ∧ f.access.writes)
    else ¬ f.append
  | some bytes =>
    f.creat ∧ f.excl ∨
      ¬ f.excl ∧ ¬ (f.append ∧ f.access.writes) ∧
        (f.trunc → bytes = [] ∨ f.creat ∧ f.access.writes)

theorem agrees_iff (f : OpenFlags) (prior : Option (List UInt8)) :
    Agrees f prior ↔ FatAgrees f prior ∧ LfsAgrees f prior ∧
      (f.append → f.access.writes → opened f prior = none) := by
  obtain ⟨access, creat, excl, trunc, append⟩ := f
  cases prior with
  | none =>
      cases creat <;> cases excl <;> cases trunc <;> cases append <;> cases access <;>
        simp [Agrees, FatAgrees, LfsAgrees, opened, Access.writes]
  | some bytes =>
      cases creat <;> cases excl <;> cases trunc <;> cases append <;> cases access <;>
        simp [Agrees, FatAgrees, LfsAgrees, opened, Access.writes]

/-- A call that fails leaves nothing to be written to. -/
theorem OpensTo.appendsAfter {D : Driver φ} {Fs : VfsT} {path : CString} {flags mode : UInt32}
    {env : Env φ} (h : OpensTo D Fs path flags mode env none) :
    AppendsAfter D Fs path flags mode env :=
  fun hopened => absurd h.1 hopened

/-- A driver does what POSIX says, where it opens the file the same way, and appends if that is
asked for. -/
theorem opensAsPosix_iff {D : Driver φ} {Fs : VfsT} {path : CString} {f : OpenFlags} {mode : UInt32}
    {env : Env φ} {result : Option (List UInt8)}
    (h : OpensTo D Fs path (word f) mode env result) :
    OpensAsPosix D Fs path f mode env ↔
      result = opened f (D.files env.lib (D.name path)) ∧
        (f.append = true → f.access.writes = true → AppendsAfter D Fs path (word f) mode env) := by
  constructor
  · rintro ⟨hposix, happends⟩
    exact ⟨h.unique hposix, happends⟩
  · rintro ⟨hresult, happends⟩
    exact ⟨hresult ▸ h, happends⟩

variable {fat : Env FatFile.Drive} {lfs : Env LfsFile.Drive} {fatPath lfsPath : CString}

/-- FatFs does what POSIX says. -/
theorem fat_opensAsPosix_iff (hplain : fat.lib.Plain fatPath) (Fs : VfsT) (f : OpenFlags)
    (mode : UInt32) :
    OpensAsPosix fatDriver Fs fatPath f mode fat ↔ FatAgrees f (fat.lib.files fatPath) ∧
      (f.append → f.access.writes → opened f (fat.lib.files fatPath) = none) := by
  have hopens := fat_opensTo hplain Fs f mode
  rw [opensAsPosix_iff hopens, ← fatOpened_eq_opened_iff]
  change _ = opened f (fat.lib.files fatPath) ∧ _ ↔ _
  refine and_congr_right fun hsame => ?_
  constructor
  · intro happends happend hwrites
    cases hprior : opened f (fat.lib.files fatPath) with
    | none => rfl
    | some bytes =>
        exact absurd (happends happend hwrites)
          (fat_not_appendsAfter hplain hwrites (hsame.trans hprior) Fs mode)
  · intro hnone happend hwrites
    rw [hsame, hnone happend hwrites] at hopens
    exact hopens.appendsAfter

/-- littlefs does what POSIX says. -/
theorem lfs_opensAsPosix_iff (hreg : lfs.lib.entries (lfsPath.drop 3) ≠ some .dir) (Fs : VfsT)
    (f : OpenFlags) (mode : UInt32) :
    OpensAsPosix lfsDriver Fs lfsPath f mode lfs ↔
      LfsAgrees f (lfs.lib.contents (lfsPath.drop 3)) ∧
        (f.append → f.access.writes → AppendsAfter lfsDriver Fs lfsPath (word f) mode lfs) := by
  rw [opensAsPosix_iff (lfs_opensTo hreg Fs f mode), ← lfsOpened_eq_opened_iff]
  rfl

/-- **Opening a file on both file systems**: with these flags, and no others, both drivers do what
POSIX says. -/
theorem open_agrees_iff {prior : Option (List UInt8)} (hfat : fat.lib.files fatPath = prior)
    (hlfs : lfs.lib.contents (lfsPath.drop 3) = prior) (hplain : fat.lib.Plain fatPath)
    (hreg : lfs.lib.entries (lfsPath.drop 3) ≠ some .dir) (fatVfs lfsVfs : VfsT) (f : OpenFlags)
    (mode : UInt32) :
    OpensAsPosix fatDriver fatVfs fatPath f mode fat ∧
      OpensAsPosix lfsDriver lfsVfs lfsPath f mode lfs ↔ Agrees f prior := by
  have hopens := lfs_opensTo hreg lfsVfs f mode
  rw [fat_opensAsPosix_iff hplain, lfs_opensAsPosix_iff hreg, agrees_iff, hfat, hlfs]
  rw [hlfs] at hopens
  constructor
  · rintro ⟨⟨hfatAgrees, hnone⟩, hlfsAgrees, -⟩
    exact ⟨hfatAgrees, hlfsAgrees, hnone⟩
  · rintro ⟨hfatAgrees, hlfsAgrees, hnone⟩
    refine ⟨⟨hfatAgrees, hnone⟩, hlfsAgrees, ?_⟩
    intro happend hwrites
    rw [(lfsOpened_eq_opened_iff f prior).2 hlfsAgrees, hnone happend hwrites] at hopens
    exact hopens.appendsAfter

/-- A file on both drives is opened for reading and writing, and emptied. -/
theorem open_agrees_iff_replaced :
    OpensAsPosix fatDriver ⟨0, 48, 58, 0⟩ (.ofAscii "0:/a" (by decide))
        ⟨.rdwr, true, false, true, false⟩ 0
        ⟨0, .ofFile (.ofAscii "0:/a" (by decide)) (some [1, 2])⟩ ∧
      OpensAsPosix lfsDriver ⟨0, 70, 58, 0⟩ (.ofAscii "F:/a" (by decide))
        ⟨.rdwr, true, false, true, false⟩ 0
        ⟨0, .ofFile (.ofAscii "a" (by decide)) (some [1, 2])⟩ :=
  (open_agrees_iff (Drive.files_ofFile _ _) (LfsFile.Drive.contents_ofFile _ _)
    (Drive.plain_ofFile _ _) (LfsFile.Drive.entries_ofFile_ne_dir _ _) _ _ _ _).2
    (by simp [Agrees, Access.writes])

/-- **`O_WRONLY | O_CREAT` on a path that is absent**: FatFs creates no file, littlefs does. -/
theorem open_creat_not_agrees :
    ¬ OpensAsPosix fatDriver ⟨0, 48, 58, 0⟩ (.ofAscii "0:/a" (by decide))
        ⟨.wronly, true, false, false, false⟩ 0
        ⟨0, .ofFile (.ofAscii "0:/a" (by decide)) none⟩ ∧
      OpensAsPosix lfsDriver ⟨0, 70, 58, 0⟩ (.ofAscii "F:/a" (by decide))
        ⟨.wronly, true, false, false, false⟩ 0
        ⟨0, .ofFile (.ofAscii "a" (by decide)) none⟩ := by
  constructor
  · rw [fat_opensAsPosix_iff (Drive.plain_ofFile _ _), Drive.files_ofFile]
    simp [FatAgrees]
  · rw [lfs_opensAsPosix_iff (LfsFile.Drive.entries_ofFile_ne_dir _ _)]
    refine ⟨?_, fun happend => absurd happend (by decide)⟩
    exact LfsFile.Drive.contents_ofFile (.ofAscii "a" (by decide)) none ▸ trivial

end Pico.Vfs
