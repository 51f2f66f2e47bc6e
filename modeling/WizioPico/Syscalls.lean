/-
**The system calls of newlib.**

`wizio/newlib/syscall.c` puts newlib's `open`, `close`, `read`, `write` and `lseek` on top of the
virtual file system: each call returns what the file system returned, and sets `errno` from it.
An error thus goes through three layers: the driver translates the code of its file system, the
virtual file system passes the driver's result on or replaces it, and the system call takes
`errno` from what is left.

Main definitions:

* `Pico.Vfs.Syscall.run` — the system calls;
* `Pico.Vfs.report` — what the file system reports to its driver during a call that reaches it;
* `Pico.Vfs.Outcome.Faithful` — the result and `errno` say what was reported;
* `Pico.Vfs.Report.Good` — the reports that get through.

Main results:

* `Pico.Vfs.run_report` — what a call returns, for each report;
* `Pico.Vfs.errno_faithful_iff` — **a call that reaches a driver is faithful to the report exactly
  if the report is good.**
-/

import WizioPico.FsDrivers

set_option relaxedAutoImplicit false
set_option autoImplicit false

namespace Pico.Vfs

variable {N : ℕ} {φ β : Type*}

/-! ### The calls -/

/-- What every system call does with the result of the virtual file system. -/
def sysReturn (r : ℤ × VfsState N (Env φ)) : ℤ × VfsState N (Env φ) :=
  (r.1, { r.2 with env := { r.2.env with errno := if r.1 < 0 then -r.1 else 0 } })

/-- `_isatty`.  A negative descriptor is a large `unsigned int`. -/
def isatty (fd : ℤ) : Bool := 0 ≤ fd ∧ fd ≤ 2

/-- The functions of the streams `stdout` and `stdin`, if they have them. -/
structure Stdio (φ : Type*) where
  write : Option (ℕ → UInt32 → Env φ → ℤ × Env φ)
  read : Option (ℕ → UInt32 → Env φ → ℤ × Env φ)

/-- A call of a stream, which sets `errno` itself; without a function the call is invalid. -/
def streamCall (f : Option (ℕ → UInt32 → Env φ → ℤ × Env φ)) (s : VfsState N (Env φ)) (buf : ℕ)
    (len : UInt32) : ℤ × VfsState N (Env φ) :=
  match f with
  | none => sysReturn (-EINVAL, s)
  | some f => let r := f buf len s.env; (r.1, { s with env := r.2 })

section
variable (opers : ℕ → Option (VfsOper (Env φ))) (stdio : Stdio φ) (s : VfsState N (Env φ))

/-- `_lseek_r`. -/
def lseekR (fd pos whence : ℤ) : Option (ℤ × VfsState N (Env φ)) :=
  (vfsSeek opers s fd pos whence).map sysReturn

/-- `_close_r`. -/
def closeR (fd : ℤ) : Option (ℤ × VfsState N (Env φ)) :=
  if 2 < fd then (vfsClose opers s fd).map sysReturn else some (sysReturn (-EINVAL, s))

/-- `_open_r`. -/
def openR (path : Option CString) (flags mode : UInt32) : Option (ℤ × VfsState N (Env φ)) :=
  match path with
  | none => some (sysReturn (-EINVAL, s))
  | some path => (vfsOpen opers s (some path) flags mode).map sysReturn

/-- `_write_r`. -/
def writeR (fd : ℤ) (buf : ℕ) (len : UInt32) : Option (ℤ × VfsState N (Env φ)) :=
  if -1 < fd ∧ buf ≠ 0 ∧ len ≠ 0 then
    if isatty fd then some (streamCall stdio.write s buf len)
    else (vfsWrite opers s fd buf len).map fun r => sysReturn (toInt r.1, r.2)
  else some (sysReturn (-EINVAL, s))

/-- `_read_r`. -/
def readR (fd : ℤ) (buf : ℕ) (len : UInt32) : Option (ℤ × VfsState N (Env φ)) :=
  if -1 < fd ∧ buf ≠ 0 ∧ len ≠ 0 then
    if fd = 0 then some (streamCall stdio.read s buf len)
    else (vfsRead opers s fd buf len).map fun r => sysReturn (toInt r.1, r.2)
  else some (sysReturn (-EINVAL, s))

end

/-- A system call. -/
inductive Syscall where
  | lseek (fd pos whence : ℤ)
  | close (fd : ℤ)
  | «open» (path : Option CString) (flags mode : UInt32)
  | write (fd : ℤ) (buf : ℕ) (len : UInt32)
  | read (fd : ℤ) (buf : ℕ) (len : UInt32)
  deriving DecidableEq

/-- What a system call returns, and the state it leaves. -/
def Syscall.run (opers : ℕ → Option (VfsOper (Env φ))) (stdio : Stdio φ) (s : VfsState N (Env φ)) :
    Syscall → Option (ℤ × VfsState N (Env φ))
  | .lseek fd pos whence => lseekR opers s fd pos whence
  | .close fd => closeR opers s fd
  | .open path flags mode => openR opers s path flags mode
  | .write fd buf len => writeR opers stdio s fd buf len
  | .read fd buf len => readR opers stdio s fd buf len

/-! ### What the file system reports -/

/-- The two drivers. -/
inductive FsDriver (φ : Type*) where
  | fatfs (lib : FatFs φ)
  | littlefs (lib : LittleFs φ)

/-- Their tables. -/
def FsDriver.oper : FsDriver φ → VfsOper (Env φ)
  | fatfs lib => fatfsOper lib
  | littlefs lib => lfsOper lib

/-- The tables of the contexts that have a driver. -/
def opersOf (drivers : ℕ → Option (FsDriver φ)) (ctx : ℕ) : Option (VfsOper (Env φ)) :=
  (drivers ctx).map FsDriver.oper

/-- The result of the function of the file system that a call ends in: of FatFs, with the count of a
transfer or the position that was sought, or of littlefs. -/
inductive Report where
  | fatOpen (fr : FRESULT)
  | fatClose (fr : FRESULT)
  | fatCount (fr : FRESULT) (n : UInt32)
  | fatSeek (fr : FRESULT) (newPos : ℤ)
  | lfsOpen (r : Int32)
  | lfs (r : Int32)
  deriving DecidableEq

/-- The slot of a descriptor, its drive and its driver. -/
def fileOf (drivers : ℕ → Option (FsDriver φ)) (s : VfsState N (Env φ)) (fd : ℤ) :
    Option (VfsFile × VfsT × FsDriver φ) :=
  (vfsFileGetIndex s fd).bind fun i => (s.fss.load (s.openFiles i).fs).bind fun fs =>
    if fs.ctx = 0 then none else (drivers fs.ctx).map fun d => (s.openFiles i, fs, d)

/-- The drive and the driver that would open a path, if a slot is free. -/
def driveOf (drivers : ℕ → Option (FsDriver φ)) (s : VfsState N (Env φ)) (path : CString) :
    Option (VfsT × FsDriver φ) :=
  if vfsFileIsOpen s path then none
  else (vfsGetFs s path false).bind fun Fs =>
    if Fs = 0 then none
    else (vfsFileGetFreeIndex s).bind fun _ => (s.fss.load Fs).bind fun fs =>
      if fs.ctx = 0 then none else (drivers fs.ctx).map fun d => (fs, d)

/-- What the file system reports during a system call, if the call gets there. -/
def report (drivers : ℕ → Option (FsDriver φ)) (s : VfsState N (Env φ)) : Syscall → Option Report
  | .lseek fd pos whence => (fileOf drivers s fd).bind fun (File, fs, d) =>
      match d with
      | .fatfs lib => (fatfsNewPos lib File.file pos whence s.env.lib).map fun newPos =>
          .fatSeek (lib.fLseek File.file (toSize newPos) s.env.lib).1 newPos
      | .littlefs lib => some (.lfs (lib.lfsFileSeek fs.ctx File.file pos whence s.env.lib).1)
  | .close fd => (fileOf drivers s fd).map fun (File, fs, d) =>
      match d with
      | .fatfs lib => .fatClose (lib.fClose File.file s.env.lib).1
      | .littlefs lib => .lfs (lib.lfsFileClose fs.ctx File.file s.env.lib).1
  | .open none _ _ => none
  | .open (some path) flags _ => (driveOf drivers s path).bind fun (fs, d) =>
      match d with
      | .fatfs lib =>
          let (file, l) := lib.calloc s.env.lib
          if file = 0 then none else some (.fatOpen (lib.fOpen file path (ffsTomode flags) l).1)
      | .littlefs lib =>
          let (file, l) := lib.calloc s.env.lib
          if file = 0 then none
          else some (.lfsOpen (lib.lfsFileOpen fs.ctx file (path.drop 3) (lfsTomode flags) l).1)
  | .write fd buf len =>
      if buf = 0 ∨ len = 0 then none
      else (fileOf drivers s fd).map fun (File, fs, d) =>
        match d with
        | .fatfs lib =>
            let r := (lib.fWrite File.file buf len s.env.lib).1
            .fatCount r.1 r.2
        | .littlefs lib => .lfs (lib.lfsFileWrite fs.ctx File.file buf len s.env.lib).1
  | .read fd buf len =>
      if buf = 0 ∨ len = 0 then none
      else (fileOf drivers s fd).map fun (File, fs, d) =>
        match d with
        | .fatfs lib =>
            let r := (lib.fRead File.file buf len s.env.lib).1
            .fatCount r.1 r.2
        | .littlefs lib => .lfs (lib.lfsFileRead fs.ctx File.file buf len s.env.lib).1

/-- What a call returns for each report. -/
def Report.Returns : Report → ℤ → Prop
  | fatOpen fr, ret => if fr = .FR_OK then 3 ≤ ret else ret = -1
  | fatClose fr, ret => ret = ffsToerror fr
  | fatCount fr n, ret => ret = if n ≠ 0 then toInt n else ffsToerror fr
  | fatSeek fr newPos, ret => ret = if fr ≠ .FR_OK then ffsToerror fr else newPos
  | lfsOpen r, ret => if r = 0 then 3 ≤ ret else ret = -1
  | lfs r, ret => ret = lfsToerror r.toInt

/-! ### The route of a result -/

section
variable {drivers : ℕ → Option (FsDriver φ)} {stdio : Stdio φ} {s : VfsState N (Env φ)}

/-- A descriptor with a file is not one of the standard streams. -/
theorem three_le_of_fileOf {fd : ℤ} {r : VfsFile × VfsT × FsDriver φ}
    (h : fileOf drivers s fd = some r) : 3 ≤ fd := by
  obtain ⟨i, hi, -⟩ := Option.bind_eq_some_iff.1 h
  rw [vfsFileGetIndex] at hi
  split at hi
  · rename_i hrange
    exact hrange.1
  · cases hi

/-- A call on a descriptor goes to the driver of its file. -/
theorem ifIsVfsFile_fileOf {fd : ℤ} {File : VfsFile} {fs : VfsT} {d : FsDriver φ}
    (h : fileOf drivers s fd = some (File, fs, d)) {OPER : VfsOper (Env φ) → Option β} {oper : β}
    (hoper : OPER d.oper = some oper) (body : Fin N → VfsT → β → ℤ × VfsState N (Env φ)) :
    ∃ i, s.openFiles i = File ∧
      ifIsVfsFile (opersOf drivers) s fd OPER body = some (body i fs oper) := by
  obtain ⟨i, hi, h⟩ := Option.bind_eq_some_iff.1 h
  obtain ⟨fs', hfs, h⟩ := Option.bind_eq_some_iff.1 h
  split at h
  · cases h
  · rename_i hctx
    obtain ⟨d', hd, heq⟩ := Option.map_eq_some_iff.1 h
    cases heq
    have hfile : vfsIsFile N (s.openFiles i) = true := by
      rw [vfsFileGetIndex] at hi
      split at hi
      · rename_i hrange
        have hfd : (s.openFiles i).fd = fd := by
          simpa using List.find?_some (a := i) (l := List.finRange N) hi
        rw [vfsIsFile, hfd]
        exact decide_eq_true hrange
      · cases hi
    refine ⟨i, rfl, ?_⟩
    rw [ifIsVfsFile, hi]
    simp only [if_pos hfile, hfs, Option.bind_some, operOf, if_neg hctx, opersOf, hd,
      Option.map_some, hoper]

/-- `vfs_open` asks the driver of the path's drive. -/
theorem vfsOpen_driveOf {path : CString} (flags mode : UInt32) {fs : VfsT} {d : FsDriver φ}
    (h : driveOf drivers s path = some (fs, d))
    {opn : VfsT → CString → UInt32 → UInt32 → Env φ → ℕ × Env φ} (hopn : d.oper.open = some opn) :
    ∃ ret vfs, vfsOpen (opersOf drivers) s (some path) flags mode = some (ret, vfs) ∧
      if (opn fs path flags mode s.env).1 = 0 then ret = -1 else 3 ≤ ret := by
  rw [driveOf] at h
  split at h
  · cases h
  · rename_i hopen
    obtain ⟨Fs, hFs, h⟩ := Option.bind_eq_some_iff.1 h
    split at h
    · cases h
    · rename_i hne
      obtain ⟨i, hi, h⟩ := Option.bind_eq_some_iff.1 h
      obtain ⟨fs', hfs, h⟩ := Option.bind_eq_some_iff.1 h
      split at h
      · cases h
      · rename_i hctx
        obtain ⟨d', hd, heq⟩ := Option.map_eq_some_iff.1 h
        cases heq
        simp only [vfsOpen, if_neg hopen, hFs, Option.bind_some, if_neg hne, hi, hfs, operOf,
          if_neg hctx, opersOf, hd, Option.map_some, hopn]
        split
        · exact ⟨_, _, rfl, rfl⟩
        · exact ⟨_, _, rfl, by omega⟩

/-- Every system call ends by setting `errno` from what it returns. -/
def ReturnsAs (r : Option (ℤ × VfsState N (Env φ))) (rep : Report) : Prop :=
  ∃ ret vfs, r = some (sysReturn (ret, vfs)) ∧ rep.Returns ret

theorem toInt_fatfsCount (fr : FRESULT) (n : UInt32) :
    toInt (fatfsCount fr n) = if n ≠ 0 then toInt n else ffsToerror fr := by
  rw [fatfsCount]
  split
  · rfl
  · cases fr <;> decide

/-- The results of littlefs survive the `size_t` of `read` and `write`. -/
theorem toInt_toSize_lfsToerror (r : Int32) :
    toInt (toSize (lfsToerror r.toInt)) = lfsToerror r.toInt := by
  have hmin := r.le_toInt
  have hmax := r.toInt_lt
  refine toInt_toSize ?_ ?_ <;> rcases lfsToerror_cases r.toInt with h | h <;> omega

theorem returns_fatCount (fr : FRESULT) (n : UInt32) :
    (Report.fatCount fr n).Returns (toInt (toSize (toInt (fatfsCount fr n)))) := by
  rw [toSize_toInt, toInt_fatfsCount]
  rfl

theorem returns_lfs (r : Int32) :
    (Report.lfs r).Returns (toInt (toSize (toInt (toSize (lfsToerror r.toInt))))) := by
  rw [toSize_toInt, toInt_toSize_lfsToerror]
  rfl

theorem run_lseek {fd pos whence : ℤ} {rep : Report}
    (h : report drivers s (.lseek fd pos whence) = some rep) :
    ReturnsAs (lseekR (opersOf drivers) s fd pos whence) rep := by
  obtain ⟨⟨File, fs, d⟩, hfile, h⟩ := Option.bind_eq_some_iff.1 h
  cases d with
  | fatfs lib =>
      obtain ⟨newPos, hpos, rfl⟩ := Option.map_eq_some_iff.1 h
      obtain ⟨i, rfl, hrun⟩ := ifIsVfsFile_fileOf hfile (rfl : VfsOper.seek _ = _) _
      refine ⟨_, _, by rw [lseekR, vfsSeek, hrun, Option.map_some], ?_⟩
      simp only [VfsState.deliver, sFatfsSeek, hpos, Report.Returns]
  | littlefs lib =>
      cases h
      obtain ⟨i, rfl, hrun⟩ := ifIsVfsFile_fileOf hfile (rfl : VfsOper.seek _ = _) _
      exact ⟨_, _, by rw [lseekR, vfsSeek, hrun]; rfl, rfl⟩

theorem run_close {fd : ℤ} {rep : Report} (h : report drivers s (.close fd) = some rep) :
    ReturnsAs (closeR (opersOf drivers) s fd) rep := by
  obtain ⟨⟨File, fs, d⟩, hfile, rfl⟩ := Option.map_eq_some_iff.1 h
  have hfd : 2 < fd := three_le_of_fileOf hfile
  cases d with
  | fatfs lib =>
      obtain ⟨i, rfl, hrun⟩ := ifIsVfsFile_fileOf hfile (rfl : VfsOper.close _ = _) _
      exact ⟨_, _, by rw [closeR, if_pos hfd, vfsClose, hrun]; rfl, rfl⟩
  | littlefs lib =>
      obtain ⟨i, rfl, hrun⟩ := ifIsVfsFile_fileOf hfile (rfl : VfsOper.close _ = _) _
      exact ⟨_, _, by rw [closeR, if_pos hfd, vfsClose, hrun]; rfl, rfl⟩

/-- The test of the arguments passes for a file, a buffer and a size. -/
theorem valid_args {fd : ℤ} {buf : ℕ} {len : UInt32} (hfd : 3 ≤ fd) (hargs : ¬(buf = 0 ∨ len = 0)) :
    -1 < fd ∧ buf ≠ 0 ∧ len ≠ 0 := by
  obtain ⟨hbuf, hlen⟩ := not_or.1 hargs
  exact ⟨by omega, hbuf, hlen⟩

theorem run_write {fd : ℤ} {buf : ℕ} {len : UInt32} {rep : Report}
    (h : report drivers s (.write fd buf len) = some rep) :
    ReturnsAs (writeR (opersOf drivers) stdio s fd buf len) rep := by
  rw [report] at h
  split at h
  · cases h
  · rename_i hargs
    obtain ⟨⟨File, fs, d⟩, hfile, rfl⟩ := Option.map_eq_some_iff.1 h
    have hfd := three_le_of_fileOf hfile
    have hvalid := valid_args hfd hargs
    have htty : ¬isatty fd = true := by
      rw [isatty, decide_eq_true_iff]
      omega
    rw [writeR, if_pos hvalid, if_neg htty, vfsWrite]
    cases d with
    | fatfs lib =>
        obtain ⟨i, rfl, hrun⟩ := ifIsVfsFile_fileOf hfile (rfl : VfsOper.write _ = _) _
        exact ⟨_, _, by rw [hrun]; rfl, returns_fatCount _ _⟩
    | littlefs lib =>
        obtain ⟨i, rfl, hrun⟩ := ifIsVfsFile_fileOf hfile (rfl : VfsOper.write _ = _) _
        exact ⟨_, _, by rw [hrun]; rfl, returns_lfs _⟩

theorem run_read {fd : ℤ} {buf : ℕ} {len : UInt32} {rep : Report}
    (h : report drivers s (.read fd buf len) = some rep) :
    ReturnsAs (readR (opersOf drivers) stdio s fd buf len) rep := by
  rw [report] at h
  split at h
  · cases h
  · rename_i hargs
    obtain ⟨⟨File, fs, d⟩, hfile, rfl⟩ := Option.map_eq_some_iff.1 h
    have hfd := three_le_of_fileOf hfile
    have hvalid := valid_args hfd hargs
    rw [readR, if_pos hvalid, if_neg (by omega), vfsRead]
    cases d with
    | fatfs lib =>
        obtain ⟨i, rfl, hrun⟩ := ifIsVfsFile_fileOf hfile (rfl : VfsOper.read _ = _) _
        exact ⟨_, _, by rw [hrun]; rfl, returns_fatCount _ _⟩
    | littlefs lib =>
        obtain ⟨i, rfl, hrun⟩ := ifIsVfsFile_fileOf hfile (rfl : VfsOper.read _ = _) _
        exact ⟨_, _, by rw [hrun]; rfl, returns_lfs _⟩

theorem run_open {path : Option CString} {flags mode : UInt32} {rep : Report}
    (h : report drivers s (.open path flags mode) = some rep) :
    ReturnsAs (openR (opersOf drivers) s path flags mode) rep := by
  cases path with
  | none => cases h
  | some path =>
      obtain ⟨⟨fs, d⟩, hdrive, h⟩ := Option.bind_eq_some_iff.1 h
      cases d with
      | fatfs lib =>
          obtain ⟨ret, vfs, hrun, hret⟩ := vfsOpen_driveOf flags mode hdrive rfl
          simp only [sFatfsOpen_fst_eq_zero_iff] at hret
          change (if (lib.calloc s.env.lib).1 = 0 then none else some (Report.fatOpen _)) = _ at h
          split at h
          · cases h
          · rename_i hfile
            cases h
            refine ⟨ret, vfs, by rw [openR, hrun, Option.map_some], ?_⟩
            simpa only [Report.Returns, hfile, false_or, ite_not] using hret
      | littlefs lib =>
          obtain ⟨ret, vfs, hrun, hret⟩ := vfsOpen_driveOf flags mode hdrive rfl
          simp only [sLfsOpen_fst_eq_zero_iff] at hret
          change (if (lib.calloc s.env.lib).1 = 0 then none else some (Report.lfsOpen _)) = _ at h
          split at h
          · cases h
          · rename_i hfile
            cases h
            refine ⟨ret, vfs, by rw [openR, hrun, Option.map_some], ?_⟩
            simpa only [Report.Returns, hfile, false_or, ite_not] using hret

/-- **What a system call returns**, when it reaches a driver. -/
theorem run_report {c : Syscall} {rep : Report} (h : report drivers s c = some rep) :
    ReturnsAs (c.run (opersOf drivers) stdio s) rep := by
  cases c with
  | lseek fd pos whence => exact run_lseek h
  | close fd => exact run_close h
  | «open» path flags mode => exact run_open h
  | write fd buf len => exact run_write h
  | read fd buf len => exact run_read h

end

/-! ### Faithful calls -/

/-- What a call should say: the newlib code of an error, a value, or that a file is open. -/
inductive Outcome where
  | error (code : ℤ)
  | value (v : ℤ)
  | opened
  deriving DecidableEq

/-- **A call is faithful** if it is negative with the code of the error in `errno`, or the value of
the driver, which is not negative, with `errno` zero. -/
def Outcome.Faithful : Outcome → ℤ → ℤ → Prop
  | error code, ret, errno => ret < 0 ∧ errno = code
  | value v, ret, errno => 0 ≤ ret ∧ ret = v ∧ errno = 0
  | opened, ret, errno => 0 ≤ ret ∧ errno = 0

namespace Report

/-- A result of FatFs: an error has the code that the driver's table names. -/
def fatOutcome (fr : FRESULT) (ok : Outcome) : Outcome :=
  if fr = .FR_OK then ok else .error (-ffsToerror fr)

/-- A result of littlefs: an error of `enum lfs_error` has the code of its meaning; other negative
numbers are no results of littlefs. -/
def lfsOutcome (r : Int32) (ok : Outcome) : Option Outcome :=
  if 0 ≤ r.toInt then some ok
  else (LfsError.all.find? fun e => e.code == r.toInt).map fun e => .error e.newlib

/-- What the call should say, for each report. -/
def outcome : Report → Option Outcome
  | fatOpen fr => some (fatOutcome fr .opened)
  | fatClose fr => some (fatOutcome fr (.value 0))
  | fatCount fr n => some (fatOutcome fr (.value n.toNat))
  | fatSeek fr newPos => some (fatOutcome fr (.value newPos))
  | lfsOpen r => lfsOutcome r .opened
  | lfs r => lfsOutcome r (.value r.toInt)

/-- **The reports that get through**: a file that is opened; a transfer of FatFs of less than 2 GiB
without an error, or with an error and no bytes (or as many as happen to be the code itself); a
position that is not negative; and every error of littlefs but the two without an entry in the
table of the driver whose numbers newlib uses for other errors. -/
def Good : Report → Prop
  | fatOpen fr => fr = .FR_OK
  | fatClose _ => True
  | fatCount fr n =>
      if fr = .FR_OK then n.toNat < 2 ^ 31 else n = 0 ∨ (n.toNat : ℤ) = 2 ^ 32 + ffsToerror fr
  | fatSeek fr newPos => fr = .FR_OK → 0 ≤ newPos
  | lfsOpen r => r = 0
  | lfs r => r.toInt ≠ LfsError.notempty.code ∧ r.toInt ≠ LfsError.nametoolong.code

/-- The value of `errno` behind a system call. -/
def errnoOf (ret : ℤ) : ℤ := if ret < 0 then -ret else 0

/-- A result of FatFs that is passed on: it is faithful if there is no error. -/
theorem faithful_fat {fr : FRESULT} {v : ℤ} :
    (fatOutcome fr (.value v)).Faithful (if fr ≠ .FR_OK then ffsToerror fr else v)
      (errnoOf (if fr ≠ .FR_OK then ffsToerror fr else v)) ↔ (fr = .FR_OK → 0 ≤ v) := by
  rcases eq_or_ne fr .FR_OK with rfl | hfr
  · simp only [fatOutcome, Outcome.Faithful, errnoOf, ne_eq, not_true, if_false, if_true,
      true_imp_iff]
    constructor
    · exact And.left
    · intro h
      exact ⟨h, trivial, if_neg (by omega)⟩
  · have hneg := ffsToerror_neg hfr
    simp only [fatOutcome, Outcome.Faithful, errnoOf, if_pos hfr, hfr, false_imp_iff, iff_true]
    exact ⟨by omega, if_pos (by omega)⟩

/-- A transfer of FatFs: the count is returned, if it is not zero. -/
theorem faithful_count {fr : FRESULT} {n : UInt32} {ret : ℤ}
    (hret : ret = if n ≠ 0 then toInt n else ffsToerror fr) :
    (fatOutcome fr (.value n.toNat)).Faithful ret (errnoOf ret) ↔ (fatCount fr n).Good := by
  have hlt : n.toNat < 2 ^ 32 := n.toNat_lt
  have hzero : n = 0 ↔ n.toNat = 0 := UInt32.toNat_inj.symm
  rcases eq_or_ne fr .FR_OK with rfl | hfr
  · have hn : ret = toInt n := by
      rw [hret]
      split
      · rfl
      · rename_i h
        rw [not_not.1 h]
        rfl
    simp only [fatOutcome, Outcome.Faithful, errnoOf, Good, if_true, hn, toInt]
    constructor
    · rintro ⟨-, h, -⟩
      split at h <;> omega
    · intro h
      rw [if_pos h]
      exact ⟨by omega, rfl, if_neg (by omega)⟩
  · have hneg := ffsToerror_neg hfr
    simp only [fatOutcome, Outcome.Faithful, errnoOf, Good, if_neg hfr, hzero]
    rw [hret]
    split
    · rename_i hn
      rw [Ne, hzero] at hn
      rw [toInt]
      split <;> split <;> omega
    · rename_i hn
      rw [not_not, hzero] at hn
      rw [if_pos (by omega)]
      omega

/-- The results of littlefs that say what a call should return. -/
theorem lfsOutcome_cases {r : Int32} {ok out : Outcome} (h : lfsOutcome r ok = some out) :
    0 ≤ r.toInt ∧ out = ok ∨ ∃ e : LfsError, e.code = r.toInt ∧ out = .error e.newlib := by
  rw [lfsOutcome] at h
  split at h
  · rename_i hr
    exact Or.inl ⟨hr, (Option.some.inj h).symm⟩
  · obtain ⟨e, he, rfl⟩ := Option.map_eq_some_iff.1 h
    exact Or.inr ⟨e, by simpa using List.find?_some he, rfl⟩

/-- A call that returns as the report says is faithful to it exactly if the report is good. -/
theorem faithful_iff_good {rep : Report} {out : Outcome} (hout : rep.outcome = some out) {ret : ℤ}
    (hret : rep.Returns ret) : out.Faithful ret (errnoOf ret) ↔ rep.Good := by
  cases rep with
  | fatOpen fr =>
      cases hout
      rw [Returns] at hret
      simp only [fatOutcome, Good, errnoOf]
      split at hret
      · rename_i hfr
        simp only [Outcome.Faithful, hfr, if_true, iff_true]
        exact ⟨by omega, if_neg (by omega)⟩
      · rename_i hfr
        have hneg := ffsToerror_neg hfr
        simp only [Outcome.Faithful, hfr, if_false, iff_false, hret]
        omega
  | fatClose fr =>
      cases hout
      have hret' : ret = if fr ≠ .FR_OK then ffsToerror fr else 0 := by
        rw [Returns] at hret
        split
        · exact hret
        · rename_i hfr
          rw [hret, not_not.1 hfr]
          rfl
      rw [hret', faithful_fat]
      exact ⟨fun _ => trivial, fun _ _ => Int.le_refl 0⟩
  | fatCount fr n =>
      cases hout
      exact faithful_count hret
  | fatSeek fr newPos =>
      cases hout
      cases hret
      exact faithful_fat
  | lfsOpen r =>
      have hzero : r = 0 ↔ r.toInt = 0 := (Int32.toInt_inj (y := 0)).symm
      simp only [Returns, hzero] at hret
      simp only [Good, hzero, errnoOf]
      rcases lfsOutcome_cases hout with ⟨hr, rfl⟩ | ⟨e, he, rfl⟩
      · rw [Outcome.Faithful]
        split at hret <;> split <;> omega
      · have hcode := e.code_neg
        have hnewlib := e.one_lt_newlib
        rw [Outcome.Faithful]
        split at hret <;> split <;> omega
  | lfs r =>
      rw [Returns] at hret
      simp only [Good, errnoOf]
      rcases lfsOutcome_cases hout with ⟨hr, rfl⟩ | ⟨e, he, rfl⟩
      · rw [lfsToerror_of_nonneg hr] at hret
        have h₁ := LfsError.notempty.code_neg
        have h₂ := LfsError.nametoolong.code_neg
        rw [Outcome.Faithful]
        split <;> omega
      · have hneg := lfsToerror_code_neg e
        have hcode : e.code ≠ LfsError.notempty.code ∧ e.code ≠ LfsError.nametoolong.code ↔
            lfsToerror e.code = -e.newlib := by
          rw [lfsToerror_code_iff, Ne, Ne, LfsError.code_inj, LfsError.code_inj]
        rw [← he] at hret ⊢
        rw [hcode, Outcome.Faithful, if_pos (by omega)]
        omega

end Report

/-- **A call that reaches a driver is faithful to what the file system reports exactly if the report
is good.** -/
theorem errno_faithful_iff (drivers : ℕ → Option (FsDriver φ)) (stdio : Stdio φ)
    (s : VfsState N (Env φ)) (c : Syscall) {rep : Report} {out : Outcome}
    (hrep : report drivers s c = some rep) (hout : rep.outcome = some out) :
    (∃ ret s', c.run (opersOf drivers) stdio s = some (ret, s') ∧ out.Faithful ret s'.env.errno) ↔
      rep.Good := by
  obtain ⟨ret, vfs, hrun, hret⟩ : ReturnsAs (c.run (opersOf drivers) stdio s) rep := run_report hrep
  rw [← Report.faithful_iff_good hout hret, hrun]
  constructor
  · rintro ⟨ret', s', heq, h⟩
    cases heq
    exact h
  · intro h
    exact ⟨_, _, rfl, h⟩

/-- A volume whose files are empty and cannot be written, and where opening one gives `fr`. -/
def emptyVolume (fr : FRESULT) : FatFs Unit where
  calloc _ := (0x20002000, ())
  free _ _ := ()
  fMount _ _ := (.FR_OK, ())
  fUnmount _ _ := (.FR_OK, ())
  fOpen _ _ _ _ := (fr, ())
  fClose _ _ := (.FR_OK, ())
  fWrite _ _ _ _ := ((.FR_DENIED, 0), ())
  fRead _ _ _ _ := ((.FR_OK, 0), ())
  fLseek _ _ _ := (.FR_OK, ())
  fTell _ _ := 0
  fSize _ _ := 0

/-- The volume is mounted as `0:`, and a file of it may be open. -/
def volumeMounted (file : VfsFile) : VfsState 4 (Env Unit) where
  list := ⟨0x20000110, 0, ObjHeap.empty.alloc 0x20000110 ⟨0x20000100, 0, 0⟩ (by decide)⟩
  fss := ObjHeap.empty.alloc 0x20000100 ⟨0x20000400, 48, 58, 0⟩ (by decide)
  openFiles := Function.update (fun _ => .zero) 0 file
  calls := []
  env := ⟨0, ()⟩

/-- Reading at the end of the file: nothing is read, and there is no error. -/
theorem errno_faithful_iff_endOfFile :
    ∃ ret s', (Syscall.read 3 0x20003000 16).run
        (opersOf fun _ => some (.fatfs (emptyVolume .FR_OK))) ⟨none, none⟩
        (volumeMounted ⟨0x20002000, 0x20000100, 3, 1⟩) = some (ret, s') ∧
      (Outcome.value 0).Faithful ret s'.env.errno := by
  have hrep : report (fun _ => some (.fatfs (emptyVolume .FR_OK)))
      (volumeMounted ⟨0x20002000, 0x20000100, 3, 1⟩) (.read 3 0x20003000 16) =
        some (.fatCount .FR_OK 0) := rfl
  refine (errno_faithful_iff _ ⟨none, none⟩ _ _ hrep rfl).2 ?_
  rw [Report.Good, if_pos rfl]
  decide

/-- Opening a file that does not exist: FatFs reports that there is none, the driver puts `-ENOENT`
into `errno`, and the system call replaces it by the 1 of `vfs_open`. -/
theorem errno_open_lost :
    report (fun _ => some (.fatfs (emptyVolume .FR_NO_FILE))) (volumeMounted .zero)
        (.open (some (.ofAscii "0:/a" (by decide))) 0 0) = some (.fatOpen .FR_NO_FILE) ∧
      (Report.fatOpen .FR_NO_FILE).outcome = some (.error ENOENT) ∧
      ¬∃ ret s', (Syscall.open (some (.ofAscii "0:/a" (by decide))) 0 0).run
          (opersOf fun _ => some (.fatfs (emptyVolume .FR_NO_FILE))) ⟨none, none⟩
          (volumeMounted .zero) = some (ret, s') ∧
        (Outcome.error ENOENT).Faithful ret s'.env.errno := by
  refine ⟨by decide, rfl, ?_⟩
  rintro ⟨ret, s', hrun, h⟩
  cases hrun
  exact absurd h.2 (by decide)

end Pico.Vfs
