/-
**The virtual file system.**

`library/VFS/VFS.c` resolves paths to drives and descriptors to open files, and passes the calls on
to the drivers of the file systems.  A driver is a table of functions, any of which may be missing;
what the functions do is left open, they act on an environment `σ` that is theirs.

Main definitions:

* `Pico.Vfs.VfsOper` — the table of a driver;
* `Pico.Vfs.VfsState` — the state: the list of drives, the open files, the calls that the drivers
  have received, and their environment;
* `Pico.Vfs.vfsMount`, `Pico.Vfs.vfsUnmount`, `Pico.Vfs.vfsOpen`, `Pico.Vfs.vfsClose`,
  `Pico.Vfs.vfsWrite`, `Pico.Vfs.vfsRead`, `Pico.Vfs.vfsSeek` — the calls.  They have no outcome
  when a null or dangling pointer is dereferenced;
* `Pico.Vfs.ifIsVfsFile` — the common beginning of the calls on a descriptor.
-/

import Mathlib.Logic.Function.Basic
import WizioPico.VfsList

set_option relaxedAutoImplicit false
set_option autoImplicit false

namespace Pico.Vfs

/-! ### Files and drivers -/

/-- `FILES_FD_BASE`. -/
def filesFdBase : ℤ := 3

/-- `vfs_file_t`: a slot of the table of open files. -/
structure VfsFile where
  file : ℕ
  fs : ℕ
  fd : ℤ
  hash : UInt32
  deriving DecidableEq

/-- What `memset` leaves of a slot. -/
def VfsFile.zero : VfsFile := ⟨0, 0, 0, 0⟩

/-- `vfs_oper`, the table of a driver.  Each function is given the contents of the objects that its
arguments point to; for a file these are the slot and the drive it is on.  `open` returns a handle
of the driver, which is null on failure. -/
structure VfsOper (σ : Type*) where
  init : Option (VfsT → σ → ℤ × σ)
  mount : Option (VfsT → σ → ℤ × σ)
  unmount : Option (VfsT → σ → ℤ × σ)
  «open» : Option (VfsT → CString → UInt32 → UInt32 → σ → ℕ × σ)
  close : Option (VfsFile → VfsT → σ → ℤ × σ)
  write : Option (VfsFile → VfsT → ℕ → UInt32 → σ → UInt32 × σ)
  read : Option (VfsFile → VfsT → ℕ → UInt32 → σ → UInt32 × σ)
  seek : Option (VfsFile → VfsT → ℤ → ℤ → σ → ℤ × σ)

/-- A call that a driver has received: the drive or the file it is about, and the other arguments.
For `open` the handle that was returned is recorded too.  The flags and the mode of a file are words
of bits. -/
inductive DriverCall where
  | init (fs : ℕ)
  | mount (fs : ℕ)
  | unmount (fs : ℕ)
  | «open» (fs : ℕ) (path : CString) (flags mode : UInt32) (file : ℕ)
  | close (file : VfsFile)
  | write (file : VfsFile) (buf : ℕ) (size : UInt32)
  | read (file : VfsFile) (buf : ℕ) (size : UInt32)
  | seek (file : VfsFile) (pos whence : ℤ)
  deriving DecidableEq

/-- The state of the virtual file system with `N` (`MAX_OPEN_FILES`) slots for open files.  The
calls that the drivers have received are recorded, the latest one first. -/
structure VfsState (N : ℕ) (σ : Type*) where
  list : VfsList
  fss : ObjHeap VfsT
  openFiles : Fin N → VfsFile
  calls : List DriverCall
  env : σ

variable {N : ℕ} {σ β : Type*}

/-- `pre_vfs_init`, on the zeroed table of open files. -/
def preVfsInit (N : ℕ) (env : σ) : VfsState N σ :=
  ⟨vfsCreateList, .empty, fun _ => .zero, [], env⟩

namespace VfsState

/-- A driver has received a call and returned `r.1`. -/
def deliver (s : VfsState N σ) (call : DriverCall) (r : β × σ) : β × VfsState N σ :=
  (r.1, { s with calls := call :: s.calls, env := r.2 })

/-- An assignment to a slot of the table of open files. -/
def setFile (s : VfsState N σ) (index : Fin N) (File : VfsFile) : VfsState N σ :=
  { s with openFiles := Function.update s.openFiles index File }

end VfsState

/-- `*(uint32_t *) ctx`: the table of the driver that a context begins with. -/
def operOf (opers : ℕ → Option (VfsOper σ)) (ctx : ℕ) : Option (Option (VfsOper σ)) :=
  if ctx = 0 then none else some (opers ctx)

/-! ### Mounting -/

/-- The results of the two allocations of `vfs_mount`: of the drive, and of its node. -/
structure MountMem where
  fs : ℕ
  node : ℕ
  deriving DecidableEq

/-- `vfs_add_fs`. -/
def vfsAddFs (s : VfsState N σ) (name : CString) (ctx : ℕ) (mem : MountMem) :
    Option (ℕ × VfsState N σ) :=
  (listGet s.fss s.list name).bind fun found =>
    if found ≠ 0 then some (0, s)
    else if h : mem.fs ≠ 0 then
      (listAdd s.list mem.fs mem.node).bind fun list =>
      ((s.fss.alloc mem.fs ⟨0, 0, 0, 0⟩ h).modify mem.fs fun _ => ⟨ctx, name.char 0, 58, 0⟩).bind
        fun fss => some (mem.fs, { s with list := list, fss := fss })
    else some (0, s)

/-- The part of `vfs_mount` behind `op`: the driver, if there is one, is initialised and asked to
mount the drive. -/
def mountDriver (op : Option (VfsOper σ)) (Fs : ℕ) (fs : VfsT) (s : VfsState N σ) :
    ℤ × VfsState N σ :=
  match op with
  | none => (-EACCES, s)
  | some op =>
      let s := match op.init with
        | none => s
        | some init => (s.deliver (.init Fs) (init fs s.env)).2
      match op.mount with
      | none => (-EACCES, s)
      | some mount => s.deliver (.mount Fs) (mount fs s.env)

/-- `vfs_mount`. -/
def vfsMount (opers : ℕ → Option (VfsOper σ)) (s : VfsState N σ) (path : Option CString) (ctx : ℕ)
    (mem : MountMem) : Option (ℤ × VfsState N σ) :=
  match path with
  | none => some (-ENOENT, s)
  | some path =>
      if ctx = 0 then some (-ENOENT, s)
      else (vfsAddFs s path ctx mem).bind fun (Fs, s) =>
        if Fs = 0 then some (-ENOMEM, s)
        else (s.fss.load Fs).bind fun fs =>
          if fs.ctx = 0 then some (-ENOMEM, s)
          else some (mountDriver (opers fs.ctx) Fs fs s)

/-- `vfs_get_fs`, for a path that is not null. -/
def vfsGetFs (s : VfsState N σ) (path : CString) (onlyDev : Bool) : Option ℕ :=
  if isValidDev path then
    if onlyDev then listGet s.fss s.list path
    else if 3 < path.strlen ∧ path.char 2 = 47 then listGet s.fss s.list path -- '/'
    else some 0
  else some 0

/-! ### The table of open files -/

/-- `vfs_clear_file`, for a slot. -/
def vfsClearFile (s : VfsState N σ) (index : Fin N) : VfsState N σ := s.setFile index .zero

/-- `vfs_file_is_open`, for a path that is not null. -/
def vfsFileIsOpen (s : VfsState N σ) (path : CString) : Bool :=
  let hash := strhash path
  (List.finRange N).any fun i =>
    (s.openFiles i).fd != 0 && (s.openFiles i).file != 0 && (s.openFiles i).hash != 0 &&
      hash == (s.openFiles i).hash

/-- `vfs_file_get_free_index`: the first free slot. -/
def vfsFileGetFreeIndex (s : VfsState N σ) : Option (Fin N) :=
  (List.finRange N).find? fun i => (s.openFiles i).fd == 0

/-- `vfs_file_get_index`, and with it `vfs_get_file`: the first slot with this descriptor. -/
def vfsFileGetIndex (s : VfsState N σ) (fd : ℤ) : Option (Fin N) :=
  if filesFdBase ≤ fd ∧ fd < filesFdBase + N then
    (List.finRange N).find? fun i => (s.openFiles i).fd == fd
  else none

/-- `vfs_is_file`. -/
def vfsIsFile (N : ℕ) (File : VfsFile) : Bool :=
  filesFdBase ≤ File.fd ∧ File.fd < filesFdBase + N

/-- `vfs_open`.  A null path is neither open nor does it name a drive. -/
def vfsOpen (opers : ℕ → Option (VfsOper σ)) (s : VfsState N σ) (path : Option CString)
    (flags mode : UInt32) : Option (ℤ × VfsState N σ) :=
  match path with
  | none => some (-1, s)
  | some path =>
      if vfsFileIsOpen s path then some (-1, s)
      else (vfsGetFs s path false).bind fun Fs =>
        if Fs = 0 then some (-1, s)
        else match vfsFileGetFreeIndex s with
          | none => some (-1, s)
          | some index =>
              (s.fss.load Fs).bind fun fs => (operOf opers fs.ctx).bind fun op =>
                match op with
                | none => some (-1, s)
                | some op =>
                    op.open.bind fun opn =>
                      let r := opn fs path flags mode s.env
                      let s := (s.deliver (.open Fs path flags mode r.1) r).2
                      if r.1 = 0 then
                        some (-1, s.setFile index { s.openFiles index with file := r.1 })
                      else
                        some (index + 3, s.setFile index ⟨r.1, Fs, index + 3, strhash path⟩)

/-! ### The calls on a descriptor -/

/-- `IF_IS_VFS_FILE(OPER)`: the call goes to the function `OPER` of the driver, if the descriptor is
open and the driver has the function. -/
def ifIsVfsFile (opers : ℕ → Option (VfsOper σ)) (s : VfsState N σ) (fd : ℤ)
    (OPER : VfsOper σ → Option β) (body : Fin N → VfsT → β → ℤ × VfsState N σ) :
    Option (ℤ × VfsState N σ) :=
  match vfsFileGetIndex s fd with
  | none => some (-EBADF, s)
  | some index =>
      if vfsIsFile N (s.openFiles index) then
        (s.fss.load (s.openFiles index).fs).bind fun fs => (operOf opers fs.ctx).bind fun op =>
          match op.bind OPER with
          | none => some (-EBADF, s)
          | some oper => some (body index fs oper)
      else some (-EBADF, s)

/-- `vfs_close`. -/
def vfsClose (opers : ℕ → Option (VfsOper σ)) (s : VfsState N σ) (fd : ℤ) :
    Option (ℤ × VfsState N σ) :=
  ifIsVfsFile opers s fd VfsOper.close fun index fs close =>
    let File := s.openFiles index
    let r := s.deliver (.close File) (close File fs s.env)
    (r.1, vfsClearFile r.2 index)

/-- `vfs_write`. -/
def vfsWrite (opers : ℕ → Option (VfsOper σ)) (s : VfsState N σ) (fd : ℤ) (buf : ℕ)
    (size : UInt32) :
    Option (UInt32 × VfsState N σ) :=
  (ifIsVfsFile opers s fd VfsOper.write fun index fs write =>
    let File := s.openFiles index
    let r := s.deliver (.write File buf size) (write File fs buf size s.env)
    (toInt r.1, r.2)).map fun r => (toSize r.1, r.2)

/-- `vfs_read`. -/
def vfsRead (opers : ℕ → Option (VfsOper σ)) (s : VfsState N σ) (fd : ℤ) (buf : ℕ) (size : UInt32) :
    Option (UInt32 × VfsState N σ) :=
  (ifIsVfsFile opers s fd VfsOper.read fun index fs read =>
    let File := s.openFiles index
    let r := s.deliver (.read File buf size) (read File fs buf size s.env)
    (toInt r.1, r.2)).map fun r => (toSize r.1, r.2)

/-- `vfs_seek`. -/
def vfsSeek (opers : ℕ → Option (VfsOper σ)) (s : VfsState N σ) (fd pos whence : ℤ) :
    Option (ℤ × VfsState N σ) :=
  ifIsVfsFile opers s fd VfsOper.seek fun index fs seek =>
    let File := s.openFiles index
    s.deliver (.seek File pos whence) (seek File fs pos whence s.env)

/-! ### Unmounting -/

/-- The loop of `vfs_unmount`: every slot with a file of the drive is closed. -/
def closeFilesOf (opers : ℕ → Option (VfsOper σ)) (Fs : ℕ) (s : VfsState N σ) (index : Fin N) :
    Option (VfsState N σ) :=
  if (s.openFiles index).fs = Fs then
    (vfsClose opers s (s.openFiles index).fd).map Prod.snd
  else some s

/-- `vfs_unmount`. -/
def vfsUnmount (opers : ℕ → Option (VfsOper σ)) (s : VfsState N σ) (path : Option CString) :
    Option (ℤ × VfsState N σ) :=
  match path with
  | none => some (-1, s)
  | some path =>
      (vfsGetFs s path true).bind fun Fs =>
        if Fs = 0 then some (-1, s)
        else (Runs.exec (closeFilesOf opers Fs) s (List.finRange N)).bind fun s =>
          (s.fss.load Fs).bind fun fs =>
          (if fs.ctx = 0 then some s
            else (opers fs.ctx).bind fun op => match op.unmount with
              | none => some s
              | some unmount => some (s.deliver (.unmount Fs) (unmount fs s.env)).2).bind fun s =>
          (listRemove s.list Fs).bind fun list => some (-1, { s with list := list })

/-! ### Runs -/

/-- A call of the virtual file system, with the results of its allocations. -/
inductive VfsCall where
  | mount (path : Option CString) (ctx : ℕ) (mem : MountMem)
  | unmount (path : Option CString)
  | «open» (path : Option CString) (flags mode : UInt32)
  | close (fd : ℤ)
  | write (fd : ℤ) (buf : ℕ) (size : UInt32)
  | read (fd : ℤ) (buf : ℕ) (size : UInt32)
  | seek (fd pos whence : ℤ)
  deriving DecidableEq

/-- An allocation returns null or an address at which no object is allocated. -/
def MountMem.Fresh (mem : MountMem) (s : VfsState N σ) : Prop :=
  (mem.fs = 0 ∨ s.fss.load mem.fs = none) ∧ (mem.node = 0 ∨ s.list.nodes.load mem.node = none)

instance (mem : MountMem) (s : VfsState N σ) : Decidable (mem.Fresh s) :=
  inferInstanceAs (Decidable (_ ∧ _))

/-- What a call returns, as an `int`, and the state it leaves. -/
def VfsCall.run (opers : ℕ → Option (VfsOper σ)) (s : VfsState N σ) :
    VfsCall → Option (ℤ × VfsState N σ)
  | .mount path ctx mem => if mem.Fresh s then vfsMount opers s path ctx mem else none
  | .unmount path => vfsUnmount opers s path
  | .open path flags mode => vfsOpen opers s path flags mode
  | .close fd => vfsClose opers s fd
  | .write fd buf size => (vfsWrite opers s fd buf size).map fun r => (toInt r.1, r.2)
  | .read fd buf size => (vfsRead opers s fd buf size).map fun r => (toInt r.1, r.2)
  | .seek fd pos whence => vfsSeek opers s fd pos whence

/-- The state that a call leaves. -/
def vfsStep (opers : ℕ → Option (VfsOper σ)) (s : VfsState N σ) (c : VfsCall) :
    Option (VfsState N σ) := (c.run opers s).map Prod.snd

/-! ### What a call can do -/

/-- A call on a descriptor fails without effect, or it reaches the driver. -/
theorem ifIsVfsFile_cases {opers : ℕ → Option (VfsOper σ)} {s s' : VfsState N σ} {fd ret : ℤ}
    {OPER : VfsOper σ → Option β} {body : Fin N → VfsT → β → ℤ × VfsState N σ}
    (h : ifIsVfsFile opers s fd OPER body = some (ret, s')) :
    ret = -EBADF ∧ s' = s ∨
      ∃ index fs op oper, vfsFileGetIndex s fd = some index ∧
        s.fss.load (s.openFiles index).fs = some fs ∧ opers fs.ctx = some op ∧
        OPER op = some oper ∧ (ret, s') = body index fs oper := by
  rw [ifIsVfsFile] at h
  split at h
  · cases h
    exact Or.inl ⟨rfl, rfl⟩
  · rename_i index hindex
    split at h
    · simp only [Option.bind_eq_some_iff] at h
      obtain ⟨fs, hfs, op, hop, h⟩ := h
      split at h
      · cases h
        exact Or.inl ⟨rfl, rfl⟩
      · rename_i oper hoper
        obtain ⟨op, rfl, hoper⟩ := Option.bind_eq_some_iff.1 hoper
        rw [operOf] at hop
        split at hop
        · cases hop
        · exact Or.inr ⟨index, fs, op, oper, hindex, hfs, Option.some.inj hop, hoper,
            (Option.some.inj h).symm⟩
    · cases h
      exact Or.inl ⟨rfl, rfl⟩

/-- `vfs_open` fails without effect, or it asks the driver of the drive to open the file; if the
driver does, the first free slot holds it. -/
theorem vfsOpen_cases {opers : ℕ → Option (VfsOper σ)} {s s' : VfsState N σ}
    {path : Option CString} {flags mode : UInt32} {ret : ℤ}
    (h : vfsOpen opers s path flags mode = some (ret, s')) :
    ret = -1 ∧ s' = s ∨
      ∃ p Fs index fs op opn, path = some p ∧ vfsFileIsOpen s p = false ∧
        vfsGetFs s p false = some Fs ∧ Fs ≠ 0 ∧ vfsFileGetFreeIndex s = some index ∧
        s.fss.load Fs = some fs ∧ opers fs.ctx = some op ∧ op.open = some opn ∧
        let r := opn fs p flags mode s.env
        let t := (s.deliver (.open Fs p flags mode r.1) r).2
        r.1 = 0 ∧ ret = -1 ∧ s' = t.setFile index { s.openFiles index with file := 0 } ∨
          r.1 ≠ 0 ∧ ret = index + 3 ∧ s' = t.setFile index ⟨r.1, Fs, index + 3, strhash p⟩ := by
  unfold vfsOpen at h
  split at h
  · cases h
    exact Or.inl ⟨rfl, rfl⟩
  · rename_i p
    split at h
    · cases h
      exact Or.inl ⟨rfl, rfl⟩
    · rename_i hopen
      obtain ⟨Fs, hFs, h⟩ := Option.bind_eq_some_iff.1 h
      split at h
      · cases h
        exact Or.inl ⟨rfl, rfl⟩
      · rename_i hne
        split at h
        · cases h
          exact Or.inl ⟨rfl, rfl⟩
        · rename_i index hindex
          simp only [Option.bind_eq_some_iff] at h
          obtain ⟨fs, hfs, op, hop, h⟩ := h
          split at h
          · cases h
            exact Or.inl ⟨rfl, rfl⟩
          · rename_i op
            rw [operOf] at hop
            split at hop
            · cases hop
            · obtain ⟨opn, hopn, h⟩ := Option.bind_eq_some_iff.1 h
              refine Or.inr ⟨p, Fs, index, fs, op, opn, rfl, Bool.eq_false_iff.2 hopen, hFs, hne,
                hindex, hfs, Option.some.inj hop, hopn, ?_⟩
              split at h
              · rename_i hzero
                cases h
                exact Or.inl ⟨hzero, rfl, by rw [hzero]; rfl⟩
              · rename_i hzero
                cases h
                exact Or.inr ⟨hzero, rfl, rfl⟩

/-- `vfs_unmount` has no effect on a path without a drive; else it closes the files of the drive,
asks the driver to unmount it, and takes it out of the list. -/
theorem vfsUnmount_cases {opers : ℕ → Option (VfsOper σ)} {s s' : VfsState N σ}
    {path : Option CString} {ret : ℤ} (h : vfsUnmount opers s path = some (ret, s')) :
    ret = -1 ∧ (s' = s ∧ (∀ p, path = some p → vfsGetFs s p true = some 0) ∨
      ∃ (p : CString) (Fs : ℕ) (t u : VfsState N σ) (list : VfsList), path = some p ∧
        vfsGetFs s p true = some Fs ∧ Fs ≠ 0 ∧
        Runs.exec (closeFilesOf opers Fs) s (List.finRange N) = some t ∧
        u.list = t.list ∧ u.fss = t.fss ∧ u.openFiles = t.openFiles ∧
        listRemove u.list Fs = some list ∧ s' = { u with list := list }) := by
  cases path with
  | none =>
      cases h
      exact ⟨rfl, Or.inl ⟨rfl, fun _ hp => nomatch hp⟩⟩
  | some path =>
      obtain ⟨Fs, hFs, h⟩ := Option.bind_eq_some_iff.1 h
      split at h
      · rename_i hzero
        cases h
        refine ⟨rfl, Or.inl ⟨rfl, fun p hp => ?_⟩⟩
        rw [← Option.some.inj hp, hFs, hzero]
      · rename_i hne
        obtain ⟨t, ht, h⟩ := Option.bind_eq_some_iff.1 h
        obtain ⟨fs, -, h⟩ := Option.bind_eq_some_iff.1 h
        obtain ⟨u, hu, h⟩ := Option.bind_eq_some_iff.1 h
        obtain ⟨list, hlist, h⟩ := Option.bind_eq_some_iff.1 h
        have hsame : u.list = t.list ∧ u.fss = t.fss ∧ u.openFiles = t.openFiles := by
          split at hu
          · cases hu
            exact ⟨rfl, rfl, rfl⟩
          · obtain ⟨op, -, hu⟩ := Option.bind_eq_some_iff.1 hu
            split at hu <;> · cases hu; exact ⟨rfl, rfl, rfl⟩
        cases h
        exact ⟨rfl, Or.inr ⟨path, Fs, t, u, list, rfl, hFs, hne, ht, hsame.1, hsame.2.1, hsame.2.2,
          hlist, rfl⟩⟩

end Pico.Vfs
