/-
**The table of open files.**

A session is a run of the virtual file system seen by its user: besides the state it keeps, for
each descriptor, what its own `vfs_open` was answered with, until it is closed.  The history only
uses the calls of the user and what the drivers have received, so that it says what the table of
open files should hold without looking at it.

Main definitions:

* `Pico.Vfs.Session`, `Pico.Vfs.sessionStep` — a state with its history;
* `Pico.Vfs.SessionInv` — the slot of each descriptor holds what the history says;
* `Pico.Vfs.TableSound` — what the table owes its user.

Main results:

* `Pico.Vfs.SessionInv.step` — every call keeps the invariant;
* `Pico.Vfs.openTable_sound` — **the table is sound in every reachable session**;
* `Pico.Vfs.doubleOpen_exclusion` — **a path counts as open exactly if its hash is not zero and is
  the hash of an open path.**
-/

import WizioPico.VfsMount

set_option relaxedAutoImplicit false
set_option autoImplicit false

namespace Pico.Vfs

variable {N : ℕ} {σ β : Type*} {opers : ℕ → Option (VfsOper σ)}

/-! ### Sessions -/

/-- What a descriptor was opened with: the drive, the handle of the driver, and the path. -/
structure Opened where
  fs : ℕ
  file : ℕ
  path : CString
  deriving DecidableEq

/-- A state, and for each open descriptor what it was opened with. -/
structure Session (N : ℕ) (σ : Type*) where
  vfs : VfsState N σ
  opened : ℤ → Option Opened

/-- The history behind a call: `vfs_open` opens the descriptor it returns, with the drive and the
handle of the driver's own `open`; `vfs_close` closes one, and `vfs_unmount` all of its drive. -/
def track (s : Session N σ) (c : VfsCall) (ret : ℤ) (vfs : VfsState N σ) : ℤ → Option Opened :=
  match c with
  | .open (some path) _ _ =>
      match vfs.calls.head? with
      | some (.open fs _ _ _ file) =>
          if 0 ≤ ret then Function.update s.opened ret (some ⟨fs, file, path⟩) else s.opened
      | _ => s.opened
  | .close fd => Function.update s.opened fd none
  | .unmount (some path) =>
      match vfsGetFs s.vfs path true with
      | some Fs => fun fd => (s.opened fd).filter fun o => o.fs != Fs
      | none => s.opened
  | _ => s.opened

/-- One call of the session. -/
def sessionStep (opers : ℕ → Option (VfsOper σ)) (s : Session N σ) (c : VfsCall) :
    Option (Session N σ) :=
  (c.run opers s.vfs).map fun r => ⟨r.2, track s c r.1 r.2⟩

/-- The session before the first call. -/
def Session.init (N : ℕ) (env : σ) : Session N σ := ⟨preVfsInit N env, fun _ => none⟩

/-- A driver that provides the operations on files. -/
structure VfsOper.Full (op : VfsOper σ) : Prop where
  hopen : op.open.isSome
  close : op.close.isSome
  write : op.write.isSome
  read : op.read.isSome
  seek : op.seek.isSome

/-! ### The invariant -/

/-- The slot of a descriptor, for what it was opened with. -/
def slotOf (i : Fin N) : Option Opened → VfsFile
  | none => .zero
  | some o => ⟨o.file, o.fs, i + 3, strhash o.path⟩

/-- The drive of an open descriptor is mounted and has a driver. -/
structure OpenedOk (opers : ℕ → Option (VfsOper σ)) (s : VfsState N σ) (fd : ℤ) (o : Opened) :
    Prop where
  slot : ∃ i : Fin N, fd = i + 3
  file : o.file ≠ 0
  drive : o.fs ∈ mounted s.list
  oper : ∃ fs op, s.fss.load o.fs = some fs ∧ fs.ctx ≠ 0 ∧ opers fs.ctx = some op

/-- Descriptors stay open on drives that stay mounted. -/
theorem OpenedOk.mono {s t : VfsState N σ} {fd : ℤ} {o : Opened} (h : OpenedOk opers s fd o)
    (hdrive : o.fs ∈ mounted t.list) (hload : t.fss.load o.fs = s.fss.load o.fs) :
    OpenedOk opers t fd o where
  slot := h.slot
  file := h.file
  drive := hdrive
  oper := hload.symm ▸ h.oper

/-- **The invariant of a session**: the slots hold what the history says, descriptors are open on
mounted drives, and no two of them have the same hash other than zero. -/
structure SessionInv (opers : ℕ → Option (VfsOper σ)) (s : Session N σ) : Prop where
  drives : DrivesOk s.vfs
  files : ∀ i : Fin N, s.vfs.openFiles i = slotOf i (s.opened (i + 3))
  opened : ∀ fd o, s.opened fd = some o → OpenedOk opers s.vfs fd o
  unique : ∀ fd fd' o o', s.opened fd = some o → s.opened fd' = some o' →
    strhash o.path = strhash o'.path → strhash o.path ≠ 0 → fd = fd'

theorem sessionInv_init (env : σ) : SessionInv opers (Session.init N env) where
  drives := drivesOk_preVfsInit env
  files _ := rfl
  opened _ _ h := nomatch h
  unique _ _ _ _ h := nomatch h

namespace SessionInv

variable {s : Session N σ}

/-- The slot of an open descriptor. -/
theorem exists_slot (hs : SessionInv opers s) {fd : ℤ} {o : Opened} (h : s.opened fd = some o) :
    ∃ i : Fin N, fd = i + 3 ∧ s.vfs.openFiles i = ⟨o.file, o.fs, fd, strhash o.path⟩ := by
  obtain ⟨i, rfl⟩ := (hs.opened fd o h).slot
  refine ⟨i, rfl, ?_⟩
  rw [hs.files i, h, slotOf]

/-- The descriptor in a slot that is not free. -/
theorem opened_of_fd_ne_zero (hs : SessionInv opers s) {i : Fin N}
    (h : (s.vfs.openFiles i).fd ≠ 0) :
    ∃ o, s.opened (i + 3) = some o ∧ (s.vfs.openFiles i).fd = i + 3 := by
  rw [hs.files i] at h ⊢
  cases ho : s.opened (i + 3) with
  | none =>
      rw [ho] at h
      exact absurd rfl h
  | some o => exact ⟨o, rfl, rfl⟩

/-- A slot is free exactly if its descriptor is not open. -/
theorem fd_eq_zero_iff (hs : SessionInv opers s) (i : Fin N) :
    (s.vfs.openFiles i).fd = 0 ↔ s.opened (i + 3) = none := by
  constructor
  · intro h
    cases ho : s.opened (i + 3) with
    | none => rfl
    | some o =>
        rw [hs.files i, ho] at h
        have : (i : ℤ) + 3 = 0 := h
        omega
  · intro h
    rw [hs.files i, h]
    rfl

/-- The lookup finds the slot of an open descriptor. -/
theorem vfsFileGetIndex_some (hs : SessionInv opers s) {fd : ℤ} {o : Opened}
    (h : s.opened fd = some o) :
    ∃ i : Fin N, fd = i + 3 ∧ vfsFileGetIndex s.vfs fd = some i ∧
      s.vfs.openFiles i = ⟨o.file, o.fs, fd, strhash o.path⟩ := by
  obtain ⟨i, rfl, hslot⟩ := hs.exists_slot h
  refine ⟨i, rfl, ?_, hslot⟩
  have hrange : filesFdBase ≤ (i : ℤ) + 3 ∧ (i : ℤ) + 3 < filesFdBase + N := by
    have := i.isLt
    unfold filesFdBase
    omega
  rw [vfsFileGetIndex, if_pos hrange]
  have hsome : ((List.finRange N).find? fun j => (s.vfs.openFiles j).fd == (i : ℤ) + 3).isSome :=
    List.find?_isSome.2 ⟨i, List.mem_finRange i, by simp [hslot]⟩
  obtain ⟨j, hj⟩ := Option.isSome_iff_exists.1 hsome
  have hjfd : (s.vfs.openFiles j).fd = i + 3 := by simpa using List.find?_some hj
  obtain ⟨-, -, hj3⟩ := hs.opened_of_fd_ne_zero (i := j) (by omega)
  rw [hj, Fin.ext (by omega : (j : ℕ) = i)]

/-- The lookup of a descriptor that is not open fails. -/
theorem vfsFileGetIndex_none (hs : SessionInv opers s) {fd : ℤ} (h : s.opened fd = none) :
    vfsFileGetIndex s.vfs fd = none := by
  rw [vfsFileGetIndex]
  split
  · rename_i hrange
    refine List.find?_eq_none.2 fun i _ hi => ?_
    have hfd : (s.vfs.openFiles i).fd = fd := beq_iff_eq.1 hi
    have hne : (s.vfs.openFiles i).fd ≠ 0 := by
      unfold filesFdBase at hrange
      omega
    obtain ⟨o, ho, hfd'⟩ := hs.opened_of_fd_ne_zero hne
    rw [← hfd', hfd, h] at ho
    cases ho
  · rfl

/-- A call on a descriptor that is not open fails without effect. -/
theorem ifIsVfsFile_closed (hs : SessionInv opers s) {fd : ℤ} (h : s.opened fd = none)
    (OPER : VfsOper σ → Option β) (body : Fin N → VfsT → β → ℤ × VfsState N σ) :
    ifIsVfsFile opers s.vfs fd OPER body = some (-EBADF, s.vfs) := by
  rw [ifIsVfsFile, hs.vfsFileGetIndex_none h]

/-- A call on an open descriptor reaches the driver of its drive, with its slot. -/
theorem ifIsVfsFile_open (hs : SessionInv opers s) {fd : ℤ} {o : Opened} (h : s.opened fd = some o)
    {OPER : VfsOper σ → Option β} (hfull : ∀ ctx op, opers ctx = some op → (OPER op).isSome)
    (body : Fin N → VfsT → β → ℤ × VfsState N σ) :
    ∃ (i : Fin N) (fs : VfsT) (op : VfsOper σ) (oper : β), fd = i + 3 ∧
      s.vfs.openFiles i = ⟨o.file, o.fs, fd, strhash o.path⟩ ∧ s.vfs.fss.load o.fs = some fs ∧
      opers fs.ctx = some op ∧ OPER op = some oper ∧
      ifIsVfsFile opers s.vfs fd OPER body = some (body i fs oper) := by
  obtain ⟨i, rfl, hindex, hslot⟩ := hs.vfsFileGetIndex_some h
  obtain ⟨fs, op, hfs, hctx, hop⟩ := (hs.opened _ o h).oper
  obtain ⟨oper, hoper⟩ := Option.isSome_iff_exists.1 (hfull fs.ctx op hop)
  refine ⟨i, fs, op, oper, rfl, hslot, hfs, hop, hoper, ?_⟩
  have hfile : vfsIsFile N (s.vfs.openFiles i) = true := by
    have := i.isLt
    rw [hslot, vfsIsFile, decide_eq_true_iff]
    unfold filesFdBase
    constructor <;> dsimp only <;> omega
  rw [hslot] at hfile
  rw [ifIsVfsFile, hindex]
  simp only [hslot, if_pos hfile, hfs, Option.bind_some, operOf, if_neg hctx, hop, hoper]

/-- The slot `vfs_open` takes belongs to no open descriptor. -/
theorem freeIndex_closed (hs : SessionInv opers s) {i : Fin N}
    (h : vfsFileGetFreeIndex s.vfs = some i) : s.opened (i + 3) = none :=
  (hs.fd_eq_zero_iff i).1 (by simpa using List.find?_some (a := i) (l := List.finRange N) h)

/-- There is such a slot if some descriptor is not open. -/
theorem exists_freeIndex (hs : SessionInv opers s) {i : Fin N} (h : s.opened (i + 3) = none) :
    ∃ j, vfsFileGetFreeIndex s.vfs = some j := by
  refine Option.isSome_iff_exists.1 (List.find?_isSome.2 ⟨i, List.mem_finRange i, ?_⟩)
  exact beq_iff_eq.2 ((hs.fd_eq_zero_iff i).2 h)

/-- **A path counts as open** exactly if its hash is not zero and is the hash of an open path. -/
theorem vfsFileIsOpen_iff (hs : SessionInv opers s) (path : CString) :
    vfsFileIsOpen s.vfs path = true ↔
      strhash path ≠ 0 ∧ ∃ fd o, s.opened fd = some o ∧ strhash o.path = strhash path := by
  simp only [vfsFileIsOpen, List.any_eq_true, Bool.and_eq_true, bne_iff_ne, beq_iff_eq]
  constructor
  · rintro ⟨i, -, ⟨⟨hfd, -⟩, hhash⟩, heq⟩
    obtain ⟨o, ho, -⟩ := hs.opened_of_fd_ne_zero hfd
    rw [hs.files i, ho] at hhash heq
    exact ⟨fun h => hhash (heq ▸ h), _, o, ho, heq.symm⟩
  · rintro ⟨hne, fd, o, ho, heq⟩
    obtain ⟨i, rfl, hslot⟩ := hs.exists_slot ho
    refine ⟨i, List.mem_finRange i, ?_⟩
    rw [hslot]
    exact ⟨⟨⟨by dsimp only; omega, (hs.opened _ o ho).file⟩, fun h => hne (heq ▸ h)⟩, heq.symm⟩

/-! ### Every call keeps the invariant -/

/-- The invariant when the drives change, as long as those with open files stay. -/
theorem moveDrives (hs : SessionInv opers s) {vfs : VfsState N σ} (hdrives : DrivesOk vfs)
    (hfiles : vfs.openFiles = s.vfs.openFiles)
    (hstay : ∀ fd o, s.opened fd = some o →
      o.fs ∈ mounted vfs.list ∧ vfs.fss.load o.fs = s.vfs.fss.load o.fs) :
    SessionInv opers ⟨vfs, s.opened⟩ where
  drives := hdrives
  files i := (congrFun hfiles i).trans (hs.files i)
  opened fd o ho := (hs.opened fd o ho).mono (hstay fd o ho).1 (hstay fd o ho).2
  unique := hs.unique

/-- The invariant does not depend on what the drivers have received. -/
theorem frame (hs : SessionInv opers s) {vfs : VfsState N σ} (hsame : SameDrives s.vfs vfs)
    (hfiles : vfs.openFiles = s.vfs.openFiles) : SessionInv opers ⟨vfs, s.opened⟩ :=
  hs.moveDrives (hsame.drivesOk hs.drives) hfiles fun fd o ho =>
    ⟨hsame.1 ▸ (hs.opened fd o ho).drive, by rw [hsame.2]⟩

/-- The slots of the other descriptors. -/
theorem fin_add_three_ne {i j : Fin N} (h : j ≠ i) : (j : ℤ) + 3 ≠ i + 3 := fun heq =>
  h (Fin.ext (by omega))

/-- Opening a file in a free slot. -/
theorem openFile (hs : SessionInv opers s) {vfs : VfsState N σ} {i : Fin N} {o : Opened}
    (hsame : SameDrives s.vfs vfs)
    (hfiles : vfs.openFiles = Function.update s.vfs.openFiles i (slotOf i (some o)))
    (hok : OpenedOk opers s.vfs (i + 3) o)
    (hhash : ∀ fd o', s.opened fd = some o' → strhash o'.path = strhash o.path →
      strhash o.path = 0) :
    SessionInv opers ⟨vfs, Function.update s.opened (i + 3) (some o)⟩ where
  drives := hsame.drivesOk hs.drives
  files j := by
    dsimp only
    rw [hfiles]
    rcases eq_or_ne j i with rfl | hj
    · rw [Function.update_self, Function.update_self]
    · rw [Function.update_of_ne hj, Function.update_of_ne (fin_add_three_ne hj), hs.files j]
  opened fd o' ho' := by
    dsimp only at ho' ⊢
    have hframe : OpenedOk opers s.vfs fd o' → OpenedOk opers vfs fd o' := fun h =>
      h.mono (hsame.1 ▸ h.drive) (by rw [hsame.2])
    rcases eq_or_ne fd (i + 3) with rfl | hfd
    · obtain rfl : o = o' := by simpa using ho'
      exact hframe hok
    · rw [Function.update_of_ne hfd] at ho'
      exact hframe (hs.opened fd o' ho')
  unique fd fd' o₁ o₂ h₁ h₂ heq hne := by
    dsimp only at h₁ h₂
    rcases eq_or_ne fd (i + 3) with rfl | hfd <;> rcases eq_or_ne fd' (i + 3) with rfl | hfd'
    · rfl
    · rw [Function.update_of_ne hfd'] at h₂
      obtain rfl : o = o₁ := by simpa using h₁
      exact absurd (hhash fd' o₂ h₂ heq.symm) hne
    · rw [Function.update_of_ne hfd] at h₁
      obtain rfl : o = o₂ := by simpa using h₂
      exact absurd (heq.trans (hhash fd o₁ h₁ heq)) hne
    · rw [Function.update_of_ne hfd] at h₁
      rw [Function.update_of_ne hfd'] at h₂
      exact hs.unique fd fd' o₁ o₂ h₁ h₂ heq hne

/-- Closing the file of a slot. -/
theorem closeFile (hs : SessionInv opers s) {vfs : VfsState N σ} {i : Fin N}
    (hsame : SameDrives s.vfs vfs)
    (hfiles : vfs.openFiles = Function.update s.vfs.openFiles i .zero) :
    SessionInv opers ⟨vfs, Function.update s.opened (i + 3) none⟩ := by
  have hold : ∀ {fd o}, Function.update s.opened (i + 3) none fd = some o →
      s.opened fd = some o := by
    intro fd o ho
    rcases eq_or_ne fd (i + 3) with rfl | hfd
    · simp at ho
    · rwa [Function.update_of_ne hfd] at ho
  refine ⟨hsame.drivesOk hs.drives, fun j => ?_, fun fd o ho => ?_, fun fd fd' o o' h h' => ?_⟩
  · dsimp only
    rw [hfiles]
    rcases eq_or_ne j i with rfl | hj
    · rw [Function.update_self, Function.update_self, slotOf]
    · rw [Function.update_of_ne hj, Function.update_of_ne (fin_add_three_ne hj), hs.files j]
  · have h := hs.opened fd o (hold ho)
    exact h.mono (hsame.1 ▸ h.drive) (by rw [hsame.2])
  · exact hs.unique fd fd' o o' (hold h) (hold h')

/-- `vfs_close` of an open descriptor tells its driver, and frees its slot. -/
theorem vfsClose_eq (hs : SessionInv opers s)
    (hclose : ∀ ctx op, opers ctx = some op → op.close.isSome) {i : Fin N} {o : Opened}
    (h : s.opened (i + 3) = some o) :
    ∃ ret env, vfsClose opers s.vfs (i + 3) =
      some (ret, { s.vfs with
        openFiles := Function.update s.vfs.openFiles i .zero
        calls := .close (slotOf i (some o)) :: s.vfs.calls
        env := env }) := by
  obtain ⟨j, fs, op, close, hj, hslot, -, -, -, heq⟩ := hs.ifIsVfsFile_open h hclose _
  obtain rfl : i = j := Fin.ext (by omega)
  refine ⟨(close (s.vfs.openFiles i) fs s.vfs.env).1, (close (s.vfs.openFiles i) fs s.vfs.env).2,
    heq.trans ?_⟩
  rw [slotOf, ← hslot]
  rfl

/-- `vfs_close` of an open descriptor keeps the invariant. -/
theorem vfsClose_open (hs : SessionInv opers s)
    (hclose : ∀ ctx op, opers ctx = some op → op.close.isSome) {fd : ℤ} {o : Opened}
    (h : s.opened fd = some o) {ret : ℤ} {vfs : VfsState N σ}
    (hrun : vfsClose opers s.vfs fd = some (ret, vfs)) :
    SessionInv opers ⟨vfs, Function.update s.opened fd none⟩ := by
  obtain ⟨i, rfl⟩ := (hs.opened fd o h).slot
  obtain ⟨ret', env, heq⟩ := hs.vfsClose_eq hclose h
  rw [heq] at hrun
  cases hrun
  exact hs.closeFile ⟨rfl, rfl⟩ rfl

end SessionInv

/-- The history of a descriptor behind the unmounting of a drive. -/
def leave (Fs : ℕ) (o : Option Opened) : Option Opened := o.filter fun o => o.fs != Fs

/-- What the driver receives of the loop of `vfs_unmount`, for a slot: the file, if it is one of the
drive. -/
def closesOf (Fs : ℕ) (opened : ℤ → Option Opened) (i : Fin N) : List DriverCall :=
  match opened (i + 3) with
  | none => []
  | some o => if o.fs = Fs then [.close (slotOf i (some o))] else []

namespace SessionInv

variable {s : Session N σ}

/-- One round of the loop of `vfs_unmount`. -/
theorem closeFilesOf_eq (hs : SessionInv opers s)
    (hclose : ∀ ctx op, opers ctx = some op → op.close.isSome) {Fs : ℕ} (hFs : Fs ≠ 0)
    (i : Fin N) :
    ∃ vfs, closeFilesOf opers Fs s.vfs i = some vfs ∧
      SessionInv opers ⟨vfs, Function.update s.opened (i + 3) (leave Fs (s.opened (i + 3)))⟩ ∧
      SameDrives s.vfs vfs ∧ vfs.calls = closesOf Fs s.opened i ++ s.vfs.calls := by
  have hslot := hs.files i
  cases ho : s.opened (i + 3) with
  | none =>
      rw [ho] at hslot
      refine ⟨s.vfs, ?_, ?_, .refl _, by rw [closesOf, ho]; rfl⟩
      · rw [closeFilesOf, hslot]
        exact if_neg hFs.symm
      · have hkeep : leave Fs none = s.opened (i + 3) := ho.symm
        rw [hkeep, Function.update_eq_self]
        exact hs
  | some o =>
      rw [ho] at hslot
      by_cases hfs : o.fs = Fs
      · obtain ⟨ret, env, heq⟩ := hs.vfsClose_eq hclose ho
        refine ⟨{ s.vfs with
          openFiles := Function.update s.vfs.openFiles i .zero
          calls := .close (slotOf i (some o)) :: s.vfs.calls
          env := env }, ?_, ?_, ⟨rfl, rfl⟩, ?_⟩
        · rw [closeFilesOf, hslot]
          exact (if_pos hfs).trans (congrArg (Option.map Prod.snd) heq)
        · have hleave : leave Fs (some o) = none := by simp [leave, hfs]
          rw [hleave]
          exact hs.closeFile ⟨rfl, rfl⟩ rfl
        · simp [closesOf, ho, hfs]
      · refine ⟨s.vfs, ?_, ?_, .refl _, by simp [closesOf, ho, hfs]⟩
        · rw [closeFilesOf, hslot]
          exact if_neg hfs
        · have hkeep : leave Fs (some o) = s.opened (i + 3) := by simp [leave, hfs, ho]
          rw [hkeep, Function.update_eq_self]
          exact hs

/-- **What the loop of `vfs_unmount` does**: the files of the drive are closed, in the order of
their slots, and no others. -/
theorem closeFiles (hclose : ∀ ctx op, opers ctx = some op → op.close.isSome) {Fs : ℕ}
    (hFs : Fs ≠ 0) : ∀ {is : List (Fin N)} {s : Session N σ}, SessionInv opers s → is.Nodup →
      ∃ vfs opened, Runs.exec (closeFilesOf opers Fs) s.vfs is = some vfs ∧
        SessionInv opers ⟨vfs, opened⟩ ∧ SameDrives s.vfs vfs ∧
        vfs.calls = (is.flatMap (closesOf Fs s.opened)).reverse ++ s.vfs.calls ∧
        (∀ i ∈ is, opened ((i : ℕ) + 3) = leave Fs (s.opened ((i : ℕ) + 3))) ∧
        ∀ fd : ℤ, (∀ i ∈ is, fd ≠ (i : ℕ) + 3) → opened fd = s.opened fd := by
  intro is
  induction is with
  | nil =>
      intro s hs _
      exact ⟨s.vfs, s.opened, rfl, hs, .refl _, rfl, fun _ hi => (nomatch hi), fun _ _ => rfl⟩
  | cons i is ih =>
      intro s hs hnd
      obtain ⟨hi, hnd⟩ := List.nodup_cons.1 hnd
      obtain ⟨t, ht, hinv, hsame, hcalls⟩ := hs.closeFilesOf_eq hclose hFs i
      obtain ⟨vfs, opened, hexec, hinv', hsame', hcalls', hleft, hkept⟩ := ih hinv hnd
      have hne : ∀ j ∈ is, j ≠ i := by
        rintro j hj rfl
        exact hi hj
      have hother : ∀ j ∈ is, Function.update s.opened (i + 3) (leave Fs (s.opened (i + 3))) (j + 3)
          = s.opened (j + 3) := by
        intro j hj
        exact Function.update_of_ne (fin_add_three_ne (hne j hj)) _ _
      refine ⟨vfs, opened, ?_, hinv', hsame.trans hsame', ?_, fun j hj => ?_, fun fd hfd => ?_⟩
      · rw [Runs.exec_cons, ht]
        exact hexec
      · have hrest : is.flatMap (closesOf Fs
            (Function.update s.opened (i + 3) (leave Fs (s.opened (i + 3))))) =
            is.flatMap (closesOf Fs s.opened) :=
          List.flatMap_congr fun j hj => by rw [closesOf, hother j hj, ← closesOf]
        have honce : (closesOf Fs s.opened i).reverse = closesOf Fs s.opened i := by
          rw [closesOf]
          split
          · rfl
          · split <;> rfl
        rw [hcalls', hrest, hcalls, List.flatMap_cons, List.reverse_append, honce,
          List.append_assoc]
      · rcases List.mem_cons.1 hj with rfl | hj
        · rw [hkept _ fun k hk => fin_add_three_ne (hne k hk).symm]
          exact Function.update_self _ _ _
        · rw [hleft j hj]
          exact congrArg (leave Fs) (hother j hj)
      · rw [hkept fd fun j hj => hfd j (List.mem_cons_of_mem i hj)]
        exact Function.update_of_ne (hfd i List.mem_cons_self) _ _

/-- The history behind the unmounting of a drive. -/
theorem closeFiles_all (hclose : ∀ ctx op, opers ctx = some op → op.close.isSome) {Fs : ℕ}
    (hFs : Fs ≠ 0) (hs : SessionInv opers s) :
    ∃ vfs, Runs.exec (closeFilesOf opers Fs) s.vfs (List.finRange N) = some vfs ∧
      SessionInv opers ⟨vfs, fun fd => leave Fs (s.opened fd)⟩ ∧ SameDrives s.vfs vfs ∧
      vfs.calls = ((List.finRange N).flatMap (closesOf Fs s.opened)).reverse ++ s.vfs.calls := by
  obtain ⟨vfs, opened, hexec, hinv, hsame, hcalls, hleft, hkept⟩ :=
    closeFiles hclose hFs hs (List.nodup_finRange N)
  refine ⟨vfs, hexec, ?_, hsame, hcalls⟩
  have hopened : opened = fun fd => leave Fs (s.opened fd) := by
    funext fd
    by_cases hfd : ∃ i : Fin N, fd = i + 3
    · obtain ⟨i, rfl⟩ := hfd
      exact hleft i (List.mem_finRange i)
    · rw [hkept fd fun i _ h => hfd ⟨i, h⟩]
      cases ho : s.opened fd with
      | none => rfl
      | some o => exact absurd (hs.opened fd o ho).slot hfd
  exact hopened ▸ hinv

/-- A failed `vfs_open` opens nothing. -/
theorem track_open_neg (s : Session N σ) (path : Option CString) (flags mode : UInt32) {ret : ℤ}
    (hret : ret < 0) (vfs : VfsState N σ) :
    track s (.open path flags mode) ret vfs = s.opened := by
  cases path with
  | none => rfl
  | some path =>
      simp only [track]
      split
      · exact if_neg (by omega)
      · rfl

theorem step_mount (hs : SessionInv opers s) {path : Option CString} {ctx : ℕ} {mem : MountMem}
    {ret : ℤ} {vfs : VfsState N σ}
    (h : (VfsCall.mount path ctx mem).run opers s.vfs = some (ret, vfs)) :
    SessionInv opers ⟨vfs, s.opened⟩ := by
  rw [VfsCall.run] at h
  split at h
  · rename_i hmem
    cases path with
    | none =>
        cases h
        exact hs
    | some path =>
        rcases vfsMount_cases opers hs.drives path ctx hmem with
          ⟨-, r, -, hr⟩ | ⟨⟨-, -, hfs⟩, ⟨-, hr⟩ | ⟨-, t, hr, ht, hfiles, hlist, -, hold⟩⟩ <;>
          rw [hr] at h <;> cases h
        · exact hs
        · refine hs.moveDrives ht hfiles fun fd o ho => ?_
          have hd := (hs.opened fd o ho).drive
          refine ⟨hlist ▸ List.mem_append_left _ hd, hold o.fs fun heq => ?_⟩
          exact vfsMount_fresh_notMem hs.drives hmem hfs (heq ▸ hd)
  · cases h

theorem step_unmount (hs : SessionInv opers s)
    (hclose : ∀ ctx op, opers ctx = some op → op.close.isSome)
    {path : Option CString} {ret : ℤ} {vfs : VfsState N σ}
    (h : vfsUnmount opers s.vfs path = some (ret, vfs)) :
    SessionInv opers ⟨vfs, track s (.unmount path) ret vfs⟩ := by
  have hdrives : DrivesOk vfs := hs.drives.run (c := .unmount path) h
  rcases (vfsUnmount_cases h).2 with
    ⟨rfl, hno⟩ | ⟨p, Fs, t, u, list, rfl, hFs, hne, hexec, hlist, hfss, hfiles, hremove, rfl⟩
  · have hkeep : track s (.unmount path) ret s.vfs = s.opened := by
      cases path with
      | none => rfl
      | some p =>
          simp only [track, hno p rfl]
          funext fd
          cases ho : s.opened fd with
          | none => rfl
          | some o =>
              obtain ⟨v, hv, -⟩ := hs.drives.drive o.fs (hs.opened fd o ho).drive
              simp [ObjHeap.ne_zero_of_load hv]
    rw [hkeep]
    exact hs
  · obtain ⟨t', hexec', hinv, hsame, -⟩ := closeFiles_all hclose hne hs
    obtain rfl : t' = t := Option.some.inj (hexec'.symm.trans hexec)
    have htrack : track s (.unmount (some p)) ret { u with list := list } =
        fun fd => leave Fs (s.opened fd) := by
      simp only [track, hFs]
      rfl
    rw [hlist, hsame.1] at hremove
    obtain ⟨hmounted, -⟩ := hs.drives.listRemove (hs.drives.vfsGetFs_mem hFs hne) hremove
    rw [htrack]
    refine hinv.moveDrives hdrives hfiles fun fd o ho => ⟨?_, by rw [hfss]⟩
    have hd := (hinv.opened fd o ho).drive
    obtain ⟨-, hother⟩ := Option.filter_eq_some_iff.1 ho
    rw [hmounted]
    exact (List.mem_erase_of_ne (bne_iff_ne.1 hother)).2 (hsame.1 ▸ hd)

theorem step_open (hs : SessionInv opers s) {path : Option CString} {flags mode : UInt32} {ret : ℤ}
    {vfs : VfsState N σ} (h : vfsOpen opers s.vfs path flags mode = some (ret, vfs)) :
    SessionInv opers ⟨vfs, track s (.open path flags mode) ret vfs⟩ := by
  rcases vfsOpen_cases h with
    ⟨rfl, rfl⟩ | ⟨p, Fs, i, fs, op, opn, rfl, hnot, hFs, hne, hindex, hfs, hop, -, hcases⟩
  · rw [track_open_neg s path flags mode (by omega)]
    exact hs
  have hclosed := hs.freeIndex_closed hindex
  rcases hcases with ⟨-, rfl, rfl⟩ | ⟨hfile, rfl, rfl⟩
  · -- the driver has failed, and the free slot is written with the null handle it has already
    rw [track_open_neg s (some p) flags mode (by omega)]
    refine hs.frame ⟨rfl, rfl⟩ ?_
    have hslot : ({ s.vfs.openFiles i with file := 0 } : VfsFile) = s.vfs.openFiles i := by
      rw [hs.files i, hclosed]
      rfl
    exact hslot ▸ Function.update_eq_self i s.vfs.openFiles
  · have hdrive := hs.drives.vfsGetFs_mem hFs hne
    obtain ⟨v, hv, hctx⟩ := hs.drives.drive Fs hdrive
    obtain rfl : v = fs := Option.some.inj (hv.symm.trans hfs)
    have htrack : ∀ {file : ℕ} {t : VfsState N σ},
        t.calls.head? = some (.open Fs p flags mode file) →
          track s (.open (some p) flags mode) (i + 3) t =
            Function.update s.opened (i + 3) (some ⟨Fs, file, p⟩) := by
      intro file t ht
      simp only [track, ht, if_pos (by omega : (0 : ℤ) ≤ i + 3)]
    rw [htrack rfl]
    refine hs.openFile ⟨rfl, rfl⟩ rfl ⟨⟨i, rfl⟩, hfile, hdrive, v, op, hv, hctx, hop⟩ ?_
    intro fd o ho heq
    by_contra hzero
    have := (hs.vfsFileIsOpen_iff p).2 ⟨hzero, fd, o, ho, heq⟩
    rw [hnot] at this
    cases this

/-- Calls that pass a descriptor on to its driver. -/
theorem step_descriptor (hs : SessionInv opers s) {fd ret : ℤ} {OPER : VfsOper σ → Option β}
    {body : Fin N → VfsT → β → ℤ × VfsState N σ} {vfs : VfsState N σ}
    (h : ifIsVfsFile opers s.vfs fd OPER body = some (ret, vfs))
    (hbody : ∀ i fs oper, SameDrives s.vfs (body i fs oper).2 ∧
      (body i fs oper).2.openFiles = s.vfs.openFiles) : SessionInv opers ⟨vfs, s.opened⟩ := by
  rcases ifIsVfsFile_cases h with ⟨-, rfl⟩ | ⟨i, fs, op, oper, -, -, -, -, heq⟩
  · exact hs
  · have := hbody i fs oper
    rw [← heq] at this
    exact hs.frame this.1 this.2

/-- **Every call keeps the invariant.** -/
theorem step (hclose : ∀ ctx op, opers ctx = some op → op.close.isSome)
    (hs : SessionInv opers s) {c : VfsCall} {s' : Session N σ}
    (h : sessionStep opers s c = some s') : SessionInv opers s' := by
  obtain ⟨⟨ret, vfs⟩, hr, rfl⟩ := Option.map_eq_some_iff.1 h
  cases c with
  | mount path ctx mem => exact hs.step_mount hr
  | unmount path => exact hs.step_unmount hclose hr
  | «open» path flags mode => exact hs.step_open hr
  | close fd =>
      cases ho : s.opened fd with
      | none =>
          rw [VfsCall.run, vfsClose, hs.ifIsVfsFile_closed ho] at hr
          cases hr
          have hkeep : Function.update s.opened fd none = s.opened := by
            rw [← ho]
            exact Function.update_eq_self fd s.opened
          change SessionInv opers ⟨s.vfs, Function.update s.opened fd none⟩
          rw [hkeep]
          exact hs
      | some o => exact hs.vfsClose_open hclose ho hr
  | write fd buf size =>
      simp only [VfsCall.run, vfsWrite, Option.map_map, Option.map_eq_some_iff] at hr
      obtain ⟨⟨r, t⟩, hr, heq⟩ := hr
      cases heq
      exact hs.step_descriptor hr fun _ _ _ => ⟨⟨rfl, rfl⟩, rfl⟩
  | read fd buf size =>
      simp only [VfsCall.run, vfsRead, Option.map_map, Option.map_eq_some_iff] at hr
      obtain ⟨⟨r, t⟩, hr, heq⟩ := hr
      cases heq
      exact hs.step_descriptor hr fun _ _ _ => ⟨⟨rfl, rfl⟩, rfl⟩
  | seek fd pos whence => exact hs.step_descriptor hr fun _ _ _ => ⟨⟨rfl, rfl⟩, rfl⟩

end SessionInv

/-- The invariant holds in every reachable session. -/
theorem sessionInv_of_reach (hclose : ∀ ctx op, opers ctx = some op → op.close.isSome) {env : σ}
    {s : Session N σ} (h : Runs.Reach (sessionStep opers) (Session.init N env) s) :
    SessionInv opers s :=
  h.invariant (sessionInv_init env) fun _ _ _ hs hstep => hs.step hclose hstep

/-! ### The table is sound -/

/-- The driver `op` of the drive `fs` that a file was opened on, and the slot `File` that it is
called with: the slot has the handle of the file's own `open`. -/
structure DriverOf (opers : ℕ → Option (VfsOper σ)) (s : VfsState N σ) (o : Opened) (fs : VfsT)
    (op : VfsOper σ) (File : VfsFile) : Prop where
  drive : s.fss.load o.fs = some fs
  oper : opers fs.ctx = some op
  hfile : File.file = o.file
  hfs : File.fs = o.fs

/-- **What the table owes its user**: every slot is free, or holds its descriptor with a handle and
a mounted drive; a descriptor that is returned was not open; calls on an open descriptor are
delivered once, and return what the driver returns; and calls on any other number fail without
effect. -/
structure TableSound (opers : ℕ → Option (VfsOper σ)) (s : Session N σ) : Prop where
  slots : ∀ i : Fin N, (s.vfs.openFiles i).fd = 0 ∨
    (s.vfs.openFiles i).fd = i + 3 ∧ (s.vfs.openFiles i).file ≠ 0 ∧
      (s.vfs.openFiles i).fs ∈ mounted s.vfs.list
  fresh : ∀ path flags mode ret vfs, vfsOpen opers s.vfs path flags mode = some (ret, vfs) →
    ret = -1 ∨ 3 ≤ ret ∧ ret < 3 + N ∧ s.opened ret = none
  write : ∀ fd o buf size, s.opened fd = some o → ∃ fs op File write,
    DriverOf opers s.vfs o fs op File ∧ op.write = some write ∧
      vfsWrite opers s.vfs fd buf size =
        some (s.vfs.deliver (.write File buf size) (write File fs buf size s.vfs.env))
  read : ∀ fd o buf size, s.opened fd = some o → ∃ fs op File read,
    DriverOf opers s.vfs o fs op File ∧ op.read = some read ∧
      vfsRead opers s.vfs fd buf size =
        some (s.vfs.deliver (.read File buf size) (read File fs buf size s.vfs.env))
  seek : ∀ fd o pos whence, s.opened fd = some o → ∃ fs op File seek,
    DriverOf opers s.vfs o fs op File ∧ op.seek = some seek ∧
      vfsSeek opers s.vfs fd pos whence =
        some (s.vfs.deliver (.seek File pos whence) (seek File fs pos whence s.vfs.env))
  closed : ∀ fd, s.opened fd = none →
    vfsClose opers s.vfs fd = some (-EBADF, s.vfs) ∧
      (∀ buf size, vfsWrite opers s.vfs fd buf size = some (toSize (-EBADF), s.vfs)) ∧
      (∀ buf size, vfsRead opers s.vfs fd buf size = some (toSize (-EBADF), s.vfs)) ∧
      ∀ pos whence, vfsSeek opers s.vfs fd pos whence = some (-EBADF, s.vfs)

namespace SessionInv

variable {s : Session N σ}

theorem slots (hs : SessionInv opers s) (i : Fin N) : (s.vfs.openFiles i).fd = 0 ∨
    (s.vfs.openFiles i).fd = i + 3 ∧ (s.vfs.openFiles i).file ≠ 0 ∧
      (s.vfs.openFiles i).fs ∈ mounted s.vfs.list := by
  rcases eq_or_ne (s.vfs.openFiles i).fd 0 with hfd | hfd
  · exact Or.inl hfd
  · obtain ⟨o, ho, hfd'⟩ := hs.opened_of_fd_ne_zero hfd
    have hok := hs.opened _ o ho
    refine Or.inr ⟨hfd', ?_⟩
    rw [hs.files i, ho]
    exact ⟨hok.file, hok.drive⟩

theorem vfsOpen_fresh (hs : SessionInv opers s) {path : Option CString} {flags mode : UInt32}
    {ret : ℤ} {vfs : VfsState N σ} (h : vfsOpen opers s.vfs path flags mode = some (ret, vfs)) :
    ret = -1 ∨ 3 ≤ ret ∧ ret < 3 + N ∧ s.opened ret = none := by
  rcases vfsOpen_cases h with
    ⟨rfl, -⟩ | ⟨p, Fs, i, fs, op, opn, -, -, -, -, hindex, -, -, -, ⟨-, rfl, -⟩ | ⟨-, rfl, -⟩⟩
  · exact Or.inl rfl
  · exact Or.inl rfl
  · have := i.isLt
    exact Or.inr ⟨by omega, by omega, hs.freeIndex_closed hindex⟩

/-- A call on an open descriptor is delivered to the driver of its drive, with its handle. -/
theorem delivered (hs : SessionInv opers s) {OPER : VfsOper σ → Option β}
    (hfull : ∀ ctx op, opers ctx = some op → (OPER op).isSome) {fd : ℤ} {o : Opened}
    (ho : s.opened fd = some o) (body : VfsFile → VfsT → β → ℤ × VfsState N σ) :
    ∃ fs op File oper, DriverOf opers s.vfs o fs op File ∧ OPER op = some oper ∧
      ifIsVfsFile opers s.vfs fd OPER (fun i fs oper => body (s.vfs.openFiles i) fs oper) =
        some (body File fs oper) := by
  obtain ⟨i, fs, op, oper, -, hslot, hfs, hop, hoper, heq⟩ :=
    hs.ifIsVfsFile_open ho hfull fun i fs oper => body (s.vfs.openFiles i) fs oper
  refine ⟨fs, op, s.vfs.openFiles i, oper, ⟨hfs, hop, ?_, ?_⟩, hoper, heq⟩ <;> rw [hslot]

theorem tableSound (hs : SessionInv opers s) (hfull : ∀ ctx op, opers ctx = some op → op.Full) :
    TableSound opers s where
  slots := hs.slots
  fresh _ _ _ _ _ h := hs.vfsOpen_fresh h
  write fd o buf size ho := by
    obtain ⟨fs, op, File, write, hdriver, hwrite, heq⟩ :=
      hs.delivered (fun ctx op hop => (hfull ctx op hop).write) ho fun File fs write =>
        let r := s.vfs.deliver (.write File buf size) (write File fs buf size s.vfs.env)
        (toInt r.1, r.2)
    refine ⟨fs, op, File, write, hdriver, hwrite, ?_⟩
    rw [vfsWrite, heq, Option.map_some]
    simp only [toSize_toInt, VfsState.deliver]
  read fd o buf size ho := by
    obtain ⟨fs, op, File, read, hdriver, hread, heq⟩ :=
      hs.delivered (fun ctx op hop => (hfull ctx op hop).read) ho fun File fs read =>
        let r := s.vfs.deliver (.read File buf size) (read File fs buf size s.vfs.env)
        (toInt r.1, r.2)
    refine ⟨fs, op, File, read, hdriver, hread, ?_⟩
    rw [vfsRead, heq, Option.map_some]
    simp only [toSize_toInt, VfsState.deliver]
  seek fd o pos whence ho :=
    hs.delivered (fun ctx op hop => (hfull ctx op hop).seek) ho fun File fs seek =>
      s.vfs.deliver (.seek File pos whence) (seek File fs pos whence s.vfs.env)
  closed fd h := by
    refine ⟨hs.ifIsVfsFile_closed h _ _, fun buf size => ?_, fun buf size => ?_,
      fun pos whence => hs.ifIsVfsFile_closed h _ _⟩
    · rw [vfsWrite, hs.ifIsVfsFile_closed h, Option.map_some]
    · rw [vfsRead, hs.ifIsVfsFile_closed h, Option.map_some]

/-- A path that does not count as open is opened, if it names a drive whose driver opens it and a
slot is free. -/
theorem vfsOpen_succeeds (hs : SessionInv opers s) {path : CString} {flags mode : UInt32}
    {Fs : ℕ} {fs : VfsT} {op : VfsOper σ} {opn : VfsT → CString → UInt32 → UInt32 → σ → ℕ × σ}
    {i : Fin N}
    (hnot : vfsFileIsOpen s.vfs path = false) (hFs : vfsGetFs s.vfs path false = some Fs)
    (hne : Fs ≠ 0) (hfs : s.vfs.fss.load Fs = some fs) (hop : opers fs.ctx = some op)
    (hopn : op.open = some opn) (hfile : (opn fs path flags mode s.vfs.env).1 ≠ 0)
    (hfree : (s.vfs.openFiles i).fd = 0) :
    ∃ fd vfs, vfsOpen opers s.vfs (some path) flags mode = some (fd, vfs) ∧ 3 ≤ fd := by
  obtain ⟨v, hv, hctx⟩ := hs.drives.drive Fs (hs.drives.vfsGetFs_mem hFs hne)
  obtain rfl : v = fs := Option.some.inj (hv.symm.trans hfs)
  obtain ⟨j, hj⟩ := hs.exists_freeIndex ((hs.fd_eq_zero_iff i).1 hfree)
  simp only [vfsOpen, hnot, Bool.false_eq_true, if_false, hFs, Option.bind_some, if_neg hne, hj,
    hfs, operOf, if_neg hctx, hop, hopn, if_neg hfile]
  exact ⟨_, _, rfl, by omega⟩

end SessionInv

/-- **The table of open files is sound** in every session that calls of the virtual file system can
lead to, over drivers that provide the operations on files. -/
theorem openTable_sound (hfull : ∀ ctx op, opers ctx = some op → op.Full) {env : σ}
    {s : Session N σ} (h : Runs.Reach (sessionStep opers) (Session.init N env) s) :
    TableSound opers s :=
  (sessionInv_of_reach (fun ctx op hop => (hfull ctx op hop).close) h).tableSound hfull

/-- A driver that opens every file, under one handle, and reads and writes nothing. -/
def nullDriver : VfsOper Unit where
  init := none
  mount := some fun _ env => (0, env)
  unmount := some fun _ env => (0, env)
  «open» := some fun _ _ _ _ env => (0x20001000, env)
  close := some fun _ _ env => (0, env)
  write := some fun _ _ _ size env => (size, env)
  read := some fun _ _ _ _ env => (0, env)
  seek := some fun _ _ pos _ env => (pos, env)

theorem full_nullDriver (ctx : ℕ) (op : VfsOper Unit) :
    (fun _ => some nullDriver) ctx = some op → op.Full := by
  rintro ⟨⟩
  exact ⟨rfl, rfl, rfl, rfl, rfl⟩

/-- A path. -/
def onePath : CString := .ofAscii "F:/pmx" (by decide)

/-- Another path, with the same hash. -/
def otherPath : CString := .ofAscii "F:/eqjw" (by decide)

/-- The drive `F:` is mounted, and the file is opened. -/
def mountAndOpen : List VfsCall :=
  [.mount (some (.ofAscii "F:" (by decide))) 0x20000400 ⟨0x20000100, 0x20000110⟩,
    .open (some onePath) 0 0]

theorem exists_mountAndOpen : ∃ s, Runs.exec (sessionStep fun _ => some nullDriver)
    (Session.init 4 ()) mountAndOpen = some s :=
  Option.isSome_iff_exists.1 rfl

theorem openTable_sound_mountAndOpen : ∃ s, Runs.exec (sessionStep fun _ => some nullDriver)
    (Session.init 4 ()) mountAndOpen = some s ∧ TableSound (fun _ => some nullDriver) s := by
  obtain ⟨s, hs⟩ := exists_mountAndOpen
  exact ⟨s, hs, openTable_sound full_nullDriver ⟨_, hs⟩⟩

/-! ### Opening a path twice -/

/-- **Double opens are excluded by hash**: a path counts as open exactly if its hash is not zero and
is the hash of an open path.  So no path with a hash other than zero is open twice, and a path
that does not count as open can be opened. -/
theorem doubleOpen_exclusion (hfull : ∀ ctx op, opers ctx = some op → op.Full) {env : σ}
    {s : Session N σ} (h : Runs.Reach (sessionStep opers) (Session.init N env) s) :
    (∀ path, vfsFileIsOpen s.vfs path = true ↔
      strhash path ≠ 0 ∧ ∃ fd o, s.opened fd = some o ∧ strhash o.path = strhash path) ∧
    (∀ fd fd' o o', s.opened fd = some o → s.opened fd' = some o' → o.path = o'.path →
      strhash o.path ≠ 0 → fd = fd') ∧
    ∀ path flags mode Fs fs op opn (i : Fin N),
      (strhash path = 0 ∨ ∀ fd o, s.opened fd = some o → strhash o.path ≠ strhash path) →
      vfsGetFs s.vfs path false = some Fs → Fs ≠ 0 → s.vfs.fss.load Fs = some fs →
      opers fs.ctx = some op → op.open = some opn → (opn fs path flags mode s.vfs.env).1 ≠ 0 →
      (s.vfs.openFiles i).fd = 0 →
      ∃ fd vfs, vfsOpen opers s.vfs (some path) flags mode = some (fd, vfs) ∧ 3 ≤ fd := by
  have hs := sessionInv_of_reach (fun ctx op hop => (hfull ctx op hop).close) h
  refine ⟨hs.vfsFileIsOpen_iff, ?_, ?_⟩
  · intro fd fd' o o' ho ho' heq hne
    exact hs.unique fd fd' o o' ho ho' (congrArg strhash heq) hne
  · intro path flags mode Fs fs op opn i hpath hFs hne hfs hop hopn hfile hfree
    refine hs.vfsOpen_succeeds ?_ hFs hne hfs hop hopn hfile hfree
    rw [Bool.eq_false_iff, Ne, hs.vfsFileIsOpen_iff]
    rintro ⟨hzero, fd, o, ho, heq⟩
    rcases hpath with h | h
    · exact hzero h
    · exact h fd o ho heq

/-- A path with a hash of its own. -/
def thirdPath : CString := .ofAscii "F:/log" (by decide)

/-- The file is open once, and one with a hash of its own can be opened beside it. -/
theorem doubleOpen_exclusion_mountAndOpen :
    ∃ s, Runs.exec (sessionStep fun _ => some nullDriver) (Session.init 4 ())
        mountAndOpen = some s ∧
      (∀ path, vfsFileIsOpen s.vfs path = true ↔
        strhash path ≠ 0 ∧ ∃ fd o, s.opened fd = some o ∧ strhash o.path = strhash path) ∧
      (∀ fd fd' o o', s.opened fd = some o → s.opened fd' = some o' → o.path = o'.path →
        strhash o.path ≠ 0 → fd = fd') ∧
      ∃ fd vfs, vfsOpen (fun _ => some nullDriver) s.vfs (some thirdPath) 0 0 = some (fd, vfs) ∧
        3 ≤ fd := by
  obtain ⟨s, hs⟩ := exists_mountAndOpen
  obtain ⟨hopen, honce, hsucceeds⟩ := doubleOpen_exclusion full_nullDriver ⟨_, hs⟩
  refine ⟨s, hs, hopen, honce, ?_⟩
  have hnot : (Runs.exec (sessionStep fun _ => some nullDriver) (Session.init 4 ())
      mountAndOpen).map (fun s => vfsFileIsOpen s.vfs thirdPath) = some false := by decide
  have hdrive : (Runs.exec (sessionStep fun _ => some nullDriver) (Session.init 4 ())
      mountAndOpen).map (fun s => (vfsGetFs s.vfs thirdPath false,
        (s.vfs.fss.load 0x20000100).isSome, (s.vfs.openFiles 1).fd)) =
      some (some 0x20000100, true, 0) := by decide
  rw [hs, Option.map_some, Option.some.injEq] at hnot hdrive
  rw [Prod.mk.injEq, Prod.mk.injEq] at hdrive
  obtain ⟨hFs, hload, hfree⟩ := hdrive
  obtain ⟨fs, hfs⟩ := Option.isSome_iff_exists.1 hload
  refine hsucceeds thirdPath 0 0 _ fs nullDriver _ 1 (Or.inr ?_) hFs (by decide) hfs rfl rfl
    (by simp) hfree
  intro fd o ho heq
  have hopened := (hopen thirdPath).2 ⟨by decide, fd, o, ho, heq⟩
  rw [hnot] at hopened
  cases hopened

/-- While the one path is open the other counts as open too. -/
theorem doubleOpen_notExact :
    ¬∀ s : Session 4 Unit,
      Runs.Reach (sessionStep fun _ => some nullDriver) (Session.init 4 ()) s →
      ∀ path, vfsFileIsOpen s.vfs path = true ↔ ∃ fd o, s.opened fd = some o ∧ o.path = path := by
  intro h
  obtain ⟨s, hs⟩ := exists_mountAndOpen
  have hcounts : (Runs.exec (sessionStep fun _ => some nullDriver) (Session.init 4 ())
      mountAndOpen).map (fun s => vfsFileIsOpen s.vfs otherPath) = some true := by decide
  have hopened : ∀ i : Fin 4, ((Runs.exec (sessionStep fun _ => some nullDriver)
      (Session.init 4 ()) mountAndOpen).bind fun s => (s.opened (i + 3)).map Opened.path) ≠
        some otherPath := by decide
  rw [hs, Option.map_some, Option.some.injEq] at hcounts
  obtain ⟨fd, o, ho, hpath⟩ := (h s ⟨_, hs⟩ otherPath).1 hcounts
  have hinv := sessionInv_of_reach (fun ctx op hop => (full_nullDriver ctx op hop).close) ⟨_, hs⟩
  obtain ⟨i, rfl⟩ := (hinv.opened fd o ho).slot
  refine hopened i ?_
  rw [hs, Option.bind_some, ho, Option.map_some, hpath]

end Pico.Vfs
