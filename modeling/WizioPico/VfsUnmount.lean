/-
**Unmounting a drive.**

`vfs_unmount` of `library/VFS/VFS.c` closes the files of the drive, asks the driver to unmount it,
and takes it out of the list of drives.  Its last statement returns an error, whatever it has done,
and the list only gives up a drive between two others.

* `Pico.Vfs.Names` — a path names a mounted drive;
* `Pico.Vfs.Disposed` — the files of a drive are closed, each once, and no others; then the driver
  unmounts it;
* `Pico.Vfs.UnmountCorrect` — the drive that is named is disposed of, and the result tells;
* `Pico.Vfs.SessionInv.vfsUnmount_disposes` — a call that has an outcome disposes of the drive;
* `Pico.Vfs.unmount_correct_iff` — **unmounting is correct exactly for paths that name no drive**.
-/

import WizioPico.VfsTable

set_option relaxedAutoImplicit false
set_option autoImplicit false

namespace Pico.Vfs

variable {N : ℕ} {σ : Type*} {opers : ℕ → Option (VfsOper σ)}

/-! ### What unmounting should do -/

/-- **A path names a drive**: the first of those mounted with its letter. -/
def Names (s : VfsState N σ) (path : Option CString) (Fs : ℕ) : Prop :=
  ∃ p, path = some p ∧ isValidDev p = true ∧
    (mounted s.list).find? (fun d => letter s.fss d == p.char 0) = some Fs

/-- **A drive is disposed of**: its driver has been told to close each of its files, in the order of
their slots, and to unmount it then; their slots are free, and the others are as they were, and on
drives that are mounted as before. -/
structure Disposed (opers : ℕ → Option (VfsOper σ)) (s : Session N σ) (Fs : ℕ)
    (vfs : VfsState N σ) : Prop where
  calls : vfs.calls = .unmount Fs ::
    ((List.finRange N).flatMap (closesOf Fs s.opened)).reverse ++ s.vfs.calls
  freed : ∀ fd o, s.opened fd = some o → o.fs = Fs → ∃ i : Fin N, fd = i + 3 ∧
    vfs.openFiles i = .zero
  kept : ∀ i : Fin N, (∀ o, s.opened (i + 3) = some o → o.fs ≠ Fs) →
    vfs.openFiles i = s.vfs.openFiles i
  usable : ∀ fd o, s.opened fd = some o → o.fs ≠ Fs → OpenedOk opers vfs fd o
  drives : mounted vfs.list = (mounted s.vfs.list).erase Fs ∧ vfs.fss = s.vfs.fss

/-- **What is asked of `vfs_unmount`.** -/
structure UnmountCorrect (opers : ℕ → Option (VfsOper σ)) (s : Session N σ)
    (path : Option CString) : Prop where
  named : ∀ Fs, Names s.vfs path Fs →
    ∃ vfs, vfsUnmount opers s.vfs path = some (0, vfs) ∧ Disposed opers s Fs vfs
  unnamed : (∀ Fs, ¬Names s.vfs path Fs) →
    ∃ ret < 0, vfsUnmount opers s.vfs path = some (ret, s.vfs)

/-! ### What it does -/

/-- The lookup of a path finds the drive it names. -/
theorem DrivesOk.vfsGetFs_of_names {s : VfsState N σ} (hs : DrivesOk s) {p : CString} {Fs : ℕ}
    (h : Names s (some p) Fs) : vfsGetFs s p true = some Fs := by
  obtain ⟨p', hp, hvalid, hfind⟩ := h
  obtain rfl : p = p' := Option.some.inj hp
  rw [vfsGetFs, if_pos hvalid, if_pos rfl, hs.listGet, if_pos hvalid, hfind]
  rfl

/-- The lookup of a path that names no drive. -/
theorem DrivesOk.vfsGetFs_of_not_names {s : VfsState N σ} (hs : DrivesOk s) {p : CString}
    (h : ∀ Fs, ¬Names s (some p) Fs) : vfsGetFs s p true = some 0 := by
  rw [vfsGetFs]
  split
  · rename_i hvalid
    have hnone : (mounted s.list).find? (fun d => letter s.fss d == p.char 0) = none := by
      cases hfind : (mounted s.list).find? fun d => letter s.fss d == p.char 0 with
      | none => rfl
      | some Fs => exact absurd ⟨p, rfl, hvalid, hfind⟩ (h Fs)
    rw [if_pos rfl, hs.listGet, if_pos hvalid, hnone]
    rfl
  · rfl

/-- A drive that is named is mounted. -/
theorem Names.mem {s : VfsState N σ} {path : Option CString} {Fs : ℕ} (h : Names s path Fs) :
    Fs ∈ mounted s.list := by
  obtain ⟨p, -, -, hfind⟩ := h
  exact List.mem_of_find?_eq_some hfind

namespace SessionInv

variable {s : Session N σ}

/-- Without a drive there is nothing to do. -/
theorem vfsUnmount_unnamed (hs : SessionInv opers s) {path : Option CString}
    (h : ∀ Fs, ¬Names s.vfs path Fs) : vfsUnmount opers s.vfs path = some (-1, s.vfs) := by
  cases path with
  | none => rfl
  | some p => rw [vfsUnmount, hs.drives.vfsGetFs_of_not_names h, Option.bind_some, if_pos rfl]

/-- **A drive between two others is disposed of**, though the result is an error; for the first and
the last one of the list a null pointer is dereferenced. -/
theorem vfsUnmount_disposes (hs : SessionInv opers s)
    (hclose : ∀ ctx op, opers ctx = some op → op.close.isSome) {path : Option CString} {Fs : ℕ}
    (hnames : Names s.vfs path Fs) {fs : VfsT} {op : VfsOper σ}
    (hfs : s.vfs.fss.load Fs = some fs) (hop : opers fs.ctx = some op)
    (hunmount : op.unmount.isSome) :
    ((mounted s.vfs.list).head? = some Fs ∨ (mounted s.vfs.list).getLast? = some Fs) ∧
        vfsUnmount opers s.vfs path = none ∨
      ∃ vfs, vfsUnmount opers s.vfs path = some (-1, vfs) ∧ Disposed opers s Fs vfs := by
  obtain ⟨p, rfl, -⟩ := id hnames
  obtain ⟨v, hv, hctx⟩ := hs.drives.drive Fs hnames.mem
  obtain rfl : v = fs := Option.some.inj (hv.symm.trans hfs)
  have hne : Fs ≠ 0 := ObjHeap.ne_zero_of_load hfs
  obtain ⟨t, hexec, hinv, hsame, hcalls⟩ := closeFiles_all hclose hne hs
  obtain ⟨unmount, hunmount⟩ := Option.isSome_iff_exists.1 hunmount
  have hrun : vfsUnmount opers s.vfs (some p) =
      (listRemove s.vfs.list Fs).bind fun list => some (-1,
        { (t.deliver (.unmount Fs) (unmount v t.env)).2 with list := list }) := by
    rw [vfsUnmount, hs.drives.vfsGetFs_of_names hnames, Option.bind_some, if_neg hne, hexec,
      Option.bind_some, hsame.2, hfs, Option.bind_some, if_neg hctx, hop, Option.bind_some,
      hunmount, Option.bind_some, ← hsame.1]
    rfl
  rcases hs.drives.list.listRemove hs.drives.nodup hnames.mem with
    ⟨hend, hnone⟩ | ⟨-, list, hremove, hlist⟩
  · refine Or.inl ⟨hend, ?_⟩
    rw [hrun, hnone]
    rfl
  · refine Or.inr ⟨_, by rw [hrun, hremove]; rfl, ?_⟩
    refine ⟨congrArg (DriverCall.unmount Fs :: ·) hcalls, fun fd o ho hofs => ?_, fun i hi => ?_,
      fun fd o ho hofs => ?_, hlist.mounted_eq, hsame.2⟩
    · obtain ⟨i, rfl⟩ := (hs.opened fd o ho).slot
      refine ⟨i, rfl, (hinv.files i).trans ?_⟩
      have hleave : leave Fs (s.opened (i + 3)) = none := by simp [leave, ho, hofs]
      exact congrArg (slotOf i) hleave
    · refine (hinv.files i).trans ((congrArg (slotOf i) ?_).trans (hs.files i).symm)
      dsimp only
      cases ho : s.opened (i + 3) with
      | none => rfl
      | some o => simp [leave, hi o ho]
    · have hopen := hs.opened fd o ho
      refine hopen.mono ?_ (by rw [← hsame.2]; rfl)
      change o.fs ∈ mounted list
      rw [hlist.mounted_eq]
      exact (List.mem_erase_of_ne hofs).2 hopen.drive

end SessionInv

/-! ### The exact condition -/

/-- **Unmounting is correct exactly for paths that name no drive**: for every other path the drive
may be disposed of, but the result is an error. -/
theorem unmount_correct_iff
    (hfull : ∀ ctx op, opers ctx = some op → op.close.isSome ∧ op.unmount.isSome) {env : σ}
    {s : Session N σ} (h : Runs.Reach (sessionStep opers) (Session.init N env) s)
    (path : Option CString) :
    UnmountCorrect opers s path ↔ ∀ Fs, ¬Names s.vfs path Fs := by
  have hs := sessionInv_of_reach (fun ctx op hop => (hfull ctx op hop).1) h
  constructor
  · intro hcorrect Fs hnames
    obtain ⟨vfs, hrun, -⟩ := hcorrect.named Fs hnames
    exact absurd (vfsUnmount_cases hrun).1 (by decide)
  · intro hno
    refine ⟨fun Fs hnames => absurd hnames (hno Fs), fun _ => ⟨-1, by decide, ?_⟩⟩
    exact hs.vfsUnmount_unnamed hno

theorem noNul_driveF : 0 ∉ "F:".toList.map fun c => UInt8.ofNat c.toNat := by decide

/-- The drive `F:`. -/
def driveF : CString := .ofAscii "F:" noNul_driveF

/-- The drive `G:`, which is not mounted. -/
def driveG : CString := .ofAscii "G:" (by decide)

/-- No path at all names a drive, and the letter of another drive names none either; the letter of
the drive that is mounted does, and there the call is not correct. -/
theorem unmount_correct_iff_mountAndOpen : ∃ s, Runs.exec (sessionStep fun _ => some nullDriver)
    (Session.init 4 ()) mountAndOpen = some s ∧
      UnmountCorrect (fun _ => some nullDriver) s none ∧
      UnmountCorrect (fun _ => some nullDriver) s (some driveG) ∧
      ¬UnmountCorrect (fun _ => some nullDriver) s (some driveF) := by
  obtain ⟨s, hs⟩ := exists_mountAndOpen
  have hfull : ∀ (ctx : ℕ) op, (fun _ => some nullDriver) ctx = some op →
      op.close.isSome ∧ op.unmount.isSome := by
    rintro ctx op ⟨⟩
    exact ⟨rfl, rfl⟩
  have hfind : (Runs.exec (sessionStep fun _ => some nullDriver) (Session.init 4 ())
      mountAndOpen).map (fun s =>
        ((mounted s.vfs.list).find? fun d => letter s.vfs.fss d == 71,
          (mounted s.vfs.list).find? fun d => letter s.vfs.fss d == 70)) =
        some (none, some 0x20000100) := by decide
  rw [hs, Option.map_some, Option.some.injEq, Prod.mk.injEq] at hfind
  obtain ⟨hG, hF⟩ := hfind
  refine ⟨s, hs, (unmount_correct_iff hfull ⟨_, hs⟩ none).2 ?_,
    (unmount_correct_iff hfull ⟨_, hs⟩ (some driveG)).2 ?_,
    fun h => (unmount_correct_iff hfull ⟨_, hs⟩ (some driveF)).1 h _ ⟨_, rfl, by decide, hF⟩⟩
  · rintro Fs ⟨p, hp, -⟩
    cases hp
  · rintro Fs ⟨p, hp, -, hfound⟩
    cases hp
    have hnone := hfound.symm.trans hG
    cases hnone

/-- The drives `A:`, `F:` and `Z:` are mounted, and a file of the second one is opened. -/
def mountThree : List VfsCall :=
  [.mount (some (.ofAscii "A:" (by decide))) 0x20000400 ⟨0x20000100, 0x20000110⟩,
    .mount (some driveF) 0x20000404 ⟨0x20000120, 0x20000130⟩,
    .mount (some (.ofAscii "Z:" (by decide))) 0x20000408 ⟨0x20000140, 0x20000150⟩,
    .open (some onePath) 0 0]

/-- `vfs_unmount("F:")` then closes the file, has the driver unmount the drive, takes it out of the
list, and returns -1. -/
theorem unmount_mountThree_not_correct : ¬∀ s : Session 4 Unit,
    Runs.Reach (sessionStep fun _ => some nullDriver) (Session.init 4 ()) s →
      ∀ path, UnmountCorrect (fun _ => some nullDriver) s path := by
  intro h
  obtain ⟨s, hs⟩ : ∃ s, Runs.exec (sessionStep fun _ => some nullDriver) (Session.init 4 ())
      mountThree = some s := Option.isSome_iff_exists.1 rfl
  have hfind : (Runs.exec (sessionStep fun _ => some nullDriver) (Session.init 4 ())
      mountThree).map (fun s => (mounted s.vfs.list).find? fun d => letter s.vfs.fss d == 70) =
        some (some 0x20000120) := by decide
  rw [hs, Option.map_some, Option.some.injEq] at hfind
  obtain ⟨vfs, hrun, -⟩ := (h s ⟨_, hs⟩ (some driveF)).named 0x20000120
    ⟨_, rfl, by decide, hfind⟩
  exact absurd (vfsUnmount_cases hrun).1 (by decide)

end Pico.Vfs
