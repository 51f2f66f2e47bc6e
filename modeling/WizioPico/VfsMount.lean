/-
**Mounting drives.**

A call of `vfs_mount` should either mount a drive or leave the drives as they were, and no two
drives should have the same letter.  The node of the drive is linked into the list before the
driver is asked to mount it, and it is not taken out again when the driver is missing or fails;
and a name that is not one of a device, such as `"F"`, is not found in the list although a drive
is mounted under its letter.

Main definitions:

* `Pico.Vfs.DrivesOk` — the invariant of the list of drives;
* `Pico.Vfs.UniqueLetters` — no two drives have the same letter;
* `Pico.Vfs.MountOk` — a call of `vfs_mount` that is all-or-nothing;
* `Pico.Vfs.MountGood` — when it is.

Main results:

* `Pico.Vfs.DrivesOk.vfsStep` — every call keeps the invariant;
* `Pico.Vfs.vfsMount_cases` — the four ways a call of `vfs_mount` goes;
* `Pico.Vfs.mount_allOrNothing_iff` — **along a run mounting is all-or-nothing and letters are
  unique exactly when every call of `vfs_mount` meets `MountGood`.**
-/

import WizioPico.Vfs

set_option relaxedAutoImplicit false
set_option autoImplicit false

namespace Pico.Vfs

variable {N : ℕ} {σ β : Type*} {opers : ℕ → Option (VfsOper σ)}

/-! ### The invariant of the drives -/

/-- The letters of the drives. -/
def letters (s : VfsState N σ) : List UInt8 := (mounted s.list).map (letter s.fss)

/-- No two drives have the same letter. -/
def UniqueLetters (s : VfsState N σ) : Prop := (letters s).Nodup

/-- **The invariant of the drives**: the list is one, no drive is in it twice, and every drive of it
has been allocated and has a context. -/
structure DrivesOk (s : VfsState N σ) : Prop where
  list : DriveList s.list (mounted s.list)
  nodup : (mounted s.list).Nodup
  drive : ∀ d ∈ mounted s.list, ∃ v, s.fss.load d = some v ∧ v.ctx ≠ 0

theorem drivesOk_preVfsInit (env : σ) : DrivesOk (preVfsInit N env) where
  list := driveList_create
  nodup := List.nodup_nil
  drive _ hd := nomatch hd

/-- The two states have the same drives. -/
def SameDrives (s s' : VfsState N σ) : Prop := s'.list = s.list ∧ s'.fss = s.fss

theorem SameDrives.refl (s : VfsState N σ) : SameDrives s s := ⟨rfl, rfl⟩

theorem SameDrives.trans {s s' s'' : VfsState N σ} (h : SameDrives s s') (h' : SameDrives s' s'') :
    SameDrives s s'' := ⟨h'.1.trans h.1, h'.2.trans h.2⟩

theorem SameDrives.letters_eq {s s' : VfsState N σ} (h : SameDrives s s') :
    letters s' = letters s := by rw [letters, letters, h.1, h.2]

theorem SameDrives.drivesOk {s s' : VfsState N σ} (h : SameDrives s s') (hs : DrivesOk s) :
    DrivesOk s' where
  list := h.1 ▸ hs.list
  nodup := h.1 ▸ hs.nodup
  drive := by rw [h.1, h.2]; exact hs.drive

/-- What a drive is found under, for the drives of a state. -/
theorem DrivesOk.listGet {s : VfsState N σ} (hs : DrivesOk s) (name : CString) :
    Vfs.listGet s.fss s.list name = some (if isValidDev name then
      ((mounted s.list).find? fun d => letter s.fss d == name.char 0).getD 0 else 0) :=
  hs.list.listGet (fun d hd => (hs.drive d hd).imp fun _ hv => hv.1) name

/-- A lookup finds a drive exactly if the name is one of a device, with a letter of a drive. -/
theorem DrivesOk.listGet_cases {s : VfsState N σ} (hs : DrivesOk s) (name : CString) :
    (isValidDev name = true ∧ name.char 0 ∈ letters s ∧ ∃ d ∈ mounted s.list,
        letter s.fss d = name.char 0 ∧ d ≠ 0 ∧ Vfs.listGet s.fss s.list name = some d) ∨
      ¬(isValidDev name = true ∧ name.char 0 ∈ letters s) ∧
        Vfs.listGet s.fss s.list name = some 0 := by
  by_cases hname : isValidDev name = true
  · obtain ⟨d, hd, hiff, hmem⟩ :=
      hs.list.exists_listGet (fun d hd => (hs.drive d hd).imp fun _ hv => hv.1) hname
    rcases eq_or_ne d 0 with rfl | hne
    · refine Or.inr ⟨fun h => ?_, hd⟩
      obtain ⟨d, hd, hl⟩ := List.mem_map.1 h.2
      exact hiff.2 ⟨d, hd, hl⟩ rfl
    · obtain ⟨hd₁, hd₂⟩ := hmem hne
      exact Or.inl ⟨hname, List.mem_map.2 ⟨d, hd₁, hd₂⟩, d, hd₁, hd₂, hne, hd⟩
  · refine Or.inr ⟨fun h => hname h.1, ?_⟩
    rw [hs.listGet name, if_neg hname]

/-! ### The calls that leave the drives alone -/

theorem sameDrives_ifIsVfsFile {s s' : VfsState N σ} {fd ret : ℤ} {OPER : VfsOper σ → Option β}
    {body : Fin N → VfsT → β → ℤ × VfsState N σ}
    (h : ifIsVfsFile opers s fd OPER body = some (ret, s'))
    (hbody : ∀ index fs oper, SameDrives s (body index fs oper).2) : SameDrives s s' := by
  rcases ifIsVfsFile_cases h with ⟨-, rfl⟩ | ⟨index, fs, op, oper, -, -, -, -, heq⟩
  · exact SameDrives.refl _
  · have hs := hbody index fs oper
    rwa [← heq] at hs

theorem sameDrives_vfsClose {s s' : VfsState N σ} {fd ret : ℤ}
    (h : vfsClose opers s fd = some (ret, s')) : SameDrives s s' :=
  sameDrives_ifIsVfsFile h fun _ _ _ => ⟨rfl, rfl⟩

theorem sameDrives_vfsOpen {s s' : VfsState N σ} {path : Option CString} {flags mode : UInt32}
    {ret : ℤ}
    (h : vfsOpen opers s path flags mode = some (ret, s')) : SameDrives s s' := by
  rcases vfsOpen_cases h with ⟨-, rfl⟩ | ⟨path, Fs, index, fs, op, opn, -, -, -, -, -, -, -, -, h⟩
  · exact SameDrives.refl _
  · rcases h with ⟨-, -, rfl⟩ | ⟨-, -, rfl⟩ <;> exact ⟨rfl, rfl⟩

/-- The loop of `vfs_unmount` leaves the drives alone. -/
theorem sameDrives_closeFiles {s s' : VfsState N σ} {Fs : ℕ} {is : List (Fin N)}
    (h : Runs.exec (closeFilesOf opers Fs) s is = some s') : SameDrives s s' := by
  refine Runs.exec_invariant (P := SameDrives s) (fun t i t' ht hstep => ?_) is
    (SameDrives.refl s) h
  rw [closeFilesOf] at hstep
  split at hstep
  · obtain ⟨⟨ret, t''⟩, hclose, rfl⟩ := Option.map_eq_some_iff.1 hstep
    exact ht.trans (sameDrives_vfsClose hclose)
  · cases hstep
    exact ht

/-! ### Mounting -/

/-- The two objects that a call of `vfs_mount` allocates. -/
theorem vfsMount_fresh_notMem {s : VfsState N σ} (hs : DrivesOk s) {mem : MountMem}
    (hmem : mem.Fresh s) (hfs : mem.fs ≠ 0) : mem.fs ∉ mounted s.list := by
  intro hd
  obtain ⟨v, hv, -⟩ := hs.drive _ hd
  rw [hmem.1.resolve_left hfs] at hv
  cases hv

/-- The drive `vfs_add_fs` makes. -/
def newDrive (name : CString) (ctx : ℕ) : VfsT := ⟨ctx, name.char 0, 58, 0⟩

/-- The four ways `vfs_add_fs` goes: the drive exists, there is no memory for it or for its node,
or it becomes the last one of the list. -/
theorem vfsAddFs_cases {s : VfsState N σ} (hs : DrivesOk s) (name : CString) {ctx : ℕ}
    (hctx : ctx ≠ 0)
    {mem : MountMem} (hmem : mem.Fresh s) :
    ((isValidDev name = true ∧ name.char 0 ∈ letters s ∨ mem.fs = 0) ∧
        vfsAddFs s name ctx mem = some (0, s)) ∨
      ¬(isValidDev name = true ∧ name.char 0 ∈ letters s) ∧ mem.fs ≠ 0 ∧
        (mem.node = 0 ∧ vfsAddFs s name ctx mem = none ∨
          mem.node ≠ 0 ∧ ∃ s', vfsAddFs s name ctx mem = some (mem.fs, s') ∧ DrivesOk s' ∧
            s'.env = s.env ∧ s'.openFiles = s.openFiles ∧ s'.calls = s.calls ∧
            mounted s'.list = mounted s.list ++ [mem.fs] ∧
            s'.fss.load mem.fs = some (newDrive name ctx) ∧
            ∀ d ≠ mem.fs, s'.fss.load d = s.fss.load d) := by
  rcases hs.listGet_cases name with ⟨hdev, hl, d, -, -, hd, hget⟩ | ⟨hno, hget⟩
  · refine Or.inl ⟨Or.inl ⟨hdev, hl⟩, ?_⟩
    rw [vfsAddFs, hget, Option.bind_some, if_pos hd]
  rcases eq_or_ne mem.fs 0 with hfs | hfs
  · refine Or.inl ⟨Or.inr hfs, ?_⟩
    rw [vfsAddFs, hget, Option.bind_some, if_neg (fun h => h rfl), dif_neg (fun h => h hfs)]
  refine Or.inr ⟨hno, hfs, ?_⟩
  have hadd : vfsAddFs s name ctx mem = (listAdd s.list mem.fs mem.node).bind fun list =>
      ((s.fss.alloc mem.fs ⟨0, 0, 0, 0⟩ hfs).modify mem.fs fun _ => newDrive name ctx).bind
        fun fss => some (mem.fs, { s with list := list, fss := fss }) := by
    rw [vfsAddFs, hget, Option.bind_some, if_neg (fun h => h rfl), dif_pos hfs]
    rfl
  rcases eq_or_ne mem.node 0 with hnode | hnode
  · refine Or.inl ⟨hnode, ?_⟩
    rw [hadd, hnode]
    rfl
  · obtain ⟨list, hlist, hds⟩ := hs.list.listAdd mem.fs hnode (hmem.2.resolve_left hnode)
    obtain ⟨fss, hfss, hnew, hold⟩ := ObjHeap.exists_modify (fun _ => newDrive name ctx)
      (ObjHeap.load_alloc_self s.fss mem.fs ⟨0, 0, 0, 0⟩ hfs)
    have hload : ∀ d ≠ mem.fs, fss.load d = s.fss.load d := fun d hd => by
      rw [hold d hd, ObjHeap.load_alloc_of_ne hd]
    have hnotMem := vfsMount_fresh_notMem hs hmem hfs
    refine Or.inr ⟨hnode, { s with list := list, fss := fss }, ?_, ⟨?_, ?_, ?_⟩, rfl, rfl, rfl,
      hds.mounted_eq, hnew, hload⟩
    · rw [hadd, hlist, Option.bind_some, hfss, Option.bind_some]
    · exact hds.mounted_eq.symm ▸ hds
    · refine hds.mounted_eq.symm ▸ List.nodup_append.2
        ⟨hs.nodup, List.pairwise_singleton _ _, fun d hd b hb => ?_⟩
      rintro rfl
      exact hnotMem (List.mem_singleton.1 hb ▸ hd)
    · intro d hd
      rw [hds.mounted_eq, List.mem_append, List.mem_singleton] at hd
      rcases hd with hd | rfl
      · obtain ⟨v, hv, hvctx⟩ := hs.drive d hd
        exact ⟨v, (hload d fun h => hnotMem (h ▸ hd)).trans hv, hvctx⟩
      · exact ⟨newDrive name ctx, hnew, hctx⟩

/-- What the driver answers when it is initialised and asked to mount a drive, if it can be asked.
-/
def mountAnswer (op : Option (VfsOper σ)) (fs : VfsT) (env : σ) : Option ℤ :=
  op.bind fun op => op.mount.map fun mount =>
    (mount fs (match op.init with
      | none => env
      | some init => (init fs env).2)).1

theorem mountDriver_fst (op : Option (VfsOper σ)) (Fs : ℕ) (fs : VfsT) (s : VfsState N σ) :
    (mountDriver op Fs fs s).1 = (mountAnswer op fs s.env).getD (-EACCES) := by
  rcases op with _ | ⟨init, mount, unmount, opn, close, write, read, seek⟩
  · rfl
  · cases init <;> cases mount <;> rfl

/-- The driver changes neither the drives nor the open files. -/
theorem mountDriver_snd (op : Option (VfsOper σ)) (Fs : ℕ) (fs : VfsT) (s : VfsState N σ) :
    SameDrives s (mountDriver op Fs fs s).2 ∧
      (mountDriver op Fs fs s).2.openFiles = s.openFiles := by
  rcases op with _ | ⟨init, mount, unmount, opn, close, write, read, seek⟩
  · exact ⟨SameDrives.refl s, rfl⟩
  · cases init <;> cases mount <;> exact ⟨⟨rfl, rfl⟩, rfl⟩

/-- **What `vfs_mount` can do.**  It fails without effect, it dereferences the null node, or it adds
the drive and returns the answer of the driver, or `-EACCES` without one. -/
theorem vfsMount_cases (opers : ℕ → Option (VfsOper σ)) {s : VfsState N σ} (hs : DrivesOk s)
    (path : CString) (ctx : ℕ)
    {mem : MountMem} (hmem : mem.Fresh s) :
    ((ctx = 0 ∨ isValidDev path = true ∧ path.char 0 ∈ letters s ∨ mem.fs = 0) ∧
        ∃ ret, ret ≠ 0 ∧ vfsMount opers s (some path) ctx mem = some (ret, s)) ∨
      (ctx ≠ 0 ∧ ¬(isValidDev path = true ∧ path.char 0 ∈ letters s) ∧ mem.fs ≠ 0) ∧
        (mem.node = 0 ∧ vfsMount opers s (some path) ctx mem = none ∨
          mem.node ≠ 0 ∧ ∃ s', vfsMount opers s (some path) ctx mem =
              some ((mountAnswer (opers ctx) (newDrive path ctx) s.env).getD (-EACCES), s') ∧
            DrivesOk s' ∧ s'.openFiles = s.openFiles ∧
            mounted s'.list = mounted s.list ++ [mem.fs] ∧
            s'.fss.load mem.fs = some (newDrive path ctx) ∧
            ∀ d ≠ mem.fs, s'.fss.load d = s.fss.load d) := by
  rcases eq_or_ne ctx 0 with hctx | hctx
  · refine Or.inl ⟨Or.inl hctx, -ENOENT, by decide, ?_⟩
    simp only [vfsMount, if_pos hctx]
  rcases vfsAddFs_cases hs path hctx hmem with ⟨hno, hadd⟩ | ⟨hno, hfs, hadd⟩
  · refine Or.inl ⟨Or.inr hno, -ENOMEM, by decide, ?_⟩
    simp only [vfsMount, if_neg hctx, hadd, Option.bind_some, if_pos]
  refine Or.inr ⟨⟨hctx, hno, hfs⟩, ?_⟩
  rcases hadd with ⟨hnode, hadd⟩ | ⟨hnode, t, hadd, ht, henv, hopen, -, hlist, hnew, hold⟩
  · refine Or.inl ⟨hnode, ?_⟩
    simp only [vfsMount, if_neg hctx, hadd, Option.bind_none]
  refine Or.inr ⟨hnode, ?_⟩
  have hctx' : (newDrive path ctx).ctx ≠ 0 := hctx
  obtain ⟨hsame, hopen'⟩ := mountDriver_snd (opers ctx) mem.fs (newDrive path ctx) t
  refine ⟨(mountDriver (opers ctx) mem.fs (newDrive path ctx) t).2, ?_, hsame.drivesOk ht,
    hopen'.trans hopen, hsame.1 ▸ hlist, hsame.2 ▸ hnew, hsame.2 ▸ hold⟩
  rw [← henv, ← mountDriver_fst _ mem.fs]
  simp only [vfsMount, if_neg hctx, hadd, Option.bind_some, if_neg hfs, hnew, if_neg hctx']
  rfl

/-! ### Every call keeps the invariant -/

/-- A path that resolves to a drive resolves to one of the list. -/
theorem DrivesOk.vfsGetFs_mem {s : VfsState N σ} (hs : DrivesOk s) {path : CString} {onlyDev : Bool}
    {Fs : ℕ} (h : vfsGetFs s path onlyDev = some Fs) (hne : Fs ≠ 0) : Fs ∈ mounted s.list := by
  have hget : Vfs.listGet s.fss s.list path = some Fs := by
    rw [vfsGetFs] at h
    split at h
    · split at h
      · exact h
      · split at h
        · exact h
        · cases h
          exact absurd rfl hne
    · cases h
      exact absurd rfl hne
  rcases hs.listGet_cases path with ⟨-, -, d, hd, -, -, hget'⟩ | ⟨-, hget'⟩
  · rw [hget] at hget'
    exact Option.some.inj hget' ▸ hd
  · rw [hget] at hget'
    exact absurd (Option.some.inj hget') hne

/-- Taking a drive out of the list. -/
theorem DrivesOk.listRemove {s : VfsState N σ} (hs : DrivesOk s) {Fs : ℕ} {list : VfsList}
    (hmem : Fs ∈ mounted s.list) (h : Vfs.listRemove s.list Fs = some list) :
    mounted list = (mounted s.list).erase Fs ∧ DriveList list (mounted list) := by
  rcases hs.list.listRemove hs.nodup hmem with ⟨-, hnone⟩ | ⟨-, list', h', hds⟩
  · rw [h] at hnone
    cases hnone
  · rw [h] at h'
    cases h'
    exact ⟨hds.mounted_eq, hds.mounted_eq.symm ▸ hds⟩

/-- `vfs_unmount` leaves the drives alone, or takes one of them out of the list. -/
theorem vfsUnmount_drives {s s' : VfsState N σ} (hs : DrivesOk s) {path : Option CString} {ret : ℤ}
    (h : vfsUnmount opers s path = some (ret, s')) :
    SameDrives s s' ∨ ∃ Fs ∈ mounted s.list, mounted s'.list = (mounted s.list).erase Fs ∧
      DriveList s'.list (mounted s'.list) ∧ s'.fss = s.fss := by
  rcases (vfsUnmount_cases h).2 with
    ⟨rfl, -⟩ | ⟨p, Fs, t, u, list, -, hFs, hne, ht, hlist, hfss, -, hremove, rfl⟩
  · exact Or.inl (SameDrives.refl _)
  · have hsame := sameDrives_closeFiles ht
    have hmem := hs.vfsGetFs_mem hFs hne
    rw [hlist, hsame.1] at hremove
    obtain ⟨hmounted, hds⟩ := hs.listRemove hmem hremove
    exact Or.inr ⟨Fs, hmem, hmounted, hds, hfss.trans hsame.2⟩

/-- The calls other than mounting and unmounting leave the drives alone. -/
theorem sameDrives_run {s s' : VfsState N σ} {c : VfsCall} {ret : ℤ}
    (h : c.run opers s = some (ret, s')) (hm : ∀ path ctx mem, c ≠ .mount path ctx mem)
    (hu : ∀ path, c ≠ .unmount path) : SameDrives s s' := by
  cases c with
  | mount path ctx mem => exact absurd rfl (hm path ctx mem)
  | unmount path => exact absurd rfl (hu path)
  | «open» path flags mode => exact sameDrives_vfsOpen h
  | close fd => exact sameDrives_vfsClose h
  | write fd buf size =>
      simp only [VfsCall.run, vfsWrite, Option.map_map, Option.map_eq_some_iff] at h
      obtain ⟨⟨r, t⟩, h, heq⟩ := h
      cases heq
      exact sameDrives_ifIsVfsFile h fun _ _ _ => ⟨rfl, rfl⟩
  | read fd buf size =>
      simp only [VfsCall.run, vfsRead, Option.map_map, Option.map_eq_some_iff] at h
      obtain ⟨⟨r, t⟩, h, heq⟩ := h
      cases heq
      exact sameDrives_ifIsVfsFile h fun _ _ _ => ⟨rfl, rfl⟩
  | seek fd pos whence => exact sameDrives_ifIsVfsFile h fun _ _ _ => ⟨rfl, rfl⟩

/-- **Every call keeps the invariant of the drives.** -/
theorem DrivesOk.run {s s' : VfsState N σ} (hs : DrivesOk s) {c : VfsCall} {ret : ℤ}
    (h : c.run opers s = some (ret, s')) : DrivesOk s' := by
  cases c with
  | mount path ctx mem =>
      rw [VfsCall.run] at h
      split at h
      · rename_i hmem
        cases path with
        | none =>
            cases h
            exact hs
        | some path =>
            rcases vfsMount_cases opers hs path ctx hmem with
              ⟨-, r, -, hr⟩ | ⟨-, ⟨-, hr⟩ | ⟨-, t, hr, ht, -⟩⟩ <;> rw [hr] at h <;> cases h
            · exact hs
            · exact ht
      · cases h
  | unmount path =>
      rcases vfsUnmount_drives hs h with hsame | ⟨Fs, -, hlist, hds, hfss⟩
      · exact hsame.drivesOk hs
      · refine ⟨hds, hlist ▸ hs.nodup.erase Fs, fun d hd => ?_⟩
        rw [hlist] at hd
        rw [hfss]
        exact hs.drive d (List.mem_of_mem_erase hd)
  | «open» | close | write | read | seek =>
      exact (sameDrives_run h (fun _ _ _ => nofun) fun _ => nofun).drivesOk hs

theorem DrivesOk.vfsStep {s s' : VfsState N σ} (hs : DrivesOk s) {c : VfsCall}
    (h : Vfs.vfsStep opers s c = some s') : DrivesOk s' := by
  obtain ⟨⟨ret, t⟩, hr, rfl⟩ := Option.map_eq_some_iff.1 h
  exact hs.run hr

/-! ### Mounting is all-or-nothing -/

/-- **All or nothing**: the call returns 0, and the list has one drive more, which is the only one
with this letter and has this context; or it returns an error, and the drives are as before. -/
def MountOk (opers : ℕ → Option (VfsOper σ)) (s : VfsState N σ) (path : CString) (ctx : ℕ)
    (mem : MountMem) : Prop :=
  ∃ ret s', vfsMount opers s (some path) ctx mem = some (ret, s') ∧
    ((ret = 0 ∧ ∃ d, mounted s'.list = mounted s.list ++ [d] ∧
        (mounted s'.list).filter (fun e => letter s'.fss e == path.char 0) = [d] ∧
        ∃ v, s'.fss.load d = some v ∧ v.ctx = ctx) ∨
      ret ≠ 0 ∧ SameDrives s s')

/-- The calls that are: there is no context, the drive is found, there is no memory for it, or there
is memory for its node, the driver mounts it, and no drive has the letter yet. -/
def MountGood (opers : ℕ → Option (VfsOper σ)) (s : VfsState N σ) (path : CString) (ctx : ℕ)
    (mem : MountMem) : Prop :=
  ctx = 0 ∨ isValidDev path = true ∧ path.char 0 ∈ letters s ∨ mem.fs = 0 ∨
    mem.node ≠ 0 ∧ mountAnswer (opers ctx) (newDrive path ctx) s.env = some 0 ∧
      path.char 0 ∉ letters s

/-- The letters behind an added drive. -/
theorem letters_of_append {s s' : VfsState N σ} {d : ℕ} {v : VfsT}
    (hlist : mounted s'.list = mounted s.list ++ [d]) (hnew : s'.fss.load d = some v)
    (hold : ∀ e ∈ mounted s.list, s'.fss.load e = s.fss.load e) :
    letters s' = letters s ++ [v.name0] := by
  have hmap : (mounted s.list).map (letter s'.fss) = (mounted s.list).map (letter s.fss) :=
    List.map_congr_left fun e he => by rw [letter, letter, hold e he]
  rw [letters, hlist, List.map_append, hmap]
  simp [letters, letter, hnew]

/-- The added drive is the only one with its letter exactly if no other drive had it. -/
theorem filter_letter_iff {s s' : VfsState N σ} {d : ℕ} {v : VfsT}
    (hlist : mounted s'.list = mounted s.list ++ [d]) (hnew : s'.fss.load d = some v)
    (hold : ∀ e ∈ mounted s.list, s'.fss.load e = s.fss.load e) :
    (mounted s'.list).filter (fun e => letter s'.fss e == v.name0) = [d] ↔
      v.name0 ∉ letters s := by
  have hd : [d].filter (fun e => letter s'.fss e == v.name0) = [d] := by
    simp [letter, hnew]
  rw [hlist, List.filter_append, hd, List.append_left_eq_self, List.filter_eq_nil_iff, letters,
    List.mem_map, not_exists]
  refine forall_congr' fun e => ?_
  rw [not_and]
  refine imp_congr_right fun he => ?_
  rw [letter, hold e he, beq_iff_eq]
  rfl

/-- A call of `vfs_mount` is all-or-nothing exactly when it meets `MountGood`. -/
theorem mountOk_iff {s : VfsState N σ} (hs : DrivesOk s) (path : CString) (ctx : ℕ) {mem : MountMem}
    (hmem : mem.Fresh s) : MountOk opers s path ctx mem ↔ MountGood opers s path ctx mem := by
  rcases vfsMount_cases opers hs path ctx hmem with
    ⟨hno, ret, hret, hr⟩ | ⟨⟨hctx, hno, hfs⟩, ⟨hnode, hr⟩ | ⟨hnode, t, hr, ht, -, hlist, hnew, hold⟩⟩
  · refine ⟨fun _ => ?_, fun _ => ⟨ret, s, hr, Or.inr ⟨hret, SameDrives.refl s⟩⟩⟩
    exact hno.imp_right fun h => h.imp_right Or.inl
  · constructor
    · rintro ⟨ret, s', hr', -⟩
      rw [hr] at hr'
      cases hr'
    · rintro (h | h | h | h)
      exacts [absurd h hctx, absurd h hno, absurd h hfs, absurd hnode h.1]
  · have hnotMem := vfsMount_fresh_notMem hs hmem hfs
    have hone := filter_letter_iff hlist hnew fun e he => hold e fun h => hnotMem (h ▸ he)
    constructor
    · rintro ⟨ret, s', hr', h⟩
      rw [hr] at hr'
      cases hr'
      rcases h with ⟨hret, d, hd, hfilter, -⟩ | ⟨-, hsame⟩
      · obtain rfl : d = mem.fs := by
          rw [hd] at hlist
          exact List.singleton_inj.1 (List.append_cancel_left hlist)
        refine Or.inr (Or.inr (Or.inr ⟨hnode, ?_, hone.1 hfilter⟩))
        cases hans : mountAnswer (opers ctx) (newDrive path ctx) s.env with
        | none =>
            rw [hans] at hret
            exact absurd hret (by decide)
        | some ans =>
            rw [hans] at hret
            exact congrArg some hret
      · rw [hsame.1] at hlist
        exact absurd (congrArg List.length hlist) (by simp)
    · rintro (h | h | h | ⟨-, h, hl⟩)
      · exact absurd h hctx
      · exact absurd h hno
      · exact absurd h hfs
      · exact ⟨_, t, hr, Or.inl ⟨by rw [h]; rfl, mem.fs, hlist, hone.2 hl, _, hnew, rfl⟩⟩

/-- What is asked of a call: if it mounts a drive, it does so all-or-nothing; and the letters are
unique behind it. -/
def MountStepOk (opers : ℕ → Option (VfsOper σ)) (s : VfsState N σ) (c : VfsCall) : Prop :=
  (∀ path ctx mem, c = .mount (some path) ctx mem → mem.Fresh s → MountOk opers s path ctx mem) ∧
    ∀ s', vfsStep opers s c = some s' → UniqueLetters s'

/-- The calls that meet this. -/
def MountStepGood (opers : ℕ → Option (VfsOper σ)) (s : VfsState N σ) (c : VfsCall) : Prop :=
  ∀ path ctx mem, c = .mount (some path) ctx mem → mem.Fresh s → MountGood opers s path ctx mem

/-- A good call keeps the letters unique. -/
theorem uniqueLetters_vfsStep {s s' : VfsState N σ} (hs : DrivesOk s) (hu : UniqueLetters s)
    {c : VfsCall} (hc : MountStepGood opers s c) (h : vfsStep opers s c = some s') :
    UniqueLetters s' := by
  obtain ⟨⟨ret, t⟩, hr, rfl⟩ := Option.map_eq_some_iff.1 h
  have hkeep : SameDrives s t → UniqueLetters t := fun hsame => by
    rw [UniqueLetters, hsame.letters_eq]
    exact hu
  cases c with
  | mount path ctx mem =>
      rw [VfsCall.run] at hr
      split at hr
      · rename_i hmem
        cases path with
        | none =>
            cases hr
            exact hu
        | some path =>
            have hgood := hc path ctx mem rfl hmem
            rcases vfsMount_cases opers hs path ctx hmem with
              ⟨-, r, -, hr'⟩ | ⟨⟨hctx, hno, hfs⟩, ⟨-, hr'⟩ | ⟨-, u, hr', -, -, hlist, hnew, hold⟩⟩ <;>
              rw [hr'] at hr <;> cases hr
            · exact hu
            · have hnotMem := vfsMount_fresh_notMem hs hmem hfs
              rw [UniqueLetters, letters_of_append hlist hnew fun e he =>
                hold e fun h => hnotMem (h ▸ he)]
              refine List.nodup_append.2 ⟨hu, List.pairwise_singleton _ _, fun l hl m hm => ?_⟩
              rintro rfl
              rcases hgood with h | h | h | ⟨-, -, hnl⟩
              exacts [hctx h, hno h, hfs h, hnl ((List.mem_singleton.1 hm : l = path.char 0) ▸ hl)]
      · cases hr
  | unmount path =>
      rcases vfsUnmount_drives hs hr with hsame | ⟨Fs, hFs, hlist, -, hfss⟩
      · exact hkeep hsame
      · have hsub : (letters t).Sublist (letters s) := by
          rw [letters, letters, hlist, hfss]
          exact (List.erase_sublist).map _
        exact hu.sublist hsub
  | «open» | close | write | read | seek =>
      exact hkeep (sameDrives_run hr (fun _ _ _ => nofun) fun _ => nofun)

/-- **Mounting is all-or-nothing along a run, and letters stay unique, exactly when every call of
`vfs_mount` meets `MountGood`.** -/
theorem mount_allOrNothing_iff (opers : ℕ → Option (VfsOper σ)) (env : σ) (cs : List VfsCall) :
    Runs.Every (vfsStep opers) (MountStepOk opers) (preVfsInit N env) cs ↔
      Runs.Every (vfsStep opers) (MountStepGood opers) (preVfsInit N env) cs := by
  refine Runs.every_iff (P := fun s => DrivesOk s ∧ UniqueLetters s) ?_ ?_ cs
    ⟨drivesOk_preVfsInit env, List.nodup_nil⟩
  · rintro s c ⟨hs, hu⟩
    constructor
    · intro h path ctx mem hc hmem
      exact (mountOk_iff hs path ctx hmem).1 (h.1 path ctx mem hc hmem)
    · intro h
      refine ⟨fun path ctx mem hc hmem => ?_, fun s' hs' => uniqueLetters_vfsStep hs hu h hs'⟩
      exact (mountOk_iff hs path ctx hmem).2 (h path ctx mem hc hmem)
  · rintro s c s' ⟨hs, hu⟩ hc hstep
    exact ⟨hs.vfsStep hstep, uniqueLetters_vfsStep hs hu hc hstep⟩

/-- A driver that fails to mount anything. -/
def brokenDriver : VfsOper Unit := ⟨none, some fun _ env => (-5, env), none, none, none, none, none,
  none⟩

/-- The driver fails, and `vfs_mount` returns its error, but the drive stays in the list. -/
theorem mount_failed_stays :
    ¬Runs.Every (vfsStep fun _ => some brokenDriver) (MountStepOk fun _ => some brokenDriver)
      (preVfsInit 4 ()) [.mount (some (.ofAscii "F:" (by decide))) 0x20000400
        ⟨0x20000100, 0x20000110⟩] := by
  rintro ⟨⟨h, -⟩, -⟩
  obtain ⟨ret, s', hr, h⟩ := h _ _ _ rfl (by decide)
  cases hr
  rcases h with ⟨hret, -⟩ | ⟨-, hlist, -⟩
  · exact absurd hret (by decide)
  · exact absurd (congrArg VfsList.head hlist) (by decide)

end Pico.Vfs
