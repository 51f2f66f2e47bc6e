/-
**Mounting littlefs.**

`s_lfs_mount` of `library/VFS/VFS_LFS.c` formats a device that cannot be mounted, for whatever
reason, and mounts it then.  `lfs_mount` only reads the device; what is observed of the device is
left open: its content, or the blocks that have been erased and programmed.

* `Pico.Vfs.ReadsOnly` — `lfs_mount` leaves the device alone;
* `Pico.Vfs.MountOnly` — a device is only touched because it is corrupt;
* `Pico.Vfs.Harmless` — the condition on the answers of littlefs under which that is so;
* `Pico.Vfs.sLfsMount_mountOnly_iff` — **nothing else keeps a device that only could not be
  mounted**, for it is formatted on every error;
* `Pico.Vfs.sLfsMount_fails_flaky` — one read that fails costs all files.
-/

import WizioPico.FsDrivers

set_option relaxedAutoImplicit false
set_option autoImplicit false

namespace Pico.Vfs

variable {φ δ : Type*}

/-- **`lfs_mount` leaves the device alone.** -/
def ReadsOnly (lib : LittleFs φ) (device : φ → δ) : Prop :=
  ∀ ctx l, device (lib.lfsMount ctx l).2 = device l

/-- **A device is only erased or programmed because it is corrupt**; every other error is returned,
with the device as it was. -/
def MountOnly (lib : LittleFs φ) (device : φ → δ) (Fs : VfsT) (env : Env φ) : Prop :=
  let err := (lib.lfsMount Fs.ctx env.lib).1
  let r := sLfsMount lib Fs env
  (device r.2.lib ≠ device env.lib → err.toInt = LfsError.corrupt.code) ∧
    (err ≠ 0 → err.toInt ≠ LfsError.corrupt.code →
      r.1 = lfsToerror err.toInt ∧ device r.2.lib = device env.lib)

/-- What littlefs reports in the end for a device that could not be mounted: the error of
`lfs_format`, or what mounting the formatted device gives. -/
def lastError (lib : LittleFs φ) (Fs : VfsT) (env : Env φ) : Int32 :=
  let f := lib.lfsFormat Fs.ctx (lib.lfsMount Fs.ctx env.lib).2
  if f.1 = 0 then (lib.lfsMount Fs.ctx f.2).1 else f.1

/-- **The answers that do no harm**: the device is mounted, or is corrupt, or else formatting leaves
it as it is and fails in the end with an error of the same translation. -/
def Harmless (lib : LittleFs φ) (device : φ → δ) (Fs : VfsT) (env : Env φ) : Prop :=
  let m := lib.lfsMount Fs.ctx env.lib
  m.1 = 0 ∨ m.1.toInt = LfsError.corrupt.code ∨
    device (lib.lfsFormat Fs.ctx m.2).2 = device env.lib ∧
      lfsToerror (lastError lib Fs env).toInt = lfsToerror m.1.toInt

variable {lib : LittleFs φ} {device : φ → δ} {Fs : VfsT} {env : Env φ}

/-- A device that can be mounted. -/
theorem sLfsMount_of_mounted (h : (lib.lfsMount Fs.ctx env.lib).1 = 0) :
    sLfsMount lib Fs env = (0, { env with lib := (lib.lfsMount Fs.ctx env.lib).2 }) := by
  have hne : ¬(lib.lfsMount Fs.ctx env.lib).1 ≠ 0 := not_not_intro h
  simp only [sLfsMount, if_neg hne]
  rw [h]
  rfl

/-- A device that cannot be mounted is formatted, and what is returned is the last error. -/
theorem sLfsMount_of_not_mounted (hreads : ReadsOnly lib device)
    (h : (lib.lfsMount Fs.ctx env.lib).1 ≠ 0) :
    (sLfsMount lib Fs env).1 = lfsToerror (lastError lib Fs env).toInt ∧
      device (sLfsMount lib Fs env).2.lib =
        device (lib.lfsFormat Fs.ctx (lib.lfsMount Fs.ctx env.lib).2).2 := by
  by_cases hf : (lib.lfsFormat Fs.ctx (lib.lfsMount Fs.ctx env.lib).2).1 = 0
  · simp only [sLfsMount, lastError, if_pos h, if_pos hf]
    exact ⟨trivial, hreads Fs.ctx _⟩
  · simp only [sLfsMount, lastError, if_pos h, if_neg hf]
    exact ⟨trivial, trivial⟩

/-- **A readable device is left alone exactly if the answers do no harm.** -/
theorem sLfsMount_mountOnly_iff (lib : LittleFs φ) {device : φ → δ} (hreads : ReadsOnly lib device)
    (Fs : VfsT) (env : Env φ) : MountOnly lib device Fs env ↔ Harmless lib device Fs env := by
  by_cases h : (lib.lfsMount Fs.ctx env.lib).1 = 0
  · have hdevice : device (sLfsMount lib Fs env).2.lib = device env.lib := by
      rw [sLfsMount_of_mounted h]
      exact hreads Fs.ctx env.lib
    refine iff_of_true ⟨fun hne => absurd hdevice hne, fun herr => absurd h herr⟩ (.inl h)
  · obtain ⟨hres, hdevice⟩ := sLfsMount_of_not_mounted hreads h
    rw [MountOnly, Harmless]
    rw [hres, hdevice]
    constructor
    · rintro ⟨-, hother⟩
      by_cases hcorrupt : (lib.lfsMount Fs.ctx env.lib).1.toInt = LfsError.corrupt.code
      · exact .inr (.inl hcorrupt)
      · obtain ⟨herr, hsame⟩ := hother h hcorrupt
        exact .inr (.inr ⟨hsame, herr⟩)
    · rintro (hmounted | hcorrupt | ⟨hsame, herr⟩)
      · exact absurd hmounted h
      · exact ⟨fun _ => hcorrupt, fun _ hne => absurd hcorrupt hne⟩
      · exact ⟨fun hne => absurd hsame hne, fun _ _ => ⟨herr, hsame⟩⟩

/-! ### A device that cannot be read at first -/

/-- A device, with the number of reads that will fail, and what its files hold; it may have no file
system. -/
structure FlakyFlash where
  faults : ℕ
  files : Option (List UInt8)

namespace FlakyFlash

/-- `lfs_mount`: an error of the device, or of the content, or none. -/
def mount (_ctx : ℕ) (l : FlakyFlash) : Int32 × FlakyFlash :=
  if l.faults ≠ 0 then (-5, { l with faults := l.faults - 1 })
  else if l.files.isSome then (0, l)
  else (-84, l)

/-- `lfs_format`. -/
def format (_ctx : ℕ) (l : FlakyFlash) : Int32 × FlakyFlash :=
  if l.faults ≠ 0 then (-5, { l with faults := l.faults - 1 })
  else (0, { l with files := some [] })

/-- littlefs on such a device. -/
def littleFs : LittleFs FlakyFlash where
  calloc l := (0, l)
  free _ l := l
  lfsMount := mount
  lfsFormat := format
  lfsFileOpen _ _ _ _ l := (-2, l)
  lfsFileClose _ _ l := (0, l)
  lfsFileWrite _ _ _ _ l := (-9, l)
  lfsFileRead _ _ _ _ l := (-9, l)
  lfsFileSeek _ _ _ _ l := (-9, l)

theorem readsOnly_littleFs : ReadsOnly littleFs files := by
  intro ctx l
  change (mount ctx l).2.files = l.files
  rw [mount]
  split
  · rfl
  · split <;> rfl

end FlakyFlash

/-- When the device fails twice, nothing is lost: `lfs_format` gives up with the same error. -/
theorem sLfsMount_mountOnly_iff_twice :
    MountOnly FlakyFlash.littleFs FlakyFlash.files ⟨0, 70, 58, 0⟩ ⟨0, ⟨2, some [1, 2, 3]⟩⟩ :=
  (sLfsMount_mountOnly_iff FlakyFlash.littleFs FlakyFlash.readsOnly_littleFs ⟨0, 70, 58, 0⟩
    ⟨0, ⟨2, some [1, 2, 3]⟩⟩).2 (.inr (.inr ⟨rfl, rfl⟩))

/-- **One read that fails costs all files**: `lfs_mount` reports `LFS_ERR_IO`. -/
theorem sLfsMount_fails_flaky : ReadsOnly FlakyFlash.littleFs FlakyFlash.files ∧
    (FlakyFlash.littleFs.lfsMount 0 ⟨1, some [1, 2, 3]⟩).1.toInt = LfsError.io.code ∧
      ¬MountOnly FlakyFlash.littleFs FlakyFlash.files ⟨0, 70, 58, 0⟩ ⟨0, ⟨1, some [1, 2, 3]⟩⟩ := by
  refine ⟨FlakyFlash.readsOnly_littleFs, rfl, fun h => ?_⟩
  have hcorrupt := h.1 (by decide)
  exact absurd hcorrupt (by decide)

end Pico.Vfs
