/-
**Files on a FatFs volume.**

The functions of `library/fatfs/ff.c` on files, `f_open` and those on what it opens, on a volume
that is mounted and has room: a directory entry is its attributes and the bytes of its file, and a
file object has the bytes of its own file.  Clusters and sectors are left out, and so are the errors
of the drive.

* `Pico.FatFile.Drive` — the volume, the file objects, and the memory that is written from;
* `Pico.FatFile.fOpen`, `Pico.FatFile.fWrite`, `Pico.FatFile.fRead`, `Pico.FatFile.fLseek`,
  `Pico.FatFile.fClose` — the functions;
* `Pico.FatFile.fOpen_ok`, `Pico.FatFile.files_fClose` — a path that is found is opened, and closing
  leaves the bytes of a file object in the file;
* `Pico.FatFile.fatFs` — FatFs on such a volume.
-/

import Mathlib.Logic.Function.Basic
import WizioPico.FsDrivers
import WizioPico.Posix

set_option relaxedAutoImplicit false
set_option autoImplicit false

namespace Pico.FatFile

open Pico.Vfs
open FRESULT

/-! ### The volume -/

def AM_RDO : UInt8 := 0x01
def AM_DIR : UInt8 := 0x10
def AM_ARC : UInt8 := 0x20
def FA_SEEKEND : UInt8 := 0x20
def FA_OPEN_APPEND : UInt8 := 0x30
def FA_MODIFIED : UInt8 := 0x40

/-- A directory entry. -/
structure Entry where
  attr : UInt8
  data : List UInt8

/-- A file object: the path it was opened with, its flags, the file pointer, and the bytes of the
file, which the directory entry gets when it is closed. -/
structure Fil where
  path : CString
  flag : UInt8
  fptr : UInt32
  data : List UInt8

/-- A volume with its directory entries and file objects, the next address of an allocation, the
memory of the program, and what there is in clusters that are not in use. -/
structure Drive where
  entries : CString → Option Entry
  fils : ℕ → Option Fil
  next : ℕ
  mem : ℕ → UInt8
  stale : ℕ → UInt8

namespace Drive

/-- An assignment to a directory entry. -/
def setEntry (d : Drive) (path : CString) (e : Entry) : Drive :=
  { d with entries := fun p => if p = path then some e else d.entries p }

/-- An assignment to a file object. -/
def setFil (d : Drive) (fp : ℕ) (fil : Option Fil) : Drive :=
  { d with fils := fun p => if p = fp then fil else d.fils p }

@[simp] theorem entries_setEntry (d : Drive) (path : CString) (e : Entry) :
    (d.setEntry path e).entries path = some e := if_pos rfl

@[simp] theorem fils_setFil (d : Drive) (fp : ℕ) (fil : Option Fil) :
    (d.setFil fp fil).fils fp = fil := if_pos rfl

@[simp] theorem entries_setFil (d : Drive) (fp : ℕ) (fil : Option Fil) :
    (d.setFil fp fil).entries = d.entries := rfl

@[simp] theorem fils_setEntry (d : Drive) (path : CString) (e : Entry) :
    (d.setEntry path e).fils = d.fils := rfl

/-- The bytes of the files. -/
def files (d : Drive) (path : CString) : Option (List UInt8) := (d.entries path).map Entry.data

theorem files_setEntry (d : Drive) (path : CString) (e : Entry) :
    (d.setEntry path e).files = Function.update d.files path (some e.data) := by
  funext p
  simp only [files, setEntry, Function.update_apply]
  split <;> rfl

/-- What there is at a path is a file that can be written. -/
def Plain (d : Drive) (path : CString) : Prop :=
  ∀ e, d.entries path = some e → e.attr &&& (AM_RDO ||| AM_DIR) = 0

/-- A volume with at most one file. -/
def ofFile (path : CString) (prior : Option (List UInt8)) : Drive where
  entries p := if p = path then prior.map fun data => ⟨AM_ARC, data⟩ else none
  fils _ := none
  next := 0
  mem _ := 0
  stale _ := 0

theorem files_ofFile (path : CString) (prior : Option (List UInt8)) :
    (ofFile path prior).files path = prior := by
  cases prior with
  | none => simp [files, ofFile]
  | some data => simp [files, ofFile]

theorem plain_ofFile (path : CString) (prior : Option (List UInt8)) :
    (ofFile path prior).Plain path := by
  intro e he
  cases prior with
  | none => simp [ofFile] at he
  | some data =>
      simp only [ofFile, if_true, Option.map_some, Option.some.injEq] at he
      rw [← he]
      exact (by decide : AM_ARC &&& (AM_RDO ||| AM_DIR) = 0)

/-- The bytes from an address of the memory on. -/
def bytesAt (d : Drive) (buf n : ℕ) : List UInt8 := (List.range n).map fun i => d.mem (buf + i)

/-- Bytes are stored in the memory. -/
def store (d : Drive) (buf : ℕ) (bytes : List UInt8) : Drive :=
  { d with
    mem := fun a => if buf ≤ a ∧ a < buf + bytes.length then bytes.getD (a - buf) 0 else d.mem a }

@[simp] theorem fils_store (d : Drive) (buf : ℕ) (bytes : List UInt8) :
    (d.store buf bytes).fils = d.fils := rfl

/-- What has been stored. -/
theorem bytesAt_store (d : Drive) (buf : ℕ) (bytes : List UInt8) :
    (d.store buf bytes).bytesAt buf bytes.length = bytes := by
  refine List.ext_getElem (by simp [bytesAt]) fun i _ hi => ?_
  simp [bytesAt, store, hi]

end Drive

/-! ### The functions -/

/-- The part of `f_open` on a path that may be created: the result, the mode and the volume. -/
def createOrOpen (path : CString) (mode : UInt8) (d : Drive) : FRESULT × UInt8 × Drive :=
  let r : FRESULT × UInt8 × Drive := match d.entries path with
    -- `dir_register`
    | none => (FR_OK, mode ||| FA_CREATE_ALWAYS, d.setEntry path ⟨0, []⟩)
    | some e =>
      if e.attr &&& (AM_RDO ||| AM_DIR) ≠ 0 then (FR_DENIED, mode, d)
      else if mode &&& FA_CREATE_NEW ≠ 0 then (FR_EXIST, mode, d)
      else (FR_OK, mode, d)
  if r.1 = FR_OK ∧ r.2.1 &&& FA_CREATE_ALWAYS ≠ 0 then
    (FR_OK, r.2.1, r.2.2.setEntry path ⟨AM_ARC, []⟩)
  else r

/-- The part of `f_open` on a path that must exist. -/
def openExisting (path : CString) (mode : UInt8) (d : Drive) : FRESULT × UInt8 × Drive :=
  match d.entries path with
  | none => (FR_NO_FILE, mode, d)
  | some e =>
    if e.attr &&& AM_DIR ≠ 0 then (FR_NO_FILE, mode, d)
    else if mode &&& FA_WRITE ≠ 0 ∧ e.attr &&& AM_RDO ≠ 0 then (FR_DENIED, mode, d)
    else (FR_OK, mode, d)

/-- `f_open`. -/
def fOpen (fp : ℕ) (path : CString) (mode : UInt8) (d : Drive) : FRESULT × Drive :=
  let mode := mode &&& (FA_READ ||| FA_WRITE ||| FA_CREATE_ALWAYS ||| FA_CREATE_NEW |||
    FA_OPEN_ALWAYS ||| FA_OPEN_APPEND)
  let r :=
    if mode &&& (FA_CREATE_ALWAYS ||| FA_OPEN_ALWAYS ||| FA_CREATE_NEW) ≠ 0 then
      createOrOpen path mode d
    else openExisting path mode d
  if r.1 = FR_OK then
    let mode := if r.2.1 &&& FA_CREATE_ALWAYS ≠ 0 then r.2.1 ||| FA_MODIFIED else r.2.1
    let data := ((r.2.2.entries path).map Entry.data).getD []
    let fptr : UInt32 := if mode &&& FA_SEEKEND ≠ 0 then UInt32.ofNat data.length else 0
    (FR_OK, r.2.2.setFil fp (some ⟨path, mode, fptr, data⟩))
  else (r.1, r.2.2)

theorem createOrOpen_absent {d : Drive} {path : CString} {m : UInt8} (h : d.entries path = none)
    (hm : (m ||| FA_CREATE_ALWAYS) &&& FA_CREATE_ALWAYS ≠ 0) :
    createOrOpen path m d = (FR_OK, m ||| FA_CREATE_ALWAYS,
      (d.setEntry path ⟨0, []⟩).setEntry path ⟨AM_ARC, []⟩) := by
  simp [createOrOpen, h, hm]

theorem createOrOpen_present {d : Drive} {path : CString} {m : UInt8} {e : Entry}
    (h : d.entries path = some e) (he : e.attr &&& (AM_RDO ||| AM_DIR) = 0) :
    createOrOpen path m d =
      if m &&& FA_CREATE_NEW ≠ 0 then (FR_EXIST, m, d)
      else if m &&& FA_CREATE_ALWAYS ≠ 0 then (FR_OK, m, d.setEntry path ⟨AM_ARC, []⟩)
      else (FR_OK, m, d) := by
  simp only [createOrOpen, h, he, ne_eq, not_true_eq_false, if_false]
  split
  · simp
  · simp

theorem openExisting_present {d : Drive} {path : CString} {m : UInt8} {e : Entry}
    (h : d.entries path = some e) (he : e.attr &&& (AM_RDO ||| AM_DIR) = 0) :
    openExisting path m d = (FR_OK, m, d) := by
  have hpart : ∀ bit : UInt8, (AM_RDO ||| AM_DIR) &&& bit = bit → e.attr &&& bit = 0 := by
    intro bit hbit
    rw [← hbit, ← UInt8.and_assoc, he, UInt8.zero_and]
  simp [openExisting, h, hpart AM_DIR rfl, hpart AM_RDO rfl]

/-- `f_open` where the path is found, or created. -/
theorem fOpen_ok (fp : ℕ) {path : CString} {m m' : UInt8} {d d' : Drive} {e : Entry}
    (hm : m &&& (FA_READ ||| FA_WRITE ||| FA_CREATE_ALWAYS ||| FA_CREATE_NEW |||
      FA_OPEN_ALWAYS ||| FA_OPEN_APPEND) = m)
    (h : (if m &&& (FA_CREATE_ALWAYS ||| FA_OPEN_ALWAYS ||| FA_CREATE_NEW) ≠ 0 then
      createOrOpen path m d else openExisting path m d) = (FR_OK, m', d'))
    (he : d'.entries path = some e)
    (hs : (if m' &&& FA_CREATE_ALWAYS ≠ 0 then m' ||| FA_MODIFIED else m') &&& FA_SEEKEND = 0) :
    fOpen fp path m d = (FR_OK, d'.setFil fp (some ⟨path,
      if m' &&& FA_CREATE_ALWAYS ≠ 0 then m' ||| FA_MODIFIED else m', 0, e.data⟩)) := by
  simp only [fOpen, hm, h, he, hs, Option.map_some, Option.getD_some, ne_eq, not_true_eq_false,
    if_true, if_false]

/-- `f_open` where it is not. -/
theorem fOpen_fails {fp : ℕ} {path : CString} {m : UInt8} {d : Drive} {fr : FRESULT}
    (hm : m &&& (FA_READ ||| FA_WRITE ||| FA_CREATE_ALWAYS ||| FA_CREATE_NEW |||
      FA_OPEN_ALWAYS ||| FA_OPEN_APPEND) = m)
    (h : (if m &&& (FA_CREATE_ALWAYS ||| FA_OPEN_ALWAYS ||| FA_CREATE_NEW) ≠ 0 then
      createOrOpen path m d else openExisting path m d) = (fr, m, d))
    (hfr : fr ≠ FR_OK) :
    fOpen fp path m d = (fr, d) := by
  simp only [fOpen, hm, h, hfr, if_false]

/-- `f_write`, with the number of bytes that are written. -/
def fWrite (fp buf : ℕ) (btw : UInt32) (d : Drive) : (FRESULT × UInt32) × Drive :=
  match d.fils fp with
  | none => ((FR_INVALID_OBJECT, 0), d)
  | some fil =>
    if fil.flag &&& FA_WRITE = 0 then ((FR_DENIED, 0), d)
    else
      let btw := if fil.fptr + btw < fil.fptr then 0xFFFFFFFF - fil.fptr else btw
      let bytes := d.bytesAt buf btw.toNat
      ((FR_OK, btw), d.setFil fp (some { fil with
        flag := fil.flag ||| FA_MODIFIED,
        fptr := fil.fptr + btw,
        data := Posix.splice fil.data fil.fptr.toNat bytes }))

/-- `f_read`, with the number of bytes that are read into the memory. -/
def fRead (fp buf : ℕ) (btr : UInt32) (d : Drive) : (FRESULT × UInt32) × Drive :=
  match d.fils fp with
  | none => ((FR_INVALID_OBJECT, 0), d)
  | some fil =>
    if fil.flag &&& FA_READ = 0 then ((FR_DENIED, 0), d)
    else
      let remain := UInt32.ofNat (fil.data.length - fil.fptr.toNat)
      let br := if remain < btr then remain else btr
      let d := d.store buf ((fil.data.drop fil.fptr.toNat).take br.toNat)
      ((FR_OK, br), d.setFil fp (some { fil with fptr := fil.fptr + br }))

/-- `f_lseek`: a file open for reading ends where it ends, any other becomes longer. -/
def fLseek (fp : ℕ) (ofs : UInt32) (d : Drive) : FRESULT × Drive :=
  match d.fils fp with
  | none => (FR_INVALID_OBJECT, d)
  | some fil =>
    let size := UInt32.ofNat fil.data.length
    let ofs := if size < ofs ∧ fil.flag &&& FA_WRITE = 0 then size else ofs
    if size < ofs then
      let grown := (List.range (ofs.toNat - fil.data.length)).map d.stale
      (FR_OK, d.setFil fp (some { fil with
        flag := fil.flag ||| FA_MODIFIED, fptr := ofs, data := fil.data ++ grown }))
    else (FR_OK, d.setFil fp (some { fil with fptr := ofs }))

/-- `f_close`: the directory entry gets what has changed. -/
def fClose (fp : ℕ) (d : Drive) : FRESULT × Drive :=
  match d.fils fp with
  | none => (FR_INVALID_OBJECT, d)
  | some fil =>
    let d := if fil.flag &&& FA_MODIFIED ≠ 0 then
      d.setEntry fil.path ⟨((d.entries fil.path).map Entry.attr).getD 0 ||| AM_ARC, fil.data⟩
      else d
    (FR_OK, d.setFil fp none)

/-- Closing leaves the bytes of a file object in the file. -/
theorem files_fClose {d : Drive} {fp : ℕ} {fil : Fil} (h : d.fils fp = some fil)
    (hfile : d.files fil.path = some fil.data) : (fClose fp d).2.files = d.files := by
  simp only [fClose, h]
  split
  · change Drive.files (Drive.setEntry _ _ _) = _
    rw [Drive.files_setEntry]
    exact Function.update_eq_self_iff.2 hfile.symm
  · rfl

/-- FatFs on a mounted volume. -/
def fatFs : FatFs Drive where
  calloc d := (d.next + 1, { d with next := d.next + 1 })
  free fp d := d.setFil fp none
  fMount _ d := (FR_OK, d)
  fUnmount _ d := (FR_OK, d)
  fOpen := fOpen
  fClose := fClose
  fWrite := fWrite
  fRead := fRead
  fLseek := fLseek
  fTell fp d := ((d.fils fp).map Fil.fptr).getD 0
  fSize fp d := UInt32.ofNat (((d.fils fp).map fun fil => fil.data.length).getD 0)

end Pico.FatFile
