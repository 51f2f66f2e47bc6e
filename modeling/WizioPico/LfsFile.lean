/-
**Files of littlefs.**

The functions of `library/lfs/lfs.c` on files, `lfs_file_opencfg` and those on what it opens, on a
device that is mounted and has room: an entry of the directory is a file with its bytes, or another
directory, and a file object has the bytes its own file will have.  Blocks and caches are left out,
and so are the errors of the device and the assertions.

* `Pico.LfsFile.Drive` — the device, the file objects, and the memory that is written from;
* `Pico.LfsFile.lfsFileOpencfg`, `Pico.LfsFile.lfsFileWrite`, `Pico.LfsFile.lfsFileRead`,
  `Pico.LfsFile.lfsFileSeek`, `Pico.LfsFile.lfsFileClose` — the functions;
* `Pico.LfsFile.contents_lfsFileClose` — closing leaves the bytes of a file object in the file;
* `Pico.LfsFile.littleFs` — littlefs on such a device.
-/

import Mathlib.Logic.Function.Basic
import WizioPico.FsDrivers
import WizioPico.Posix

set_option relaxedAutoImplicit false
set_option autoImplicit false

namespace Pico.LfsFile

open Pico.Vfs

/-! ### The device -/

def LFS_F_DIRTY : UInt32 := 0x010000
def LFS_F_WRITING : UInt32 := 0x020000
def LFS_F_READING : UInt32 := 0x040000
def LFS_F_ERRED : UInt32 := 0x080000
def LFS_F_OPENED : UInt32 := 0x200000

/-- An entry of the directory. -/
inductive Entry where
  | reg (data : List UInt8)
  | dir

/-- A file object: the path it was opened with, its flags, the position, the size of `ctz`, which
writing leaves to the next flush, and the bytes of the file. -/
structure File where
  path : CString
  flags : UInt32
  pos : UInt32
  size : UInt32
  data : List UInt8

/-- A device with its entries and file objects, the next address of an allocation, the memory of the
program, and the limit for the size of a file. -/
structure Drive where
  entries : CString → Option Entry
  files : ℕ → Option File
  next : ℕ
  mem : ℕ → UInt8
  fileMax : UInt32

namespace Drive

/-- An assignment to an entry. -/
def setEntry (d : Drive) (path : CString) (e : Entry) : Drive :=
  { d with entries := fun p => if p = path then some e else d.entries p }

/-- An assignment to a file object. -/
def setFile (d : Drive) (file : ℕ) (f : Option File) : Drive :=
  { d with files := fun p => if p = file then f else d.files p }

@[simp] theorem entries_setEntry (d : Drive) (path : CString) (e : Entry) :
    (d.setEntry path e).entries path = some e := if_pos rfl

@[simp] theorem files_setFile (d : Drive) (file : ℕ) (f : Option File) :
    (d.setFile file f).files file = f := if_pos rfl

@[simp] theorem entries_setFile (d : Drive) (file : ℕ) (f : Option File) :
    (d.setFile file f).entries = d.entries := rfl

@[simp] theorem files_setEntry (d : Drive) (path : CString) (e : Entry) :
    (d.setEntry path e).files = d.files := rfl

/-- The bytes of the files. -/
def contents (d : Drive) (path : CString) : Option (List UInt8) :=
  match d.entries path with
  | some (.reg data) => some data
  | _ => none

theorem contents_setEntry (d : Drive) (path : CString) (data : List UInt8) :
    (d.setEntry path (.reg data)).contents = Function.update d.contents path (some data) := by
  funext p
  simp only [contents, setEntry, Function.update_apply]
  split_ifs <;> rfl

/-- A device with at most one file. -/
def ofFile (path : CString) (prior : Option (List UInt8)) : Drive where
  entries p := if p = path then prior.map .reg else none
  files _ := none
  next := 0
  mem _ := 0
  fileMax := 0x7fffffff

theorem contents_ofFile (path : CString) (prior : Option (List UInt8)) :
    (ofFile path prior).contents path = prior := by
  cases prior with
  | none => simp [contents, ofFile]
  | some data => simp [contents, ofFile]

theorem entries_ofFile_ne_dir (path : CString) (prior : Option (List UInt8)) :
    (ofFile path prior).entries path ≠ some .dir := by
  cases prior with
  | none => simp [ofFile]
  | some data => simp [ofFile]

/-- The bytes from an address of the memory on. -/
def bytesAt (d : Drive) (buf n : ℕ) : List UInt8 := (List.range n).map fun i => d.mem (buf + i)

/-- Bytes are stored in the memory. -/
def store (d : Drive) (buf : ℕ) (bytes : List UInt8) : Drive :=
  { d with
    mem := fun a => if buf ≤ a ∧ a < buf + bytes.length then bytes.getD (a - buf) 0 else d.mem a }

end Drive

/-! ### The functions -/

/-- `lfs_file_opencfg`, without attributes. -/
def lfsFileOpencfg (file : ℕ) (path : CString) (flags : UInt32) (d : Drive) : Int32 × Drive :=
  let opened : UInt32 → List UInt8 → File := fun flags data =>
    ⟨path, flags ||| LFS_F_OPENED, 0, UInt32.ofNat data.length, data⟩
  match d.entries path with
  | none =>
    if flags &&& LFS_O_CREAT = 0 then (-2, d)
    else (0, (d.setEntry path (.reg [])).setFile file (some (opened flags [])))
  | some e =>
    if flags &&& LFS_O_EXCL ≠ 0 then (-17, d)
    else match e with
      | .dir => (-21, d)
      | .reg data =>
        if flags &&& LFS_O_TRUNC ≠ 0 then
          (0, d.setFile file (some (opened (flags ||| LFS_F_DIRTY) [])))
        else (0, d.setFile file (some (opened flags data)))

/-- `lfs_file_flush`. -/
def File.flush (f : File) : File :=
  let f := { f with flags := f.flags &&& ~~~LFS_F_READING }
  if f.flags &&& LFS_F_WRITING ≠ 0 then
    { f with size := max f.pos f.size, flags := f.flags &&& ~~~LFS_F_WRITING ||| LFS_F_DIRTY }
  else f

/-- The part of `lfs_file_write` in front of the limit: where the bytes will go. -/
def File.toWrite (f : File) : File :=
  let f := if f.flags &&& LFS_F_READING ≠ 0 then f.flush else f
  if f.flags &&& LFS_O_APPEND ≠ 0 ∧ f.pos < f.size then { f with pos := f.size } else f

/-- The part of `lfs_file_write` that fills with zeros up to a position behind the end. -/
def File.fill (f : File) : File :=
  if f.flags &&& LFS_F_WRITING = 0 ∧ f.size < f.pos then
    { f with
      data := f.data ++ List.replicate (f.pos - f.size).toNat 0
      flags := f.flags ||| LFS_F_WRITING }
  else f

/-- `lfs_file_write`. -/
def lfsFileWrite (file buf : ℕ) (size : UInt32) (d : Drive) : Int32 × Drive :=
  match d.files file with
  | none => (-9, d)
  | some f =>
    let f := f.toWrite
    if d.fileMax < f.pos + size then (-27, d.setFile file (some f))
    else
      let f := f.fill
      let f := if size ≠ 0 then
        { f with
          data := Posix.splice f.data f.pos.toNat (d.bytesAt buf size.toNat)
          pos := f.pos + size
          flags := f.flags ||| LFS_F_WRITING }
        else f
      (size.toInt32, d.setFile file (some f))

/-- `lfs_file_read`, into the memory. -/
def lfsFileRead (file buf : ℕ) (size : UInt32) (d : Drive) : Int32 × Drive :=
  match d.files file with
  | none => (-9, d)
  | some f =>
    let f := if f.flags &&& LFS_F_WRITING ≠ 0 then f.flush else f
    if f.size ≤ f.pos then (0, d.setFile file (some f))
    else
      let size := min size (f.size - f.pos)
      let d := d.store buf ((f.data.drop f.pos.toNat).take size.toNat)
      (size.toInt32, d.setFile file (some { f with
        pos := f.pos + size, flags := f.flags ||| LFS_F_READING }))

/-- `lfs_file_seek`. -/
def lfsFileSeek (file : ℕ) (off whence : ℤ) (d : Drive) : Int32 × Drive :=
  match d.files file with
  | none => (-9, d)
  | some f =>
    let f := f.flush
    let npos :=
      if whence = SEEK_SET then toSize off
      else if whence = SEEK_CUR then f.pos + toSize off
      else if whence = SEEK_END then f.size + toSize off
      else f.pos
    if d.fileMax < npos then (-22, d.setFile file (some f))
    else (npos.toInt32, d.setFile file (some { f with pos := npos }))

/-- `lfs_file_close`: the entry gets what has changed. -/
def lfsFileClose (file : ℕ) (d : Drive) : Int32 × Drive :=
  match d.files file with
  | none => (-9, d)
  | some f =>
    let f := f.flush
    let d := if f.flags &&& LFS_F_DIRTY ≠ 0 ∧ f.flags &&& LFS_F_ERRED = 0 then
      d.setEntry f.path (.reg f.data) else d
    (0, d.setFile file none)

theorem File.flush_data (f : File) : f.flush.data = f.data := by
  simp only [File.flush]
  split <;> rfl

theorem File.flush_path (f : File) : f.flush.path = f.path := by
  simp only [File.flush]
  split <;> rfl

theorem File.flush_flags (f : File) : f.flush.flags =
    if f.flags &&& ~~~LFS_F_READING &&& LFS_F_WRITING ≠ 0 then
      f.flags &&& ~~~LFS_F_READING &&& ~~~LFS_F_WRITING ||| LFS_F_DIRTY
    else f.flags &&& ~~~LFS_F_READING := by
  simp only [File.flush]
  split <;> rfl

/-- Closing leaves the bytes of a file object in the file, if there was a change. -/
theorem contents_lfsFileClose {d : Drive} {file : ℕ} {f : File} (h : d.files file = some f)
    (hdata : d.contents f.path = some f.data ∨
      f.flush.flags &&& LFS_F_DIRTY ≠ 0 ∧ f.flush.flags &&& LFS_F_ERRED = 0) :
    (lfsFileClose file d).2.contents = Function.update d.contents f.path (some f.data) := by
  simp only [lfsFileClose, h, f.flush_data, f.flush_path]
  split
  · exact d.contents_setEntry f.path f.data
  · rename_i hclean
    exact (Function.update_eq_self_iff.2 (hdata.resolve_right hclean).symm).symm

/-- littlefs on a mounted device. -/
def littleFs : LittleFs Drive where
  calloc d := (d.next + 1, { d with next := d.next + 1 })
  free file d := d.setFile file none
  lfsMount _ d := (0, d)
  lfsFormat _ d := (0, d)
  lfsFileOpen _ := lfsFileOpencfg
  lfsFileClose _ := lfsFileClose
  lfsFileWrite _ := lfsFileWrite
  lfsFileRead _ := lfsFileRead
  lfsFileSeek _ := lfsFileSeek

end Pico.LfsFile
