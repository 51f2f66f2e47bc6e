/-
**Opening files, as POSIX has it.**

What `open` does to a file, for each combination of its flags, and what a write with `O_APPEND`
does.  The bytes of a file are of any type.

* `Posix.OpenFlags` — the access mode and the flags;
* `Posix.opened` — the contents of the file behind the call, unless it fails;
* `Posix.splice`, `Posix.Appends` — a write at a position, and one at the end of the file;
* `Posix.Appends.head_eq` — what lands at the end leaves the beginning as it was.
-/

import Mathlib.Data.List.Basic

set_option relaxedAutoImplicit false
set_option autoImplicit false

namespace Posix

variable {α : Type*}

/-- The access modes. -/
inductive Access where
  | rdonly
  | wronly
  | rdwr
  deriving DecidableEq

/-- Write access. -/
def Access.writes : Access → Bool
  | .rdonly => false
  | .wronly | .rdwr => true

/-- What a file is opened with. -/
structure OpenFlags where
  access : Access
  creat : Bool
  excl : Bool
  trunc : Bool
  append : Bool
  deriving DecidableEq

/-- **What opening does to a file**, that may be absent: the contents behind the call, or nothing if
it fails and leaves the file as it was. -/
def opened (f : OpenFlags) : Option (List α) → Option (List α)
  | none => if f.creat then some [] else none
  | some data =>
    if f.creat && f.excl then none
    else if f.trunc && f.access.writes then some []
    else some data

/-- Bytes are written at a position of a file, over what is there. -/
def splice (data : List α) (position : ℕ) (bytes : List α) : List α :=
  data.take position ++ bytes ++ data.drop (position + bytes.length)

/-- **A write lands at the end of a file**, as far as it is done. -/
def Appends (data : List α) (bytes : List α) (data' : List α) : Prop :=
  ∃ n, data' = data ++ bytes.take n

/-- A byte is written over the first one. -/
theorem splice_zero_one (data : List α) (x : α) : splice data 0 [x] = x :: data.drop 1 := rfl

/-- What lands at the end of a file leaves its first byte as it was. -/
theorem Appends.head_eq {x y : α} {data bytes data' : List α}
    (h : Appends (x :: data) bytes (y :: data')) : x = y := by
  obtain ⟨n, hn⟩ := h
  exact (List.cons.inj hn).1.symm

end Posix
