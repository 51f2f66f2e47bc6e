/-
**Strings, integers and error codes of C.**

* `Pico.CString` — a string: bytes other than NUL, with a NUL behind them;
* `Pico.CString.char` — the character at an index, which is NUL at the end of the string;
* `Pico.toInt`, `Pico.toSize` — the conversions between `size_t` and `int`, both of 32 bits;
* `Pico.isValidDev` — `is_valid_dev` of `library/VFS/VFS.c`: the string names a device, `"F:"`;
* `Pico.strhash` — `strhash` of `wizio/pico/wizio.c`, by which the open-file table tells paths
  apart.
-/

import Mathlib.Algebra.Group.Int.Defs
import Mathlib.Algebra.Group.Nat.Defs
import Mathlib.Data.List.Basic
import Mathlib.Data.Nat.Notation
import Mathlib.Data.Int.Notation

set_option relaxedAutoImplicit false
set_option autoImplicit false

namespace Pico

/-- A NUL-terminated string.  A `char` is unsigned on this target. -/
@[ext] structure CString where
  bytes : List UInt8
  noNul : 0 ∉ bytes
  deriving DecidableEq

namespace CString

/-- `strlen`. -/
def strlen (s : CString) : ℕ := s.bytes.length

/-- `s[i]`, up to and including the terminator. -/
def char (s : CString) (i : ℕ) : UInt8 := s.bytes.getD i 0

/-- The string that begins at an index of another, which is not beyond its end. -/
def drop (s : CString) (n : ℕ) : CString :=
  ⟨s.bytes.drop n, fun h => s.noNul (List.mem_of_mem_drop h)⟩

/-- The string of an ASCII literal. -/
def ofAscii (s : String) (h : 0 ∉ s.toList.map fun c => UInt8.ofNat c.toNat) : CString :=
  ⟨s.toList.map fun c => UInt8.ofNat c.toNat, h⟩

end CString

/-! ### Integers -/

/-- The conversion of a `size_t` to an `int`. -/
def toInt (n : UInt32) : ℤ := if n.toNat < 2 ^ 31 then n.toNat else n.toNat - 2 ^ 32

/-- The conversion of an `int` to a `size_t`. -/
def toSize (i : ℤ) : UInt32 := UInt32.ofNat (i % 2 ^ 32).toNat

/-- A `size_t` that goes through an `int` comes back. -/
@[simp] theorem toSize_toInt (n : UInt32) : toSize (toInt n) = n := by
  have hlt : n.toNat < 2 ^ 32 := n.toNat_lt
  have hmod : toInt n % 2 ^ 32 = n.toNat := by
    rw [toInt]
    split <;> omega
  rw [toSize, hmod, Int.toNat_natCast, UInt32.ofNat_toNat]

/-- An `int` that goes through a `size_t` comes back. -/
theorem toInt_toSize {i : ℤ} (hmin : -2 ^ 31 ≤ i) (hmax : i < 2 ^ 31) : toInt (toSize i) = i := by
  have hnat : (toSize i).toNat = (i % 2 ^ 32).toNat :=
    UInt32.toNat_ofNat_of_lt' (by change _ < 2 ^ 32; omega)
  rw [toInt, hnat]
  split <;> omega

/-! ### Error codes -/

/-- The error codes of newlib. -/
def ENOENT : ℤ := 2
def EINTR : ℤ := 4
def EIO : ℤ := 5
def ENXIO : ℤ := 6
def EBADF : ℤ := 9
def ENOMEM : ℤ := 12
def EACCES : ℤ := 13
def EEXIST : ℤ := 17
def ENODEV : ℤ := 19
def ENOTDIR : ℤ := 20
def EISDIR : ℤ := 21
def EINVAL : ℤ := 22
def ENFILE : ℤ := 23
def EFBIG : ℤ := 27
def ENOSPC : ℤ := 28
def ENODATA : ℤ := 61
def ENOTEMPTY : ℤ := 90
def ENAMETOOLONG : ℤ := 91
def ETIMEDOUT : ℤ := 116
def EILSEQ : ℤ := 138

/-! ### Flags -/

/-- The flags of `open`. -/
def O_RDONLY : UInt32 := 0
def O_WRONLY : UInt32 := 1
def O_RDWR : UInt32 := 2
def O_ACCMODE : UInt32 := 3
def O_APPEND : UInt32 := 0x0008
def O_CREAT : UInt32 := 0x0200
def O_TRUNC : UInt32 := 0x0400
def O_EXCL : UInt32 := 0x0800

/-! ### Device names and the hash of a path -/

/-- `is_valid_dev`, for a pointer that is not null. -/
def isValidDev (name : CString) : Bool :=
  2 ≤ name.strlen && name.char 1 == 58 -- ':'

/-- One round of the loop of `strhash`. -/
def strhashRound (h : UInt32) (c : UInt8) : UInt32 :=
  let h := 5527 * h + 7 * c.toUInt32
  let v := h &&& 0x0000ffff
  h ^^^ v * v

/-- `strhash`. -/
def strhash (src : CString) : UInt32 := src.bytes.foldl strhashRound 0

end Pico
