/-
**The class `String`.**

The members of `arduino/WString.cpp` that change a `String`, over the buffer as a block of bytes.
Nobody else has a pointer to the block, so it belongs to the object: moving an object moves the
block, and an argument is a buffer of its own unless it is the object itself.  `none` stands for
what C++ gives no meaning to: a byte outside the block is read or written, or a block that has been
given back.

* `Buffer`, `Obj` — what a `char *` leads to, and the fields;
* `Allocator` — the heap: which requests get a block, and what the block holds;
* `changeBuffer`, `reserve`, `copy`, `move`, `concat`, … — the members, under the names they have;
* `Represented` — the length and the terminator agree.

`replace` of a string is in `StringReplace.lean`, and what `reserve` and `concat` do with the core
heap, when there is no memory, is in `StringAlloc.lean`.
-/

import Mathlib.Algebra.Group.Int.Defs
import Mathlib.Algebra.Group.Nat.Defs
import WizioPico.CBuffer
import WizioPico.CTypes

set_option relaxedAutoImplicit false
set_option autoImplicit false

namespace Pico.WString

open CBuffer

/-! ### The object -/

/-- What a `char *` leads to: nothing, a block that has been given back, or bytes. -/
inductive Buffer
  | null
  | freed
  | block (bytes : List UInt8)
  deriving DecidableEq

/-- The bytes that a pointer gives access to. -/
def Buffer.bytes : Buffer → Option (List UInt8)
  | .block b => some b
  | .null | .freed => none

/-- `free`. -/
def Buffer.free : Buffer → Option Buffer
  | .null => some .null
  | .block _ => some .freed
  | .freed => none

/-- The characters that a pointer leads to. -/
def Buffer.text (p : Buffer) : Option (List UInt8) := p.bytes.bind scan

/-- `strlen`. -/
def Buffer.strlen (p : Buffer) : Option ℕ := p.text.map List.length

/-- A `const char *` of the application. -/
def Buffer.ofChars : Option CString → Buffer
  | none => .null
  | some t => .block (t.bytes ++ [0])

/-- The array `buf` that a character is put into. -/
def Buffer.ofChar (c : UInt8) : Buffer := .block [c, 0]

/-- The fields of a `String`. -/
structure Obj where
  buffer : Buffer
  capacity : ℕ
  len : ℕ
  deriving DecidableEq

/-- The bytes of the buffer are changed. -/
def Obj.modify (s : Obj) (f : List UInt8 → Option (List UInt8)) : Option Obj :=
  s.buffer.bytes.bind fun b => (f b).map fun b => { s with buffer := .block b }

/-- **The length and the terminator agree.** -/
def Represented (s : Obj) : Prop :=
  (s.buffer = .null ∧ s.capacity = 0 ∧ s.len = 0) ∨
    ∃ b, s.buffer = .block b ∧ b.length = s.capacity + 1 ∧ s.len ≤ s.capacity ∧
      b[s.len]? = some 0 ∧ s.buffer.strlen = some s.len

/-- The value of an `unsigned int`. -/
def unsigned (i : ℤ) : ℕ := (i % 2 ^ 32).toNat

/-- The heap, as a call finds it: what is in a new block of a given size, if there is one.  No
block has a size of zero, or one with the top bit set. -/
structure Allocator where
  alloc : ℕ → Option (ℕ → UInt8)
  refuses : ∀ n, n = 0 ∨ 2 ^ 31 ≤ n → alloc n = none

/-- A heap that provides every block that it can. -/
def generous : Allocator where
  alloc n := if 0 < n ∧ n < 2 ^ 31 then some fun _ => 0xff else none
  refuses n hn := if_neg (by omega)

/-- The bytes of a new block, with those of the old one copied to it. -/
def resize (b : List UInt8) (n : ℕ) (fresh : ℕ → UInt8) : List UInt8 :=
  (List.range n).map fun i => b.getD i (fresh i)

/-! ### Memory -/

/-- `init`. -/
def init : Obj := ⟨.null, 0, 0⟩

/-- `invalidate`. -/
def invalidate (s : Obj) : Option Obj := s.buffer.free.map fun _ => init

/-- `changeBuffer`.  The `realloc` of the framework gives the old block back in any case. -/
def changeBuffer (A : Allocator) (s : Obj) (maxStrLen : ℕ) : Option (Obj × Bool) :=
  let n := unsigned (maxStrLen + 1)
  s.buffer.free.map fun old =>
    match A.alloc n with
    | some fresh =>
        (⟨.block (resize (s.buffer.bytes.getD []) n fresh), maxStrLen, s.len⟩, true)
    | none => ({ s with buffer := old }, false)

/-- `reserve`. -/
def reserve (A : Allocator) (s : Obj) (size : ℕ) : Option (Obj × Bool) :=
  if s.buffer ≠ .null ∧ size ≤ s.capacity then some (s, true)
  else (changeBuffer A s size).bind fun a =>
    if a.2 then
      (if a.1.len = 0 then a.1.modify fun b => store b 0 0 else some a.1).map fun s => (s, true)
    else some (a.1, false)

/-- `strcpy(buffer + i, cstr)`, from another block. -/
def strcpy (s : Obj) (i : ℕ) (cstr : Buffer) : Option Obj :=
  cstr.text.bind fun t => s.modify fun b => paste b i (t ++ [0])

/-! ### Copying and moving -/

/-- `copy`. -/
def copy (A : Allocator) (s : Obj) (cstr : Buffer) (length : ℕ) : Option Obj :=
  (reserve A s length).bind fun a =>
    if a.2 then strcpy { a.1 with len := length } 0 cstr else invalidate a.1

/-- `move`.  It leaves the object and the one that it is moved from. -/
def move (s rhs : Obj) : Option (Obj × Obj) :=
  if s.buffer ≠ .null ∧ rhs.buffer ≠ .null ∧ rhs.len ≤ s.capacity then
    (strcpy s 0 rhs.buffer).map fun s => ({ s with len := rhs.len }, { rhs with len := 0 })
  else s.buffer.free.map fun _ => (rhs, init)

/-- `operator =` of another object. -/
def assign (A : Allocator) (s rhs : Obj) : Option Obj :=
  if rhs.buffer ≠ .null then copy A s rhs.buffer rhs.len else invalidate s

/-- `operator =` of characters, in memory or in flash. -/
def assignChars (A : Allocator) (s : Obj) (cstr : Buffer) : Option Obj :=
  if cstr ≠ .null then cstr.strlen.bind fun n => copy A s cstr n else invalidate s

/-- `String(const char *)`. -/
def ofChars (A : Allocator) (cstr : Buffer) : Option Obj :=
  if cstr ≠ .null then cstr.strlen.bind fun n => copy A init cstr n else some init

/-- `String(const __FlashStringHelper *)`. -/
def ofFlash (A : Allocator) (pstr : Buffer) : Option Obj := assignChars A init pstr

/-- `String(const String &)`. -/
def ofString (A : Allocator) (value : Obj) : Option Obj := assign A init value

/-- `String(String &&)`. -/
def ofMoved (rval : Obj) : Option (Obj × Obj) := move init rval

/-- `String(char)`. -/
def ofChar (A : Allocator) (c : UInt8) : Option Obj := assignChars A init (.ofChar c)

/-- The constructors of numbers, with the text that the conversion leaves in `buf`. -/
def ofNumber (A : Allocator) (text : CString) : Option Obj :=
  assignChars A init (.ofChars (some text))

/-! ### Appending -/

/-- The `const char *` of `concat`: the buffer of the object itself, or another block. -/
inductive Source
  | own
  | other (cstr : Buffer)

/-- The pointer is null. -/
def Source.isNull (s : Obj) : Source → Bool
  | .own => s.buffer == .null
  | .other cstr => cstr == .null

/-- `strcpy(buffer + i, cstr)`.  If the buffer is not the one it was when the pointer was taken, the
pointer leads to a block that has been given back. -/
def Source.strcpy (s : Obj) (i : ℕ) (kept : Bool) : Source → Option Obj
  | .own => if kept then s.modify fun b => strcpyForward (b.length + 1) b i 0 else none
  | .other cstr => WString.strcpy s i cstr

/-- `concat` of characters with their number. -/
def concatChars (A : Allocator) (s : Obj) (cstr : Source) (length : ℕ) : Option (Obj × Bool) :=
  let newlen := unsigned (s.len + length)
  if cstr.isNull s then some (s, false)
  else if length = 0 then some (s, true)
  else (reserve A s newlen).bind fun a =>
    if a.2 then
      (cstr.strcpy a.1 a.1.len (s.buffer ≠ .null ∧ newlen ≤ s.capacity)).map fun s =>
        ({ s with len := newlen }, true)
    else some (a.1, false)

/-- `concat` of characters in flash. -/
def concatFlash (A : Allocator) (s : Obj) (str : Buffer) : Option (Obj × Bool) :=
  if str = .null then some (s, false)
  else str.strlen.bind fun length =>
    if length = 0 then some (s, true)
    else
      let newlen := unsigned (s.len + length)
      (reserve A s newlen).bind fun a =>
        if a.2 then
          (strcpy a.1 a.1.len str).map fun s => ({ s with len := newlen }, true)
        else some (a.1, false)

/-- What can be appended.  A number comes with the text that its conversion leaves in `buf`. -/
inductive Piece
  | self
  | string (t : Obj)
  | chars (cstr : Option CString)
  | char (c : UInt8)
  | number (text : CString)
  | flash (str : Option CString)

/-- **`concat`**, and `operator +=`. -/
def concat (A : Allocator) (s : Obj) : Piece → Option (Obj × Bool)
  | .self => concatChars A s .own s.len
  | .string t => concatChars A s (.other t.buffer) t.len
  | .chars cstr =>
      if Buffer.ofChars cstr = .null then some (s, false)
      else (Buffer.ofChars cstr).strlen.bind fun n =>
        concatChars A s (.other (.ofChars cstr)) n
  | .char c => concatChars A s (.other (.ofChar c)) 1
  | .number text =>
      (Buffer.ofChars (some text)).strlen.bind fun n =>
        concatChars A s (.other (.ofChars (some text))) n
  | .flash str => concatFlash A s (.ofChars str)

/-- `operator +`, of which `s` is the left operand. -/
def plus (A : Allocator) (s : Obj) (piece : Piece) : Option Obj :=
  (concat A s piece).bind fun a => if a.2 then some a.1 else invalidate a.1

/-! ### Characters -/

/-- `setCharAt`. -/
def setCharAt (s : Obj) (loc : ℕ) (c : UInt8) : Option Obj :=
  if loc < s.len then s.modify fun b => store b loc c else some s

/-- `s[index] = c`.  Outside the text it is a dummy that is written. -/
def setIndex (s : Obj) (index : ℕ) (c : UInt8) : Option Obj :=
  if s.len ≤ index ∨ s.buffer = .null then some s else s.modify fun b => store b index c

/-- `substring`.  It leaves the new object, and the object itself, in which it has put a NUL and
then the character back. -/
def substring (A : Allocator) (s : Obj) (left right : ℕ) : Option (Obj × Obj) :=
  let (left, right) := if right < left then (right, left) else (left, right)
  (ofChars A (.ofChars (some ⟨[], List.not_mem_nil⟩))).bind fun out =>
    if s.len ≤ left then some (out, s)
    else
      let right := if s.len < right then s.len else right
      s.buffer.bytes.bind fun b => (b[right]?).bind fun temp => (store b right 0).bind fun b =>
        (assignChars A out (.block (b.drop left))).bind fun out =>
          (store b right temp).map fun b => (out, { s with buffer := .block b })

/-! ### Modification -/

/-- `replace` of a character. -/
def replaceChar (s : Obj) (find replace : UInt8) : Option Obj :=
  if s.buffer = .null then some s
  else s.modify (mapText fun c => if c = find then replace else c)

/-- `remove`. -/
def remove (s : Obj) (index count : ℕ) : Option Obj :=
  if s.len ≤ index then some s
  else if count = 0 then some s
  else
    let count := if s.len - index < count then s.len - index else count
    let len := s.len - count
    (s.modify fun b => strncpyForward (len - index) b index (index + count)).bind fun s =>
      { s with len := len }.modify fun b => store b len 0

/-- `remove` of everything from an index on. -/
def removeFrom (s : Obj) (index : ℕ) : Option Obj := remove s index (2 ^ 32 - 1)

/-- `tolower`, in the C locale. -/
def tolower (c : UInt8) : UInt8 := if 65 ≤ c ∧ c ≤ 90 then c + 32 else c

/-- `toupper`, in the C locale. -/
def toupper (c : UInt8) : UInt8 := if 97 ≤ c ∧ c ≤ 122 then c - 32 else c

/-- `isspace`, in the C locale. -/
def isspace (c : UInt8) : Bool := c == 32 || 9 ≤ c && c ≤ 13

/-- `toLowerCase`. -/
def toLowerCase (s : Obj) : Option Obj :=
  if s.buffer = .null then some s else s.modify (mapText tolower)

/-- `toUpperCase`. -/
def toUpperCase (s : Obj) : Option Obj :=
  if s.buffer = .null then some s else s.modify (mapText toupper)

/-- `while (isspace(*begin)) begin++;` -/
def trimBegin : List UInt8 → Option ℕ
  | [] => none
  | c :: l => if isspace c then (trimBegin l).map (· + 1) else some 0

/-- `while (isspace(*end) && end >= begin) end--;`, with the index behind `end`. -/
def trimEnd (b : List UInt8) (begin : ℕ) : ℕ → Option ℕ
  | 0 => none
  | e + 1 => (b[e]?).bind fun c =>
      if isspace c ∧ begin ≤ e then trimEnd b begin e else some (e + 1)

/-- `trim`. -/
def trim (s : Obj) : Option Obj :=
  if s.buffer = .null ∨ s.len = 0 then some s
  else s.buffer.bytes.bind fun b => (trimBegin b).bind fun begin =>
    (trimEnd b begin s.len).bind fun e =>
      let len := unsigned (e - begin)
      (if 0 < begin then copyForward len b 0 begin else some b).bind fun b =>
        (store b len 0).map fun b => { s with buffer := .block b, len := len }

end Pico.WString
