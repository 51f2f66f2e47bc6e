/-
**The circular byte buffer.**

`cbuf` of `arduino/arduino/cbuf.h` and `cbuf.cpp`: a queue of bytes in an array that can be
replaced by a larger or a smaller one.  The pointers into the array are indices from `_buf` on; an
access outside of the array has no outcome.

* `Pico.Cbuf` — the members of the class, with the length of the array `_buf` points to;
* `Pico.Cbuf.Op`, `Pico.Cbuf.Op.run` — the methods, one by one as the source has them;
* `Pico.Cbuf.Fifo` — a bounded queue, and what each method means on it;
* `Pico.Cbuf.Wf`, `Pico.Cbuf.queue` — the invariant, and the queue that is read off the array;
* `Pico.Cbuf.readBytes_eq`, `Pico.Cbuf.writeBytes_eq` — the bulk methods walk around the ring, like
  as many calls of the single ones (`Pico.Cbuf.readEach_eq`, `Pico.Cbuf.writeEach_eq`);
* `Pico.Cbuf.Session` — the buffer, with all that was accepted and all that was taken out;
* `Pico.Cbuf.fifo_iff` — **every run of calls refines the queue exactly if** no call of `resize`
  asks for an array that the queued bytes fill up: one cell has to stay free.
-/

import WizioPico.ByteMem
import WizioPico.Ring
import WizioPico.Runs
import Mathlib.Data.Int.Notation

set_option relaxedAutoImplicit false
set_option autoImplicit false

namespace Pico

/-- `class cbuf`.  `cap` is the length of the array at `_buf`, or `none` if `_buf` is null; the
other pointers are indices into it. -/
structure Cbuf where
  size : ℕ
  buf : ByteMem
  cap : Option ℕ
  bufend : ℕ
  beginIx : ℕ
  endIx : ℕ

namespace Cbuf

/-! ### The methods -/

/-- The difference of two `size_t`. -/
def sub32 (a b : ℕ) : ℕ := (a + 2 ^ 32 - b) % 2 ^ 32

/-- The constructor, with the array that `new` finds, if it does. -/
def init (size : ℕ) (new : Option ByteMem) : Cbuf where
  size := (size + 1) % 2 ^ 32
  buf := new.getD fun _ => 0
  cap := new.map fun _ => (size + 1) % 2 ^ 32
  bufend := (size + 1) % 2 ^ 32
  beginIx := 0
  endIx := 0

/-- `n` bytes from an index on lie in the array. -/
def inArray (c : Cbuf) (i n : ℕ) : Bool := n == 0 || c.cap.any fun k => i + n ≤ k

/-- `memcpy` out of the array. -/
def copyOut (c : Cbuf) (i n : ℕ) : Option (List UInt8) :=
  if c.inArray i n then some ((List.range' i n).map c.buf) else none

/-- `memcpy` into the array. -/
def copyIn (c : Cbuf) (i : ℕ) (src : List UInt8) : Option Cbuf :=
  if c.inArray i src.length then
    some { c with buf := c.buf.blit i src.length fun j => src.getD j 0 }
  else none

/-- `wrap_if_bufend`. -/
def wrapIfBufend (c : Cbuf) (p : ℕ) : ℕ := if p = c.bufend then 0 else p

/-- `available`. -/
def available (c : Cbuf) : ℕ :=
  if c.endIx ≥ c.beginIx then c.endIx - c.beginIx else sub32 c.size (c.beginIx - c.endIx)

/-- `room`. -/
def room (c : Cbuf) : ℕ :=
  if c.endIx ≥ c.beginIx then sub32 (sub32 c.size (c.endIx - c.beginIx)) 1
  else sub32 (c.beginIx - c.endIx) 1

/-- `empty`. -/
def empty (c : Cbuf) : Bool := c.beginIx == c.endIx

/-- `full`. -/
def full (c : Cbuf) : Bool := c.wrapIfBufend (c.endIx + 1) == c.beginIx

/-- `peek()`. -/
def peek (c : Cbuf) : Option ℤ :=
  if c.empty then some (-1)
  else if c.inArray c.beginIx 1 then some (c.buf c.beginIx).toNat
  else none

/-- `peek(dst, size)`, with the bytes stored at `dst`. -/
def peekBytes (c : Cbuf) (size : ℕ) : Option (List UInt8 × ℕ) :=
  let bytesAvailable := c.available
  let sizeToRead := if size < bytesAvailable then size else bytesAvailable
  if c.endIx < c.beginIx ∧ sizeToRead > sub32 c.bufend c.beginIx then
    let topSize := sub32 c.bufend c.beginIx
    (c.copyOut c.beginIx topSize).bind fun top =>
      (c.copyOut 0 (sizeToRead - topSize)).map fun rest => (top ++ rest, sizeToRead)
  else (c.copyOut c.beginIx sizeToRead).map fun bytes => (bytes, sizeToRead)

/-- `read()`. -/
def read (c : Cbuf) : Option (Cbuf × ℤ) :=
  if c.empty then some (c, -1)
  else if c.inArray c.beginIx 1 then
    some ({ c with beginIx := c.wrapIfBufend (c.beginIx + 1) }, (c.buf c.beginIx).toNat)
  else none

/-- `read(dst, size)`, with the bytes stored at `dst`. -/
def readBytes (c : Cbuf) (size : ℕ) : Option (Cbuf × List UInt8 × ℕ) :=
  let bytesAvailable := c.available
  let sizeToRead := if size < bytesAvailable then size else bytesAvailable
  if c.endIx < c.beginIx ∧ sizeToRead > sub32 c.bufend c.beginIx then
    let topSize := sub32 c.bufend c.beginIx
    (c.copyOut c.beginIx topSize).bind fun top =>
      (c.copyOut 0 (sizeToRead - topSize)).map fun rest =>
        ({ c with beginIx := c.wrapIfBufend (sizeToRead - topSize) }, top ++ rest, sizeToRead)
  else
    (c.copyOut c.beginIx sizeToRead).map fun bytes =>
      ({ c with beginIx := c.wrapIfBufend (c.beginIx + sizeToRead) }, bytes, sizeToRead)

/-- `write(c)`. -/
def write (c : Cbuf) (b : UInt8) : Option (Cbuf × ℕ) :=
  if c.full then some (c, 0)
  else (c.copyIn c.endIx [b]).map fun c => ({ c with endIx := c.wrapIfBufend (c.endIx + 1) }, 1)

/-- `write(src, size)`, for the `size` bytes at `src`. -/
def writeBytes (c : Cbuf) (src : List UInt8) : Option (Cbuf × ℕ) :=
  let bytesAvailable := c.room
  let sizeToWrite := if src.length < bytesAvailable then src.length else bytesAvailable
  if c.endIx ≥ c.beginIx ∧ sizeToWrite > sub32 c.bufend c.endIx then
    let topSize := sub32 c.bufend c.endIx
    (c.copyIn c.endIx (src.take topSize)).bind fun c =>
      (c.copyIn 0 ((src.drop topSize).take (sizeToWrite - topSize))).map fun c =>
        ({ c with endIx := c.wrapIfBufend (sizeToWrite - topSize) }, sizeToWrite)
  else
    (c.copyIn c.endIx (src.take sizeToWrite)).map fun c =>
      ({ c with endIx := c.wrapIfBufend (c.endIx + sizeToWrite) }, sizeToWrite)

/-- `flush`. -/
def flush (c : Cbuf) : Cbuf := { c with beginIx := 0, endIx := 0 }

/-- `remove`. -/
def remove (c : Cbuf) (size : ℕ) : Cbuf × ℕ :=
  let bytesAvailable := c.available
  if size ≥ bytesAvailable then (c.flush, 0)
  else
    let c :=
      if c.endIx < c.beginIx ∧ size > sub32 c.bufend c.beginIx then
        { c with beginIx := c.wrapIfBufend (size - sub32 c.bufend c.beginIx) }
      else { c with beginIx := c.wrapIfBufend (c.beginIx + size) }
    (c, c.available)

/-- `resize`, with the array that `new` finds, if it does. -/
def resize (c : Cbuf) (newSize : ℕ) (new : Option ByteMem) : Option (Cbuf × ℕ) :=
  let bytesAvailable := c.available
  let newSize := (newSize + 1) % 2 ^ 32
  if newSize < bytesAvailable ∨ newSize = c.size then some (c, c.size)
  else
    match new with
    | none => some (c, c.size)
    | some newbuf =>
      let filled : Option ByteMem :=
        if c.cap.isSome then
          (c.readBytes bytesAvailable).map fun r =>
            (newbuf.blit 0 r.2.1.length fun j => r.2.1.getD j 0).blit bytesAvailable
              (newSize - bytesAvailable) fun _ => 0
        else some newbuf
      filled.map fun newbuf => (⟨newSize, newbuf, some newSize, newSize, 0, bytesAvailable⟩, newSize)

/-- `resizeAdd`. -/
def resizeAdd (c : Cbuf) (addSize : ℕ) (new : Option ByteMem) : Option (Cbuf × ℕ) :=
  c.resize ((c.size + addSize) % 2 ^ 32) new

/-- The calls. -/
inductive Op where
  | peek
  | peekBytes (size : ℕ)
  | read
  | readBytes (size : ℕ)
  | write (b : UInt8)
  | writeBytes (src : List UInt8)
  | flush
  | remove (size : ℕ)
  | resize (newSize : ℕ) (new : Option ByteMem)
  | resizeAdd (addSize : ℕ) (new : Option ByteMem)

/-- **A call**: the buffer afterwards, what is returned, and what is stored at `dst`. -/
def Op.run (c : Cbuf) : Op → Option (Cbuf × ℤ × List UInt8)
  | .peek => c.peek.map fun v => (c, v, [])
  | .peekBytes size => (c.peekBytes size).map fun r => (c, r.2, r.1)
  | .read => c.read.map fun r => (r.1, r.2, [])
  | .readBytes size => (c.readBytes size).map fun r => (r.1, r.2.2, r.2.1)
  | .write b => (c.write b).map fun r => (r.1, r.2, [])
  | .writeBytes src => (c.writeBytes src).map fun r => (r.1, r.2, [])
  | .flush => some (c.flush, 0, [])
  | .remove size => some ((c.remove size).1, (c.remove size).2, [])
  | .resize newSize new => (c.resize newSize new).map fun r => (r.1, r.2, [])
  | .resizeAdd addSize new => (c.resizeAdd addSize new).map fun r => (r.1, r.2, [])

/-! ### The single methods, called several times -/

/-- `n` calls of `read()`, with the bytes they return. -/
def readEach (c : Cbuf) : ℕ → Option (Cbuf × List UInt8)
  | 0 => some (c, [])
  | n + 1 => c.read.bind fun r =>
    (readEach r.1 n).map fun t => (t.1, if r.2 = -1 then t.2 else UInt8.ofNat r.2.toNat :: t.2)

/-- A call of `write(c)` for each byte, with the number of bytes accepted. -/
def writeEach (c : Cbuf) : List UInt8 → Option (Cbuf × ℕ)
  | [] => some (c, 0)
  | b :: src => (c.write b).bind fun r => (writeEach r.1 src).map fun t => (t.1, r.2 + t.2)

/-! ### The queue -/

/-- A queue of fewer than `size` bytes. -/
structure Fifo where
  items : List UInt8
  size : ℕ

namespace Fifo

/-- The bytes for which there is room. -/
def room (q : Fifo) : ℕ := q.size - 1 - q.items.length

/-- Another size, unless the queued bytes would not fit with a cell left free. -/
def resize (q : Fifo) (size : ℕ) (granted : Bool) : Fifo :=
  if granted ∧ q.items.length < size then { q with size := size } else q

/-- **What the calls mean**: the queue afterwards, what is returned, and what is stored at
`dst`. -/
def run (q : Fifo) : Op → Fifo × ℤ × List UInt8
  | .peek => (q, (q.items.head?.map fun b => (b.toNat : ℤ)).getD (-1), [])
  | .peekBytes size => (q, (min size q.items.length : ℕ), q.items.take size)
  | .read =>
    ({ q with items := q.items.tail }, (q.items.head?.map fun b => (b.toNat : ℤ)).getD (-1), [])
  | .readBytes size =>
    ({ q with items := q.items.drop size }, (min size q.items.length : ℕ), q.items.take size)
  | .write b => ({ q with items := q.items ++ [b].take q.room }, (min 1 q.room : ℕ), [])
  | .writeBytes src =>
    ({ q with items := q.items ++ src.take q.room }, (min src.length q.room : ℕ), [])
  | .flush => ({ q with items := [] }, 0, [])
  | .remove size => ({ q with items := q.items.drop size }, (q.items.drop size).length, [])
  | .resize newSize new =>
    let q := q.resize ((newSize + 1) % 2 ^ 32) new.isSome
    (q, q.size, [])
  | .resizeAdd addSize new =>
    let q := q.resize (((q.size + addSize) % 2 ^ 32 + 1) % 2 ^ 32) new.isSome
    (q, q.size, [])

end Fifo

/-- The bytes in the buffer, oldest first. -/
def queue (c : Cbuf) : List UInt8 := Ring.contents c.buf c.size c.beginIx c.available

/-- The buffer as a queue. -/
def toFifo (c : Cbuf) : Fifo := ⟨c.queue, c.size⟩

@[simp] theorem length_queue (c : Cbuf) : c.queue.length = c.available := Ring.length_contents ..

/-! ### Walking around the ring -/

/-- The buffer after `k` bytes have been taken from the front. -/
def skip (c : Cbuf) (k : ℕ) : Cbuf := { c with beginIx := Ring.slot c.size c.beginIx k }

/-- The buffer after bytes have been stored behind the last one. -/
def append (c : Cbuf) (src : List UInt8) : Cbuf :=
  { c with
    buf := Ring.storeAll c.buf c.size c.endIx src
    endIx := Ring.slot c.size c.endIx src.length }

theorem skip_skip (c : Cbuf) (j k : ℕ) : (c.skip j).skip k = c.skip (j + k) := by
  simp [skip, Ring.slot_slot]

/-- `memcpy` into the array stores one byte behind the other. -/
theorem storeAll_eq_blit {N : ℕ} (buf : ByteMem) (src : List UInt8) {i : ℕ}
    (h : i + src.length ≤ N) :
    Ring.storeAll buf N i src = buf.blit i src.length fun j => src.getD j 0 := by
  induction src generalizing buf i with
  | nil => simp
  | cons b src ih =>
      rw [List.length_cons] at h
      have hnext : Ring.storeAll (Function.update buf i b) N (Ring.next N i) src =
          ByteMem.blit (Function.update buf i b) (i + 1) src.length fun j => src.getD j 0 := by
        rcases Nat.lt_or_ge (i + 1) N with hi | hi
        · rw [Ring.next_eq (by omega), if_neg (by omega), ih _ (by omega)]
        · obtain rfl : src = [] := List.length_eq_zero_iff.1 (by omega)
          simp
      rw [Ring.storeAll_cons, hnext]
      funext x
      unfold ByteMem.blit
      by_cases hx : x = i
      · subst hx
        rw [if_neg (by omega), Function.update_self, if_pos (by simp)]
        simp
      · rw [Function.update_of_ne hx, List.length_cons]
        by_cases hin : i + 1 ≤ x ∧ x < i + 1 + src.length
        · have hsub : x - i = x - (i + 1) + 1 := by omega
          rw [if_pos hin, if_pos (by omega), hsub]
          rfl
        · rw [if_neg hin, if_neg (by omega)]

/-- A new array: the queued bytes, and zeros behind them. -/
def refill (newbuf : ByteMem) (size : ℕ) (q : List UInt8) : ByteMem :=
  (newbuf.blit 0 q.length fun j => q.getD j 0).blit q.length (size - q.length) fun _ => 0

/-- The buffer after the queued bytes have been moved to a new array. -/
def moved (c : Cbuf) (newbuf : ByteMem) (size : ℕ) : Cbuf :=
  ⟨size, refill newbuf size c.queue, some size, size, 0, c.available⟩

/-- The queue stands at the start of a new array. -/
theorem map_refill (newbuf : ByteMem) (size : ℕ) (q : List UInt8) :
    (List.range' 0 q.length).map (refill newbuf size q) = q := by
  refine List.ext_getElem (by simp) fun i hi hq => ?_
  rw [List.getElem_map, List.getElem_range', refill, ByteMem.blit_of_not_mem (by omega),
    ByteMem.blit_of_mem (by omega) (by omega)]
  simp [hq]

/-! ### The invariant -/

/-- The array is there, and both pointers are inside. -/
structure Wf (c : Cbuf) : Prop where
  cap : c.cap = some c.size
  bufend : c.bufend = c.size
  begin_lt : c.beginIx < c.size
  end_lt : c.endIx < c.size
  size_lt : c.size < 2 ^ 32

theorem sub32_eq {a b : ℕ} (h : b ≤ a) (ha : a < 2 ^ 32) : sub32 a b = a - b := by
  unfold sub32
  omega

namespace Wf

variable {c : Cbuf}

theorem available_eq (h : c.Wf) : c.available = Ring.count c.size c.beginIx c.endIx := by
  have hb := h.begin_lt
  have he := h.end_lt
  unfold available Ring.count
  split
  · rfl
  · rw [sub32_eq (by omega) h.size_lt]
    omega

theorem available_lt (h : c.Wf) : c.available < c.size := by
  rw [h.available_eq]
  exact Ring.count_lt h.begin_lt h.end_lt

theorem room_eq (h : c.Wf) : c.room = c.size - 1 - c.available := by
  have hb := h.begin_lt
  have he := h.end_lt
  have hs := h.size_lt
  rw [h.available_eq]
  unfold room Ring.count
  split
  · rw [sub32_eq (by omega) hs, sub32_eq (by omega) (by omega)]
    omega
  · rw [sub32_eq (by omega) (by omega)]
    omega

theorem empty_iff (h : c.Wf) : c.empty = true ↔ c.available = 0 := by
  rw [h.available_eq, Ring.count_eq_zero_iff h.begin_lt, empty, beq_iff_eq]

/-- `wrap_if_bufend` for a pointer that has not gone beyond the end of the array. -/
theorem wrap_eq (h : c.Wf) {i k : ℕ} (hik : i + k ≤ c.size) :
    c.wrapIfBufend (i + k) = Ring.slot c.size i k := by
  unfold wrapIfBufend
  rw [h.bufend]
  split
  · rename_i he
    rw [Ring.slot, he, Nat.mod_self]
  · exact (Ring.slot_of_lt (by omega)).symm

theorem full_iff (h : c.Wf) : c.full = true ↔ c.available + 1 = c.size := by
  have he := h.end_lt
  rw [full, h.wrap_eq (by omega), beq_iff_eq, h.available_eq]
  exact Ring.next_head_eq_tail_iff h.begin_lt h.end_lt

/-- The bytes between an index and the end of the array are inside. -/
theorem inArray (h : c.Wf) {i n : ℕ} (hin : i + n ≤ c.size) : c.inArray i n = true := by
  simp [Cbuf.inArray, h.cap, hin]

theorem copyOut (h : c.Wf) {i n : ℕ} (hin : i + n ≤ c.size) :
    c.copyOut i n = some (Ring.contents c.buf c.size i n) := by
  rw [Cbuf.copyOut, if_pos (h.inArray hin), Ring.contents_of_le c.buf hin]

theorem skip_zero (h : c.Wf) : c.skip 0 = c := by
  rw [skip, Ring.slot_zero h.begin_lt]

theorem append_nil (h : c.Wf) : c.append [] = c := by
  rw [append, Ring.storeAll_nil, List.length_nil, Ring.slot_zero h.end_lt]

theorem append_append (h : c.Wf) (xs ys : List UInt8) :
    (c.append xs).append ys = c.append (xs ++ ys) := by
  simp [append, Ring.slot_slot, Ring.storeAll_append c.buf xs ys h.end_lt]

theorem skip_wf (h : c.Wf) (k : ℕ) : (c.skip k).Wf where
  cap := h.cap
  bufend := h.bufend
  begin_lt := Ring.slot_lt (Nat.zero_lt_of_lt h.begin_lt) _ _
  end_lt := h.end_lt
  size_lt := h.size_lt

theorem append_wf (h : c.Wf) (src : List UInt8) : (c.append src).Wf where
  cap := h.cap
  bufend := h.bufend
  begin_lt := h.begin_lt
  end_lt := Ring.slot_lt (Nat.zero_lt_of_lt h.end_lt) _ _
  size_lt := h.size_lt

theorem available_skip (h : c.Wf) {k : ℕ} (hk : k ≤ c.available) :
    (c.skip k).available = c.available - k := by
  rw [h.available_eq] at hk ⊢
  rw [(h.skip_wf k).available_eq]
  exact Ring.count_slot_tail h.begin_lt h.end_lt hk

theorem available_append (h : c.Wf) {src : List UInt8} (hs : c.available + src.length < c.size) :
    (c.append src).available = c.available + src.length := by
  rw [h.available_eq] at hs ⊢
  rw [(h.append_wf src).available_eq]
  exact Ring.count_slot_head h.begin_lt h.end_lt hs

/-- **Taking from the front of the buffer** takes from the front of the queue. -/
theorem queue_skip (h : c.Wf) {k : ℕ} (hk : k ≤ c.available) :
    (c.skip k).queue = c.queue.drop k := by
  rw [queue, h.available_skip hk, queue, Ring.drop_contents c.buf h.begin_lt hk]
  rfl

/-- **Storing behind the last byte** appends to the queue. -/
theorem queue_append (h : c.Wf) {src : List UInt8} (hs : c.available + src.length < c.size) :
    (c.append src).queue = c.queue ++ src := by
  have hend : c.endIx = Ring.slot c.size c.beginIx c.available := by
    rw [h.available_eq, Ring.slot_count h.begin_lt h.end_lt]
  have hstore : (c.append src).buf =
      Ring.storeAll c.buf c.size (Ring.slot c.size c.beginIx c.available) src := by
    rw [← hend]
    rfl
  rw [queue, h.available_append hs, hstore]
  exact Ring.contents_storeAll c.buf src h.begin_lt (by omega)

theorem copyIn (h : c.Wf) {i : ℕ} {src : List UInt8} (hin : i + src.length ≤ c.size) :
    c.copyIn i src = some { c with buf := Ring.storeAll c.buf c.size i src } := by
  rw [Cbuf.copyIn, if_pos (h.inArray hin), storeAll_eq_blit c.buf src hin]

/-! ### The methods in terms of the walk -/

/-- `peek(dst, size)` hands out the front of the queue. -/
theorem peekBytes_eq (h : c.Wf) (size : ℕ) :
    c.peekBytes size = some (c.queue.take size, min size c.available) := by
  have hb := h.begin_lt
  have he := h.end_lt
  have havail := h.available_eq
  have hmin : (if size < c.available then size else c.available) = min size c.available := by
    split <;> omega
  have hle : min size c.available ≤ c.available := Nat.min_le_right ..
  have htake : c.queue.take size =
      Ring.contents c.buf c.size c.beginIx (min size c.available) := by
    rw [← Ring.take_contents c.buf hb hle]
    exact (List.take_eq_take_iff.2 (by simp)).symm
  unfold Ring.count at havail
  rw [peekBytes, hmin, htake, h.bufend, sub32_eq (by omega) h.size_lt]
  dsimp only
  split
  · rename_i hw
    rw [if_neg (by omega)] at havail
    rw [h.copyOut (by omega), h.copyOut (by omega),
      Ring.contents_wrap c.buf hb (n := min size c.available) (by omega)]
    rfl
  · rename_i hw
    have hin : c.beginIx + min size c.available ≤ c.size := by
      by_cases hlt : c.endIx < c.beginIx
      · omega
      · rw [if_pos (by omega)] at havail
        omega
    rw [h.copyOut hin]
    rfl

/-- How `read` and `remove` move `_begin` on. -/
theorem begin_advance (h : c.Wf) {k : ℕ} (hk : k ≤ c.available) :
    (if c.endIx < c.beginIx ∧ k > sub32 c.bufend c.beginIx then
        c.wrapIfBufend (k - sub32 c.bufend c.beginIx)
      else c.wrapIfBufend (c.beginIx + k)) = Ring.slot c.size c.beginIx k := by
  have hb := h.begin_lt
  have he := h.end_lt
  have havail := h.available_eq
  unfold Ring.count at havail
  rw [h.bufend, sub32_eq (by omega) h.size_lt]
  split
  · rename_i hw
    rw [if_neg (by omega)] at havail
    rw [Ring.slot_of_wrap hb (by omega) (by omega), wrapIfBufend, if_neg (by rw [h.bufend]; omega)]
  · rename_i hw
    refine h.wrap_eq ?_
    by_cases hlt : c.endIx < c.beginIx
    · omega
    · rw [if_pos (by omega)] at havail
      omega

/-- **`read(dst, size)`** hands out the same and moves on. -/
theorem readBytes_eq (h : c.Wf) (size : ℕ) :
    c.readBytes size =
      some (c.skip (min size c.available), c.queue.take size, min size c.available) := by
  have hmin : (if size < c.available then size else c.available) = min size c.available := by
    split <;> omega
  have hpeek : c.readBytes size = (c.peekBytes size).map fun r =>
      ({ c with
        beginIx :=
          if c.endIx < c.beginIx ∧ min size c.available > sub32 c.bufend c.beginIx then
            c.wrapIfBufend (min size c.available - sub32 c.bufend c.beginIx)
          else c.wrapIfBufend (c.beginIx + min size c.available) }, r.1, r.2) := by
    rw [readBytes, peekBytes, hmin]
    dsimp only
    split
    · cases c.copyOut c.beginIx (sub32 c.bufend c.beginIx) with
      | none => rfl
      | some top =>
          cases c.copyOut 0 (min size c.available - sub32 c.bufend c.beginIx) with
          | none => rfl
          | some rest => rfl
    · exact (Option.map_map _ _ _).symm
  rw [hpeek, h.peekBytes_eq, h.begin_advance (Nat.min_le_right ..)]
  rfl

/-- **`remove`** only moves on. -/
theorem remove_eq (h : c.Wf) {size : ℕ} (hs : size < c.available) :
    c.remove size = (c.skip size, c.available - size) := by
  have hskip : (if c.endIx < c.beginIx ∧ size > sub32 c.bufend c.beginIx then
      { c with beginIx := c.wrapIfBufend (size - sub32 c.bufend c.beginIx) }
      else { c with beginIx := c.wrapIfBufend (c.beginIx + size) }) = c.skip size := by
    rw [skip, ← h.begin_advance (Nat.le_of_lt hs)]
    split <;> rfl
  rw [remove, if_neg (by omega)]
  dsimp only
  rw [hskip, h.available_skip (Nat.le_of_lt hs)]

/-- `read()` on a buffer that has a byte. -/
theorem read_eq (h : c.Wf) (hs : 0 < c.available) :
    c.read = some (c.skip 1, ((c.buf c.beginIx).toNat : ℤ)) := by
  have hb := h.begin_lt
  have hne : ¬c.empty = true := fun he => by
    have := h.empty_iff.1 he
    omega
  rw [Cbuf.read, if_neg hne, if_pos (h.inArray hb), h.wrap_eq hb]
  rfl

/-- `read()` on a buffer that has none. -/
theorem read_eq_empty (h : c.Wf) (hs : c.available = 0) : c.read = some (c, -1) := by
  rw [Cbuf.read, if_pos (h.empty_iff.2 hs)]

/-- The queue begins with the byte at `_begin`. -/
theorem queue_eq_cons (h : c.Wf) (hs : 0 < c.available) :
    c.queue = c.buf c.beginIx :: (c.skip 1).queue := by
  obtain ⟨n, hn⟩ := Nat.exists_eq_succ_of_ne_zero (Nat.ne_of_gt hs)
  rw [h.queue_skip hs, queue, hn, Nat.succ_eq_add_one, Ring.contents_succ]
  rfl

/-- **As many calls of `read()`** hand out the same and move on as far. -/
theorem readEach_eq (h : c.Wf) (n : ℕ) :
    c.readEach n = some (c.skip (min n c.available), c.queue.take n) := by
  induction n generalizing c with
  | zero => rw [readEach, Nat.zero_min, h.skip_zero, List.take_zero]
  | succ n ih =>
      rw [readEach]
      rcases Nat.eq_zero_or_pos c.available with hs | hs
      · have hq : c.queue = [] := List.length_eq_zero_iff.1 ((length_queue c).trans hs)
        rw [h.read_eq_empty hs, Option.bind_some, ih h, hs, hq]
        simp
      · have hbyte : ((c.buf c.beginIx).toNat : ℤ) ≠ -1 := by omega
        have hmin : min (n + 1) c.available = 1 + min n (c.available - 1) := by omega
        rw [h.read_eq hs, Option.bind_some, ih (h.skip_wf 1), h.available_skip hs, skip_skip,
          h.queue_eq_cons hs, ← hmin]
        simp [hbyte]
/-- Another content of the array. -/
theorem withBuf (h : c.Wf) (buf : ByteMem) : { c with buf := buf : Cbuf }.Wf :=
  ⟨h.cap, h.bufend, h.begin_lt, h.end_lt, h.size_lt⟩

/-- **`write(src, size)`** stores as many bytes as there is room for. -/
theorem writeBytes_eq (h : c.Wf) (src : List UInt8) :
    c.writeBytes src = some (c.append (src.take c.room), min src.length c.room) := by
  have hb := h.begin_lt
  have he := h.end_lt
  have havail := h.available_eq
  have hroom := h.room_eq
  have hmin : (if src.length < c.room then src.length else c.room) = min src.length c.room := by
    split <;> omega
  have htake : src.take c.room = src.take (min src.length c.room) :=
    List.take_eq_take_iff.2 (by omega)
  have hlen : (src.take (min src.length c.room)).length = min src.length c.room := by simp
  unfold Ring.count at havail
  rw [writeBytes, hmin, htake, h.bufend, sub32_eq (by omega) h.size_lt]
  dsimp only
  split
  · rename_i hw
    rw [if_pos (by omega)] at havail
    have hsum : min src.length c.room =
        c.size - c.endIx + (min src.length c.room - (c.size - c.endIx)) := by omega
    have htop : (src.take (c.size - c.endIx)).length = c.size - c.endIx := by
      rw [List.length_take]
      omega
    have hslot : Ring.slot c.size c.endIx (c.size - c.endIx) = 0 := by
      rw [Ring.slot_of_wrap he (Nat.le_refl _) (by omega), Nat.sub_self]
    have hsplit : src.take (min src.length c.room) = src.take (c.size - c.endIx) ++
        (src.drop (c.size - c.endIx)).take (min src.length c.room - (c.size - c.endIx)) := by
      conv_lhs => rw [hsum]
      exact List.take_add
    rw [h.copyIn (by omega), Option.bind_some,
      (h.withBuf _).copyIn (by simp only [List.length_take]; omega), append, hlen,
      Ring.slot_of_wrap he (by omega) (by omega), hsplit,
      Ring.storeAll_append c.buf _ _ he, htop, hslot, Option.map_some, wrapIfBufend,
      if_neg (by simp only [h.bufend]; omega)]
  · rename_i hw
    have hin : c.endIx + min src.length c.room ≤ c.size := by
      by_cases hlt : c.endIx ≥ c.beginIx
      · omega
      · rw [if_neg hlt] at havail
        omega
    rw [h.copyIn (by omega), Option.map_some, append, hlen, ← h.wrap_eq hin]
    rfl

/-- `write(c)` stores the byte if there is room for it. -/
theorem write_eq (h : c.Wf) (b : UInt8) :
    c.write b = some (c.append ([b].take c.room), min 1 c.room) := by
  have havail := h.available_lt
  have hroom := h.room_eq
  by_cases hfull : c.full = true
  · have hzero : c.room = 0 := by
      have := h.full_iff.1 hfull
      omega
    rw [Cbuf.write, if_pos hfull, hzero, List.take_zero, h.append_nil, Nat.min_zero]
  · have hpos : c.room ≠ 0 := fun hz => hfull (h.full_iff.2 (by omega))
    have htake : [b].take c.room = [b] := List.take_of_length_le (by simp; omega)
    have he : c.endIx + [b].length ≤ c.size := h.end_lt
    rw [Cbuf.write, if_neg hfull, htake, h.copyIn he, Option.map_some, append, ← h.wrap_eq he,
      Nat.min_eq_left (by omega)]
    rfl

theorem room_append (h : c.Wf) {src : List UInt8} (hs : src.length ≤ c.room) :
    (c.append src).room = c.room - src.length := by
  have hlt := h.available_lt
  have hroom := h.room_eq
  rw [(h.append_wf src).room_eq, h.available_append (by omega)]
  change c.size - 1 - _ = _
  omega

/-- **As many calls of `write(c)`** store the same bytes. -/
theorem writeEach_eq (h : c.Wf) (src : List UInt8) :
    c.writeEach src = some (c.append (src.take c.room), min src.length c.room) := by
  induction src generalizing c with
  | nil => rw [writeEach, List.take_nil, h.append_nil, List.length_nil, Nat.zero_min]
  | cons b src ih =>
      have hle : ([b].take c.room).length ≤ c.room := List.length_take_le ..
      rw [writeEach, h.write_eq, Option.bind_some, ih (h.append_wf _), h.room_append hle,
        h.append_append, Option.map_some]
      rcases Nat.eq_zero_or_pos c.room with hz | hpos
      · simp [hz]
      · obtain ⟨r, hr⟩ := Nat.exists_eq_succ_of_ne_zero (Nat.ne_of_gt hpos)
        rw [hr]
        simp
        omega

/-! ### A new array -/

/-- A call of `resize` that keeps the array. -/
theorem resize_eq_self {n : ℕ} {new : Option ByteMem} (hn : (n + 1) % 2 ^ 32 < c.available ∨
    (n + 1) % 2 ^ 32 = c.size ∨ new = none) : c.resize n new = some (c, c.size) := by
  unfold resize
  cases new with
  | none => simp
  | some newbuf =>
      have hcond : (n + 1) % 2 ^ 32 < c.available ∨ (n + 1) % 2 ^ 32 = c.size := by simpa using hn
      exact if_pos hcond

/-- Otherwise the queued bytes are moved to the new one. -/
theorem resize_eq_moved (h : c.Wf) {n : ℕ} (newbuf : ByteMem)
    (hle : c.available ≤ (n + 1) % 2 ^ 32) (hne : (n + 1) % 2 ^ 32 ≠ c.size) :
    c.resize n (some newbuf) =
      some (c.moved newbuf ((n + 1) % 2 ^ 32), (n + 1) % 2 ^ 32) := by
  have hread : c.readBytes c.available = some (c.skip c.available, c.queue, c.available) := by
    rw [h.readBytes_eq, Nat.min_self, List.take_of_length_le (Nat.le_of_eq (length_queue c))]
  unfold resize
  dsimp only
  rw [if_neg (by omega), h.cap, hread, moved, refill, length_queue]
  simp

/-- **A new array** holds the same queue, if a cell stays free. -/
theorem moved_wf {m : ℕ} (newbuf : ByteMem) (hlt : c.available < m)
    (hm : m < 2 ^ 32) : (c.moved newbuf m).Wf where
  cap := rfl
  bufend := rfl
  begin_lt := Nat.zero_lt_of_lt hlt
  end_lt := hlt
  size_lt := hm

theorem queue_moved {m : ℕ} (newbuf : ByteMem) (hlt : c.available < m)
    (hm : m < 2 ^ 32) : (c.moved newbuf m).queue = c.queue := by
  have havail : (c.moved newbuf m).available = c.queue.length := by
    rw [(moved_wf newbuf hlt hm).available_eq, length_queue]
    exact if_pos (Nat.zero_le _)
  have hle : 0 + c.queue.length ≤ m := by
    rw [length_queue]
    omega
  rw [queue, havail]
  exact (Ring.contents_of_le _ hle).trans (map_refill newbuf m c.queue)

end Wf

/-! ### Calls one after the other -/

/-- The buffer, with all bytes that `write` has accepted, and all that have left the queue since:
those that `read` has returned, and those that `remove` and `flush` have thrown away. -/
structure Session where
  cbuf : Cbuf
  accepted : List UInt8
  taken : List UInt8

/-- A buffer that was just made. -/
def Session.start (size : ℕ) (new : Option ByteMem) : Session := ⟨init size new, [], []⟩

/-- The bytes that a call offers. -/
def Op.offered : Op → List UInt8
  | .write b => [b]
  | .writeBytes src => src
  | _ => []

/-- The bytes that a call has taken out of the queue, which was `q` and is `q'`. -/
def Op.takes (q q' : List UInt8) (v : ℤ) (bytes : List UInt8) : Op → List UInt8
  | .read => if v = -1 then [] else [UInt8.ofNat v.toNat]
  | .readBytes _ => bytes
  | .flush | .remove _ => q.take (q.length - q'.length)
  | _ => []

/-- **One call.** -/
def step (s : Session) (op : Op) : Option Session :=
  (op.run s.cbuf).map fun r =>
    ⟨r.1, s.accepted ++ op.offered.take r.2.1.toNat,
      s.taken ++ op.takes s.cbuf.queue r.1.queue r.2.1 r.2.2⟩

/-- What holds between the calls. -/
structure Good (s : Session) : Prop where
  cap : s.cbuf.cap = some s.cbuf.size
  begin_lt : s.cbuf.beginIx < s.cbuf.bufend
  end_lt : s.cbuf.endIx < s.cbuf.bufend
  room : s.cbuf.available + s.cbuf.room + 1 = s.cbuf.size
  fifo : s.accepted = s.taken ++ s.cbuf.queue

/-- A bulk call does what as many calls of the single method do. -/
def Agrees (c c' : Cbuf) (v : ℤ) (bytes : List UInt8) : Op → Prop
  | .peekBytes n => ∃ d, c.readEach n = some (d, bytes)
  | .readBytes n => ∃ d, c.readEach n = some (d, bytes) ∧ d.toFifo = c'.toFifo
  | .writeBytes src => ∃ d k, c.writeEach src = some (d, k) ∧ v = k ∧ d.toFifo = c'.toFifo
  | .remove n => ∃ d thrown, c.readEach n = some (d, thrown) ∧ d.toFifo = c'.toFifo
  | _ => True

/-- **A call does what it means on the queue**, and the buffer is in order afterwards. -/
def Refines (s : Session) (op : Op) : Prop :=
  ∃ c' v bytes, op.run s.cbuf = some (c', v, bytes) ∧
    s.cbuf.toFifo.run op = (c'.toFifo, v, bytes) ∧
    Agrees s.cbuf c' v bytes op ∧ ∀ s', step s op = some s' → Good s'

/-- A call that does not fill an array up. -/
def Op.Harmless (c : Cbuf) : Op → Prop
  | .resize n new => new.isSome → (n + 1) % 2 ^ 32 ≠ c.available
  | .resizeAdd n new => new.isSome → ((c.size + n) % 2 ^ 32 + 1) % 2 ^ 32 ≠ c.available
  | _ => True

/-! ### One call -/

variable {c : Cbuf}

/-- What the queue says about a call that has an outcome. -/
def Meets (c : Cbuf) (op : Op) : Prop :=
  ∃ c' v bytes, op.run c = some (c', v, bytes) ∧ c.toFifo.run op = (c'.toFifo, v, bytes) ∧
    Agrees c c' v bytes op ∧ c'.Wf

/-- The byte that `peek` and `read` return. -/
theorem Wf.head_queue (h : c.Wf) :
    (c.queue.head?.map fun b => (b.toNat : ℤ)).getD (-1) =
      if c.available = 0 then -1 else ((c.buf c.beginIx).toNat : ℤ) := by
  split
  · rename_i hs
    have hq : c.queue = [] := List.length_eq_zero_iff.1 ((length_queue c).trans hs)
    rw [hq]
    rfl
  · rename_i hs
    rw [h.queue_eq_cons (by omega)]
    rfl

theorem Wf.room_toFifo (h : c.Wf) : c.toFifo.room = c.room := by
  rw [h.room_eq, Fifo.room, toFifo, length_queue]

theorem Wf.toFifo_skip (h : c.Wf) {k : ℕ} (hk : k ≤ c.available) :
    (c.skip k).toFifo = ⟨c.queue.drop k, c.size⟩ := by
  rw [toFifo, h.queue_skip hk]
  rfl

theorem Wf.toFifo_append (h : c.Wf) {src : List UInt8} (hs : src.length ≤ c.room) :
    (c.append src).toFifo = ⟨c.queue ++ src, c.size⟩ := by
  have hlt := h.available_lt
  have hroom := h.room_eq
  rw [toFifo, h.queue_append (by omega)]
  rfl

theorem drop_queue (c : Cbuf) (n : ℕ) :
    c.queue.drop (min n c.available) = c.queue.drop n := by
  rcases Nat.le_total n c.available with hn | hn
  · rw [Nat.min_eq_left hn]
  · rw [Nat.min_eq_right hn, List.drop_of_length_le (Nat.le_of_eq (length_queue c)),
      List.drop_of_length_le (by rw [length_queue]; exact hn)]

theorem Wf.meets_peek (h : c.Wf) : Meets c .peek := by
  refine ⟨c, if c.available = 0 then -1 else ((c.buf c.beginIx).toNat : ℤ), [], ?_, ?_, trivial, h⟩
  · have hin : c.inArray c.beginIx 1 = true := h.inArray h.begin_lt
    rw [Op.run, peek, hin]
    simp only [h.empty_iff]
    split <;> rfl
  · rw [Fifo.run, toFifo, h.head_queue]

theorem Wf.meets_peekBytes (h : c.Wf) (n : ℕ) : Meets c (.peekBytes n) := by
  refine ⟨c, (min n c.available : ℕ), c.queue.take n, ?_, ?_, ⟨_, h.readEach_eq n⟩, h⟩
  · rw [Op.run, h.peekBytes_eq]
    rfl
  · rw [Fifo.run, toFifo, length_queue]

theorem Wf.meets_read (h : c.Wf) : Meets c .read := by
  rcases Nat.eq_zero_or_pos c.available with hs | hs
  · have hq : c.queue = [] := List.length_eq_zero_iff.1 ((length_queue c).trans hs)
    refine ⟨c, -1, [], ?_, ?_, trivial, h⟩
    · rw [Op.run, h.read_eq_empty hs]
      rfl
    · rw [Fifo.run, toFifo, hq]
      rfl
  · refine ⟨c.skip 1, (c.buf c.beginIx).toNat, [], ?_, ?_, trivial, h.skip_wf 1⟩
    · rw [Op.run, h.read_eq hs]
      rfl
    · rw [Fifo.run, h.toFifo_skip hs, toFifo, h.head_queue, if_neg (by omega), List.drop_one]

theorem Wf.meets_readBytes (h : c.Wf) (n : ℕ) : Meets c (.readBytes n) := by
  have hle : min n c.available ≤ c.available := Nat.min_le_right ..
  refine ⟨c.skip (min n c.available), (min n c.available : ℕ), c.queue.take n, ?_, ?_,
    ⟨_, h.readEach_eq n, rfl⟩, h.skip_wf _⟩
  · rw [Op.run, h.readBytes_eq]
    rfl
  · rw [Fifo.run, h.toFifo_skip hle, drop_queue, toFifo, length_queue]

theorem Wf.meets_write (h : c.Wf) (b : UInt8) : Meets c (.write b) := by
  refine ⟨c.append ([b].take c.room), (min 1 c.room : ℕ), [], ?_, ?_, trivial, h.append_wf _⟩
  · rw [Op.run, h.write_eq]
    rfl
  · rw [Fifo.run, h.room_toFifo, h.toFifo_append (List.length_take_le ..)]
    rfl

theorem Wf.meets_writeBytes (h : c.Wf) (src : List UInt8) : Meets c (.writeBytes src) := by
  refine ⟨c.append (src.take c.room), (min src.length c.room : ℕ), [], ?_, ?_,
    ⟨_, _, h.writeEach_eq src, rfl, rfl⟩, h.append_wf _⟩
  · rw [Op.run, h.writeBytes_eq]
    rfl
  · rw [Fifo.run, h.room_toFifo, h.toFifo_append (List.length_take_le ..)]
    rfl

/-- A buffer with both pointers at its start is empty. -/
theorem Wf.flush_wf (h : c.Wf) : c.flush.Wf ∧ c.flush.toFifo = ⟨[], c.size⟩ := by
  have hpos := Nat.zero_lt_of_lt h.begin_lt
  exact ⟨⟨h.cap, h.bufend, hpos, hpos, h.size_lt⟩, rfl⟩

theorem Wf.meets_remove (h : c.Wf) (n : ℕ) : Meets c (.remove n) := by
  rcases Nat.lt_or_ge n c.available with hn | hn
  · refine ⟨c.skip n, (c.available - n : ℕ), [], ?_, ?_, ⟨_, _, h.readEach_eq n, ?_⟩, h.skip_wf n⟩
    · rw [Op.run, h.remove_eq hn]
    · rw [Fifo.run, h.toFifo_skip (Nat.le_of_lt hn), toFifo, List.length_drop, length_queue]
    · rw [Nat.min_eq_left (Nat.le_of_lt hn)]
  · have hq : c.queue.drop n = [] := List.drop_of_length_le (by rw [length_queue]; exact hn)
    refine ⟨c.flush, 0, [], ?_, ?_, ⟨_, _, h.readEach_eq n, ?_⟩, h.flush_wf.1⟩
    · rw [Op.run, remove, if_pos hn]
      rfl
    · rw [Fifo.run, toFifo, hq, h.flush_wf.2]
      rfl
    · rw [h.toFifo_skip (Nat.min_le_right ..), drop_queue, hq, h.flush_wf.2]

/-- `resize` and `resizeAdd`, for a size that leaves a cell free. -/
theorem Wf.resize_meets (h : c.Wf) {n : ℕ} {new : Option ByteMem}
    (hn : new.isSome → (n + 1) % 2 ^ 32 ≠ c.available) :
    ∃ c', c.resize n new = some (c', c'.size) ∧
      c'.toFifo = c.toFifo.resize ((n + 1) % 2 ^ 32) new.isSome ∧ c'.Wf := by
  have hm : (n + 1) % 2 ^ 32 < 2 ^ 32 := Nat.mod_lt _ (by omega)
  have hlt := h.available_lt
  rw [Fifo.resize, toFifo, length_queue]
  by_cases hself : (n + 1) % 2 ^ 32 < c.available ∨ (n + 1) % 2 ^ 32 = c.size ∨ new = none
  · refine ⟨c, resize_eq_self hself, ?_, h⟩
    rcases hself with hself | hself | rfl
    · rw [if_neg (fun hc => by omega)]
      rfl
    · rw [hself]
      split <;> rfl
    · rfl
  · simp only [not_or] at hself
    obtain ⟨hge, hne, hnew⟩ := hself
    obtain ⟨newbuf, rfl⟩ := Option.ne_none_iff_exists'.1 hnew
    have hfree : c.available < (n + 1) % 2 ^ 32 := by
      have := hn rfl
      omega
    refine ⟨c.moved newbuf ((n + 1) % 2 ^ 32), h.resize_eq_moved newbuf (by omega) hne, ?_,
      moved_wf newbuf hfree hm⟩
    rw [if_pos ⟨rfl, hfree⟩, toFifo, queue_moved newbuf hfree hm]
    rfl

/-- **Every harmless call does what it means**, and keeps the buffer in order. -/
theorem Wf.meets (h : c.Wf) {op : Op} (hop : op.Harmless c) : Meets c op := by
  cases op with
  | peek => exact h.meets_peek
  | peekBytes n => exact h.meets_peekBytes n
  | read => exact h.meets_read
  | readBytes n => exact h.meets_readBytes n
  | write b => exact h.meets_write b
  | writeBytes src => exact h.meets_writeBytes src
  | flush => exact ⟨c.flush, 0, [], rfl, by rw [Fifo.run, h.flush_wf.2]; rfl, trivial, h.flush_wf.1⟩
  | remove n => exact h.meets_remove n
  | resize n new =>
      obtain ⟨c', hrun, hfifo, hwf⟩ := h.resize_meets hop
      refine ⟨c', c'.size, [], by rw [Op.run, hrun]; rfl, ?_, trivial, hwf⟩
      rw [Fifo.run, ← hfifo]
      rfl
  | resizeAdd n new =>
      obtain ⟨c', hrun, hfifo, hwf⟩ := h.resize_meets hop
      refine ⟨c', c'.size, [], by rw [Op.run, resizeAdd, hrun]; rfl, ?_, trivial, hwf⟩
      rw [Fifo.run]
      exact hfifo ▸ rfl

/-! ### Runs -/

@[simp] theorem Fifo.items_resize (q : Fifo) (size : ℕ) (granted : Bool) :
    (q.resize size granted).items = q.items := by
  rw [Fifo.resize]
  split <;> rfl

/-- What was queued and what a call accepts is taken by it, or queued afterwards. -/
theorem Fifo.history (q : Fifo) (op : Op) :
    q.items ++ op.offered.take (q.run op).2.1.toNat =
      op.takes q.items (q.run op).1.items (q.run op).2.1 (q.run op).2.2 ++ (q.run op).1.items := by
  cases op with
  | peek => simp [Op.offered, Op.takes, Fifo.run]
  | peekBytes n => simp [Op.offered, Op.takes, Fifo.run]
  | read =>
      obtain ⟨items, size⟩ := q
      cases items with
      | nil => simp [Op.offered, Op.takes, Fifo.run]
      | cons b items =>
          have hne : (b.toNat : ℤ) ≠ -1 := by omega
          simp [Op.offered, Op.takes, Fifo.run, hne]
  | readBytes n => simp [Op.offered, Op.takes, Fifo.run]
  | write b =>
      have htake : [b].take (min 1 q.room) = [b].take q.room :=
        List.take_eq_take_iff.2 (by simp; omega)
      simp only [Op.offered, Op.takes, Fifo.run, Int.toNat_natCast, htake, List.nil_append]
  | writeBytes src =>
      have htake : src.take (min src.length q.room) = src.take q.room :=
        List.take_eq_take_iff.2 (by omega)
      simp only [Op.offered, Op.takes, Fifo.run, Int.toNat_natCast, htake, List.nil_append]
  | flush => simp [Op.offered, Op.takes, Fifo.run]
  | remove n =>
      rcases Nat.le_total n q.items.length with hn | hn
      · have hsub : q.items.length - (q.items.length - n) = n := by omega
        simp [Op.offered, Op.takes, Fifo.run, hsub]
      · simp [Op.offered, Op.takes, Fifo.run, List.drop_of_length_le hn]
  | resize n new => simp [Op.offered, Op.takes, Fifo.run]
  | resizeAdd n new => simp [Op.offered, Op.takes, Fifo.run]

/-- In order, with nothing lost. -/
def Session.Inv (s : Session) : Prop := s.cbuf.Wf ∧ s.accepted = s.taken ++ s.cbuf.queue

theorem Session.Inv.good {s : Session} (h : s.Inv) : Good s := by
  obtain ⟨hwf, hfifo⟩ := h
  have hlt := hwf.available_lt
  have hroom := hwf.room_eq
  refine ⟨hwf.cap, ?_, ?_, by omega, hfifo⟩
  · rw [hwf.bufend]
    exact hwf.begin_lt
  · rw [hwf.bufend]
    exact hwf.end_lt

/-- **A harmless call** keeps the buffer and its histories in order. -/
theorem step_inv {s s' : Session} {op : Op} (h : s.Inv) (hop : op.Harmless s.cbuf)
    (hs : step s op = some s') : s'.Inv := by
  obtain ⟨c', v, bytes, hrun, hfifo, -, hwf⟩ := h.1.meets hop
  have hist := Fifo.history s.cbuf.toFifo op
  rw [hfifo] at hist
  rw [step, hrun, Option.map_some, Option.some.injEq] at hs
  subst hs
  refine ⟨hwf, ?_⟩
  calc s.accepted ++ op.offered.take v.toNat
      = s.taken ++ (s.cbuf.queue ++ op.offered.take v.toNat) := by
        rw [h.2, List.append_assoc]
    _ = s.taken ++ (op.takes s.cbuf.queue c'.queue v bytes ++ c'.queue) := congrArg _ hist
    _ = s.taken ++ op.takes s.cbuf.queue c'.queue v bytes ++ c'.queue :=
        (List.append_assoc ..).symm

/-- `resize` to the number of queued bytes leaves `_end` at the end of the array. -/
theorem Wf.resize_full (h : c.Wf) {n : ℕ} {new : Option ByteMem} (hnew : new.isSome)
    (hn : (n + 1) % 2 ^ 32 = c.available) :
    ∃ c', c.resize n new = some (c', c'.size) ∧ c'.endIx = c'.bufend := by
  obtain ⟨newbuf, rfl⟩ := Option.isSome_iff_exists.1 hnew
  have hlt := h.available_lt
  refine ⟨c.moved newbuf ((n + 1) % 2 ^ 32), h.resize_eq_moved newbuf (by omega) (by omega), ?_⟩
  exact hn.symm

/-- A call refines the queue exactly if it is harmless. -/
theorem refines_iff {s : Session} (h : s.Inv) (op : Op) : Refines s op ↔ op.Harmless s.cbuf := by
  constructor
  · rintro ⟨c', v, bytes, hrun, -, -, hgood⟩
    have hout : c'.endIx ≠ c'.bufend := by
      have hlt := (hgood _ (by rw [step, hrun]; rfl)).end_lt
      exact Nat.ne_of_lt hlt
    cases op with
    | resize n new =>
        intro hnew hn
        obtain ⟨d, hd, hend⟩ := h.1.resize_full hnew hn
        rw [Op.run, hd] at hrun
        cases hrun
        exact hout hend
    | resizeAdd n new =>
        intro hnew hn
        obtain ⟨d, hd, hend⟩ := h.1.resize_full hnew hn
        rw [Op.run, resizeAdd, hd] at hrun
        cases hrun
        exact hout hend
    | _ => trivial
  · intro hop
    obtain ⟨c', v, bytes, hrun, hfifo, hagrees, -⟩ := h.1.meets hop
    exact ⟨c', v, bytes, hrun, hfifo, hagrees, fun s' hs => (step_inv h hop hs).good⟩

theorem start_inv {size : ℕ} {new : Option ByteMem} (hnew : new.isSome)
    (hsize : (size + 1) % 2 ^ 32 ≠ 0) : (Session.start size new).Inv := by
  obtain ⟨newbuf, rfl⟩ := Option.isSome_iff_exists.1 hnew
  have hpos : 0 < (size + 1) % 2 ^ 32 := Nat.pos_of_ne_zero hsize
  exact ⟨⟨rfl, rfl, hpos, hpos, Nat.mod_lt _ (by omega)⟩, rfl⟩

/-- A buffer begins in order exactly if there is memory for it and its size does not wrap. -/
theorem start_good_iff (size : ℕ) (new : Option ByteMem) :
    Good (Session.start size new) ↔ new.isSome ∧ (size + 1) % 2 ^ 32 ≠ 0 := by
  constructor
  · intro h
    have hcap := h.cap
    have hlt : 0 < (size + 1) % 2 ^ 32 := h.begin_lt
    cases new with
    | none => cases hcap
    | some newbuf => exact ⟨rfl, by omega⟩
  · rintro ⟨hnew, hsize⟩
    exact (start_inv hnew hsize).good

/-- **The buffer refines a bounded queue** along a run of calls exactly if there was memory for it,
its size did not wrap around, and no `resize` of the run was to an array that the queued bytes
fill up. -/
theorem fifo_iff (size : ℕ) (new : Option ByteMem) (ops : List Op) :
    Good (Session.start size new) ∧ Runs.Every step Refines (Session.start size new) ops ↔
      (new.isSome ∧ (size + 1) % 2 ^ 32 ≠ 0) ∧
        Runs.Every step (fun s op => op.Harmless s.cbuf) (Session.start size new) ops := by
  rw [start_good_iff]
  refine and_congr_right fun hstart => ?_
  exact Runs.every_iff (fun s op h => refines_iff h op) (fun s op s' => step_inv) ops
    (start_inv hstart.1 hstart.2)

/-- A buffer for four bytes holds three of them, and is then asked to hold two: the array of three
bytes that it gets has no free cell, and `_end` points behind it. -/
theorem resize_to_queued_not_refines :
    ¬(Good (Session.start 4 (some fun _ => 0)) ∧
      Runs.Every step Refines (Session.start 4 (some fun _ => 0))
        [.writeBytes [1, 2, 3], .resize 2 (some fun _ => 0)]) := by
  rintro ⟨-, h⟩
  obtain ⟨c', v, bytes, hrun, -, -, hgood⟩ := (h.2 _ rfl).1
  have hend := (hgood _ (by rw [step, hrun]; rfl)).end_lt
  cases hrun
  exact absurd hend (by decide)

end Cbuf

end Pico
