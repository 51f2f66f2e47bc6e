/-
**The ring buffer of the core.**

`RingBufferN<N>` of `arduino/arduino/RingBuffer.h`: two indices, of which the head is where the next
byte goes, and the tail is where the next one comes from.  The ring is empty if they are equal, and
one cell stays free so that a full ring is not taken for an empty one.

* `Pico.Uart.RingBufferN` — the ring, with the indices in range, and its methods;
* `Pico.Uart.RingBufferN.unread` — the bytes in it;
* `unread_storeChar`, `unread_readChar`, `head_unread`, `availableOf_eq` — **the methods as those of
  a queue**.
-/

import WizioPico.Ring
import Mathlib.Data.Int.Notation

set_option relaxedAutoImplicit false
set_option autoImplicit false

namespace Pico.Uart

/-! ### The ring -/

/-- `RingBufferN<N>`.  The indices are integers that only ever hold numbers below `N`. -/
structure RingBufferN (N : ℕ) where
  aucBuffer : ℕ → UInt8
  iHead : ℕ
  iTail : ℕ
  head_lt : iHead < N
  tail_lt : iTail < N

namespace RingBufferN

variable {N : ℕ}

/-- The constructor, with `clear`. -/
def empty (hN : 0 < N) : RingBufferN N := ⟨fun _ => 0, 0, 0, hN, hN⟩

/-- `clear`. -/
def clear (r : RingBufferN N) : RingBufferN N :=
  { r with
    iHead := 0
    iTail := 0
    head_lt := Nat.zero_lt_of_lt r.head_lt
    tail_lt := Nat.zero_lt_of_lt r.tail_lt }

/-- `nextIndex` of the head differs from the tail: `store_char` has room. -/
def stores (r : RingBufferN N) : Bool := decide (Ring.next N r.iHead ≠ r.iTail)

/-- `store_char`. -/
def storeChar (r : RingBufferN N) (c : UInt8) : RingBufferN N :=
  if r.stores then
    { r with
      aucBuffer := Function.update r.aucBuffer r.iHead c
      iHead := Ring.next N r.iHead
      head_lt := Ring.next_lt r.head_lt }
  else r

/-- `read_char`, with its result. -/
def readChar (r : RingBufferN N) : RingBufferN N × ℤ :=
  if r.iTail = r.iHead then (r, -1)
  else
    ({ r with iTail := Ring.next N r.iTail, tail_lt := Ring.next_lt r.tail_lt },
      (r.aucBuffer r.iTail).toNat)

/-- `availableForStore`. -/
def availableForStore (r : RingBufferN N) : ℤ :=
  if r.iHead ≥ r.iTail then N - 1 - r.iHead + r.iTail else r.iTail - r.iHead - 1

/-- What `available` computes from the indices it has loaded. -/
def availableOf (N head tail : ℕ) : ℤ :=
  let delta : ℤ := head - tail
  if delta < 0 then N + delta else delta

/-- `available`. -/
def available (r : RingBufferN N) : ℤ := availableOf N r.iHead r.iTail

/-- `peek`. -/
def peek (r : RingBufferN N) : ℤ := if r.iTail = r.iHead then -1 else (r.aucBuffer r.iTail).toNat

/-- `isFull`. -/
def isFull (r : RingBufferN N) : Bool := decide (Ring.next N r.iHead = r.iTail)

/-- The test of `read_char` and `peek`. -/
def isEmpty (r : RingBufferN N) : Bool := decide (r.iTail = r.iHead)

/-- The bytes in the ring, in the order in which they will be read. -/
def unread (r : RingBufferN N) : List UInt8 :=
  Ring.contents r.aucBuffer N r.iTail (Ring.count N r.iTail r.iHead)

/-! ### The ring as a queue -/

theorem length_unread (r : RingBufferN N) :
    r.unread.length = Ring.count N r.iTail r.iHead := Ring.length_contents _ _ _

theorem unread_eq_nil_iff (r : RingBufferN N) : r.unread = [] ↔ r.iTail = r.iHead := by
  rw [← List.length_eq_zero_iff, length_unread, Ring.count_eq_zero_iff r.tail_lt]

theorem isEmpty_iff (r : RingBufferN N) : r.isEmpty = true ↔ r.unread = [] := by
  rw [unread_eq_nil_iff, isEmpty, decide_eq_true_iff]

theorem unread_empty (hN : 0 < N) : (empty hN).unread = [] := (unread_eq_nil_iff _).2 rfl

/-- Both indices of one ring give the number of its bytes. -/
theorem availableOf_eq (r : RingBufferN N) : availableOf N r.iHead r.iTail = r.unread.length := by
  have ht := r.tail_lt
  rw [length_unread]
  unfold availableOf Ring.count
  dsimp only
  split <;> split <;> omega

/-- There is room exactly if one more byte leaves a cell free. -/
theorem stores_iff (r : RingBufferN N) : r.stores = true ↔ r.unread.length + 1 < N := by
  have hlt := Ring.count_lt r.tail_lt r.head_lt
  rw [stores, decide_eq_true_iff, ne_eq, Ring.next_head_eq_tail_iff r.tail_lt r.head_lt,
    length_unread]
  omega

theorem availableForStore_eq (r : RingBufferN N) :
    r.availableForStore = N - 1 - r.unread.length := by
  have ht := r.tail_lt
  have hh := r.head_lt
  rw [length_unread]
  unfold availableForStore Ring.count
  split <;> omega

/-- **Storing appends a byte**, if there is room. -/
theorem unread_storeChar (r : RingBufferN N) (c : UInt8) (h : r.stores = true) :
    (r.storeChar c).iTail = r.iTail ∧ (r.storeChar c).unread = r.unread ++ [c] := by
  have hroom := (stores_iff r).1 h
  rw [length_unread] at hroom
  rw [storeChar, if_pos h]
  refine ⟨rfl, ?_⟩
  have hcount := Ring.count_next_head r.tail_lt r.head_lt hroom
  have hslot := Ring.slot_count r.tail_lt r.head_lt
  have hstore := Ring.contents_store r.aucBuffer c r.tail_lt
    (n := Ring.count N r.iTail r.iHead) (by omega)
  rw [hslot] at hstore
  unfold unread
  simp only [hcount]
  exact hstore

/-- **Reading takes the first byte**, if there is one. -/
theorem unread_readChar (r : RingBufferN N) (h : r.unread ≠ []) :
    ∃ b : UInt8, r.readChar.2 = b.toNat ∧ r.unread = b :: r.readChar.1.unread := by
  have hne : r.iTail ≠ r.iHead := fun he => h ((unread_eq_nil_iff r).2 he)
  refine ⟨r.aucBuffer r.iTail, ?_, ?_⟩
  · rw [readChar, if_neg hne]
  · rw [readChar, if_neg hne]
    unfold unread
    rw [Ring.count_next_tail r.tail_lt r.head_lt hne, Ring.contents_succ]

/-- The first byte stands at the tail. -/
theorem head_unread (r : RingBufferN N) (h : r.unread ≠ []) :
    r.unread.head? = some (r.aucBuffer r.iTail) := by
  have hne : r.iTail ≠ r.iHead := fun he => h ((unread_eq_nil_iff r).2 he)
  unfold unread
  rw [Ring.count_next_tail r.tail_lt r.head_lt hne, Ring.contents_succ]
  rfl

theorem unread_clear (r : RingBufferN N) : r.clear.unread = [] := (unread_eq_nil_iff _).2 rfl

/-- `peek` returns the first byte, if there is one. -/
theorem peek_eq (r : RingBufferN N) :
    r.peek = r.unread.head?.elim (-1) fun b : UInt8 => (b.toNat : ℤ) := by
  by_cases h : r.unread = []
  · rw [peek, if_pos ((unread_eq_nil_iff r).1 h), h]
    rfl
  · rw [peek, if_neg (fun he => h ((unread_eq_nil_iff r).2 he)), head_unread r h]
    rfl

/-- The ring is full if all cells but one are taken. -/
theorem isFull_iff (r : RingBufferN N) : r.isFull = true ↔ r.unread.length = N - 1 := by
  have hlt := Ring.count_lt r.tail_lt r.head_lt
  rw [isFull, decide_eq_true_iff, Ring.next_head_eq_tail_iff r.tail_lt r.head_lt, length_unread]
  omega

/-- **A full ring drops what is stored.** -/
theorem storeChar_of_isFull {r : RingBufferN N} (h : r.isFull = true) (c : UInt8) :
    r.storeChar c = r := by
  have hstores : ¬r.stores = true := by
    rw [stores, decide_eq_true_iff]
    exact not_not_intro (decide_eq_true_iff.1 h)
  rw [storeChar, if_neg hstores]

end RingBufferN

end Pico.Uart
