/-
**The two ring buffers.**

The repository has two class templates `RingBufferN<N>`: that of `arduino/arduino/RingBuffer.h`,
which tells a full ring from an empty one by a cell that stays free, and that of
`library/wiring/include/RingBuffer.h`, which counts its bytes.

* `Pico.Wiring.RingBufferN` — the second one, whose head is as far behind the tail as the counter
  says, and `consistent_iff`, which fields that are set from outside are those of one;
* `Pico.RingBuffers.Template` — the methods that both have, and `Template.call`, a call of one;
* `Pico.RingBuffers.Refines` — each call does what it does to a queue of bounded length;
* `Pico.RingBuffers.IsFifo` — **what is asked of a ring after a sequence of calls**;
* `Pico.RingBuffers.interchangeable` — both are queues, of `N - 1` and of `N` bytes, and cannot be
  told apart as long as `N - 1` are enough.
-/

import Mathlib.Data.List.Infix
import WizioPico.RingBuffer
import WizioPico.Transducer
import WizioPico.Wire

set_option relaxedAutoImplicit false
set_option autoImplicit false

namespace Pico

/-! ### The ring that counts -/

/-- `RingBufferN<N>` of the library `wiring`. -/
structure Wiring.RingBufferN (N : ℕ) where
  aucBuffer : ℕ → UInt8
  iHead : ℕ
  iTail : ℕ
  numElems : ℕ
  tail_lt : iTail < N
  num_le : numElems ≤ N
  head_eq : iHead = Ring.slot N iTail numElems

namespace Wiring.RingBufferN

variable {N : ℕ}

/-- The constructor, with `clear`. -/
def empty (hN : 0 < N) : RingBufferN N :=
  ⟨fun _ => 0, 0, 0, 0, hN, Nat.zero_le N, (Ring.slot_zero hN).symm⟩

/-- `isFull` and `isEmpty`. -/
def isFull (r : RingBufferN N) : Bool := decide (r.numElems = N)
def isEmpty (r : RingBufferN N) : Bool := decide (r.numElems = 0)

/-- `store_char`. -/
def storeChar (r : RingBufferN N) (c : UInt8) : RingBufferN N :=
  if h : ¬r.isFull = true then
    { r with
      aucBuffer := Function.update r.aucBuffer r.iHead c
      iHead := Ring.next N r.iHead
      numElems := r.numElems + 1
      num_le := Nat.lt_of_le_of_ne r.num_le fun he => h (decide_eq_true he)
      head_eq := by rw [r.head_eq, Ring.next_slot] }
  else r

/-- `read_char`, with its result. -/
def readChar (r : RingBufferN N) : RingBufferN N × ℤ :=
  if h : r.isEmpty = true then (r, -1)
  else
    ({ r with
        iTail := Ring.next N r.iTail
        numElems := r.numElems - 1
        tail_lt := Ring.next_lt r.tail_lt
        num_le := Nat.le_trans (Nat.sub_le _ _) r.num_le
        head_eq := by
          have hpos : r.numElems - 1 + 1 = r.numElems :=
            Nat.succ_pred_eq_of_ne_zero fun he => h (decide_eq_true he)
          rw [r.head_eq, ← Ring.slot_succ, hpos] },
      (r.aucBuffer r.iTail).toNat)

/-- `clear`. -/
def clear (r : RingBufferN N) : RingBufferN N :=
  { r with
    iHead := 0
    iTail := 0
    numElems := 0
    tail_lt := Nat.zero_lt_of_lt r.tail_lt
    num_le := Nat.zero_le N
    head_eq := (Ring.slot_zero (Nat.zero_lt_of_lt r.tail_lt)).symm }

/-- `available`, `availableForStore` and `peek`. -/
def available (r : RingBufferN N) : ℤ := r.numElems
def availableForStore (r : RingBufferN N) : ℤ := N - r.numElems
def peek (r : RingBufferN N) : ℤ := if r.isEmpty then -1 else (r.aucBuffer r.iTail).toNat

/-- The bytes in the ring, in the order in which they will be read. -/
def unread (r : RingBufferN N) : List UInt8 := Ring.contents r.aucBuffer N r.iTail r.numElems

/-! ### It is a queue -/

theorem length_unread (r : RingBufferN N) : r.unread.length = r.numElems :=
  Ring.length_contents _ _ _

theorem isFull_iff (r : RingBufferN N) : r.isFull = true ↔ r.unread.length = N := by
  rw [isFull, decide_eq_true_iff, length_unread]

theorem isEmpty_iff (r : RingBufferN N) : r.isEmpty = true ↔ r.unread = [] := by
  rw [isEmpty, decide_eq_true_iff, ← length_unread, List.length_eq_zero_iff]

theorem head_lt (r : RingBufferN N) : r.iHead < N := by
  rw [r.head_eq]
  exact Ring.slot_lt (Nat.zero_lt_of_lt r.tail_lt) _ _

theorem unread_empty (hN : 0 < N) : (empty hN).unread = [] := rfl

theorem unread_clear (r : RingBufferN N) : r.clear.unread = [] := rfl

/-- **A full ring drops what is stored.** -/
theorem storeChar_of_isFull {r : RingBufferN N} (h : r.isFull = true) (c : UInt8) :
    r.storeChar c = r := dif_neg (not_not_intro h)

/-- **Storing appends a byte**, if there is room. -/
theorem unread_storeChar (r : RingBufferN N) (c : UInt8) (h : ¬r.isFull = true) :
    (r.storeChar c).unread = r.unread ++ [c] := by
  have hne : r.numElems ≠ N := fun he => h (decide_eq_true he)
  rw [storeChar, dif_pos h]
  unfold unread
  dsimp only
  rw [r.head_eq]
  exact Ring.contents_store _ _ r.tail_lt (Nat.lt_of_le_of_ne r.num_le hne)

/-- The first byte stands at the tail. -/
theorem unread_eq_cons {r : RingBufferN N} (h : ¬r.isEmpty = true) :
    r.unread = r.aucBuffer r.iTail :: r.readChar.1.unread := by
  have hpos : r.numElems - 1 + 1 = r.numElems :=
    Nat.succ_pred_eq_of_ne_zero fun he => h (decide_eq_true he)
  rw [readChar, dif_neg h]
  unfold unread
  dsimp only
  rw [← Ring.contents_succ, hpos]

/-! ### Its fields, set from outside -/

/-- The fields alone, as `TwoWire` has them. -/
def fields (r : RingBufferN N) : Wire.RingBufferN := ⟨r.aucBuffer, r.iHead, r.iTail, r.numElems⟩

/-- **The fields that agree are those of a ring.** -/
theorem consistent_iff (f : Wire.RingBufferN) :
    f.Consistent N ↔ ∃ r : RingBufferN N, r.fields = f := by
  constructor
  · rintro ⟨-, htail, hnum, hhead⟩
    exact ⟨⟨f.aucBuffer, f.iHead, f.iTail, f.numElems, htail, hnum, hhead⟩, rfl⟩
  · rintro ⟨r, rfl⟩
    exact ⟨r.head_lt, r.tail_lt, r.num_le, r.head_eq⟩

theorem fields_empty (hN : 0 < N) : (empty hN).fields = .empty := rfl

theorem fields_clear (r : RingBufferN N) : r.clear.fields = r.fields.clear := rfl

theorem isFull_fields (r : RingBufferN N) : r.fields.isFull N = r.isFull := by
  rw [Bool.eq_iff_iff, Wire.RingBufferN.isFull, beq_iff_eq, isFull, decide_eq_true_iff]
  rfl

theorem fields_storeChar (r : RingBufferN N) (c : UInt8) :
    (r.storeChar c).fields = r.fields.storeChar N c := by
  by_cases hfull : r.isFull = true
  · rw [storeChar_of_isFull hfull, Wire.RingBufferN.storeChar, isFull_fields, hfull]
    rfl
  · rw [storeChar, dif_pos hfull, Wire.RingBufferN.storeChar, isFull_fields,
      Bool.eq_false_iff.2 hfull]
    rfl

theorem fields_readChar (r : RingBufferN N) :
    (r.readChar.1.fields, r.readChar.2) = r.fields.readChar N := by
  by_cases hempty : r.isEmpty = true
  · have hzero : r.fields.numElems = 0 := of_decide_eq_true hempty
    rw [readChar, dif_pos hempty, Wire.RingBufferN.readChar, if_pos hzero]
  · have hzero : ¬r.fields.numElems = 0 := fun h => hempty (decide_eq_true h)
    rw [readChar, dif_neg hempty, Wire.RingBufferN.readChar, if_neg hzero]
    rfl

/-- A read after another returns what the ring contains, and then -1. -/
theorem reads_fields (r : RingBufferN N) :
    r.fields.reads N (r.unread.length + 1) = r.unread.map (fun b => (b.toNat : ℤ)) ++ [-1] := by
  generalize hn : r.unread.length = n
  induction n generalizing r with
  | zero =>
      have hnil := List.length_eq_zero_iff.1 hn
      rw [hnil, Wire.RingBufferN.reads, ← fields_readChar, readChar,
        dif_pos (r.isEmpty_iff.2 hnil)]
      rfl
  | succ n ih =>
      have hempty : ¬r.isEmpty = true := fun h => by
        rw [r.isEmpty_iff.1 h] at hn
        cases hn
      have hcons := unread_eq_cons hempty
      rw [hcons, List.length_cons, Nat.succ_inj] at hn
      rw [Wire.RingBufferN.reads, ← fields_readChar, ih _ hn, hcons, readChar, dif_neg hempty]
      rfl

end Wiring.RingBufferN

namespace RingBuffers

open Transducer (after outputs)

/-! ### What both have -/

/-- The methods and the indices of a ring. -/
structure Template (ρ : Type*) where
  storeChar : ρ → UInt8 → ρ
  readChar : ρ → ρ × ℤ
  peek : ρ → ℤ
  available : ρ → ℤ
  availableForStore : ρ → ℤ
  clear : ρ → ρ
  isFull : ρ → Bool
  iHead : ρ → ℕ
  iTail : ρ → ℕ

def arduino (N : ℕ) : Template (Uart.RingBufferN N) where
  storeChar := Uart.RingBufferN.storeChar
  readChar := Uart.RingBufferN.readChar
  peek := Uart.RingBufferN.peek
  available := Uart.RingBufferN.available
  availableForStore := Uart.RingBufferN.availableForStore
  clear := Uart.RingBufferN.clear
  isFull := Uart.RingBufferN.isFull
  iHead := Uart.RingBufferN.iHead
  iTail := Uart.RingBufferN.iTail

def wiring (N : ℕ) : Template (Wiring.RingBufferN N) where
  storeChar := Wiring.RingBufferN.storeChar
  readChar := Wiring.RingBufferN.readChar
  peek := Wiring.RingBufferN.peek
  available := Wiring.RingBufferN.available
  availableForStore := Wiring.RingBufferN.availableForStore
  clear := Wiring.RingBufferN.clear
  isFull := Wiring.RingBufferN.isFull
  iHead := Wiring.RingBufferN.iHead
  iTail := Wiring.RingBufferN.iTail

/-- The integer that stands for the first byte of a queue. -/
def first (b : Option UInt8) : ℤ := b.elim (-1) fun b => (b.toNat : ℤ)

/-- What a method returns; two of them return nothing. -/
def result : Fifo.Answer UInt8 → Option ℤ
  | .done => none
  | .element b => some (first b)
  | .number n => some n

section

variable {ρ : Type*} (o : Template ρ)

/-- **A call** of a method, with what it returns. -/
def Template.call (r : ρ) : Fifo.Call UInt8 → ρ × Option ℤ
  | .store c => (o.storeChar r c, none)
  | .take => ((o.readChar r).1, some (o.readChar r).2)
  | .peek => (r, some (o.peek r))
  | .count => (r, some (o.available r))
  | .clear => (o.clear r, none)

/-- **What is asked of a ring** with `N` cells, after some calls: it is the queue of `cap` bytes. -/
structure IsFifo (start : ρ) (N cap : ℕ) (calls : List (Fifo.Call UInt8)) : Prop where
  results : outputs o.call start calls = (outputs (Fifo.step cap) [] calls).map result
  full : o.isFull (after o.call start calls) = true ↔
    (after (Fifo.step cap) [] calls).length = cap
  dropped : o.isFull (after o.call start calls) = true →
    ∀ c, o.storeChar (after o.call start calls) c = after o.call start calls
  capacity : 0 ≤ o.availableForStore (after o.call start calls) ∧
    o.available (after o.call start calls) + o.availableForStore (after o.call start calls) = cap
  indices : o.iHead (after o.call start calls) < N ∧ o.iTail (after o.call start calls) < N

/-- **Each method does what it does to a queue** of `cap` bytes. -/
structure Refines (N cap : ℕ) (unread : ρ → List UInt8) : Prop where
  store : ∀ r c, unread (o.storeChar r c) =
    if (unread r).length < cap then unread r ++ [c] else unread r
  take : ∀ r, unread (o.readChar r).1 = (unread r).tail ∧ (o.readChar r).2 = first (unread r).head?
  peek : ∀ r, o.peek r = first (unread r).head?
  available : ∀ r, o.available r = (unread r).length
  availableForStore : ∀ r, o.availableForStore r = cap - (unread r).length
  clear : ∀ r, unread (o.clear r) = []
  full : ∀ r, o.isFull r = true ↔ (unread r).length = cap
  dropped : ∀ r c, o.isFull r = true → o.storeChar r c = r
  indices : ∀ r, o.iHead r < N ∧ o.iTail r < N

variable {o} {N cap : ℕ} {unread : ρ → List UInt8}

/-- One call. -/
theorem Refines.call (h : Refines o N cap unread) (r : ρ) (c : Fifo.Call UInt8) :
    unread (o.call r c).1 = (Fifo.step cap (unread r) c).1 ∧
      (o.call r c).2 = result (Fifo.step cap (unread r) c).2 := by
  cases c with
  | store c => exact ⟨h.store r c, rfl⟩
  | take => exact ⟨(h.take r).1, congrArg some (h.take r).2⟩
  | peek => exact ⟨rfl, congrArg some (h.peek r)⟩
  | count => exact ⟨rfl, congrArg some (h.available r)⟩
  | clear => exact ⟨h.clear r, rfl⟩

/-- **All calls.** -/
theorem Refines.isFifo (h : Refines o N cap unread) {start : ρ} (hstart : unread start = [])
    (calls : List (Fifo.Call UInt8)) : IsFifo o start N cap calls := by
  obtain ⟨hstate, hresults⟩ := Transducer.simulation (fun r c => (h.call r c).1)
    (fun r c => (h.call r c).2) start calls
  rw [hstart] at hstate hresults
  have hle := Fifo.length_after_le cap calls
  refine ⟨hresults, ?_, fun hfull c => h.dropped _ c hfull, ?_, h.indices _⟩
  · rw [h.full, hstate]
  · rw [h.availableForStore, h.available, hstate]
    omega

end

/-! ### Both are queues -/

variable {N : ℕ}

/-- **The ring of the core** has a cell less than its array. -/
theorem refines_arduino (hN : 0 < N) :
    Refines (arduino N) N (N - 1) Uart.RingBufferN.unread where
  store := by
    intro r c
    by_cases hroom : r.unread.length < N - 1
    · have hstores : r.stores = true := r.stores_iff.2 (by omega)
      rw [if_pos hroom]
      exact (r.unread_storeChar c hstores).2
    · have hlt := Ring.count_lt r.tail_lt r.head_lt
      rw [← r.length_unread] at hlt
      rw [if_neg hroom]
      exact congrArg _ (Uart.RingBufferN.storeChar_of_isFull (r.isFull_iff.2 (by omega)) c)
  take := by
    intro r
    by_cases hnil : r.unread = []
    · have hempty : (arduino N).readChar r = (r, -1) := if_pos (r.unread_eq_nil_iff.1 hnil)
      rw [hempty, hnil]
      exact ⟨rfl, rfl⟩
    · obtain ⟨b, hb, hunread⟩ := r.unread_readChar hnil
      rw [hunread]
      exact ⟨rfl, hb⟩
  peek := Uart.RingBufferN.peek_eq
  available := Uart.RingBufferN.availableOf_eq
  availableForStore := by
    intro r
    have hcast : ((N - 1 : ℕ) : ℤ) = N - 1 := by omega
    rw [hcast]
    exact r.availableForStore_eq
  clear := Uart.RingBufferN.unread_clear
  full := Uart.RingBufferN.isFull_iff
  dropped := fun _ c h => Uart.RingBufferN.storeChar_of_isFull h c
  indices := fun r => ⟨r.head_lt, r.tail_lt⟩

/-- **The ring of the library** uses all cells. -/
theorem refines_wiring : Refines (wiring N) N N Wiring.RingBufferN.unread where
  store := by
    intro r c
    by_cases hfull : r.isFull = true
    · have hlen := r.isFull_iff.1 hfull
      rw [if_neg (by omega)]
      exact congrArg _ (Wiring.RingBufferN.storeChar_of_isFull hfull c)
    · have hne := mt r.isFull_iff.2 hfull
      have hle := r.num_le
      rw [← r.length_unread] at hle
      rw [if_pos (by omega)]
      exact r.unread_storeChar c hfull
  take := by
    intro r
    by_cases hempty : r.isEmpty = true
    · have hread : (wiring N).readChar r = (r, -1) := dif_pos hempty
      have hnil := r.isEmpty_iff.1 hempty
      rw [hread, hnil]
      exact ⟨rfl, rfl⟩
    · have hread : r.readChar.2 = (r.aucBuffer r.iTail).toNat := by
        rw [Wiring.RingBufferN.readChar, dif_neg hempty]
      rw [Wiring.RingBufferN.unread_eq_cons hempty]
      exact ⟨rfl, hread⟩
  peek := by
    intro r
    by_cases hempty : r.isEmpty = true
    · rw [r.isEmpty_iff.1 hempty]
      exact if_pos hempty
    · rw [Wiring.RingBufferN.unread_eq_cons hempty]
      exact if_neg hempty
  available := fun r => congrArg _ r.length_unread.symm
  availableForStore := by
    intro r
    rw [r.length_unread]
    rfl
  clear := Wiring.RingBufferN.unread_clear
  full := Wiring.RingBufferN.isFull_iff
  dropped := fun _ c h => Wiring.RingBufferN.storeChar_of_isFull h c
  indices := fun r => ⟨r.head_lt, r.tail_lt⟩

/-- **The two rings are interchangeable**: both are queues, of one byte less than they have cells
and of as many, and they return the same as long as the queue does not hold more than the first one
can. -/
theorem interchangeable (hN : 2 ≤ N) (calls : List (Fifo.Call UInt8)) :
    IsFifo (arduino N) (.empty (Nat.zero_lt_of_lt hN)) N (N - 1) calls ∧
      IsFifo (wiring N) (.empty (Nat.zero_lt_of_lt hN)) N N calls ∧
      ((∀ pre, pre <+: calls → (after (Fifo.step N) [] pre).length ≤ N - 1) →
        outputs (arduino N).call (.empty (Nat.zero_lt_of_lt hN)) calls =
          outputs (wiring N).call (.empty (Nat.zero_lt_of_lt hN)) calls) := by
  have hpos := Nat.zero_lt_of_lt hN
  have harduino := (refines_arduino hpos).isFifo (Uart.RingBufferN.unread_empty hpos) calls
  have hwiring := refines_wiring.isFifo (Wiring.RingBufferN.unread_empty hpos) calls
  refine ⟨harduino, hwiring, fun hbounded => ?_⟩
  rw [harduino.results, hwiring.results, Fifo.outputs_eq (Nat.sub_le N 1) calls hbounded]

/-- The calls that never have more than one byte in the queue. -/
def oneAtATime : List (Fifo.Call UInt8) := [.store 65, .take, .store 66, .take, .store 67, .take]

theorem oneAtATime_bounded (pre : List (Fifo.Call UInt8)) (hpre : pre <+: oneAtATime) :
    (after (Fifo.step 2) [] pre).length ≤ 1 := by
  have hall : ∀ pre ∈ oneAtATime.inits, (after (Fifo.step 2) [] pre).length ≤ 1 := by decide
  exact hall pre ((List.mem_inits pre oneAtATime).2 hpre)

/-- Both with two cells: of two bytes the first one drops the second; one byte at a time goes
around both in the same way. -/
theorem interchangeable_two :
    IsFifo (arduino 2) (.empty (by decide)) 2 1 [.store 65, .store 66, .take, .take] ∧
      outputs (arduino 2).call (.empty (by decide)) [.store 65, .store 66, .take, .take] =
        [none, none, some 65, some (-1)] ∧
      IsFifo (wiring 2) (.empty (by decide)) 2 2 [.store 65, .store 66, .take, .take] ∧
      outputs (wiring 2).call (.empty (by decide)) [.store 65, .store 66, .take, .take] =
        [none, none, some 65, some 66] ∧
      outputs (arduino 2).call (.empty (by decide)) oneAtATime =
        outputs (wiring 2).call (.empty (by decide)) oneAtATime ∧
      outputs (wiring 2).call (.empty (by decide)) oneAtATime =
        [none, some 65, none, some 66, none, some 67] := by
  have htwo := interchangeable (Nat.le_refl 2) [.store 65, .store 66, .take, .take]
  have hone := interchangeable (Nat.le_refl 2) oneAtATime
  exact ⟨htwo.1, by decide, htwo.2.1, by decide, hone.2.2 oneAtATime_bounded, by decide⟩

end RingBuffers

end Pico
