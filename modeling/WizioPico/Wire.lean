/-
**The I²C master of `library/wiring`: receiving.**

`TwoWire` of `library/wiring` with its `RingBufferN`, which keeps the number of its elements beside
the two indices.  `requestFrom` lets the driver write into the array of the ring, and then sets
fields of the ring itself.

* `Pico.Wire.RingBufferN` — the ring: any values of the fields, since they are set from outside;
* `Pico.Wire.Outcome` — what the driver's read does: it fails, or fills the buffer;
* `Pico.Wire.TwoWire`, `Pico.Wire.requestFrom` — the class; there is no outcome if the driver writes
  past the array;
* `Pico.Wire.Delivers` — the call hands over what the bus has delivered, and leaves a ring whose
  fields agree;
* `Pico.Wire.delivers_iff` — **this holds exactly of failing reads, and of requests that are not
  made**, after which the ring is empty: the number of elements is never set.
-/

import WizioPico.Ring
import WizioPico.Runs
import Mathlib.Data.Int.Notation

set_option relaxedAutoImplicit false
set_option autoImplicit false

namespace Pico.Wire

/-! ### The ring -/

/-- `RingBufferN<N>`.  The cells from `N` on are whatever lies behind the array. -/
structure RingBufferN where
  aucBuffer : ℕ → UInt8
  iHead : ℕ
  iTail : ℕ
  numElems : ℕ

namespace RingBufferN

/-- The constructor. -/
def empty : RingBufferN := ⟨fun _ => 0, 0, 0, 0⟩

/-- `clear`. -/
def clear (r : RingBufferN) : RingBufferN := { r with iHead := 0, iTail := 0, numElems := 0 }

/-- `isFull`. -/
def isFull (N : ℕ) (r : RingBufferN) : Bool := r.numElems == N

/-- `store_char`. -/
def storeChar (N : ℕ) (r : RingBufferN) (c : UInt8) : RingBufferN :=
  if !r.isFull N then
    { r with
      aucBuffer := Function.update r.aucBuffer r.iHead c
      iHead := Ring.next N r.iHead
      numElems := r.numElems + 1 }
  else r

/-- `read_char`, with its result. -/
def readChar (N : ℕ) (r : RingBufferN) : RingBufferN × ℤ :=
  if r.numElems = 0 then (r, -1)
  else ({ r with iTail := Ring.next N r.iTail, numElems := r.numElems - 1 },
    (r.aucBuffer r.iTail).toNat)

/-- `available`. -/
def available (r : RingBufferN) : ℕ := r.numElems

/-- `peek`. -/
def peek (r : RingBufferN) : ℤ := if r.numElems = 0 then -1 else (r.aucBuffer r.iTail).toNat

/-- The fields agree: both indices are in range, and the head is as many cells behind the tail as
there are elements. -/
def Consistent (N : ℕ) (r : RingBufferN) : Prop :=
  r.iHead < N ∧ r.iTail < N ∧ r.numElems ≤ N ∧ r.iHead = Ring.slot N r.iTail r.numElems

/-- The results of some calls of `read_char`. -/
def reads (N : ℕ) : ℕ → RingBufferN → List ℤ
  | 0, _ => []
  | n + 1, r => (r.readChar N).2 :: reads N n (r.readChar N).1

end RingBufferN

/-! ### The class -/

/-- A `TwoWire`, without what belongs to the pins and the clock. -/
structure TwoWire where
  rx : RingBufferN
  tx : RingBufferN
  transmissionBegun : Bool
  slaveAddress : UInt8

/-- After construction. -/
def TwoWire.constructed : TwoWire := ⟨.empty, .empty, false, 0⟩

/-- What `i2c_read_timeout_us` does for a buffer of `size` bytes: it returns `size` after it has
filled the buffer, or an error after it has stored some bytes. -/
structure Outcome (size : ℕ) where
  ok : Bool
  bytes : List UInt8
  length_le : bytes.length ≤ size
  full : ok = true → bytes.length = size

/-- The buffer after some bytes were stored from its start on. -/
def fill (buf : ℕ → UInt8) (bytes : List UInt8) (i : ℕ) : UInt8 := bytes.getD i (buf i)

/-- `requestFrom`, with its result, a `uint8_t`; `N` is the size of the receive buffer. -/
def requestFrom (N : ℕ) (w : TwoWire) (address : UInt8) (size : ℕ) (stopBit : Bool)
    (out : Outcome size) : Option (TwoWire × ℕ) :=
  let w := { w with slaveAddress := address }
  if size = 0 then some (w, 0)
  else if !stopBit then some (w, 0)
  else
    let rx := w.rx.clear
    if out.bytes.length ≤ N then
      let rx := { rx with aucBuffer := fill rx.aucBuffer out.bytes }
      let size := if out.ok then size else 0
      let rx := { rx with iHead := size }
      some ({ w with rx := rx }, rx.available % 256)
    else none

/-- The calls that use the receive buffer. -/
inductive Call where
  | requestFrom (address : UInt8) (size : ℕ) (stopBit : Bool) (out : Outcome size)
  | available
  | read
  | peek

/-- One call. -/
def step (N : ℕ) (w : TwoWire) : Call → Option TwoWire
  | .requestFrom address size stopBit out =>
    (requestFrom N w address size stopBit out).map Prod.fst
  | .read => some { w with rx := (w.rx.readChar N).1 }
  | .available | .peek => some w

/-! ### What is expected of a request -/

/-- The request reaches the driver. -/
def Asked (size : ℕ) (stopBit : Bool) : Prop := size ≠ 0 ∧ stopBit = true

instance (size : ℕ) (stopBit : Bool) : Decidable (Asked size stopBit) :=
  inferInstanceAs (Decidable (_ ∧ _))

/-- **The call hands over what the bus has delivered.**  The driver stays within the buffer; if it
has filled a buffer that fits, the call returns the size, there are as many bytes available, and
reading gives them in order and then -1; otherwise it returns 0 and nothing is available.  The
fields of the ring agree afterwards. -/
def Delivers (N : ℕ) (w : TwoWire) (address : UInt8) (size : ℕ) (stopBit : Bool)
    (out : Outcome size) : Prop :=
  ∃ w' ret, requestFrom N w address size stopBit out = some (w', ret) ∧
    (if Asked size stopBit ∧ out.ok = true then
      size ≤ N → ret = size ∧ w'.rx.available = size ∧
        w'.rx.reads N (size + 1) = out.bytes.map (fun b => (b.toNat : ℤ)) ++ [-1]
    else ret = 0 ∧ w'.rx.available = 0) ∧
    w'.rx.Consistent N

/-! ### The receive buffer over a run -/

/-- The elements are never counted, and so nothing is ever read. -/
structure Uncounted (w : TwoWire) : Prop where
  numElems : w.rx.numElems = 0
  iTail : w.rx.iTail = 0

theorem uncounted_constructed : Uncounted .constructed := ⟨rfl, rfl⟩

/-- What a request does that reaches the driver: it clears the ring, and sets the head. -/
theorem requestFrom_eq {N : ℕ} {w : TwoWire} {address : UInt8} {size : ℕ} {stopBit : Bool}
    {out : Outcome size} (h : Asked size stopBit) :
    requestFrom N w address size stopBit out =
      if out.bytes.length ≤ N then
        some ({ w with
          slaveAddress := address
          rx := ⟨fill w.rx.aucBuffer out.bytes, if out.ok then size else 0, 0, 0⟩ }, 0)
      else none := by
  unfold requestFrom
  simp only [h.1, h.2, if_false, Bool.not_true, Bool.false_eq_true]
  rfl

/-- What it does otherwise. -/
theorem requestFrom_of_not_asked {N : ℕ} {w : TwoWire} {address : UInt8} {size : ℕ}
    {stopBit : Bool} {out : Outcome size} (h : ¬ Asked size stopBit) :
    requestFrom N w address size stopBit out = some ({ w with slaveAddress := address }, 0) := by
  unfold requestFrom
  by_cases h0 : size = 0
  · simp [h0]
  · have hs : stopBit = false := by
      cases stopBit with
      | false => rfl
      | true => exact absurd ⟨h0, rfl⟩ h
    simp [h0, hs]

/-- **Every call leaves the elements uncounted.** -/
theorem Uncounted.step {N : ℕ} {w w' : TwoWire} (h : Uncounted w) {c : Call}
    (hs : step N w c = some w') : Uncounted w' := by
  cases c with
  | requestFrom address size stopBit out =>
      obtain ⟨⟨t, ret⟩, ht, rfl⟩ := Option.map_eq_some_iff.1 hs
      by_cases ha : Asked size stopBit
      · rw [requestFrom_eq ha] at ht
        split at ht
        · cases ht
          exact ⟨rfl, rfl⟩
        · cases ht
      · rw [requestFrom_of_not_asked ha] at ht
        cases ht
        exact ⟨h.numElems, h.iTail⟩
  | read =>
      cases hs
      have hread : w.rx.readChar N = (w.rx, -1) := by simp [RingBufferN.readChar, h.numElems]
      rw [hread]
      exact h
  | available => cases hs; exact h
  | peek => cases hs; exact h

/-! ### Requests -/

/-- **A request delivers exactly if** it reaches the driver, which fails without leaving the
buffer, or if it does not reach it and finds the indices where an empty ring has them. -/
theorem delivers_iff {N : ℕ} (hN : 0 < N) {w : TwoWire}
    (hw : Runs.Reach (step N) .constructed w) (address : UInt8) (size : ℕ) (stopBit : Bool)
    (out : Outcome size) :
    Delivers N w address size stopBit out ↔
      if Asked size stopBit then out.ok = false ∧ out.bytes.length ≤ N else w.rx.iHead = 0 := by
  have hun : Uncounted w := hw.invariant uncounted_constructed fun _ _ _ h hs => h.step hs
  have hslot : Ring.slot N 0 0 = 0 := Ring.slot_zero hN
  unfold Delivers
  by_cases ha : Asked size stopBit
  · rw [if_pos ha, requestFrom_eq ha]
    constructor
    · rintro ⟨w', ret, hreq, hret, hcons⟩
      split at hreq
      · rename_i hlen
        cases hreq
        refine ⟨?_, hlen⟩
        cases hok : out.ok with
        | false => rfl
        | true =>
            -- The buffer was filled, but nothing counts as an element.
            rw [if_pos ⟨ha, hok⟩] at hret
            obtain ⟨h0, -⟩ := hret (out.full hok ▸ hlen)
            exact absurd h0.symm ha.1
      · cases hreq
    · rintro ⟨hok, hlen⟩
      rw [if_pos hlen]
      refine ⟨_, _, rfl, ?_, ?_⟩
      · rw [if_neg (by simp [hok])]
        exact ⟨rfl, rfl⟩
      · simp [RingBufferN.Consistent, hok, hN, hslot]
  · rw [if_neg ha, requestFrom_of_not_asked ha]
    constructor
    · rintro ⟨w', ret, hreq, -, hcons⟩
      cases hreq
      obtain ⟨-, -, -, hhead⟩ := hcons
      simpa [hun.numElems, hun.iTail, hslot] using hhead
    · intro hhead
      refine ⟨_, _, rfl, ?_, ?_⟩
      · rw [if_neg fun h => ha h.1]
        exact ⟨rfl, hun.numElems⟩
      · simp [RingBufferN.Consistent, hun.numElems, hun.iTail, hhead, hN, hslot]

/-- A device that does not answer: the request returns 0, as it should. -/
theorem delivers_refused :
    Delivers 64 .constructed 0x50 2 true ⟨false, [], by decide, by decide⟩ :=
  (delivers_iff (by decide) (Runs.Reach.refl _ _) 0x50 2 true _).2 (by decide)

/-- The device sends two bytes; the request returns 0, and nothing is available. -/
theorem delivers_violated :
    ¬ ∀ (N : ℕ) (w : TwoWire), 0 < N → Runs.Reach (step N) .constructed w →
      ∀ (address : UInt8) (size : ℕ) (stopBit : Bool) (out : Outcome size),
        Delivers N w address size stopBit out := by
  intro h
  obtain ⟨w', ret, hreq, hret, -⟩ := h 64 .constructed (by decide) (Runs.Reach.refl _ _) 0x50 2 true
    ⟨true, [1, 2], by decide, by decide⟩
  rw [if_pos (by decide)] at hret
  obtain ⟨h2, -⟩ := hret (by decide)
  rw [requestFrom_eq (by decide), if_pos (by decide)] at hreq
  cases hreq
  cases h2

end Pico.Wire
