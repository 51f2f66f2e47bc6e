/-
**The I²C master: sending.**

`beginTransmission`, `write` and `endTransmission` of `TwoWire` over `i2c_write_blocking_internal`
of `SDK/hardware/i2c.c`.  The two `Wire.cpp` of the repository have the same text for them.  The
bus is the list of what the controller puts on it; what it answers to each byte is an input.

* `Pico.Wire.Reply` — the end of the transfer of one byte: it is done, aborted, or takes too long;
* `Pico.Wire.i2cWrite` — the driver, with the bus events and the result;
* `Pico.Wire.beginTransmission`, `Pico.Wire.write`, `Pico.Wire.writeAll`,
  `Pico.Wire.endTransmission`;
* `Pico.Wire.transmit` — a whole transmission, with the bytes that `write` has accepted;
* `Pico.Wire.transmit_accepted` — these are the first bytes that fit;
* `Pico.Wire.Truthful` — the bytes go to the bus, a STOP ends the transfer if one was asked for,
  and 0 is returned only if everything was acknowledged;
* `Pico.Wire.truthful_iff` — **a transmission is truthful exactly if** nothing is to be sent and no
  STOP asked for, or the hardware aborts the transfer of something that is to end with a STOP.
-/

import WizioPico.Wire

set_option relaxedAutoImplicit false
set_option autoImplicit false

namespace Pico.Wire

/-! ### The driver -/

/-- Why the hardware has aborted a transfer: the bit of `tx_abrt_source` that counts. -/
inductive Abort where
  | addrNoack
  | dataNoack
  | other
  deriving DecidableEq

/-- What happens after a byte was handed to the controller: the time is up before it is through,
or it is through, acknowledged or aborted; `late` says that the time is up while the driver waits
for the STOP, if it does. -/
inductive Reply where
  | timeout
  | done (abort : Option Abort) (late : Bool)
  deriving DecidableEq

/-- What the controller puts on the bus. -/
inductive BusEvent where
  | start (addr : UInt8) (restart : Bool)
  | byte (b : UInt8)
  | stop
  deriving DecidableEq

/-- `PICO_ERROR_TIMEOUT`. -/
def errorTimeout : ℤ := -1

/-- `PICO_ERROR_GENERIC`. -/
def errorGeneric : ℤ := -2

/-- The result for an abort after `byteCtr` bytes. -/
def Abort.rval (byteCtr : ℕ) : Abort → ℤ
  | .dataNoack => byteCtr
  | .addrNoack | .other => errorGeneric

/-- A byte is on the bus if the address before it was acknowledged and the hardware has not given
up for another reason. -/
def Abort.sends : Option Abort → Bool
  | none | some .dataNoack => true
  | some .addrNoack | some .other => false

/-- The loop of `i2c_write_blocking_internal` from the byte `byteCtr` on, with its bus events and
the result.  The hardware ends an aborted transfer with a STOP of its own. -/
def writeLoop (nostop : Bool) (replies : ℕ → Reply) : ℕ → List UInt8 → List BusEvent × ℤ
  | byteCtr, [] => ([], byteCtr)
  | byteCtr, b :: src =>
    match replies byteCtr with
    | .timeout => ([], errorTimeout)
    | .done abort late =>
      let sent := if Abort.sends abort then [BusEvent.byte b] else []
      match abort with
      | some reason => (sent ++ [.stop], if late then errorTimeout else reason.rval byteCtr)
      | none =>
        if src.isEmpty && !nostop then
          (sent ++ [.stop], if late then errorTimeout else byteCtr + 1)
        else
          let rest := writeLoop nostop replies (byteCtr + 1) src
          (sent ++ rest.1, rest.2)

/-- `i2c_write_blocking_internal`.  The first byte comes with a START, or a repeated one after a
transfer that was not stopped; the checks of the parameters are compiled out. -/
def i2cWrite (restartOnNext : Bool) (addr : UInt8) (src : List UInt8) (nostop : Bool)
    (replies : ℕ → Reply) : List BusEvent × ℤ :=
  let run := writeLoop nostop replies 0 src
  (if src.isEmpty then run.1 else .start addr restartOnNext :: run.1, run.2)

/-! ### The class -/

/-- `beginTransmission`. -/
def beginTransmission (w : TwoWire) (address : UInt8) : TwoWire :=
  { w with slaveAddress := address, tx := w.tx.clear, transmissionBegun := true }

/-- `write` of one byte, with its result. -/
def write (N : ℕ) (w : TwoWire) (ucData : UInt8) : TwoWire × ℕ :=
  if !w.transmissionBegun || w.tx.isFull N then (w, 0)
  else ({ w with tx := w.tx.storeChar N ucData }, 1)

/-- `write` of some bytes, with its result. -/
def writeAll (N : ℕ) (w : TwoWire) : List UInt8 → TwoWire × ℕ
  | [] => (w, 0)
  | b :: data =>
    let r := write N w b
    if r.2 = 0 then (r.1, 0)
    else
      let rest := writeAll N r.1 data
      (rest.1, rest.2 + 1)

/-- `endTransmission`, with the bus events and its result.  The last argument but one of the driver
is its `nostop`. -/
def endTransmission (w : TwoWire) (restartOnNext stopBit : Bool) (replies : ℕ → Reply) :
    TwoWire × List BusEvent × ℕ :=
  if !stopBit then (w, [], 1)
  else
    let w := { w with transmissionBegun := false }
    let size := w.tx.available
    let run := i2cWrite restartOnNext w.slaveAddress ((List.range size).map w.tx.aucBuffer) true
      replies
    (w, run.1, if run.2 = size then 0 else 4)

/-- A call of one of the two `write`. -/
inductive WriteCall where
  | byte (b : UInt8)
  | bytes (data : List UInt8)

/-- What the call was given. -/
def WriteCall.data : WriteCall → List UInt8
  | byte b => [b]
  | bytes data => data

/-- The call, and the bytes for which it has reported success. -/
def WriteCall.run (N : ℕ) (w : TwoWire) : WriteCall → TwoWire × List UInt8
  | byte b =>
    let r := write N w b
    (r.1, if r.2 = 1 then [b] else [])
  | bytes data =>
    let r := writeAll N w data
    (r.1, data.take r.2)

/-- Some calls, and the bytes for which they have reported success. -/
def runWrites (N : ℕ) : TwoWire → List WriteCall → TwoWire × List UInt8
  | w, [] => (w, [])
  | w, c :: calls =>
    let r := c.run N w
    let rest := runWrites N r.1 calls
    (rest.1, r.2 ++ rest.2)

/-- What one transmission shows: the bytes accepted, the bus, and the result. -/
structure Transmission where
  accepted : List UInt8
  bus : List BusEvent
  result : ℕ

/-- **A whole transmission.** -/
def transmit (N : ℕ) (w : TwoWire) (restartOnNext : Bool) (address : UInt8)
    (calls : List WriteCall) (stopBit : Bool) (replies : ℕ → Reply) : Transmission :=
  let written := runWrites N (beginTransmission w address) calls
  let ended := endTransmission written.1 restartOnNext stopBit replies
  ⟨written.2, ended.2.1, ended.2.2⟩

/-! ### What is expected of it -/

/-- The bytes of a transfer. -/
def bytesOf (bus : List BusEvent) : List UInt8 :=
  bus.filterMap fun
    | .byte b => some b
    | _ => none

/-- The bytes that reach the bus if the master sends `src`: all up to the first that is not
acknowledged. -/
def reaching (replies : ℕ → Reply) : ℕ → List UInt8 → List UInt8
  | _, [] => []
  | i, b :: src =>
    match replies i with
    | .timeout => []
    | .done none _ => b :: reaching replies (i + 1) src
    | .done (some .dataNoack) _ => [b]
    | .done (some _) _ => []

/-- The address and `n` bytes from the byte `k` on are acknowledged. -/
def AckedFrom (replies : ℕ → Reply) (k n : ℕ) : Prop :=
  ∀ i < n, ∃ late, replies (k + i) = .done none late

/-- The address and the first `n` bytes are acknowledged. -/
def AllAcked (replies : ℕ → Reply) (n : ℕ) : Prop := AckedFrom replies 0 n

/-- Of `n` bytes from the byte `k` on, some are acknowledged, and then the hardware aborts. -/
def AbortedFrom (replies : ℕ → Reply) (k n : ℕ) : Prop :=
  ∃ i < n, AckedFrom replies k i ∧ ∃ reason late, replies (k + i) = .done (some reason) late

/-- **A truthful transmission to `address`.** -/
structure Truthful (address : UInt8) (stopBit : Bool) (replies : ℕ → Reply) (t : Transmission) :
    Prop where
  /-- What was accepted is sent, in order, as far as it is acknowledged. -/
  sent : bytesOf t.bus = reaching replies 0 t.accepted
  /-- It is sent to this address, and to no other. -/
  toAddress : t.accepted ≠ [] → ∃ restart, t.bus.head? = some (.start address restart)
  noOther : ∀ a restart, .start a restart ∈ t.bus → a = address
  /-- The transfer ends with a STOP if and only if one was asked for. -/
  stop : t.bus.getLast? = some .stop ↔ stopBit = true
  /-- Success is only reported if a device has acknowledged the address and every byte. -/
  success : t.result = 0 →
    (∃ restart, .start address restart ∈ t.bus) ∧ AllAcked replies t.accepted.length

/-! ### The bytes that are accepted -/

/-- The transmit buffer holds the bytes accepted so far. -/
structure Holds (N : ℕ) (w : TwoWire) (acc : List UInt8) : Prop where
  begun : w.transmissionBegun = true
  numElems : w.tx.numElems = acc.length
  length_le : acc.length ≤ N
  iHead : w.tx.iHead = Ring.slot N 0 acc.length
  contents : Ring.contents w.tx.aucBuffer N 0 acc.length = acc

theorem holds_begin (N : ℕ) (w : TwoWire) (address : UInt8) :
    Holds N (beginTransmission w address) [] where
  begun := rfl
  numElems := rfl
  length_le := Nat.zero_le N
  iHead := (Nat.zero_mod N).symm
  contents := rfl

namespace Holds

variable {N : ℕ} {w : TwoWire} {acc : List UInt8}

/-- With room left, a byte is accepted. -/
theorem write (h : Holds N w acc) (hroom : acc.length < N) (b : UInt8) :
    (write N w b).2 = 1 ∧ Holds N (write N w b).1 (acc ++ [b]) := by
  have hfull : w.tx.isFull N = false := by
    rw [RingBufferN.isFull, h.numElems]
    exact beq_false_of_ne (by omega)
  have hwrite : Wire.write N w b = ({ w with tx := w.tx.storeChar N b }, 1) := by
    simp [Wire.write, h.begun, hfull]
  have hstore : w.tx.storeChar N b = ⟨Function.update w.tx.aucBuffer (Ring.slot N 0 acc.length) b,
      Ring.slot N 0 (acc.length + 1), w.tx.iTail, acc.length + 1⟩ := by
    simp [RingBufferN.storeChar, hfull, h.iHead, h.numElems, Ring.next_slot]
  rw [hwrite, hstore]
  refine ⟨rfl, h.begun, ?_, ?_, ?_, ?_⟩
  · simp
  · simp only [List.length_append, List.length_singleton]
    omega
  · simp
  · simp only [List.length_append, List.length_singleton]
    rw [Ring.contents_store _ _ (by omega) hroom, h.contents]

/-- Without, it is not. -/
theorem write_full (h : Holds N w acc) (hfull : acc.length = N) (b : UInt8) :
    Wire.write N w b = (w, 0) := by
  have : w.tx.isFull N = true := by
    rw [RingBufferN.isFull, h.numElems, hfull]
    exact beq_self_eq_true N
  simp [Wire.write, this]

/-- **Of some bytes, those are accepted that fit.** -/
theorem writeAll (data : List UInt8) : ∀ {w : TwoWire} {acc : List UInt8}, Holds N w acc →
    data.take (Wire.writeAll N w data).2 = data.take (N - acc.length) ∧
      Holds N (Wire.writeAll N w data).1 (acc ++ data.take (N - acc.length)) := by
  induction data with
  | nil => exact fun h => ⟨by simp, by simpa [Wire.writeAll] using h⟩
  | cons b data ih =>
      intro w acc h
      rcases Nat.lt_or_ge acc.length N with hroom | hfull
      · obtain ⟨hone, hnext⟩ := h.write hroom b
        obtain ⟨htake, hall⟩ := ih hnext
        have hlen : N - acc.length = (N - (acc ++ [b]).length) + 1 := by
          rw [List.length_append, List.length_singleton]
          omega
        have hne : (Wire.write N w b).2 ≠ 0 := by rw [hone]; decide
        rw [Wire.writeAll, if_neg hne, hlen, List.take_succ_cons]
        refine ⟨by rw [List.take_succ_cons, htake], ?_⟩
        simpa using hall
      · have hN : acc.length = N := Nat.le_antisymm h.length_le hfull
        rw [Wire.writeAll, h.write_full hN, if_pos rfl, hN, Nat.sub_self]
        exact ⟨rfl, by simpa using h⟩

/-- The same for one call. -/
theorem run (h : Holds N w acc) (c : WriteCall) :
    (c.run N w).2 = c.data.take (N - acc.length) ∧
      Holds N (c.run N w).1 (acc ++ c.data.take (N - acc.length)) := by
  cases c with
  | bytes data => exact h.writeAll data
  | byte b =>
      simp only [WriteCall.run, WriteCall.data]
      rcases Nat.lt_or_ge acc.length N with hroom | hfull
      · obtain ⟨hone, hnext⟩ := h.write hroom b
        have htake : [b].take (N - acc.length) = [b] := List.take_of_length_le (by
          rw [List.length_singleton]
          omega)
        rw [hone, htake]
        exact ⟨rfl, hnext⟩
      · have hN : acc.length = N := Nat.le_antisymm h.length_le hfull
        rw [h.write_full hN, hN, Nat.sub_self]
        exact ⟨rfl, by simpa using h⟩

/-- **Of a sequence of calls, those bytes are accepted that fit.** -/
theorem runWrites (calls : List WriteCall) : ∀ {w : TwoWire} {acc : List UInt8}, Holds N w acc →
    (Wire.runWrites N w calls).2 = (calls.flatMap WriteCall.data).take (N - acc.length) ∧
      Holds N (Wire.runWrites N w calls).1
        (acc ++ (calls.flatMap WriteCall.data).take (N - acc.length)) := by
  induction calls with
  | nil => exact fun h => ⟨by simp [Wire.runWrites], by simpa [Wire.runWrites] using h⟩
  | cons c calls ih =>
      intro w acc h
      obtain ⟨hdata, hnext⟩ := h.run c
      obtain ⟨hrest, hall⟩ := ih hnext
      have hlen : N - (acc ++ c.data.take (N - acc.length)).length =
          (N - acc.length) - c.data.length := by
        rw [List.length_append, List.length_take]
        omega
      rw [hlen] at hrest hall
      rw [Wire.runWrites, List.flatMap_cons, List.take_append]
      refine ⟨?_, ?_⟩
      · simp only [hdata, hrest]
      · rw [← List.append_assoc]
        exact hall

/-- The driver is handed what was accepted. -/
theorem buffer_eq (h : Holds N w acc) :
    (List.range w.tx.available).map w.tx.aucBuffer = acc := by
  rw [RingBufferN.available, h.numElems, List.range_eq_range',
    ← Ring.contents_of_le (N := N) _ (by have := h.length_le; omega), h.contents]

end Holds

/-! ### What the driver does without a STOP -/

section Driver

variable (replies : ℕ → Reply)

/-- Acknowledging one byte and the rest is acknowledging all. -/
theorem ackedFrom_succ (k n : ℕ) :
    AckedFrom replies k (n + 1) ↔ (∃ late, replies k = .done none late) ∧
      AckedFrom replies (k + 1) n := by
  constructor
  · intro h
    refine ⟨h 0 (by omega), fun i hi => ?_⟩
    have := h (i + 1) (by omega)
    rwa [← Nat.add_assoc, Nat.add_right_comm] at this
  · rintro ⟨h0, h⟩ i hi
    cases i with
    | zero => exact h0
    | succ i =>
        have := h i (by omega)
        rwa [Nat.add_right_comm, Nat.add_assoc] at this

/-- The hardware aborts at the first byte, or later. -/
theorem abortedFrom_succ (k n : ℕ) :
    AbortedFrom replies k (n + 1) ↔ (∃ reason late, replies k = .done (some reason) late) ∨
      (∃ late, replies k = .done none late) ∧ AbortedFrom replies (k + 1) n := by
  constructor
  · rintro ⟨i, hi, hacked, reason, late, ha⟩
    cases i with
    | zero => exact .inl ⟨reason, late, ha⟩
    | succ i =>
        rw [ackedFrom_succ] at hacked
        refine .inr ⟨hacked.1, i, by omega, hacked.2, reason, late, ?_⟩
        rwa [← Nat.add_assoc, Nat.add_right_comm] at ha
  · rintro (⟨reason, late, ha⟩ | ⟨h0, i, hi, hacked, reason, late, ha⟩)
    · exact ⟨0, by omega, fun i hi => absurd hi (Nat.not_lt_zero i), reason, late, ha⟩
    · refine ⟨i + 1, by omega, (ackedFrom_succ replies k i).2 ⟨h0, hacked⟩, reason, late, ?_⟩
      rwa [Nat.add_right_comm, Nat.add_assoc] at ha

/-- What is sent before it does not end a transfer with a STOP. -/
theorem getLast?_cons_stop {e : BusEvent} (he : e ≠ .stop) (l : List BusEvent) :
    (e :: l).getLast? = some .stop ↔ l.getLast? = some .stop := by
  rw [List.getLast?_cons]
  cases l.getLast? <;> simp [he]

/-- A byte at which the hardware aborts does not give the number of bytes as the result. -/
theorem writeLoop_abort_ne {k : ℕ} {reason : Abort} {late : Bool}
    (hr : replies k = .done (some reason) late) (b : UInt8) (src : List UInt8) :
    (writeLoop true replies k (b :: src)).2 ≠ (k + (src.length + 1) : ℕ) := by
  have hres : (writeLoop true replies k (b :: src)).2 =
      if late then errorTimeout else reason.rval k := by
    simp [writeLoop, hr]
  rw [hres]
  cases late <;> cases reason <;>
    simp only [errorTimeout, Abort.rval, errorGeneric, if_true, if_false,
      Bool.false_eq_true, ne_eq] <;> omega

/-- **The loop** sends what reaches the bus, without a START; a STOP ends it only if the hardware
aborts, and its result is the number of bytes only if all were acknowledged. -/
theorem writeLoop_spec (src : List UInt8) : ∀ k : ℕ,
    let run := writeLoop true replies k src
    bytesOf run.1 = reaching replies k src ∧ (∀ a restart, .start a restart ∉ run.1) ∧
      (run.1.getLast? = some .stop ↔ AbortedFrom replies k src.length) ∧
      (run.2 = (k + src.length : ℕ) ↔ AckedFrom replies k src.length) := by
  induction src with
  | nil =>
      intro k
      refine ⟨rfl, by simp [writeLoop], ?_, ?_⟩
      · simp [writeLoop, AbortedFrom]
      · simp [writeLoop, AckedFrom]
  | cons b src ih =>
      intro k
      rw [List.length_cons, abortedFrom_succ, ackedFrom_succ]
      cases hr : replies k with
      | timeout =>
          refine ⟨by simp [writeLoop, reaching, hr, bytesOf], by simp [writeLoop, hr], ?_, ?_⟩
          · simp [writeLoop, hr]
          · simp [writeLoop, hr, errorTimeout]
            omega
      | done abort late =>
          cases abort with
          | none =>
              obtain ⟨hbytes, hstart, hstop, hres⟩ := ih (k + 1)
              have hloop : writeLoop true replies k (b :: src) =
                  (.byte b :: (writeLoop true replies (k + 1) src).1,
                    (writeLoop true replies (k + 1) src).2) := by
                simp [writeLoop, hr, Abort.sends]
              rw [hloop]
              refine ⟨?_, ?_, ?_, ?_⟩
              · simp [reaching, hr, bytesOf, ← hbytes]
              · intro a restart hmem
                rcases List.mem_cons.1 hmem with he | hmem
                · cases he
                · exact hstart a restart hmem
              · rw [getLast?_cons_stop (fun h => by cases h), hstop]
                simp
              · have hsum : (k + (src.length + 1) : ℕ) = k + 1 + src.length := by omega
                rw [hsum, hres]
                simp
          | some reason =>
              refine ⟨?_, ?_, ?_, ?_⟩
              · cases reason <;> simp [writeLoop, reaching, hr, bytesOf, Abort.sends]
              · cases reason <;> simp [writeLoop, hr, Abort.sends]
              · simp [writeLoop, hr]
              · refine iff_of_false (writeLoop_abort_ne replies hr b src) ?_
                rintro ⟨⟨late', hacked⟩, -⟩
                cases hacked

end Driver

/-! ### Transmissions -/

variable {N : ℕ}

/-- **The bytes that are accepted are the first ones that fit.** -/
theorem transmit_accepted (w : TwoWire) (restartOnNext : Bool) (address : UInt8)
    (calls : List WriteCall) (stopBit : Bool) (replies : ℕ → Reply) :
    (transmit N w restartOnNext address calls stopBit replies).accepted =
      (calls.flatMap WriteCall.data).take N :=
  ((holds_begin N w address).runWrites calls).1

/-- Writing does not change the address. -/
theorem slaveAddress_write (w : TwoWire) (b : UInt8) :
    (write N w b).1.slaveAddress = w.slaveAddress := by
  unfold write
  split <;> rfl

theorem slaveAddress_writeAll (data : List UInt8) :
    ∀ w : TwoWire, (writeAll N w data).1.slaveAddress = w.slaveAddress := by
  induction data with
  | nil => exact fun _ => rfl
  | cons b data ih =>
      intro w
      rw [writeAll]
      split
      · exact slaveAddress_write w b
      · exact (ih _).trans (slaveAddress_write w b)

theorem slaveAddress_runWrites (calls : List WriteCall) :
    ∀ w : TwoWire, (runWrites N w calls).1.slaveAddress = w.slaveAddress := by
  induction calls with
  | nil => exact fun _ => rfl
  | cons c calls ih =>
      intro w
      refine (ih _).trans ?_
      cases c with
      | byte b => exact slaveAddress_write w b
      | bytes data => exact slaveAddress_writeAll data w

/-- What a transmission shows, with the bytes `src` accepted. -/
theorem transmit_eq (w : TwoWire) (restartOnNext : Bool) (address : UInt8)
    (calls : List WriteCall) (stopBit : Bool) (replies : ℕ → Reply) {src : List UInt8}
    (hsrc : (calls.flatMap WriteCall.data).take N = src) :
    transmit N w restartOnNext address calls stopBit replies =
      if stopBit then
        let run := i2cWrite restartOnNext address src true replies
        ⟨src, run.1, if run.2 = src.length then 0 else 4⟩
      else ⟨src, [], 1⟩ := by
  obtain ⟨hacc, hholds⟩ := (holds_begin N w address).runWrites calls
  rw [List.length_nil, Nat.sub_zero, hsrc] at hacc hholds
  rw [List.nil_append] at hholds
  have haddr : (runWrites N (beginTransmission w address) calls).1.slaveAddress = address :=
    slaveAddress_runWrites calls (beginTransmission w address)
  have havail : (runWrites N (beginTransmission w address) calls).1.tx.available = src.length :=
    hholds.numElems
  unfold transmit endTransmission
  cases stopBit with
  | false => simp [hacc]
  | true =>
      have hbuf := hholds.buffer_eq
      rw [havail] at hbuf
      simp [hacc, hbuf, haddr, havail]

/-- **A transmission is truthful exactly if** there is nothing to send and no STOP asked for, or
there is something to send with a STOP at the end, and the hardware aborts it. -/
theorem truthful_iff (N : ℕ) (w : TwoWire) (restartOnNext : Bool) (address : UInt8)
    (calls : List WriteCall) (stopBit : Bool) (replies : ℕ → Reply) :
    Truthful address stopBit replies
        (transmit N w restartOnNext address calls stopBit replies) ↔
      if stopBit then
        AbortedFrom replies 0 ((calls.flatMap WriteCall.data).take N).length
      else (calls.flatMap WriteCall.data).take N = [] := by
  generalize hsrc : (calls.flatMap WriteCall.data).take N = src
  rw [transmit_eq w restartOnNext address calls stopBit replies hsrc]
  cases stopBit with
  | false =>
      simp only [Bool.false_eq_true, if_false]
      constructor
      · intro h
        by_contra hne
        obtain ⟨restart, hstart⟩ := h.toAddress hne
        cases hstart
      · rintro rfl
        exact ⟨rfl, fun h => absurd rfl h, by simp, by simp, by simp⟩
  | true =>
      obtain ⟨hbytes, hstart, hstop, hres⟩ := writeLoop_spec replies src 0
      simp only [if_true]
      cases src with
      | nil =>
          refine iff_of_false (fun h => ?_) ?_
          · have := h.stop.2 rfl
            simp [i2cWrite, writeLoop] at this
          · rintro ⟨i, hi, -⟩
            cases hi
      | cons b src =>
          have hrun : i2cWrite restartOnNext address (b :: src) true replies =
              (.start address restartOnNext :: (writeLoop true replies 0 (b :: src)).1,
                (writeLoop true replies 0 (b :: src)).2) := rfl
          have hlast : (BusEvent.start address restartOnNext ::
              (writeLoop true replies 0 (b :: src)).1).getLast? = some .stop ↔
                AbortedFrom replies 0 (b :: src).length := by
            rw [← hstop, getLast?_cons_stop (fun h => by cases h)]
          rw [hrun]
          constructor
          · exact fun h => hlast.1 (h.stop.2 rfl)
          · intro habort
            refine ⟨by simpa [bytesOf] using hbytes, fun _ => ⟨restartOnNext, rfl⟩, ?_, ?_, ?_⟩
            · intro a restart hmem
              rcases List.mem_cons.1 hmem with he | hmem
              · cases he
                rfl
              · exact absurd hmem (hstart a restart)
            · exact iff_of_true (hlast.2 habort) rfl
            · intro hzero
              refine ⟨⟨restartOnNext, List.mem_cons_self⟩, hres.1 ?_⟩
              by_contra hne
              rw [Nat.zero_add] at hne
              exact absurd ((if_neg hne).symm.trans hzero) (by decide)

/-- Two bytes are written to a device that acknowledges them; the transfer is not ended. -/
theorem truthful_violated :
    ¬ ∀ (N : ℕ) (w : TwoWire) (restartOnNext : Bool) (address : UInt8) (calls : List WriteCall)
      (stopBit : Bool) (replies : ℕ → Reply),
      Truthful address stopBit replies
        (transmit N w restartOnNext address calls stopBit replies) := by
  intro h
  have := (h 64 .constructed false 0x50 [.byte 1, .byte 2] true fun _ => .done none false).stop.2 rfl
  revert this
  decide

end Pico.Wire
