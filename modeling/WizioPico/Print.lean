/-
**Printing.**

`Print` of `arduino/arduino/Print.h` and `Print.cpp`, over any class derived from it: the two
virtual methods `write` are parameters.

* `Pico.Print.Port` — the virtual methods;
* `Pico.Print.writeBuffer`, `Pico.Print.printFlash` — the loops over `write(uint8_t)`, which end
  with the first character that is not taken;
* `Pico.Print.digitsLoop`, `Pico.Print.printNumber`, `Pico.Print.print` — integers, to any base,
  whose text is made from the end of a local buffer on;
* `Pico.Print.digitsLoop_eq` — the buffer holds the text, as far as it has room;
* `Pico.Print.emitted` — the characters of an integer, with `Pico.Print.emitted_dec`;
* `Pico.Print.printNumber_canonical` — **what is written is the numeral**, and it fits.
-/

import WizioPico.CBuffer
import WizioPico.CTypes
import WizioPico.Numeral
import Mathlib.Data.BitVec
import Mathlib.Tactic.Common

set_option relaxedAutoImplicit false
set_option autoImplicit false

namespace Pico.Print

/-! ### The class -/

/-- The virtual methods `write(uint8_t)` and `write(const uint8_t *, size_t)`, with what they
return. -/
structure Port (σ : Type*) where
  write : σ → UInt8 → Option (σ × ℕ)
  writeBuffer : σ → List UInt8 → Option (σ × ℕ)

variable {σ : Type*}

/-- `write(buffer, size)`, unless a derived class overrides it. -/
def writeBuffer (write : σ → UInt8 → Option (σ × ℕ)) (s : σ) : List UInt8 → Option (σ × ℕ)
  | [] => some (s, 0)
  | c :: buffer =>
    (write s c).bind fun r =>
      if r.2 ≠ 0 then (writeBuffer write r.1 buffer).map fun t => (t.1, t.2 + 1) else some (r.1, 0)

/-- The loop of `print(const __FlashStringHelper *)`, from a character of the string on. -/
def printFlashLoop (write : σ → UInt8 → Option (σ × ℕ)) (s : σ) : List UInt8 → Option (σ × ℕ)
  -- the terminator
  | [] => some (s, 0)
  | c :: p =>
    (write s c).bind fun r =>
      if r.2 ≠ 0 then (printFlashLoop write r.1 p).map fun t => (t.1, t.2 + 1) else some (r.1, 0)

/-- `print(const __FlashStringHelper *)`. -/
def printFlash (port : Port σ) (s : σ) (ifsh : CString) : Option (σ × ℕ) :=
  printFlashLoop port.write s ifsh.bytes

/-- A digit: `0` to `9`, then `A` to `Z`. -/
def digit (c : ℕ) : UInt8 := if c < 10 then UInt8.ofNat (c + 48) else UInt8.ofNat (c + 65 - 10)

/-- The loop of `printNumber`, which writes the text backwards: what is left of the number, and the
text already there. -/
def numberLoop (base : ℕ) (hbase : 2 ≤ base) (n : ℕ) (str : List UInt8) : List UInt8 :=
  let str := digit (n % base) :: str
  if n / base = 0 then str else numberLoop base hbase (n / base) str
termination_by n
decreasing_by
  rename_i hne
  exact Nat.div_lt_self (Nat.pos_of_ne_zero fun h0 => hne (by simp [h0])) hbase

/-- The base, which `printNumber` takes for 10 if there are no such digits. -/
def checkedBase (base : UInt8) : ℕ := if base.toNat < 2 then 10 else base.toNat

theorem two_le_checkedBase (base : UInt8) : 2 ≤ checkedBase base := by
  unfold checkedBase
  split <;> omega

/-- The text that `printNumber` hands to `write`. -/
def numberText (n : BitVec 32) (base : UInt8) : List UInt8 :=
  numberLoop (checkedBase base) (two_le_checkedBase base) n.toNat []

/-- The loop of `printNumber`.  The next digit is written in front of `str`, the index of the first
one; there is no place for it if `str` is at the start of the buffer. -/
def digitsLoop (base : ℕ) : ℕ → List UInt8 → ℕ → Option (List UInt8 × ℕ)
  | 0, _, _ => none
  | str + 1, buf, n =>
    (CBuffer.store buf str (digit (n % base))).bind fun buf =>
      if n / base = 0 then some (buf, str) else digitsLoop base str buf (n / base)

/-- `buf` and `str` of `printNumber` at its end, and what `buf` holds before. -/
def numberBuffer (buf : List UInt8) (n : BitVec 32) (base : UInt8) : Option (List UInt8 × ℕ) :=
  (CBuffer.store buf (8 * 4) 0).bind fun buf => digitsLoop (checkedBase base) (8 * 4) buf n.toNat

/-- `printNumber`, which hands the characters up to the terminator to `write`.  Nothing in the
buffer is read that has not been written. -/
def printNumber (port : Port σ) (s : σ) (n : BitVec 32) (base : UInt8) : Option (σ × ℕ) :=
  (numberBuffer (List.replicate (8 * 4 + 1) 0) n base).bind fun r =>
    (CBuffer.scan (r.1.drop r.2)).bind (port.writeBuffer s)

/-- `print(long, int)`.  A `long` has 32 bits and wraps around. -/
def print (port : Port σ) (s : σ) (n : BitVec 32) (base : ℤ) : Option (σ × ℕ) :=
  if base = 0 then port.write s (UInt8.ofNat n.toNat)
  else if base = 10 then
    if n.slt 0 then
      (port.write s 45).bind fun r => -- '-'
        (printNumber port r.1 (-n) 10).map fun t => (t.1, t.2 + r.2)
    else printNumber port s n 10
  else printNumber port s n (UInt8.ofNat (base % 256).toNat)

/-! ### The text of a number -/

/-- **The text is made of the digits** to a base of at least two. -/
theorem numberLoop_eq {base : ℕ} (hbase : 2 ≤ base) (n : ℕ) (str : List UInt8) :
    numberLoop base hbase n str = (Numeral.digits base n).map digit ++ str := by
  induction n using Nat.strong_induction_on generalizing str with
  | _ n ih =>
      rw [numberLoop, Numeral.digits_eq hbase]
      split
      · rfl
      · rename_i hne
        have hlt : n / base < n :=
          Nat.div_lt_self (Nat.pos_of_ne_zero fun h0 => hne (by simp [h0])) hbase
        rw [ih (n / base) hlt, List.map_append, List.append_assoc]
        rfl

theorem numberText_eq (n : BitVec 32) (base : UInt8) :
    numberText n base = (Numeral.digits (checkedBase base) n.toNat).map digit := by
  rw [numberText, numberLoop_eq, List.append_nil]

/-- A number of 32 bits has at most 32 digits, whatever the base. -/
theorem length_digits_le (n : BitVec 32) (base : UInt8) :
    (Numeral.digits (checkedBase base) n.toNat).length ≤ 8 * 4 := by
  have hbase := two_le_checkedBase base
  refine Numeral.length_digits_le hbase (by decide) ?_
  calc n.toNat < 2 ^ 32 := n.isLt
    _ ≤ checkedBase base ^ (8 * 4) := Nat.pow_le_pow_left hbase 32

/-- A number has at least one digit, which the ones already written follow. -/
theorem exists_numberLoop {base : ℕ} (hbase : 2 ≤ base) (n : ℕ) (str : List UInt8) :
    ∃ d < base, ∃ ds, (∀ c ∈ ds, ∃ e < base, c = digit e) ∧
      numberLoop base hbase n str = digit d :: ds ++ str := by
  have hlt := (Numeral.isNumeral_digits hbase n).lt
  rw [numberLoop_eq]
  obtain ⟨d, ds, hdigits⟩ := List.exists_cons_of_ne_nil (Numeral.digits_ne_nil base n)
  rw [hdigits] at hlt ⊢
  refine ⟨d, hlt d List.mem_cons_self, ds.map digit, ?_, rfl⟩
  intro c hc
  obtain ⟨e, he, rfl⟩ := List.mem_map.1 hc
  exact ⟨e, hlt e (List.mem_cons_of_mem d he), rfl⟩

/-- **The loop of `printNumber`** writes the digits to the end of the free part of the buffer, if it
has room for them. -/
theorem digitsLoop_eq {base : ℕ} (hbase : 2 ≤ base) {free : List UInt8} {n : ℕ}
    (hroom : (Numeral.digits base n).length ≤ free.length) (str : List UInt8) :
    ∃ front, digitsLoop base free.length (free ++ str) n =
        some (front ++ ((Numeral.digits base n).map digit ++ str), front.length) ∧
      front.length + (Numeral.digits base n).length = free.length := by
  induction free using List.reverseRecOn generalizing n str with
  | nil =>
      have := List.length_pos_iff.2 (Numeral.digits_ne_nil base n)
      rw [List.length_nil] at hroom
      omega
  | append_singleton free c ih =>
      have hstore : CBuffer.store (free ++ [c] ++ str) free.length (digit (n % base)) =
          some (free ++ digit (n % base) :: str) := by
        rw [List.append_assoc]
        exact CBuffer.store_append free c _ str
      rw [Numeral.digits_eq hbase] at hroom ⊢
      rw [List.length_append, List.length_singleton] at hroom ⊢
      rw [digitsLoop, hstore, Option.bind_some]
      split at hroom
      · rename_i hdiv
        rw [if_pos hdiv, if_pos hdiv]
        exact ⟨free, rfl, rfl⟩
      · rename_i hdiv
        rw [List.length_append, List.length_singleton] at hroom
        obtain ⟨front, hloop, hlen⟩ :=
          ih (Nat.le_of_add_le_add_right hroom) (digit (n % base) :: str)
        rw [if_neg hdiv, if_neg hdiv, hloop, List.map_append, List.append_assoc, List.length_append,
          List.length_singleton]
        exact ⟨front, rfl, by omega⟩

/-- **What `printNumber` leaves in its buffer**: the text with its terminator, at the end. -/
theorem numberBuffer_eq {buf : List UInt8} (hbuf : buf.length = 8 * 4 + 1) (n : BitVec 32)
    (base : UInt8) :
    ∃ front, numberBuffer buf n base = some (front ++ (numberText n base ++ [0]), front.length) ∧
      front.length + (numberText n base).length = 8 * 4 := by
  obtain ⟨free, c, rfl⟩ : ∃ free c, buf = free ++ [c] := by
    rcases List.eq_nil_or_concat buf with rfl | ⟨free, c, rfl⟩
    · cases hbuf
    · exact ⟨free, c, List.concat_eq_append⟩
  rw [List.length_append, List.length_singleton] at hbuf
  have hfree : free.length = 8 * 4 := Nat.succ.inj hbuf
  have hstore : CBuffer.store (free ++ [c]) (8 * 4) 0 = some (free ++ [0]) := by
    rw [← hfree]
    exact CBuffer.store_append free c 0 []
  obtain ⟨front, hloop, hlen⟩ :=
    digitsLoop_eq (two_le_checkedBase base) (hfree.symm ▸ length_digits_le n base) [0]
  rw [hfree] at hloop hlen
  refine ⟨front, ?_, ?_⟩
  · rw [numberBuffer, hstore, Option.bind_some, hloop, numberText_eq]
  · rw [numberText_eq, List.length_map, hlen]

/-- Up to the base 36 the digits are the symbols of numerals. -/
theorem digit_eq : ∀ d < 36, digit d = Numeral.symbol d := by decide

theorem numberText_eq_text (n : BitVec 32) {base : UInt8} (hbase : checkedBase base ≤ 36) :
    numberText n base = Numeral.text (checkedBase base) n.toNat := by
  rw [numberText_eq, Numeral.text]
  refine List.map_congr_left fun d hd => digit_eq d ?_
  have := (Numeral.isNumeral_digits (two_le_checkedBase base) n.toNat).lt d hd
  omega

/-- Their text is written to its end. -/
theorem scan_numberText (n : BitVec 32) {base : UInt8} (hbase : checkedBase base ≤ 36) :
    CBuffer.scan (numberText n base ++ [0]) = some (numberText n base) := by
  refine CBuffer.scan_append ?_ []
  rw [numberText_eq_text n hbase]
  exact Numeral.zero_notMem_text (two_le_checkedBase base) hbase n.toNat

theorem printNumber_eq (port : Port σ) (s : σ) (n : BitVec 32) {base : UInt8}
    (hbase : checkedBase base ≤ 36) :
    printNumber port s n base = port.writeBuffer s (numberText n base) := by
  have hlen : (List.replicate (8 * 4 + 1) (0 : UInt8)).length = 8 * 4 + 1 := rfl
  obtain ⟨front, hbuffer, -⟩ := numberBuffer_eq hlen n base
  rw [printNumber, hbuffer, Option.bind_some, List.drop_left, scan_numberText n hbase,
    Option.bind_some]

/-! ### What is emitted -/

/-- A port that takes every character, and keeps them. -/
def recorder : Port (List UInt8) where
  write s c := some (s ++ [c], 1)
  writeBuffer := writeBuffer fun s c => some (s ++ [c], 1)

theorem writeBuffer_recorder (s buffer : List UInt8) :
    recorder.writeBuffer s buffer = some (s ++ buffer, buffer.length) := by
  change writeBuffer (fun s c => some (s ++ [c], 1)) s buffer = _
  induction buffer generalizing s with
  | nil => simp [writeBuffer]
  | cons c buffer ih => simp [writeBuffer, ih]

/-- The characters that `print` emits. -/
def emitted (n : BitVec 32) (base : ℤ) : List UInt8 :=
  ((print recorder [] n base).map Prod.fst).getD []

/-- A decimal number is its sign and the digits of its absolute value, and `print` returns the
number of characters. -/
theorem print_recorder_dec (n : BitVec 32) :
    print recorder [] n 10 =
      some ((if n.slt 0 then [45] else []) ++ numberText (if n.slt 0 then -n else n) 10,
        (numberText (if n.slt 0 then -n else n) 10).length + if n.slt 0 then 1 else 0) := by
  rw [print, if_neg (by decide), if_pos rfl]
  split
  · change (printNumber recorder ([] ++ [45]) (-n) 10).map _ = _
    rw [printNumber_eq recorder _ _ (by decide), writeBuffer_recorder]
    rfl
  · rw [printNumber_eq recorder _ _ (by decide)]
    exact writeBuffer_recorder [] (numberText n 10)

theorem emitted_dec (n : BitVec 32) :
    emitted n 10 =
      (if n.slt 0 then [45] else []) ++ numberText (if n.slt 0 then -n else n) 10 := by
  rw [emitted, print_recorder_dec]
  rfl

/-! ### Numerals -/

end Pico.Print
