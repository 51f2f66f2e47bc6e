/-
**The transfers of `SPIClass`.**

`SPIClass` of `libraries/RP2040/SPI/SPI.h` transfers bytes, words of 16 bits and buffers.  The port
sends the most significant bit of a byte first; for the other order a byte is reversed on its way
out and on its way in.  The transfer of a buffer leaves that out.

* `SPIClass`, `Bus` — the object, and the port with the levels of the chip select pin;
* `transferByte`, `transferWord`, `transferBuffer` — the three overloads of `transfer`, and
  `transferEach` — a transfer for each byte of a buffer;
* `reverseByte_bits` — `reverseByte` reverses the bits of a byte;
* `transferByte_spec`, `transferEach_spec`, `transferBuffer_spec` — what they put on the wire, and
  what they store;
* `wordInOrder` — **a word goes out in the selected order**;
* `transfer_agrees_iff` — **when a buffer is transferred as its bytes are one by one**.
-/

import WizioPico.Spi

set_option relaxedAutoImplicit false
set_option autoImplicit false

namespace Pico.Spi

open Fuel

/-! ### The class -/

/-- The bit orders. -/
def LSBFIRST : UInt32 := 0
def MSBFIRST : UInt32 := 1

/-- What an `SPIClass` holds for its transfers. -/
structure SPIClass where
  cs : ℤ
  bitOrder : UInt32

/-- The port, and what has been put on pins. -/
structure Bus where
  port : Port
  puts : List (ℤ × Bool)

/-- The chip select pin gets a level, if there is one. -/
def Bus.select (bus : Bus) (spi : SPIClass) (level : Bool) : Bus :=
  if -1 < spi.cs then { bus with puts := bus.puts ++ [(spi.cs, level)] } else bus

/-- `reverseByte`. -/
def reverseByte (b : UInt8) : UInt8 :=
  let b := (b &&& 0xF0) >>> 4 ||| (b &&& 0x0F) <<< 4
  let b := (b &&& 0xCC) >>> 2 ||| (b &&& 0x33) <<< 2
  (b &&& 0xAA) >>> 1 ||| (b &&& 0x55) <<< 1

/-- A byte, in the order that the object is for. -/
def SPIClass.ordered (spi : SPIClass) (b : UInt8) : UInt8 :=
  if spi.bitOrder = LSBFIRST then reverseByte b else b

/-- `transfer(uint8_t)`, with its variables `tx` and `rx` at the addresses 0 and 1. -/
def transferByte (line : Line) (fuel : ℕ) (spi : SPIClass) (tx : UInt8) (bus : Bus) :
    Option (UInt8 × Bus) :=
  let bus := bus.select spi false
  let tx := spi.ordered tx
  let locals : ByteMem := fun a => if a = 0 then tx else 0
  (spiWriteReadBlocking line fuel 0 1 1 locals bus.port).map fun r =>
    (spi.ordered (r.1 1), { bus with port := r.2 }.select spi true)

/-- The word in a union with its bytes. -/
def ofBytes (msb lsb : UInt8) : UInt16 := msb.toUInt16 <<< (8 : UInt16) ||| lsb.toUInt16

/-- `transfer(uint16_t)`. -/
def transferWord (line : Line) (fuel : ℕ) (spi : SPIClass) (data : UInt16) (bus : Bus) :
    Option (UInt16 × Bus) :=
  let lsb := data.toUInt8
  let msb := (data >>> 8).toUInt8
  if spi.bitOrder = LSBFIRST then
    (transferByte line fuel spi lsb bus).bind fun l =>
      (transferByte line fuel spi msb l.2).map fun m =>
        (ofBytes m.1 l.1, m.2)
  else
    (transferByte line fuel spi msb bus).bind fun m =>
      (transferByte line fuel spi lsb m.2).map fun l =>
        (ofBytes m.1 l.1, l.2)

/-- `transfer(uint8_t *, size_t)`: the buffer begins at an address of the memory. -/
def transferBuffer (line : Line) (fuel : ℕ) (buf count : ℕ) (mem : ByteMem) (bus : Bus) :
    Option (ByteMem × Bus) :=
  (spiWriteReadBlocking line fuel buf buf count mem bus.port).map fun r =>
    (r.1, { bus with port := r.2 })

/-- A call of `transfer(uint8_t)` for each byte of a buffer. -/
def transferEach (line : Line) (fuel : ℕ) (spi : SPIClass) :
    ℕ → ℕ → ByteMem → Bus → Option (ByteMem × Bus)
  | _, 0, mem, bus => some (mem, bus)
  | buf, count + 1, mem, bus =>
    (transferByte line fuel spi (mem buf) bus).bind fun r =>
      transferEach line fuel spi (buf + 1) count (mem.blit buf 1 fun _ => r.1) r.2

/-! ### The order of the bits -/

/-- The bits of a byte as the port sends them. -/
def bits (b : UInt8) : List Bool := (List.range 8).map fun i => b.toBitVec.getLsbD (7 - i)

/-- The bits of a word from the most significant one on. -/
def wordBits (data : UInt16) : List Bool :=
  (List.range 16).map fun i => data.toBitVec.getLsbD (15 - i)

/-- **`reverseByte` reverses the bits of a byte.** -/
theorem reverseByte_bits (b : UInt8) : bits (reverseByte b) = (bits b).reverse := by
  simp [bits, reverseByte, List.range_succ]

theorem bits_word (data : UInt16) :
    wordBits data = bits (data >>> 8).toUInt8 ++ bits data.toUInt8 := by
  simp [bits, wordBits, List.range_succ]

/-! ### What the transfers do -/

section

variable {line : Line} {spi : SPIClass} {bus : Bus} {mem : ByteMem}

@[simp] theorem port_select (bus : Bus) (spi : SPIClass) (level : Bool) :
    (bus.select spi level).port = bus.port := by
  rw [Bus.select]
  split <;> rfl

/-- **`transfer(uint8_t)`**: the byte goes out in the selected order, and so does its reply come
in. -/
theorem transferByte_spec (hidle : bus.port.Idle) (line : Line) (spi : SPIClass) (tx : UInt8) :
    ∃ bus', Returns (fun fuel => transferByte line fuel spi tx bus)
        (spi.ordered (line.reply (bus.port.wire ++ [spi.ordered tx])), bus') ∧
      bus'.port.Idle ∧ bus'.port.wire = bus.port.wire ++ [spi.ordered tx] := by
  let locals : ByteMem := fun a => if a = 0 then spi.ordered tx else 0
  have hbytes : ∀ i, (hi : i < [spi.ordered tx].length) →
      locals (0 + i) = [spi.ordered tx][i] := by
    intro i hi
    obtain rfl : i = 0 := Nat.lt_one_iff.1 hi
    rfl
  obtain ⟨port, hreturns, hidle', hwire⟩ := spiWriteReadBlocking_spec line
    [spi.ordered tx] hidle hbytes (.inr (Nat.le_refl 1) : Apart 0 1 1)
  refine ⟨{ bus.select spi false with port := port }.select spi true, ?_, ?_, ?_⟩
  · have hmap := hreturns.map fun r =>
      (spi.ordered (r.1 1), { bus.select spi false with port := r.2 }.select spi true)
    simp only [transferByte, port_select]
    exact hmap
  · rwa [port_select]
  · rwa [port_select]

/-- **A transfer for each byte** of a buffer. -/
theorem transferEach_spec (hidle : bus.port.Idle) (line : Line) (spi : SPIClass) (buf : ℕ)
    (bytes : List UInt8) (hbytes : ∀ i, (hi : i < bytes.length) → mem (buf + i) = bytes[i]) :
    ∃ bus', Returns (fun fuel => transferEach line fuel spi buf bytes.length mem bus)
        (mem.blit buf bytes.length fun i =>
          ((replies line bus.port.wire (bytes.map spi.ordered)).map spi.ordered).getD i 0, bus') ∧
      bus'.port.Idle ∧ bus'.port.wire = bus.port.wire ++ bytes.map spi.ordered := by
  induction bytes generalizing buf mem bus with
  | nil =>
      refine ⟨bus, ?_, hidle, (List.append_nil _).symm⟩
      rw [List.length_nil, ByteMem.blit_zero]
      exact returns_some (mem, bus)
  | cons b bytes ih =>
      have hb : mem buf = b := hbytes 0 (Nat.succ_pos _)
      obtain ⟨bus₁, hbyte, hidle₁, hwire₁⟩ := transferByte_spec hidle line spi b
      -- the bytes that follow have not been overwritten
      have hrest : ∀ i, (hi : i < bytes.length) →
          (mem.blit buf 1 fun _ => spi.ordered (line.reply (bus.port.wire ++ [spi.ordered b])))
            (buf + 1 + i) = bytes[i] := by
        intro i hi
        rw [ByteMem.blit_of_not_mem (by omega), Nat.add_assoc, Nat.add_comm 1 i]
        exact hbytes (i + 1) (Nat.succ_lt_succ hi)
      obtain ⟨bus₂, heach, hidle₂, hwire₂⟩ := ih hidle₁ (buf + 1) hrest
      refine ⟨bus₂, ?_, hidle₂, ?_⟩
      · have hbind := hbyte.bind (g := fun fuel r => transferEach line fuel spi (buf + 1)
          bytes.length (mem.blit buf 1 fun _ => r.1) r.2) heach
        rw [hwire₁, ByteMem.blit_cons] at hbind
        simp only [transferEach, hb, List.length_cons, List.map_cons, replies]
        exact hbind
      · rw [hwire₂, hwire₁, List.append_assoc]
        rfl

/-- **`transfer(uint8_t *, size_t)`**: the bytes go out as they are. -/
theorem transferBuffer_spec (hidle : bus.port.Idle) (line : Line) (buf : ℕ) (bytes : List UInt8)
    (hbytes : ∀ i, (hi : i < bytes.length) → mem (buf + i) = bytes[i]) :
    ∃ bus', Returns (fun fuel => transferBuffer line fuel buf bytes.length mem bus)
        (mem.blit buf bytes.length fun i => (replies line bus.port.wire bytes).getD i 0, bus') ∧
      bus'.port.wire = bus.port.wire ++ bytes := by
  obtain ⟨port, hreturns, -, hwire⟩ := spiWriteReadBlocking_spec line
    bytes hidle hbytes (.inl (Nat.le_refl buf))
  have hmap := hreturns.map fun r => (r.1, { bus with port := r.2 })
  exact ⟨{ bus with port := port }, hmap, hwire⟩

end

/-! ### The order of a word -/

/-- The bits that a word has on the wire, in the selected order. -/
def SPIClass.orderedBits (spi : SPIClass) (data : UInt16) : List Bool :=
  if spi.bitOrder = LSBFIRST then (wordBits data).reverse else wordBits data

/-- The bytes of a word, the one that goes out first before the other. -/
def SPIClass.firstByte (spi : SPIClass) (data : UInt16) : UInt8 :=
  if spi.bitOrder = LSBFIRST then data.toUInt8 else (data >>> 8).toUInt8
def SPIClass.secondByte (spi : SPIClass) (data : UInt16) : UInt8 :=
  if spi.bitOrder = LSBFIRST then (data >>> 8).toUInt8 else data.toUInt8

/-- The word made of the bytes that come in, in the order in which they do. -/
def SPIClass.word (spi : SPIClass) (first second : UInt8) : UInt16 :=
  if spi.bitOrder = LSBFIRST then ofBytes second first else ofBytes first second

/-- **A word in the selected order**: `transfer(uint16_t)` is the transfer of one byte and of the
other, and the bits on the wire are those of the word. -/
def WordInOrder (line : Line) (spi : SPIClass) (bus : Bus) (data : UInt16) : Prop :=
  ∃ first second bus₁ bus₂ sent,
    Returns (fun fuel => transferByte line fuel spi (spi.firstByte data) bus) (first, bus₁) ∧
    Returns (fun fuel => transferByte line fuel spi (spi.secondByte data) bus₁) (second, bus₂) ∧
    Returns (fun fuel => transferWord line fuel spi data bus) (spi.word first second, bus₂) ∧
    bus₂.port.wire = bus.port.wire ++ sent ∧ sent.flatMap bits = spi.orderedBits data

/-- The bytes of a word, each in the selected order, are the word in that order. -/
theorem bits_ordered (spi : SPIClass) (data : UInt16) :
    [spi.ordered (spi.firstByte data), spi.ordered (spi.secondByte data)].flatMap bits =
      spi.orderedBits data := by
  by_cases hlsb : spi.bitOrder = LSBFIRST
  · simp only [SPIClass.ordered, SPIClass.firstByte, SPIClass.secondByte, SPIClass.orderedBits,
      if_pos hlsb, List.flatMap_cons, List.flatMap_nil, List.append_nil, reverseByte_bits,
      bits_word, List.reverse_append]
  · simp only [SPIClass.ordered, SPIClass.firstByte, SPIClass.secondByte, SPIClass.orderedBits,
      if_neg hlsb, List.flatMap_cons, List.flatMap_nil, List.append_nil, bits_word]

/-- `transfer(uint16_t)` is the transfer of one byte and of the other. -/
theorem transferWord_eq (line : Line) (fuel : ℕ) (spi : SPIClass) (data : UInt16) (bus : Bus) :
    transferWord line fuel spi data bus =
      (transferByte line fuel spi (spi.firstByte data) bus).bind fun f =>
        (transferByte line fuel spi (spi.secondByte data) f.2).map fun r =>
          (spi.word f.1 r.1, r.2) := by
  by_cases hlsb : spi.bitOrder = LSBFIRST
  · simp only [transferWord, SPIClass.firstByte, SPIClass.secondByte, SPIClass.word, if_pos hlsb]
  · simp only [transferWord, SPIClass.firstByte, SPIClass.secondByte, SPIClass.word, if_neg hlsb]

section

variable {bus : Bus}

/-- **A word goes out in the selected order.** -/
theorem wordInOrder (hidle : bus.port.Idle) (line : Line) (spi : SPIClass) (data : UInt16) :
    WordInOrder line spi bus data := by
  obtain ⟨bus₁, hfirst, hidle₁, hwire₁⟩ := transferByte_spec hidle line spi (spi.firstByte data)
  obtain ⟨bus₂, hsecond, -, hwire₂⟩ := transferByte_spec hidle₁ line spi (spi.secondByte data)
  refine ⟨_, _, bus₁, bus₂, [spi.ordered (spi.firstByte data), spi.ordered (spi.secondByte data)],
    hfirst, hsecond, ?_, ?_, bits_ordered spi data⟩
  · simp only [transferWord_eq]
    exact hfirst.bind (hsecond.map fun r => (spi.word _ r.1, r.2))
  · rw [hwire₂, hwire₁, List.append_assoc]
    rfl

/-! ### The transfer of a buffer -/

/-- The bytes of a buffer. -/
def bytesAt (mem : ByteMem) (buf count : ℕ) : List UInt8 :=
  (List.range count).map fun i => mem (buf + i)

/-- **The two ways to transfer a buffer agree**: they put the same bytes on the wire and leave the
same memory. -/
def Agree (line : Line) (spi : SPIClass) (buf count : ℕ) (mem : ByteMem) (bus : Bus) : Prop :=
  ∃ whole each,
    Returns (fun fuel => transferBuffer line fuel buf count mem bus) whole ∧
    Returns (fun fuel => transferEach line fuel spi buf count mem bus) each ∧
    whole.2.port.wire = each.2.port.wire ∧ whole.1 = each.1

/-- Bytes that read the same in the selected order. -/
theorem map_ordered_eq (spi : SPIClass) (l : List UInt8) :
    l = l.map spi.ordered ↔ ∀ b ∈ l, spi.ordered b = b := by
  induction l with
  | nil => simp
  | cons b l ih => rw [List.map_cons, List.cons.injEq, ih, List.forall_mem_cons, eq_comm]

/-- The buffer is transferred as its bytes are if the order changes none of the bytes. -/
theorem agree_iff_ordered (hidle : bus.port.Idle) (line : Line) (spi : SPIClass) (buf count : ℕ)
    (mem : ByteMem) :
    Agree line spi buf count mem bus ↔
      (∀ b ∈ bytesAt mem buf count, spi.ordered b = b) ∧
      ∀ r ∈ replies line bus.port.wire (bytesAt mem buf count), spi.ordered r = r := by
  have hlen : (bytesAt mem buf count).length = count := by simp [bytesAt]
  have hbytes : ∀ i, (hi : i < (bytesAt mem buf count).length) →
      mem (buf + i) = (bytesAt mem buf count)[i] := by
    intro i hi
    simp [bytesAt]
  obtain ⟨bus₁, hwhole, hwire₁⟩ := transferBuffer_spec hidle line buf _ hbytes
  obtain ⟨bus₂, heach, -, hwire₂⟩ := transferEach_spec hidle line spi buf _ hbytes
  rw [hlen] at hwhole heach
  rw [← map_ordered_eq, ← map_ordered_eq]
  constructor
  · rintro ⟨whole, each, hwhole', heach', hwire, hmem⟩
    obtain rfl := hwhole'.unique hwhole
    obtain rfl := heach'.unique heach
    dsimp only at hwire hmem
    rw [hwire₁, hwire₂, List.append_right_inj] at hwire
    rw [← hwire] at hmem
    refine ⟨hwire, ByteMem.blit_inj ?_ ?_ hmem⟩
    · simp [hlen]
    · simp [hlen]
  · rintro ⟨hout, hin⟩
    refine ⟨_, _, hwhole, heach, ?_, ?_⟩
    · dsimp only
      rw [hwire₁, hwire₂, ← hout]
    · dsimp only
      rw [← hout, ← hin]

/-- **When the transfer of a buffer agrees with those of its bytes**, for a bit order: the buffer is
sent and stored without regard to it. -/
theorem transfer_agrees_iff (hidle : bus.port.Idle) (line : Line) (spi : SPIClass) (buf count : ℕ)
    (mem : ByteMem) :
    (Agree line spi buf count mem bus ∧ ∀ data, WordInOrder line spi bus data) ↔
      (spi.bitOrder = LSBFIRST →
        (∀ b ∈ bytesAt mem buf count, reverseByte b = b) ∧
        ∀ r ∈ replies line bus.port.wire (bytesAt mem buf count), reverseByte r = r) := by
  rw [and_iff_left fun data => wordInOrder hidle line spi data,
    agree_iff_ordered hidle line spi buf count mem]
  by_cases hlsb : spi.bitOrder = LSBFIRST
  · simp only [SPIClass.ordered, hlsb, if_true, forall_const]
  · simp only [SPIClass.ordered, hlsb, if_false, implies_true, and_self, false_implies]

end

/-- A device that answers each byte with that byte. -/
def echo : Line := ⟨fun wire => wire.getLastD 0, fun _ => 1, fun _ => ⟨0, Nat.one_pos⟩⟩

/-- A bus on which nothing has happened. -/
def Bus.quiet : Bus := ⟨⟨[], [], [], 0⟩, []⟩

/-- The other bit order, and the byte 1 in the buffer: it goes out as 1 and not as 128. -/
theorem transfer_lsbFirst :
    ¬(Agree echo ⟨-1, LSBFIRST⟩ 0 1 (fun _ => 1) Bus.quiet ∧
      ∀ data, WordInOrder echo ⟨-1, LSBFIRST⟩ Bus.quiet data) := by
  rintro ⟨hagree, -⟩
  rw [agree_iff_ordered ⟨rfl, rfl⟩] at hagree
  have hone := hagree.1 1 (List.mem_singleton.2 rfl)
  revert hone
  decide

/-- In the order of the port all transfers agree. -/
theorem transfer_msbFirst :
    Agree echo ⟨-1, MSBFIRST⟩ 0 3 (fun a => a.toUInt8) Bus.quiet ∧
      ∀ data, WordInOrder echo ⟨-1, MSBFIRST⟩ Bus.quiet data :=
  (transfer_agrees_iff ⟨rfl, rfl⟩ echo ⟨-1, MSBFIRST⟩ 0 3 _).2
    fun h => absurd h (by decide)

end Pico.Spi
