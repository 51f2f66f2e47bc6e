/-
**The capacity of an SD card.**

`disk_ioctl` of `library/VFS/fatfs_sd.c`.  To get the number of sectors it reads the register CSD of
the card, 128 bits in 16 bytes, whose layout has a version: the fields of the size lie across the
bytes, and the size is scaled in a word of 32 bits.

* `sectorCount` — the computation, from the bytes;
* `diskIoctl` — the function, with what it stores in the buffer;
* `register`, `field` — the register as one number, and its fields by their bits;
* `Delivered` — the driver has read a register;
* `CapacityExact` — **what is stored is the number of sectors**, or nothing if there is no register;
* `capacity_exact_iff` — this fails for the largest size of version 2, and only for that.
-/

import WizioPico.SdTransfer

set_option relaxedAutoImplicit false
set_option autoImplicit false

namespace Pico.Sd

/-! ### The function -/

def CMD9 : UInt8 := 9
def ACMD13 : UInt8 := 0x80 + 13

/-- The commands of `disk_ioctl`; any other one is `other`. -/
inductive Ioctl where
  | ctrlSync
  | getSectorCount
  | getBlockSize
  | ctrlEraseSector
  | other
  deriving DecidableEq

/-- A byte of a register. -/
def byte (csd : List UInt8) (i : ℕ) : UInt8 := csd.getD i 0

/-- `x << k`, which has no meaning unless `k` is from 0 to 31. -/
def shl (x : UInt32) (k : ℤ) : Option UInt32 :=
  if 0 ≤ k ∧ k < 32 then some (x <<< UInt32.ofNat k.toNat) else none

/-- `csize` of a card of version 2. -/
def csizeV2 (csd : List UInt8) : UInt32 :=
  (byte csd 9).toUInt32 + ((byte csd 8).toUInt32 <<< 8) + ((byte csd 7 &&& 63).toUInt32 <<< 16) + 1

/-- `csize` of a card of version 1, or of an MMC card. -/
def csizeV1 (csd : List UInt8) : UInt32 :=
  (byte csd 8 >>> 6).toUInt32 + ((byte csd 7).toUInt32 <<< 2) +
    ((byte csd 6 &&& 3).toUInt32 <<< 10) + 1

/-- `n` of such a card. -/
def scaleV1 (csd : List UInt8) : UInt8 :=
  (byte csd 5 &&& (15 : UInt8)) + ((byte csd 10 &&& 128) >>> 7) + ((byte csd 9 &&& 3) <<< 1) +
    (2 : UInt8)

/-- What `GET_SECTOR_COUNT` stores. -/
def sectorCount (csd : List UInt8) : Option UInt32 :=
  if byte csd 0 >>> 6 = 1 then shl (csizeV2 csd) 10 else shl (csizeV1 csd) ((scaleV1 csd).toNat - 9)

/-- What `GET_BLOCK_SIZE` stores for a card that is not of version 2. -/
def eraseBlock (d : Driver) (csd : List UInt8) : Option UInt32 :=
  if d.cardType &&& CT_SD1 ≠ 0 then
    shl (((byte csd 10 &&& 63).toUInt32 <<< 1) + ((byte csd 11 &&& 128).toUInt32 >>> 7) + 1)
      ((byte csd 13 >>> 6).toNat - 1)
  else
    some (((byte csd 10 &&& 124).toUInt32 >>> 2 + (1 : UInt32)) *
      (((byte csd 11 &&& 3).toUInt32 <<< 3) + ((byte csd 11 &&& 224).toUInt32 >>> 5) + 1))

variable (card : Card)

/-- `send_cmd(CMD9, 0) == 0 && rcvr_datablock(csd, 16)`. -/
def readCsd (b : Bus) : Bool × List UInt8 × Bus :=
  let r := sendCmd card b CMD9 0
  if r.1 = 0 then rcvrDatablock card r.2 16 else (false, [], r.2)

/-- A branch that computes what it stores from the register that it has read. -/
def storing (r : Bool × List UInt8 × Bus) (value : List UInt8 → Option UInt32) :
    Option (DResult × Option UInt32 × Bus) :=
  if r.1 then (value r.2.1).map fun n => (.ok, some n, r.2.2) else some (.error, none, r.2.2)

/-- The branches of `disk_ioctl`: the result, and what is stored in the buffer. -/
def ioctlBranch (d : Driver) (b : Bus) : Ioctl → Option (DResult × Option UInt32 × Bus)
  | .ctrlSync =>
    let r := selectCard card b
    some (if r.1 then .ok else .error, none, r.2)
  | .getSectorCount => storing (readCsd card b) sectorCount
  | .getBlockSize =>
    if d.cardType &&& CT_SD2 ≠ 0 then
      let r := sendCmd card b ACMD13 0
      if r.1 = 0 then
        let t := rcvrDatablock card (r.2.skip 1) 16
        -- the rest of the 64 bytes
        storing (t.1, t.2.1, if t.1 then t.2.2.skip (64 - 16) else t.2.2)
          fun csd => shl 16 (byte csd 10 >>> 4).toNat
      else some (.error, none, r.2)
    else storing (readCsd card b) (eraseBlock d)
  | .ctrlEraseSector =>
    -- the command by which it calls itself for the register is one that `disk_ioctl` does not have
    if d.cardType &&& CT_SDC = 0 then some (.error, none, b)
    else some (.error, none, deselectCard b)
  | .other => some (.parerr, none, b)

/-- `disk_ioctl`: the result, and what is stored in the buffer. -/
def diskIoctl (d : Driver) (b : Bus) (cmd : Ioctl) : Option (DResult × Option UInt32 × Bus) :=
  if d.stat &&& STA_NOINIT ≠ 0 then some (.notrdy, none, b)
  else (ioctlBranch card d b cmd).map fun r => (r.1, r.2.1, deselectCard r.2.2)

/-! ### The register -/

/-- The bytes as one number, the first one in front. -/
def register (csd : List UInt8) : ℕ := csd.foldl (fun r v => r * 256 + v.toNat) 0

/-- The field in the bits from `hi` down to `lo`. -/
def field (csd : List UInt8) (hi lo : ℕ) : ℕ := register csd / 2 ^ lo % 2 ^ (hi + 1 - lo)

/-- `CSD_STRUCTURE`, which is 0 for version 1 and 1 for version 2. -/
def csdStructure (csd : List UInt8) : ℕ := field csd 127 126

/-- `READ_BL_LEN`, `C_SIZE` and `C_SIZE_MULT` of version 1. -/
def readBlLen (csd : List UInt8) : ℕ := field csd 83 80
def cSizeV1 (csd : List UInt8) : ℕ := field csd 73 62
def cSizeMult (csd : List UInt8) : ℕ := field csd 49 47

/-- `C_SIZE` of version 2. -/
def cSizeV2 (csd : List UInt8) : ℕ := field csd 69 48

/-- **The driver reads the register**: it is initialised, the card accepts the command, and
announces the block in time. -/
def Delivered (d : Driver) (b : Bus) (csd : List UInt8) : Prop :=
  d.stat &&& STA_NOINIT = 0 ∧ (sendCmd card b CMD9 0).1 = 0 ∧
    ∃ n', Announced card (sendCmd card b CMD9 0).2 n' ∧ csd = payload card n' 16

/-- **What is asked of `GET_SECTOR_COUNT`.** -/
structure CapacityExact (d : Driver) (b : Bus) : Prop where
  version2 : ∀ csd, Delivered card d b csd → csdStructure csd = 1 →
    ∃ n b', diskIoctl card d b .getSectorCount = some (.ok, some n, b') ∧
      n.toNat = (cSizeV2 csd + 1) * 1024
  version1 : ∀ csd, Delivered card d b csd → csdStructure csd = 0 → 9 ≤ readBlLen csd →
    readBlLen csd ≤ 11 →
    ∃ n b', diskIoctl card d b .getSectorCount = some (.ok, some n, b') ∧
      n.toNat = (cSizeV1 csd + 1) * 2 ^ (cSizeMult csd + 2) * 2 ^ readBlLen csd / 512
  unreadable : (¬∃ csd, Delivered card d b csd) →
    ∃ res b', diskIoctl card d b .getSectorCount = some (res, none, b') ∧ res ≠ .ok

/-! ### The fields -/

section

variable {csd : List UInt8}

theorem foldl_register (csd : List UInt8) (r : ℕ) :
    csd.foldl (fun r v => r * 256 + v.toNat) r = r * 256 ^ csd.length + register csd := by
  induction csd generalizing r with
  | nil => simp [register]
  | cons v csd ih =>
      rw [register, List.foldl_cons, List.foldl_cons, ih, ih (0 * 256 + v.toNat), List.length_cons,
        Nat.pow_succ', ← Nat.mul_assoc, Nat.zero_mul, Nat.zero_add, Nat.add_mul, Nat.add_assoc]

/-- The bytes in front count for more. -/
theorem register_append (csd csd' : List UInt8) :
    register (csd ++ csd') = register csd * 256 ^ csd'.length + register csd' := by
  rw [register, List.foldl_append, foldl_register]
  rfl

theorem register_singleton (v : UInt8) : register [v] = v.toNat := by
  rw [register, List.foldl_cons, List.foldl_nil, Nat.zero_mul, Nat.zero_add]

theorem register_lt (csd : List UInt8) : register csd < 256 ^ csd.length := by
  induction csd with
  | nil => simp [register]
  | cons v csd ih =>
      have hlt := v.toNat_lt
      have hle : v.toNat * 256 ^ csd.length ≤ 255 * 256 ^ csd.length :=
        Nat.mul_le_mul_right _ (Nat.le_of_lt_succ hlt)
      rw [← List.singleton_append, register_append, register_singleton, List.singleton_append,
        List.length_cons, Nat.pow_succ']
      omega

/-- **The first bytes** are what is left of the number when it is shifted. -/
theorem register_div (csd : List UInt8) (k : ℕ) :
    register csd / 256 ^ (csd.length - k) = register (csd.take k) := by
  have hlt := register_lt (csd.drop k)
  rw [List.length_drop] at hlt
  have happend := register_append (csd.take k) (csd.drop k)
  rw [List.take_append_drop, List.length_drop] at happend
  have hpos : 0 < 256 ^ (csd.length - k) := Nat.pow_pos (by decide)
  rw [happend, Nat.add_comm, Nat.add_mul_div_right _ _ hpos, Nat.div_eq_of_lt hlt, Nat.zero_add]

/-- One byte more. -/
theorem register_take_succ (csd : List UInt8) {i : ℕ} (hi : i < csd.length) :
    register (csd.take (i + 1)) = register (csd.take i) * 256 + (byte csd i).toNat := by
  have hbyte : byte csd i = csd[i] := by simp [byte, hi]
  rw [List.take_succ_eq_append_getElem hi, register_append, register_singleton, hbyte]
  rfl

/-- A field that lies in the first `k` bytes. -/
theorem field_eq (hlen : csd.length = 16) {lo : ℕ} (hi k : ℕ) (hlo : 8 * (16 - k) ≤ lo) :
    field csd hi lo =
      register (csd.take k) / 2 ^ (lo - 8 * (16 - k)) % 2 ^ (hi + 1 - lo) := by
  have hpow : 2 ^ lo = 256 ^ (16 - k) * 2 ^ (lo - 8 * (16 - k)) := by
    rw [show (256 : ℕ) = 2 ^ 8 from rfl, ← Nat.pow_mul, ← Nat.pow_add]
    congr 1
    omega
  have hdiv := register_div csd k
  rw [hlen] at hdiv
  rw [field, hpow, ← Nat.div_div_eq_div_mul, hdiv]

theorem toNat_byte_lt (csd : List UInt8) (i : ℕ) : (byte csd i).toNat < 256 := (byte csd i).toNat_lt

/-- **Where the fields lie** in the bytes. -/
theorem fields_eq (hlen : csd.length = 16) :
    csdStructure csd = (byte csd 0).toNat / 64 ∧
      readBlLen csd = (byte csd 5).toNat % 16 ∧
      cSizeV1 csd = (byte csd 8).toNat / 64 + (byte csd 7).toNat * 4 +
        (byte csd 6).toNat % 4 * 1024 ∧
      cSizeMult csd = (byte csd 10).toNat / 128 + (byte csd 9).toNat % 4 * 2 ∧
      cSizeV2 csd = (byte csd 9).toNat + (byte csd 8).toNat * 256 +
        (byte csd 7).toNat % 64 * 65536 := by
  have htake : ∀ i, i < 16 →
      register (csd.take (i + 1)) = register (csd.take i) * 256 + (byte csd i).toNat :=
    fun i hi => register_take_succ csd (by omega)
  have h0 := toNat_byte_lt csd 0
  have h7 := toNat_byte_lt csd 7
  have h8 := toNat_byte_lt csd 8
  have h9 := toNat_byte_lt csd 9
  have h10 := toNat_byte_lt csd 10
  refine ⟨?_, ?_, ?_, ?_, ?_⟩
  · rw [csdStructure, field_eq hlen 127 1 (by decide), htake 0 (by decide)]
    simp only [List.take_zero, register, List.foldl_nil]
    omega
  · rw [readBlLen, field_eq hlen 83 6 (by decide), htake 5 (by decide)]
    omega
  · rw [cSizeV1, field_eq hlen 73 9 (by decide), htake 8 (by decide), htake 7 (by decide),
      htake 6 (by decide)]
    omega
  · rw [cSizeMult, field_eq hlen 49 11 (by decide), htake 10 (by decide), htake 9 (by decide)]
    omega
  · rw [cSizeV2, field_eq hlen 69 10 (by decide), htake 9 (by decide), htake 8 (by decide),
      htake 7 (by decide)]
    omega

/-! ### The computation -/

/-- The lower bits of a byte. -/
theorem toNat_and_low (v : UInt8) {m : UInt8} (k : ℕ) (hm : m.toNat = 2 ^ k - 1) :
    (v &&& m).toNat = v.toNat % 2 ^ k := by
  rw [UInt8.toNat_and, hm]
  exact Nat.and_two_pow_sub_one_eq_mod v.toNat k

/-- The highest bits of a byte. -/
theorem toNat_top (v : UInt8) : ((v &&& 128) >>> 7).toNat = v.toNat / 128 := by
  have hlt := v.toNat_lt
  have hbit : (v.toNat &&& 128) >>> 7 = v.toNat / 128 % 2 := by
    rw [Nat.shiftRight_and_distrib, Nat.shiftRight_eq_div_pow v.toNat 7]
    exact Nat.and_one_is_mod _
  rw [UInt8.toNat_shiftRight, UInt8.toNat_and]
  refine hbit.trans ?_
  omega

theorem toNat_top_two (v : UInt8) : (v >>> 6).toNat = v.toNat / 64 := by
  rw [UInt8.toNat_shiftRight]
  exact Nat.shiftRight_eq_div_pow v.toNat 6

/-- **`csize` is computed without overflow.** -/
theorem toNat_csizeV2 (csd : List UInt8) :
    (csizeV2 csd).toNat = (byte csd 9).toNat + (byte csd 8).toNat * 256 +
      (byte csd 7).toNat % 64 * 65536 + 1 := by
  have h7 := toNat_byte_lt csd 7
  have h8 := toNat_byte_lt csd 8
  have h9 := toNat_byte_lt csd 9
  have hlow := toNat_and_low (m := 63) (byte csd 7) 6 rfl
  simp only [csizeV2, UInt32.toNat_add, UInt32.toNat_shiftLeft, UInt8.toNat_toUInt32, hlow,
    Nat.shiftLeft_eq, UInt32.reduceToNat, Nat.reduceMod, Nat.reducePow]
  omega

theorem toNat_csizeV1 (csd : List UInt8) :
    (csizeV1 csd).toNat = (byte csd 8).toNat / 64 + (byte csd 7).toNat * 4 +
      (byte csd 6).toNat % 4 * 1024 + 1 := by
  have h6 := toNat_byte_lt csd 6
  have h7 := toNat_byte_lt csd 7
  have h8 := toNat_byte_lt csd 8
  have hlow := toNat_and_low (m := 3) (byte csd 6) 2 rfl
  simp only [csizeV1, UInt32.toNat_add, UInt32.toNat_shiftLeft, UInt8.toNat_toUInt32, hlow,
    toNat_top_two, Nat.shiftLeft_eq, UInt32.reduceToNat, Nat.reduceMod, Nat.reducePow]
  omega

theorem toNat_scaleV1 (csd : List UInt8) :
    (scaleV1 csd).toNat = (byte csd 5).toNat % 16 +
      ((byte csd 10).toNat / 128 + (byte csd 9).toNat % 4 * 2) + 2 := by
  have h5 := toNat_byte_lt csd 5
  have h9 := toNat_byte_lt csd 9
  have h10 := toNat_byte_lt csd 10
  have hlow5 := toNat_and_low (m := 15) (byte csd 5) 4 rfl
  have hlow9 := toNat_and_low (m := 3) (byte csd 9) 2 rfl
  simp only [scaleV1, UInt8.toNat_add, UInt8.toNat_shiftLeft, hlow5, hlow9, toNat_top,
    Nat.shiftLeft_eq, UInt8.reduceToNat, Nat.reduceMod, Nat.reducePow]
  omega

/-- A shift by less than the width, in the word. -/
theorem shl_eq (x : UInt32) {k : ℤ} (hk0 : 0 ≤ k) (hk : k < 32) :
    ∃ n, shl x k = some n ∧ n.toNat = x.toNat * 2 ^ k.toNat % 2 ^ 32 := by
  refine ⟨_, if_pos ⟨hk0, hk⟩, ?_⟩
  have hnat : (UInt32.ofNat k.toNat).toNat = k.toNat :=
    UInt32.toNat_ofNat_of_lt' (by change k.toNat < 2 ^ 32; omega)
  have hmod : k.toNat % 32 = k.toNat := Nat.mod_eq_of_lt (by omega)
  rw [UInt32.toNat_shiftLeft, hnat, hmod, Nat.shiftLeft_eq]

theorem byte_zero_iff (csd : List UInt8) (c : UInt8) :
    byte csd 0 >>> 6 = c ↔ (byte csd 0).toNat / 64 = c.toNat := by
  rw [← UInt8.toNat_inj, toNat_top_two]

/-- **The size of version 2**, as it fits in a word. -/
theorem sectorCount_version2 (hlen : csd.length = 16) (hversion : csdStructure csd = 1) :
    ∃ n, sectorCount csd = some n ∧ n.toNat = (cSizeV2 csd + 1) * 1024 % 2 ^ 32 := by
  obtain ⟨hstructure, -, -, -, hsize⟩ := fields_eq hlen
  obtain ⟨n, hshl, hn⟩ := shl_eq (csizeV2 csd) (k := 10) (by decide) (by decide)
  refine ⟨n, ?_, ?_⟩
  · rw [sectorCount, if_pos ((byte_zero_iff csd 1).2 (hstructure.symm.trans hversion)), hshl]
  · rw [hn, toNat_csizeV2, hsize]
    rfl

/-- **The size of version 1.** -/
theorem sectorCount_version1 (hlen : csd.length = 16) (hversion : csdStructure csd = 0)
    (hmin : 9 ≤ readBlLen csd) (hmax : readBlLen csd ≤ 11) :
    ∃ n, sectorCount csd = some n ∧
      n.toNat = (cSizeV1 csd + 1) * 2 ^ (cSizeMult csd + 2) * 2 ^ readBlLen csd / 512 := by
  obtain ⟨hstructure, hblLen, hsize, hmult, -⟩ := fields_eq hlen
  have h0 : ¬byte csd 0 >>> 6 = 1 := by
    rw [byte_zero_iff, ← hstructure, hversion]
    decide
  have hscale : ((scaleV1 csd).toNat : ℤ) - 9 =
      ((cSizeMult csd + 2 + (readBlLen csd - 9) : ℕ) : ℤ) := by
    rw [toNat_scaleV1, ← hblLen, ← hmult]
    omega
  have h7 := toNat_byte_lt csd 7
  have h8 := toNat_byte_lt csd 8
  have h10 := toNat_byte_lt csd 10
  obtain ⟨n, hshl, hn⟩ := shl_eq (csizeV1 csd) (k := ((scaleV1 csd).toNat : ℤ) - 9)
    (by omega) (by omega)
  refine ⟨n, by rw [sectorCount, if_neg h0, hshl], ?_⟩
  rw [hscale, Int.toNat_natCast, toNat_csizeV1, ← hsize] at hn
  have hbound : (cSizeV1 csd + 1) * 2 ^ (cSizeMult csd + 2 + (readBlLen csd - 9)) < 2 ^ 32 := by
    calc (cSizeV1 csd + 1) * 2 ^ (cSizeMult csd + 2 + (readBlLen csd - 9))
        ≤ 4096 * 2 ^ 11 :=
          Nat.mul_le_mul (by omega) (Nat.pow_le_pow_right (by decide) (by omega))
      _ < 2 ^ 32 := by decide
  rw [hn, Nat.mod_eq_of_lt hbound]
  have hpow : 2 ^ (cSizeMult csd + 2) * 2 ^ readBlLen csd =
      2 ^ (cSizeMult csd + 2 + (readBlLen csd - 9)) * 512 := by
    rw [← Nat.pow_add, show (512 : ℕ) = 2 ^ 9 from rfl, ← Nat.pow_add]
    congr 1
    omega
  rw [Nat.mul_assoc, hpow, ← Nat.mul_assoc, Nat.mul_div_cancel _ (by decide)]

/-! ### The command -/

variable {card : Card} {d : Driver} {b : Bus}

theorem Delivered.length (h : Delivered card d b csd) : csd.length = 16 := by
  obtain ⟨-, -, n', -, rfl⟩ := h
  rw [payload, List.length_map, List.length_range]

/-- The command for a register that is read. -/
theorem Delivered.getSectorCount (h : Delivered card d b csd) {n : UInt32}
    (hn : sectorCount csd = some n) :
    ∃ b', diskIoctl card d b .getSectorCount = some (.ok, some n, b') := by
  obtain ⟨hinit, haccepted, n', hann, rfl⟩ := h
  have hread : readCsd card b =
      (true, payload card n' 16, { (sendCmd card b CMD9 0).2 with n := n' + 16 + 2 }) := by
    rw [readCsd, if_pos haccepted, rcvrDatablock_announced hann]
  refine ⟨deselectCard { (sendCmd card b CMD9 0).2 with n := n' + 16 + 2 }, ?_⟩
  rw [diskIoctl, if_neg (not_not_intro hinit), ioctlBranch, hread, storing, if_pos rfl, hn]
  rfl

/-- **The command without a register** stores nothing. -/
theorem getSectorCount_unreadable (h : ¬∃ csd, Delivered card d b csd) :
    ∃ res b', diskIoctl card d b .getSectorCount = some (res, none, b') ∧ res ≠ .ok := by
  by_cases hinit : d.stat &&& STA_NOINIT = 0
  · have hread : ∃ b', readCsd card b = (false, [], b') := by
      rw [readCsd]
      by_cases haccepted : (sendCmd card b CMD9 0).1 = 0
      · have hann : ¬∃ n', Announced card (sendCmd card b CMD9 0).2 n' := by
          rintro ⟨n', hann⟩
          exact h ⟨_, hinit, haccepted, n', hann, rfl⟩
        obtain ⟨n', hrcvr⟩ := rcvrDatablock_not_announced hann 16
        exact ⟨_, by rw [if_pos haccepted, hrcvr]⟩
      · exact ⟨_, if_neg haccepted⟩
    obtain ⟨b', hread⟩ := hread
    refine ⟨.error, deselectCard b', ?_, by decide⟩
    rw [diskIoctl, if_neg (not_not_intro hinit), ioctlBranch, hread]
    rfl
  · exact ⟨.notrdy, b, if_pos hinit, by decide⟩

/-- **When the capacity is exact**: the card is not one of version 2 with the largest `C_SIZE`,
whose number of sectors does not fit in a word. -/
theorem capacity_exact_iff (card : Card) (d : Driver) (b : Bus) :
    CapacityExact card d b ↔
      ∀ csd, Delivered card d b csd → csdStructure csd = 1 → cSizeV2 csd ≠ 2 ^ 22 - 1 := by
  constructor
  · intro h csd hdelivered hversion hmax
    obtain ⟨n, b', hioctl, hn⟩ := h.version2 csd hdelivered hversion
    have hlt := n.toNat_lt
    rw [hn, hmax] at hlt
    exact absurd hlt (by decide)
  · intro h
    refine ⟨?_, ?_, getSectorCount_unreadable⟩
    · intro csd hdelivered hversion
      obtain ⟨n, hcount, hn⟩ := sectorCount_version2 hdelivered.length hversion
      obtain ⟨b', hioctl⟩ := hdelivered.getSectorCount hcount
      refine ⟨n, b', hioctl, ?_⟩
      have hne := h csd hdelivered hversion
      have hlt : cSizeV2 csd < 2 ^ 22 := Nat.mod_lt _ (by decide)
      rw [hn, Nat.mod_eq_of_lt]
      omega
    · intro csd hdelivered hversion hmin hmax
      obtain ⟨n, hcount, hn⟩ := sectorCount_version1 hdelivered.length hversion hmin hmax
      obtain ⟨b', hioctl⟩ := hdelivered.getSectorCount hcount
      exact ⟨n, b', hioctl, hn⟩

end

/-- A card of version 2 with the largest `C_SIZE`, that is always ready and answers at once. -/
def largestCard : Card where
  reply n :=
    if n = 10 then 0x00
    else if n = 12 then 0xFE
    else if n = 13 then 0x40
    else if n = 20 then 0x3F
    else 0xFF
  clock := oldCard.clock

/-- **Its capacity is not stored**: two to the power of 32 is not a number of a word. -/
theorem capacity_not_exact : ¬CapacityExact largestCard ⟨0, CT_SD2⟩ ⟨0, false, []⟩ := by
  have hcmd : sendCmd largestCard ⟨0, false, []⟩ CMD9 0 = (0, Bus.after ⟨0, false, []⟩ CMD9 0) :=
    sendCmd_at_once rfl (by decide) rfl rfl rfl
  have hann : Announced largestCard (Bus.after ⟨0, false, []⟩ CMD9 0) 13 :=
    ⟨0, fun i hi => absurd hi (Nat.not_lt_zero i), rfl, rfl⟩
  have hdelivered :
      Delivered largestCard ⟨0, CT_SD2⟩ ⟨0, false, []⟩ (payload largestCard 13 16) := by
    refine ⟨rfl, congrArg Prod.fst hcmd, 13, ?_, rfl⟩
    rw [hcmd]
    exact hann
  intro h
  obtain ⟨n, b', -, hn⟩ := h.version2 _ hdelivered (by decide)
  have hsize : cSizeV2 (payload largestCard 13 16) = 2 ^ 22 - 1 := by decide
  have hlt := n.toNat_lt
  rw [hn, hsize] at hlt
  exact absurd hlt (by decide)

end Pico.Sd
