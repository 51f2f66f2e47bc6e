/-
**The EEPROM of the Arduino library: a buffer over one flash sector.**

`EEPROMClass` of `arduino/libraries/RP2040/EEPROM` keeps a copy of a flash sector in an array from
the heap, and writes it back as a whole.  The array is accessed under a bound `_size` that is kept
apart from the size the array was allocated with.

* `Pico.Eeprom.Sector` — the flash sector, with erasing and programming;
* `Pico.Eeprom.EepromClass` — an `EEPROMClass`; `begin`, `end_`, `read`, `write`, `get`, `put`,
  `commit`, `getDataPtr` have no outcome where they would leave the array;
* `Pico.Eeprom.Large` — the array has at least `_size` bytes;
* `Pico.Eeprom.Fits` — a `begin` whose size is a multiple of 256 that the array it ends up with
  has room for;
* `Pico.Eeprom.large_iff` — **along a run no access leaves the array exactly if every `begin`
  fits.**
-/

import WizioPico.Runs
import Mathlib.Data.Int.Notation
import Mathlib.Data.Nat.Notation

set_option relaxedAutoImplicit false
set_option autoImplicit false

namespace Pico.Eeprom

/-! ### The flash sector -/

/-- `FLASH_SECTOR_SIZE`. -/
def sectorSize : ℕ := 4096

/-- A flash sector, with the number of times it has been erased and programmed. -/
structure Sector where
  bytes : List UInt8
  length_eq : bytes.length = sectorSize
  erases : ℕ
  programs : ℕ

/-- `flash_range_erase`, of the whole sector. -/
def Sector.erase (f : Sector) : Sector where
  bytes := List.replicate sectorSize 0xff
  length_eq := List.length_replicate
  erases := f.erases + 1
  programs := f.programs

/-- `flash_range_program`, from the start of the sector: programming only clears bits. -/
def Sector.program (f : Sector) (data : List UInt8) : Sector where
  bytes := f.bytes.mapIdx fun i old => old &&& data.getD i 0xff
  length_eq := by rw [List.length_mapIdx, f.length_eq]
  erases := f.erases
  programs := f.programs + 1

/-! ### The class -/

/-- An `EEPROMClass` with its sector.  `data` is the array `_data` points to, at the length it was
allocated with. -/
structure EepromClass where
  sector : Sector
  data : Option (List UInt8)
  size : ℕ
  dirty : Bool

/-- After construction. -/
def EepromClass.constructed (f : Sector) : EepromClass := ⟨f, none, 0, false⟩

/-- `new uint8_t[size]`: the allocator may refuse, and says nothing about the bytes. -/
def newArray (mem : Option (ℕ → UInt8)) (size : ℕ) : Option (List UInt8) :=
  mem.map fun f => (List.range size).map f

/-- The size `begin` goes on with. -/
def clamp (size : ℕ) : ℕ := if size = 0 ∨ size > sectorSize then sectorSize else size

/-- `(size + 255) & (~255)`. -/
def roundUp (size : ℕ) : ℕ := (size + 255) / 256 * 256

/-- `begin`. -/
def begin (s : EepromClass) (size : ℕ) (mem : Option (ℕ → UInt8)) : Option EepromClass :=
  let size := clamp size
  let data := match s.data with
    | some data => if size ≠ roundUp size then newArray mem size else some data
    | none => newArray mem size
  data.bind fun data =>
    if roundUp size ≤ data.length then
      some { s with
        size := roundUp size
        data := some (s.sector.bytes.take (roundUp size) ++ data.drop (roundUp size))
        dirty := false }
    else none

/-- `commit`, with its result. -/
def commit (s : EepromClass) : Option (EepromClass × Bool) :=
  if s.size = 0 then some (s, false)
  else if !s.dirty then some (s, true)
  else match s.data with
    | none => some (s, false)
    | some data =>
      if s.size ≤ data.length then
        some ({ s with sector := s.sector.erase.program (data.take s.size) }, true)
      else none

/-- `end`. -/
def end_ (s : EepromClass) : Option (EepromClass × Bool) :=
  if s.size = 0 then some (s, false)
  else
    (commit s).map fun (s, retval) =>
      ({ s with data := none, size := 0, dirty := false }, retval)

/-- `read`. -/
def read (s : EepromClass) (address : ℤ) : Option UInt8 :=
  if address < 0 ∨ s.size ≤ address.toNat then some 0
  else match s.data with
    | none => some 0
    | some data => data[address.toNat]?

/-- `write`. -/
def write (s : EepromClass) (address : ℤ) (value : UInt8) : Option EepromClass :=
  if address < 0 ∨ s.size ≤ address.toNat then some s
  else match s.data with
    | none => some s
    | some data => data[address.toNat]?.map fun old =>
      if old ≠ value then { s with data := some (data.set address.toNat value), dirty := true }
      else s

/-- The `n` bytes of the array from an index on, if they are in it. -/
def slice (data : List UInt8) (i n : ℕ) : Option (List UInt8) :=
  if i + n ≤ data.length then some ((data.drop i).take n) else none

/-- `get`, for a type of `n` bytes: the bytes of the result, or nothing if the object stays as
it is. -/
def get (s : EepromClass) (address : ℤ) (n : ℕ) : Option (Option (List UInt8)) :=
  if address < 0 ∨ address.toNat + n > s.size then some none
  else s.data.bind fun data => (slice data address.toNat n).map some

/-- The array after the bytes `t` were copied to an index. -/
def splice (data : List UInt8) (i : ℕ) (t : List UInt8) : List UInt8 :=
  data.take i ++ t ++ data.drop (i + t.length)

/-- `put`, of an object with the bytes `t`. -/
def put (s : EepromClass) (address : ℤ) (t : List UInt8) : Option EepromClass :=
  if address < 0 ∨ address.toNat + t.length > s.size then some s
  else s.data.bind fun data => (slice data address.toNat t.length).map fun old =>
    if old ≠ t then { s with dirty := true, data := some (splice data address.toNat t) } else s

/-- `getDataPtr`, and `operator[]`, which calls it. -/
def getDataPtr (s : EepromClass) : EepromClass := { s with dirty := true }

/-! ### Calls -/

/-- The calls of a sketch.  A `begin` comes with the answer of the allocator, should it ask; an
object that is read or written has at least one byte. -/
inductive Call where
  | begin (size : ℕ) (mem : Option (ℕ → UInt8))
  | end_
  | read (address : ℤ)
  | write (address : ℤ) (value : UInt8)
  | get (address : ℤ) (n : ℕ) (hn : 0 < n)
  | put (address : ℤ) (t : List UInt8) (ht : t ≠ [])
  | commit
  | getDataPtr

/-- One call; it has no outcome if it would access memory outside of the array. -/
def step (s : EepromClass) : Call → Option EepromClass
  | .begin size mem => begin s size mem
  | .end_ => (end_ s).map Prod.fst
  | .read address => (read s address).map fun _ => s
  | .write address value => write s address value
  | .get address n _ => (get s address n).map fun _ => s
  | .put address t _ => put s address t
  | .commit => (commit s).map Prod.fst
  | .getDataPtr => some (getDataPtr s)

/-- **The buffer is large enough** for the bound the accesses are checked against. -/
def Large (s : EepromClass) : Prop := 0 < s.size → ∃ data, s.data = some data ∧ s.size ≤ data.length

/-- A `begin` that ends up with an array of the size it rounds to: the size is a multiple of 256,
and there is room for it in the array that is kept, or the allocator grants a new one. -/
def Fits (s : EepromClass) : Call → Prop
  | .begin size mem => 256 ∣ clamp size ∧
    match s.data with
    | some data => clamp size ≤ data.length
    | none => mem.isSome
  | _ => True

/-! ### One call -/

theorem large_constructed (f : Sector) : Large (.constructed f) := by
  intro h
  cases h

/-- A size is left as it is by rounding if it is a multiple of 256, and grows otherwise. -/
theorem roundUp_eq_iff (size : ℕ) : roundUp size = size ↔ 256 ∣ size := by
  unfold roundUp
  omega

theorem le_roundUp (size : ℕ) : size ≤ roundUp size := by
  unfold roundUp
  omega

theorem length_newArray {mem : Option (ℕ → UInt8)} {size : ℕ} {data : List UInt8}
    (h : newArray mem size = some data) : data.length = size := by
  unfold newArray at h
  obtain ⟨f, -, rfl⟩ := Option.map_eq_some_iff.1 h
  simp

theorem roundUp_le {size : ℕ} (h : size ≤ sectorSize) : roundUp size ≤ sectorSize := by
  unfold roundUp sectorSize at *
  omega

theorem clamp_le (size : ℕ) : clamp size ≤ sectorSize := by
  unfold clamp
  split
  · exact Nat.le_refl _
  · omega

/-- The array `begin` copies the sector into. -/
def beginArray (s : EepromClass) (size : ℕ) (mem : Option (ℕ → UInt8)) : Option (List UInt8) :=
  match s.data with
  | some data => if size ≠ roundUp size then newArray mem size else some data
  | none => newArray mem size

/-- What a `begin` does, once the array is there. -/
theorem begin_eq_some_iff (s s' : EepromClass) (size : ℕ) (mem : Option (ℕ → UInt8)) :
    begin s size mem = some s' ↔
      ∃ data, beginArray s (clamp size) mem = some data ∧ roundUp (clamp size) ≤ data.length ∧
        s' = { s with
          size := roundUp (clamp size)
          data := some (s.sector.bytes.take (roundUp (clamp size)) ++
            data.drop (roundUp (clamp size)))
          dirty := false } := by
  unfold begin beginArray
  simp only [Option.bind_eq_some_iff]
  refine exists_congr fun data => and_congr_right fun _ => ?_
  split
  · rename_i hle
    simp [hle, eq_comm]
  · rename_i hle
    simp [hle]

/-- **A `begin` stays within the array exactly if it fits.** -/
theorem begin_isSome_iff (s : EepromClass) (size : ℕ) (mem : Option (ℕ → UInt8)) :
    (∃ s', begin s size mem = some s') ↔ Fits s (.begin size mem) := by
  have hround := roundUp_eq_iff (clamp size)
  have hle := le_roundUp (clamp size)
  have hroom : (∃ s', begin s size mem = some s') ↔
      ∃ data, beginArray s (clamp size) mem = some data ∧
        roundUp (clamp size) ≤ data.length := by
    simp only [begin_eq_some_iff]
    constructor
    · rintro ⟨-, data, ha, hl, -⟩
      exact ⟨data, ha, hl⟩
    · rintro ⟨data, ha, hl⟩
      exact ⟨_, data, ha, hl, rfl⟩
  -- A new array has exactly the size it was asked for, so rounding must not have changed it.
  have hnew : (∃ data, newArray mem (clamp size) = some data ∧
      roundUp (clamp size) ≤ data.length) ↔ 256 ∣ clamp size ∧ mem.isSome := by
    constructor
    · rintro ⟨data, ha, hl⟩
      have hlen := length_newArray ha
      unfold newArray at ha
      cases mem with
      | none => cases ha
      | some f => exact ⟨hround.1 (by omega), rfl⟩
    · rintro ⟨hd, hm⟩
      obtain ⟨f, rfl⟩ := Option.isSome_iff_exists.1 hm
      refine ⟨_, rfl, ?_⟩
      simp [hround.2 hd]
  rw [hroom, Fits, beginArray]
  cases s.data with
  | none => exact hnew
  | some data =>
      by_cases hd : 256 ∣ clamp size
      · simp [hround.2 hd, hd]
      · have hne : clamp size ≠ roundUp (clamp size) := fun h => hd (hround.1 h.symm)
        simp only [if_pos hne, hnew, hd, false_and]

/-- The array it leaves is large enough. -/
theorem large_begin {s s' : EepromClass} {size : ℕ} {mem : Option (ℕ → UInt8)}
    (h : begin s size mem = some s') : Large s' := by
  obtain ⟨data, -, hle, rfl⟩ := (begin_eq_some_iff s s' size mem).1 h
  intro _
  refine ⟨_, rfl, ?_⟩
  have := roundUp_le (clamp_le size)
  rw [List.length_append, List.length_take, List.length_drop, s.sector.length_eq]
  show roundUp (clamp size) ≤ _
  omega

theorem length_splice {data : List UInt8} {i : ℕ} {t : List UInt8}
    (h : i + t.length ≤ data.length) : (splice data i t).length = data.length := by
  simp only [splice, List.length_append, List.length_take, List.length_drop]
  omega

/-- Within a large enough array the bytes of an object are there. -/
theorem slice_isSome {data : List UInt8} {i n size : ℕ} (h : i + n ≤ size)
    (hlen : size ≤ data.length) : slice data i n = some ((data.drop i).take n) :=
  if_pos (Nat.le_trans h hlen)

/-- What `commit` does with a buffer: it writes the flash if the buffer is dirty. -/
theorem commit_eq {s : EepromClass} {data : List UInt8} (hs : 0 < s.size)
    (hd : s.data = some data) (hl : s.size ≤ data.length) :
    commit s = some (if s.dirty then
      { s with sector := s.sector.erase.program (data.take s.size) } else s, true) := by
  unfold commit
  rw [if_neg (by omega), hd]
  cases s.dirty with
  | false => rfl
  | true => simp [hl]

theorem commit_of_size_zero {s : EepromClass} (hs : s.size = 0) : commit s = some (s, false) :=
  if_pos hs

/-- Committing keeps the buffer as it is. -/
theorem commit_of_large {s : EepromClass} (h : Large s) :
    ∃ s' r, commit s = some (s', r) ∧ s'.data = s.data ∧ s'.size = s.size := by
  rcases Nat.eq_zero_or_pos s.size with hs | hs
  · exact ⟨s, false, commit_of_size_zero hs, rfl, rfl⟩
  · obtain ⟨data, hd, hl⟩ := h hs
    refine ⟨_, _, commit_eq hs hd hl, ?_, ?_⟩ <;> split <;> rfl

/-- An index below the bound is one of the array. -/
theorem getElem_of_lt {data : List UInt8} {i size : ℕ} (h : i < size) (hl : size ≤ data.length) :
    ∃ b, data[i]? = some b :=
  ⟨_, List.getElem?_eq_getElem (by omega)⟩

theorem read_of_large {s : EepromClass} (h : Large s) (address : ℤ) :
    ∃ b, read s address = some b := by
  unfold read
  split
  · exact ⟨0, rfl⟩
  · rename_i hin
    obtain ⟨data, hd, hl⟩ := h (by omega)
    rw [hd]
    exact getElem_of_lt (by omega) hl

theorem get_of_large {s : EepromClass} (h : Large s) (address : ℤ) {n : ℕ} (hn : 0 < n) :
    ∃ out, get s address n = some out := by
  unfold get
  split
  · exact ⟨none, rfl⟩
  · rename_i hin
    obtain ⟨data, hd, hl⟩ := h (by omega)
    rw [hd, Option.bind_some, slice_isSome (by omega) hl]
    exact ⟨_, rfl⟩

/-- **`write`** leaves the object as it is, or puts a byte in the place of another one. -/
theorem write_cases {s : EepromClass} (h : Large s) (address : ℤ) (value : UInt8) :
    write s address value = some s ∨
      ∃ data i old, s.data = some data ∧ data[i]? = some old ∧ old ≠ value ∧
        write s address value = some { s with data := some (data.set i value), dirty := true } := by
  unfold write
  split
  · exact Or.inl rfl
  · rename_i hin
    obtain ⟨data, hd, hl⟩ := h (by omega)
    obtain ⟨old, hold⟩ := getElem_of_lt (i := address.toNat) (by omega) hl
    rw [hd]
    dsimp only
    rw [hold, Option.map_some]
    by_cases hne : old ≠ value
    · rw [if_pos hne]
      exact Or.inr ⟨data, address.toNat, old, rfl, hold, hne, rfl⟩
    · rw [if_neg hne]
      exact Or.inl rfl

/-- **`put`** leaves the object as it is, or puts bytes in the place of other ones. -/
theorem put_cases {s : EepromClass} (h : Large s) (address : ℤ) {t : List UInt8} (ht : t ≠ []) :
    put s address t = some s ∨
      ∃ data i, s.data = some data ∧ i + t.length ≤ data.length ∧
        (data.drop i).take t.length ≠ t ∧
          put s address t = some { s with dirty := true, data := some (splice data i t) } := by
  have hpos := List.length_pos_of_ne_nil ht
  unfold put
  split
  · exact Or.inl rfl
  · rename_i hin
    obtain ⟨data, hd, hl⟩ := h (by omega)
    have hfit : address.toNat + t.length ≤ s.size := by omega
    rw [hd, Option.bind_some, slice_isSome hfit hl, Option.map_some]
    by_cases hne : (data.drop address.toNat).take t.length ≠ t
    · rw [if_pos hne]
      exact Or.inr ⟨data, address.toNat, rfl, Nat.le_trans hfit hl, hne, rfl⟩
    · rw [if_neg hne]
      exact Or.inl rfl

/-- An array of the same length is as large. -/
theorem Large.of_length {s s' : EepromClass} (h : Large s) (hsize : s'.size = s.size)
    {data data' : List UInt8} (hd : s.data = some data) (hd' : s'.data = some data')
    (hlen : data'.length = data.length) : Large s' := by
  intro hpos
  obtain ⟨array, harray, hl⟩ := h (by omega)
  rw [hd] at harray
  cases harray
  exact ⟨data', hd', by omega⟩

/-- **Every other call stays within a large enough array**, and leaves one. -/
theorem step_of_large {s : EepromClass} (h : Large s) :
    ∀ c : Call, (∀ size mem, c ≠ .begin size mem) → ∃ s', step s c = some s' ∧ Large s' := by
  intro c hc
  cases c with
  | begin size mem => exact absurd rfl (hc size mem)
  | end_ =>
      obtain ⟨s', r, hcommit, -, -⟩ := commit_of_large h
      simp only [step, end_, hcommit]
      split
      · exact ⟨s, rfl, h⟩
      · exact ⟨_, rfl, fun h0 => absurd h0 (by simp)⟩
  | read address =>
      obtain ⟨b, hread⟩ := read_of_large h address
      exact ⟨s, by rw [step, hread]; rfl, h⟩
  | write address value =>
      rcases write_cases h address value with hw | ⟨data, i, old, hd, -, -, hw⟩
      · exact ⟨s, hw, h⟩
      · exact ⟨_, hw, h.of_length rfl hd rfl List.length_set⟩
  | get address n hn =>
      obtain ⟨out, hget⟩ := get_of_large h address hn
      exact ⟨s, by rw [step, hget]; rfl, h⟩
  | put address t ht =>
      rcases put_cases h address ht with hp | ⟨data, i, hd, hfit, -, hp⟩
      · exact ⟨s, hp, h⟩
      · exact ⟨_, hp, h.of_length rfl hd rfl (length_splice hfit)⟩
  | commit =>
      obtain ⟨s', r, hcommit, hdata, hsize⟩ := commit_of_large h
      refine ⟨s', by simp [step, hcommit], ?_⟩
      unfold Large
      rw [hdata, hsize]
      exact h
  | getDataPtr => exact ⟨_, rfl, h⟩

/-- **One call stays within the array, and leaves it large enough, exactly if it fits.** -/
theorem step_iff {s : EepromClass} (h : Large s) (c : Call) :
    (∃ s', step s c = some s' ∧ Large s') ↔ Fits s c := by
  by_cases hc : ∃ size mem, c = .begin size mem
  · obtain ⟨size, mem, rfl⟩ := hc
    rw [← begin_isSome_iff]
    exact exists_congr fun s' => and_iff_left_of_imp large_begin
  · have hfits : Fits s c := by
      cases c with
      | begin size mem => exact absurd ⟨size, mem, rfl⟩ hc
      | _ => trivial
    exact iff_of_true (step_of_large h c fun size mem he => hc ⟨size, mem, he⟩) hfits

/-! ### Runs -/

/-- **Along a run of calls the array is always large enough, and no call leaves it, exactly if
every `begin` fits.** -/
theorem large_iff (f : Sector) (cs : List Call) :
    Runs.Every step (fun s c => ∃ s', step s c = some s' ∧ Large s') (.constructed f) cs ↔
      Runs.Every step Fits (.constructed f) cs := by
  refine Runs.every_iff (P := Large) (fun s c h => step_iff h c) ?_ cs (large_constructed f)
  intro s c s' h hc hs'
  obtain ⟨t, ht, hlarge⟩ := (step_iff h c).2 hc
  rw [ht] at hs'
  exact Option.some.inj hs' ▸ hlarge

/-- An erased sector. -/
def blank : Sector := ⟨List.replicate sectorSize 0xff, List.length_replicate, 0, 0⟩

/-- `begin(100)` allocates 100 bytes and copies 256. -/
theorem large_violated :
    ¬ ∀ (f : Sector) (cs : List Call),
      Runs.Every step (fun s c => ∃ s', step s c = some s' ∧ Large s') (.constructed f) cs := by
  intro h
  obtain ⟨⟨s', hs', -⟩, -⟩ := h blank [.begin 100 (some fun _ => 0)]
  obtain ⟨hd, -⟩ := (begin_isSome_iff (.constructed blank) 100 (some fun _ => 0)).1 ⟨s', hs'⟩
  revert hd
  decide

end Pico.Eeprom
