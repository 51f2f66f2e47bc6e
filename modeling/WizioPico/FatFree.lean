/-
**The number of free clusters.**

`f_getfree` of `library/fatfs/ff.c` returns what is known of the number of free clusters, or it goes
through the FAT: through `get_fat` if the entries have 12 bits, and sector after sector otherwise,
when the two entries in front of the first cluster are counted as well.  Where the drive fails, what
has been counted so far is still taken as the number of free clusters.

Main definitions:

* `Pico.Fat.fGetfree` — `f_getfree`, of a volume that is mounted;
* `Pico.Fat.Geometry.zeros` — how many entries are zero;
* `Pico.Fat.Stops` — the entry that is the first one that cannot be looked at;
* `Pico.Fat.Scanned` — what is asked of a scan.

Main results:

* `Pico.Fat.fGetfree_scanned` — **`f_getfree` counts the entries that are zero**;
* `Pico.Fat.fGetfree_counted` — on a drive that does not fail, it tells how many clusters are free;
* `Pico.Fat.fGetfree_failed` — **where an entry cannot be looked at, the number of zeros in front of
  it is taken as right** from then on, and if there are none, no cluster is given out any more.
-/

import Mathlib.Order.Interval.Finset.Nat
import Mathlib.Data.Nat.Count
import WizioPico.FatVolume

set_option relaxedAutoImplicit false
set_option autoImplicit false

namespace Pico.Fat

open Pico.Vfs
open FRESULT FsType

section

variable {δ : Type*} (dr : Drive δ) (g : Geometry)

/-! ### The function -/

/-- The scan of a FAT with entries of 12 bits: the result, and how many have been counted. -/
def scanFat12 : ℕ → UInt32 → UInt32 → Fatfs δ → Option (FRESULT × UInt32 × Fatfs δ)
  | 0, _, _, _ => none
  | fuel + 1, clst, nfree, fs =>
    let stat := getFat dr g clst fs
    if stat.1 = 0xFFFFFFFF then some (FR_DISK_ERR, nfree, stat.2)
    else if stat.1 = 1 then some (FR_INT_ERR, nfree, stat.2)
    else
      let nfree := if stat.1 = 0 then nfree + 1 else nfree
      let clst := clst + 1
      if clst < g.nFatent then scanFat12 fuel clst nfree stat.2 else some (FR_OK, nfree, stat.2)

/-- An entry of a FAT whose entries are whole bytes, in the window, and where the next one is. -/
def scanEntry (win : Sector) (i nfree : UInt32) : UInt32 × UInt32 :=
  if g.fsType = FS_FAT16 then (if ldWord win i = 0 then nfree + 1 else nfree, i + 2)
  else (if ldDword win i &&& 0x0FFFFFFF = 0 then nfree + 1 else nfree, i + 4)

/-- The scan of a FAT with entries of 16 or 32 bits. -/
def scanSectors : ℕ → UInt32 → UInt32 → UInt32 → UInt32 → Fatfs δ →
    Option (FRESULT × UInt32 × Fatfs δ)
  | 0, _, _, _, _, _ => none
  | fuel + 1, clst, sect, i, nfree, fs =>
    let r := if i = 0 then moveWindow dr g sect fs else (FR_OK, fs)
    let sect := if i = 0 then sect + 1 else sect
    if r.1 ≠ FR_OK then some (r.1, nfree, r.2)
    else
      let t := scanEntry g r.2.win i nfree
      let i := t.2 % sectorSize
      let clst := clst - 1
      if clst ≠ 0 then scanSectors fuel clst sect i t.1 r.2 else some (FR_OK, t.1, r.2)

/-- `f_getfree`, once the volume is mounted. -/
def fGetfree (fuel : ℕ) (fs : Fatfs δ) : Option (FRESULT × UInt32 × Fatfs δ) :=
  if fs.freeClst ≤ g.nFatent - 2 then some (FR_OK, fs.freeClst, fs)
  else
    (if g.fsType = FS_FAT12 then scanFat12 dr g fuel 2 0 fs
      else scanSectors dr g fuel g.nFatent g.fatbase 0 0 fs).map fun r =>
        (r.1, r.2.1, { r.2.2 with freeClst := r.2.1, fsiFlag := r.2.2.fsiFlag ||| 1 })

/-! ### How many entries are zero -/

/-- How many of the first `n` entries, from the one of number `lo` on, are zero. -/
def Geometry.zeros (view : UInt32 → Sector) (lo n : ℕ) : ℕ :=
  Nat.count (fun k => lo ≤ k ∧ g.entry view k = 0) n

/-- The first entry that a scan looks at. -/
def FsType.first (t : FsType) : ℕ := if t = FS_FAT12 then 2 else 0

/-- The bytes of an entry. -/
def FsType.bytes (t : FsType) : UInt32 := if t = FS_FAT16 then 2 else 4

/-- **Looking at an entry**: whether it can be had, and is sane if it has 12 bits.  One of whole
bytes can be had if the window can be moved to it. -/
def look (c : UInt32) (fs : Fatfs δ) : FRESULT × Fatfs δ :=
  if g.fsType = FS_FAT12 then
    let stat := getFat dr g c fs
    (if stat.1 = 0xFFFFFFFF then FR_DISK_ERR else if stat.1 = 1 then FR_INT_ERR else FR_OK, stat.2)
  else moveWindow dr g (g.fatbase + c / (sectorSize / g.fsType.bytes)) fs

/-- **The entry `m` is the first one, from an entry on, that cannot be looked at**, with this
result. -/
inductive Stops : ℕ → Fatfs δ → ℕ → FRESULT × Fatfs δ → Prop
  | here {n : ℕ} {fs : Fatfs δ} (failed : (look dr g (UInt32.ofNat n) fs).1 ≠ FR_OK) :
      Stops n fs n (look dr g (UInt32.ofNat n) fs)
  | behind {n m : ℕ} {fs : Fatfs δ} {t : FRESULT × Fatfs δ}
      (looked : (look dr g (UInt32.ofNat n) fs).1 = FR_OK)
      (stops : Stops (n + 1) (look dr g (UInt32.ofNat n) fs).2 m t) : Stops n fs m t

/-- **What is asked of a scan**, from the entry `c` on. -/
structure Scanned (c : UInt32) (fs : Fatfs δ) (r : FRESULT × UInt32 × Fatfs δ) : Prop where
  keeps : Keeps dr g fs r.2.2
  counted : ∃ n ≤ g.nFatent.toNat, r.2.1.toNat = g.zeros (fs.view dr) g.fsType.first n ∧
    (r.1 = FR_OK ↔ n = g.nFatent.toNat) ∧
      (r.1 ≠ FR_OK → Stops dr g c.toNat fs n (r.1, r.2.2))
  reliable : dr.Reliable → Sane dr g fs → r.1 = FR_OK

variable {dr g} {fs fs' : Fatfs δ} {clst sect nfree c b i : UInt32} {view : UInt32 → Sector}
  {lo n fuel : ℕ} {r : FRESULT × UInt32 × Fatfs δ}

theorem zeros_le (g : Geometry) (view : UInt32 → Sector) (lo n : ℕ) : g.zeros view lo n ≤ n :=
  Nat.count_le _

/-- One entry more. -/
theorem zeros_succ (hlo : lo ≤ n) :
    g.zeros view lo (n + 1) = if g.entry view n = 0 then g.zeros view lo n + 1
      else g.zeros view lo n := by
  rw [Geometry.zeros, Nat.count_succ]
  by_cases hzero : g.entry view n = 0
  · rw [if_pos ⟨hlo, hzero⟩, if_pos hzero]
    rfl
  · rw [if_neg fun h => hzero h.2, if_neg hzero]
    rfl

/-- Counting an entry. -/
theorem toNat_count (hn : n ≤ g.nFatent.toNat) (hlo : lo ≤ n)
    (hcount : nfree.toNat = g.zeros view lo n) {zero : Prop} [Decidable zero]
    (hzero : zero ↔ g.entry view n = 0) :
    (if zero then nfree + 1 else nfree).toNat = g.zeros view lo (n + 1) := by
  have hle := zeros_le g view lo n
  have hlt := nFatent_lt g
  rw [zeros_succ hlo]
  by_cases h : zero
  · rw [if_pos h, if_pos (hzero.1 h), UInt32.toNat_add, hcount]
    exact Nat.mod_eq_of_lt (by change g.zeros view lo n + 1 < _; omega)
  · rw [if_neg h, if_neg (mt hzero.2 h), hcount]

/-- The number is a matter of the FAT. -/
theorem zeros_keeps (h : Keeps dr g fs fs') (hc : Coherent dr g fs) (lo n : ℕ) :
    g.zeros (fs'.view dr) lo n = g.zeros (fs.view dr) lo n := by
  have hentry : g.entry (fs'.view dr) = g.entry (fs.view dr) := by
    funext k
    rw [Geometry.entry, Geometry.entry, h.fatMem hc]
  rw [Geometry.zeros, Geometry.zeros, hentry]

/-- An entry that cannot be looked at. -/
theorem stops_here {res : FRESULT} (hlook : look dr g c fs = (res, fs')) (hres : res ≠ FR_OK) :
    Stops dr g c.toNat fs c.toNat (res, fs') := by
  have hstop := @Stops.here δ dr g c.toNat fs
  rw [UInt32.ofNat_toNat, hlook] at hstop
  exact hstop hres

/-- A scan goes on behind an entry that can be looked at. -/
theorem Scanned.trans (h : Keeps dr g fs fs') (hc : Coherent dr g fs) (hlt : c < g.nFatent)
    (hlook : look dr g c fs = (FR_OK, fs')) (h' : Scanned dr g (c + 1) fs' r) :
    Scanned dr g c fs r where
  keeps := h.trans h'.keeps
  counted := by
    obtain ⟨n, hn, hcount, hok, hstops⟩ := h'.counted
    refine ⟨n, hn, by rw [hcount, zeros_keeps h hc], hok, fun hres => ?_⟩
    have hrest := hstops hres
    rw [toNat_add_one hlt] at hrest
    refine .behind ?_ ?_
    · rw [UInt32.ofNat_toNat, hlook]
    · rw [UInt32.ofNat_toNat, hlook]
      exact hrest
  reliable hrel hsane := by
    refine h'.reliable hrel fun c hv => ?_
    have hne := hsane c hv
    rwa [Geometry.entry, ← h.fatMem hc] at hne

/-! ### Entries of 12 bits -/

theorem scanFat12_scanned (htype : g.fsType = FS_FAT12) (hcoh : Coherent dr g fs)
    (hc : g.Valid c) (hfuel : g.nFatent.toNat ≤ fuel + c.toNat)
    (hcount : nfree.toNat = g.zeros (fs.view dr) 2 c.toNat) :
    ∃ r, scanFat12 dr g fuel c nfree fs = some r ∧ Scanned dr g c fs r := by
  have hfirst : g.fsType.first = 2 := by rw [FsType.first, if_pos htype]
  induction fuel generalizing c nfree fs with
  | zero =>
      have hv := valid_iff.1 hc
      omega
  | succ fuel ih =>
      have hv := valid_iff.1 hc
      have hget := getFat_spec dr fs hc.1 hc.2
      have hlook : look dr g c fs = _ := if_pos htype
      rw [scanFat12]
      dsimp only at hlook ⊢
      revert hget hlook
      generalize getFat dr g c fs = stat
      intro hget hlook
      have hsofar : ∀ {res : FRESULT}, look dr g c fs = (res, stat.2) → res ≠ FR_OK →
          ∃ n ≤ g.nFatent.toNat, nfree.toNat = g.zeros (fs.view dr) g.fsType.first n ∧
            (res = FR_OK ↔ n = g.nFatent.toNat) ∧
              (res ≠ FR_OK → Stops dr g c.toNat fs n (res, stat.2)) := fun hstop hres =>
        ⟨c.toNat, hv.2.le, by rw [hfirst, hcount], iff_of_false hres hv.2.ne,
          fun _ => stops_here hstop hres⟩
      by_cases herr : stat.1 = 0xFFFFFFFF
      · rw [if_pos herr] at hlook ⊢
        exact ⟨_, rfl, hget.keeps, hsofar hlook nofun, fun hrel _ =>
          absurd herr (hget.reliable hcoh hrel)⟩
      have hvalue := hget.value hcoh herr
      rw [if_neg herr] at hlook ⊢
      by_cases hone : stat.1 = 1
      · rw [if_pos hone] at hlook ⊢
        refine ⟨_, rfl, hget.keeps, hsofar hlook nofun, fun _ hsane => absurd ?_ (hsane c hc)⟩
        rw [← hvalue, hone]
        rfl
      rw [if_neg hone] at hlook ⊢
      have hadd := toNat_add_one hc.2
      have hzero : stat.1 = 0 ↔ g.entry (fs.view dr) c.toNat = 0 := by
        rw [← hvalue, ← UInt32.toNat_inj]
        rfl
      have hnext := toNat_count hv.2.le hv.1 hcount hzero
      rw [← hadd] at hnext
      by_cases hlt : c + 1 < g.nFatent
      · rw [if_pos hlt]
        have hlt' := UInt32.lt_iff_toNat_lt.1 hlt
        rw [← zeros_keeps hget.keeps hcoh] at hnext
        obtain ⟨r, hr, hscan⟩ := ih (hget.keeps.coherent hcoh) (valid_iff.2 ⟨by omega, hlt'⟩)
          (by omega) hnext
        exact ⟨r, hr, hscan.trans hget.keeps hcoh hc.2 hlook⟩
      · rw [if_neg hlt]
        have hend : (c + 1).toNat = g.nFatent.toNat := by
          have := mt UInt32.lt_iff_toNat_lt.2 hlt
          omega
        refine ⟨_, rfl, hget.keeps, ⟨_, Nat.le_refl _, ?_, iff_of_true rfl rfl,
          fun hne => absurd rfl hne⟩, fun _ _ => rfl⟩
        rw [hfirst, ← hend]
        exact hnext

/-! ### Entries of whole bytes -/

/-- The entry that is looked at next. -/
theorem position_next (hb : b = 2 ∨ b = 4) (hlt : c.toNat < 2 ^ 28) :
    (c * b % sectorSize + b) % sectorSize = (c + 1) * b % sectorSize ∧
      c / (sectorSize / b) + 1 =
        (c + 1) / (sectorSize / b) + (if (c + 1) * b % sectorSize = 0 then 0 else 1) := by
  have hadd : (c + 1).toNat = c.toNat + 1 := by
    rw [UInt32.toNat_add]
    exact Nat.mod_eq_of_lt (by change c.toNat + 1 < _; omega)
  have hmul : ∀ x : UInt32, x.toNat ≤ 2 ^ 28 →
      (x * b % sectorSize).toNat = x.toNat * b.toNat % 512 := by
    intro x hx
    have hsmall : x.toNat * b.toNat < 2 ^ 32 := by
      rcases hb with rfl | rfl
      all_goals
        simp only [UInt32.reduceToNat]
        omega
    rw [UInt32.toNat_mod, UInt32.toNat_mul, Nat.mod_eq_of_lt hsmall]
    rfl
  have hzero : (c + 1) * b % sectorSize = 0 ↔ (c.toNat + 1) * b.toNat % 512 = 0 := by
    rw [← UInt32.toNat_inj, hmul _ (by omega), hadd]
    rfl
  have hdiv : ∀ x : UInt32, (x / (sectorSize / b)).toNat = x.toNat / (512 / b.toNat) := by
    intro x
    rw [UInt32.toNat_div, UInt32.toNat_div]
    rfl
  constructor
  · rw [← UInt32.toNat_inj, UInt32.toNat_mod, UInt32.toNat_add, hmul c (by omega),
      hmul (c + 1) (by omega), hadd]
    change (_ % 2 ^ 32) % 512 = _
    rcases hb with rfl | rfl
    all_goals
      simp only [UInt32.reduceToNat]
      omega
  · rw [← UInt32.toNat_inj, UInt32.toNat_add, UInt32.toNat_add, hdiv c, hdiv (c + 1), hadd,
      if_congr hzero rfl rfl]
    rcases hb with rfl | rfl
    all_goals
      simp only [UInt32.reduceToNat]
      split
      all_goals
        simp only [UInt32.reduceToNat]
        omega

/-- The FAT has room for the entries. -/
theorem fits_bytes (htype : g.fsType ≠ FS_FAT12) :
    (g.fsType.bytes = 2 ∨ g.fsType.bytes = 4) ∧
      g.fsType.bytes.toNat * g.nFatent.toNat ≤ 512 * g.fsize.toNat := by
  cases hwide : g.fsType with
  | FS_FAT12 => exact absurd hwide htype
  | FS_FAT16 => exact ⟨Or.inl rfl, fits_fat16 hwide⟩
  | FS_FAT32 => exact ⟨Or.inr rfl, fits_fat32 hwide⟩

/-- An entry in the window. -/
theorem scanEntry_eq (htype : g.fsType ≠ FS_FAT12) (hlt : c < g.nFatent) (win : Sector)
    (nfree : UInt32) (hwin : win = view (g.fatbase + c / (sectorSize / g.fsType.bytes))) :
    scanEntry g win (c * g.fsType.bytes % sectorSize) nfree =
      (if g.entry view c.toNat = 0 then nfree + 1 else nfree,
        c * g.fsType.bytes % sectorSize + g.fsType.bytes) := by
  obtain ⟨hb, hfit⟩ := fits_bytes htype
  obtain ⟨hq, hi, hpos⟩ := position_word hb hfit hlt
  cases hwide : g.fsType with
  | FS_FAT12 => exact absurd hwide htype
  | FS_FAT16 =>
      rw [hwide] at hq hi hpos hwin
      have hzero : ldWord win (c * 2 % sectorSize) = 0 ↔ g.entry view c.toNat = 0 := by
        have hword := toNat_ldWord view hq hi
        rw [← hwin, hpos, ← Nat.mul_assoc] at hword
        rw [Geometry.entry, hwide, ← UInt16.toNat_inj]
        change _ ↔ (g.fatMem view).field (8 * 2 * c.toNat) 16 = 0
        rw [show FsType.bytes FS_FAT16 = 2 by rfl] at hword
        rw [← UInt16.toNat_toUInt32, hword]
        rfl
      rw [scanEntry, if_pos hwide]
      change (if ldWord win (c * 2 % sectorSize) = 0 then _ else _, _) = _
      rw [if_congr hzero rfl rfl]
      rfl
  | FS_FAT32 =>
      rw [hwide] at hq hi hpos hwin
      have hzero : ldDword win (c * 4 % sectorSize) &&& 0x0FFFFFFF = 0 ↔
          g.entry view c.toNat = 0 := by
        have hword := toNat_ldDword view hq hi
        rw [← hwin, hpos, ← Nat.mul_assoc] at hword
        change _ = (g.fatMem view).field (32 * c.toNat) 32 at hword
        rw [show FsType.bytes FS_FAT32 = 4 by rfl] at hword
        rw [Geometry.entry, hwide, ← UInt32.toNat_inj, UInt32.toNat_and, hword]
        change _ ↔ (g.fatMem view).field (32 * c.toNat) 28 = 0
        rw [ByteMem.field_mod (n := 28) (l := 32) _ _ (by omega),
          ← Nat.and_two_pow_sub_one_eq_mod]
        rfl
      rw [scanEntry, if_neg (by rw [hwide]; decide)]
      change (if ldDword win (c * 4 % sectorSize) &&& 0x0FFFFFFF = 0 then _ else _, _) = _
      rw [if_congr hzero rfl rfl]
      rfl

theorem scanSectors_scanned (htype : g.fsType ≠ FS_FAT12) (hcoh : Coherent dr g fs)
    (hlt : c < g.nFatent) (hfuel : g.nFatent.toNat ≤ fuel + c.toNat)
    (hi : i = c * g.fsType.bytes % sectorSize)
    (hsect : sect = g.fatbase + (c / (sectorSize / g.fsType.bytes) + if i = 0 then 0 else 1))
    (hwin : i ≠ 0 → fs.winsect = g.fatbase + c / (sectorSize / g.fsType.bytes))
    (hcount : nfree.toNat = g.zeros (fs.view dr) 0 c.toNat) :
    ∃ r, scanSectors dr g fuel (g.nFatent - c) sect i nfree fs = some r ∧ Scanned dr g c fs r := by
  have hfirst : g.fsType.first = 0 := by rw [FsType.first, if_neg htype]
  obtain ⟨hb, hfit⟩ := fits_bytes htype
  induction fuel generalizing c sect i nfree fs with
  | zero =>
      have := UInt32.lt_iff_toNat_lt.1 hlt
      omega
  | succ fuel ih =>
      have hlt' := UInt32.lt_iff_toNat_lt.1 hlt
      have hmove := moveWindow_moves dr g sect fs
      obtain ⟨hq, -, -⟩ := position_word hb hfit hlt
      have hshown : ∃ r : FRESULT × Fatfs δ,
          (if i = 0 then moveWindow dr g sect fs else (FR_OK, fs)) = r ∧
            MoveSpec dr g (g.fatbase + c / (sectorSize / g.fsType.bytes)) fs r ∧
              look dr g c fs = r := by
        by_cases hzero : i = 0
        · rw [if_pos hzero, UInt32.add_zero] at hsect
          rw [if_pos hzero]
          exact ⟨_, rfl, hsect ▸ hmove, by rw [look, if_neg htype, hsect]⟩
        · rw [if_neg hzero]
          refine ⟨_, rfl, ⟨Keeps.refl fs, fun _ => hwin hzero, Or.inl rfl, fun _ => rfl⟩, ?_⟩
          rw [look, if_neg htype, moveWindow, if_neg (not_not_intro (hwin hzero).symm)]
      obtain ⟨r, hr, hspec, hlook⟩ := hshown
      rw [scanSectors]
      dsimp only
      rw [hr]
      by_cases hok : r.1 = FR_OK
      · rw [if_neg (not_not.2 hok)]
        have hadd := toNat_add_one hlt
        have hnext := toNat_count hlt'.le (Nat.zero_le _) hcount
          (Iff.refl (g.entry (fs.view dr) c.toNat = 0))
        rw [← hadd] at hnext
        obtain ⟨hi', hsect'⟩ := position_next hb (Nat.lt_trans hlt' (nFatent_lt g))
        have hbehind : (if i = 0 then sect + 1 else sect) = g.fatbase +
            ((c + 1) / (sectorSize / g.fsType.bytes) +
              if (c + 1) * g.fsType.bytes % sectorSize = 0 then 0 else 1) := by
          rw [← hsect', hsect]
          split
          · rw [UInt32.add_zero, UInt32.add_assoc]
          · rfl
        have hentry := scanEntry_eq htype hlt r.2.win nfree
          (hspec.win_eq hcoh (ordinary_fat hq) hok)
        rw [← hi] at hentry hi'
        rw [hbehind, hentry, show g.nFatent - c - 1 = g.nFatent - (c + 1) by grind]
        by_cases hend : c + 1 < g.nFatent
        · have hne : g.nFatent - (c + 1) ≠ 0 := by
            grind
          -- the next entry may lie in the same sector
          have hsame : (i + g.fsType.bytes) % sectorSize ≠ 0 →
              r.2.winsect = g.fatbase + (c + 1) / (sectorSize / g.fsType.bytes) := by
            intro hin
            rw [hi'] at hin
            rw [if_neg hin] at hsect'
            rw [hspec.winsect hok, (UInt32.add_left_inj 1).1 hsect']
          rw [if_pos hne]
          rw [← zeros_keeps hspec.keeps hcoh] at hnext
          obtain ⟨t, ht, hscan⟩ := ih (hspec.keeps.coherent hcoh) hend (by omega) hi'
            (by rw [hi']) hsame hnext
          exact ⟨t, ht, hscan.trans hspec.keeps hcoh hlt (hlook.trans (Prod.ext hok rfl))⟩
        · have heq : (c + 1).toNat = g.nFatent.toNat := by
            have := mt UInt32.lt_iff_toNat_lt.2 hend
            omega
          rw [if_neg (not_not.2 (by rw [UInt32.toNat_inj.1 heq, UInt32.sub_self]))]
          refine ⟨_, rfl, hspec.keeps, ⟨_, Nat.le_refl _, ?_, iff_of_true rfl rfl,
            fun hne => absurd rfl hne⟩, fun _ _ => rfl⟩
          rw [hfirst, ← heq]
          exact hnext
      · rw [if_pos hok]
        exact ⟨_, rfl, hspec.keeps, ⟨c.toNat, hlt'.le, by rw [hfirst, hcount],
          iff_of_false hok hlt'.ne, fun _ => stops_here hlook hok⟩,
          fun hrel _ => absurd (hspec.reliable hrel) hok⟩

/-! ### What `f_getfree` tells -/

/-- **`f_getfree` counts the entries that are zero**, when nothing is known of their number. -/
theorem fGetfree_scanned (hcoh : Coherent dr g fs) (hunknown : ¬fs.freeClst ≤ g.nFatent - 2) :
    ∃ r, fGetfree dr g g.nFatent.toNat fs = some (r.1, r.2.1,
      { r.2.2 with freeClst := r.2.1, fsiFlag := r.2.2.fsiFlag ||| 1 }) ∧
        Scanned dr g (UInt32.ofNat g.fsType.first) fs r := by
  rw [fGetfree, if_neg hunknown]
  have hthree := g.clusters.1
  have hzeros : ∀ lo ≤ 2, (0 : UInt32).toNat = g.zeros (fs.view dr) lo lo := by
    intro lo _
    rw [Geometry.zeros, eq_comm]
    exact Nat.count_iff_forall_not.2 fun k hk h => absurd h.1 (Nat.not_le.2 hk)
  by_cases htype : g.fsType = FS_FAT12
  · rw [if_pos htype]
    obtain ⟨r, hr, hscan⟩ := scanFat12_scanned (c := 2) htype hcoh
      (valid_iff.2 ⟨Nat.le_refl _, hthree⟩) (Nat.le_add_right _ _)
      (hzeros 2 (Nat.le_refl _))
    rw [FsType.first, if_pos htype]
    exact ⟨r, by rw [hr]; rfl, hscan⟩
  · rw [if_neg htype]
    have hpos : (0 : UInt32) < g.nFatent := by
      rw [UInt32.lt_iff_toNat_lt]
      change 0 < _
      omega
    obtain ⟨r, hr, hscan⟩ := scanSectors_scanned (c := 0) (i := 0) htype hcoh hpos
      (Nat.le_add_right _ _) (by simp) rfl (fun h => absurd rfl h) (hzeros 0 (Nat.zero_le _))
    rw [UInt32.sub_zero, UInt32.zero_div, if_pos rfl, UInt32.add_zero, UInt32.add_zero] at hr
    rw [FsType.first, if_neg htype]
    exact ⟨r, by rw [hr]; rfl, hscan⟩

/-- What is free, if the entries in front of the first cluster are not zero. -/
theorem card_freeClusters (dr : Drive δ) (fs : Fatfs δ)
    (hres : g.fsType ≠ FS_FAT12 → ∀ k < 2, g.entry (fs.view dr) k ≠ 0) :
    (freeClusters dr g fs).card = g.zeros (fs.view dr) g.fsType.first g.nFatent.toNat := by
  rw [freeClusters, Geometry.zeros, Nat.count_eq_card_filter_range]
  refine congrArg _ (Finset.filter_congr fun k _ => and_congr_left fun hzero => ?_)
  by_cases htype : g.fsType = FS_FAT12
  · rw [FsType.first, if_pos htype]
  · rw [FsType.first, if_neg htype]
    refine iff_of_true (Nat.le_of_not_lt fun hk => ?_) (Nat.zero_le k)
    exact hres htype k hk hzero

/-- **On a drive that does not fail, `f_getfree` tells how many clusters are free**, and that is
what is known from then on. -/
theorem fGetfree_counted {s : Mounted δ} (hrel : dr.Reliable) (h : Counted dr g s)
    (hres : g.fsType ≠ FS_FAT12 → ∀ k < 2, g.entry (s.fs.view dr) k ≠ 0) :
    ∃ nclst fs', fGetfree dr g g.nFatent.toNat s.fs = some (FR_OK, nclst, fs') ∧
      nclst.toNat = (freeClusters dr g s.fs).card ∧ fs'.freeClst = nclst ∧
        Counted dr g ⟨fs', s.chains⟩ := by
  by_cases hknown : s.fs.freeClst ≤ g.nFatent - 2
  · have hle := UInt32.le_iff_toNat_le.1 hknown
    rw [toNat_clusters] at hle
    refine ⟨s.fs.freeClst, s.fs, by rw [fGetfree, if_pos hknown], ?_, rfl, h⟩
    exact h.count.resolve_right (Nat.not_lt.2 hle)
  · obtain ⟨fat, hfat, hch⟩ := h.sound
    obtain ⟨r, hr, hscan⟩ := fGetfree_scanned hfat.coherent hknown
    have hok := hscan.reliable hrel h.sane
    obtain ⟨n, -, hcount, hall, -⟩ := hscan.counted
    rw [hall.1 hok, ← card_freeClusters dr s.fs hres] at hcount
    have hfat' : HasFat dr g
        { r.2.2 with freeClst := r.2.1, fsiFlag := r.2.2.fsiFlag ||| 1 } fat :=
      (hscan.keeps.hasFat hfat).info
    refine ⟨r.2.1, _, hok ▸ hr, hcount, rfl, ⟨fat, hfat', hch⟩,
      hfat'.sane_iff.2 (hfat.sane_iff.1 h.sane), Or.inl ?_⟩
    rw [hfat'.freeClusters_eq, ← hfat.freeClusters_eq]
    exact hcount

/-- **Where an entry cannot be looked at, `f_getfree` takes the number of zeros in front of it as
the number of free clusters**: it tells so without an error the next time, and if there are none, no
object gets a first cluster any more. -/
theorem fGetfree_failed {res : FRESULT} {nclst : UInt32} (hcoh : Coherent dr g fs)
    (h : fGetfree dr g g.nFatent.toNat fs = some (res, nclst, fs')) (hres : res ≠ FR_OK) :
    (∃ n < g.nFatent.toNat, ∃ fs₁, Stops dr g g.fsType.first fs n (res, fs₁) ∧
        nclst.toNat = g.zeros (fs.view dr) g.fsType.first n ∧
          fs' = { fs₁ with freeClst := nclst, fsiFlag := fs₁.fsiFlag ||| 1 }) ∧
      (nclst ≤ g.nFatent - 2 → ∀ fuel, fGetfree dr g fuel fs' = some (FR_OK, nclst, fs')) ∧
        (nclst = 0 → ∀ fuel, createChain dr g fuel 0 fs' = some (0, fs')) := by
  have hunknown : ¬fs.freeClst ≤ g.nFatent - 2 := by
    intro hknown
    rw [fGetfree, if_pos hknown] at h
    cases h
    exact hres rfl
  obtain ⟨r, hr, hscan⟩ := fGetfree_scanned hcoh hunknown
  rw [hr] at h
  cases h
  obtain ⟨n, hn, hcount, hall, hstops⟩ := hscan.counted
  have hfirst : (UInt32.ofNat g.fsType.first).toNat = g.fsType.first := by
    rw [FsType.first]
    split <;> rfl
  rw [hfirst] at hstops
  refine ⟨⟨n, Nat.lt_of_le_of_ne hn (mt hall.2 hres), _, hstops hres, hcount, rfl⟩,
    fun hknown fuel => ?_, fun hzero fuel => ?_⟩
  · rw [fGetfree, if_pos hknown]
  · rw [createChain, if_pos rfl, createFrom, if_pos hzero]

end

/-! ### A volume with entries of 16 bits -/

/-- The geometry of a volume with two FATs of 17 sectors. -/
def midGeometry : Geometry :=
  { smallGeometry with
    fsType := FS_FAT16
    nFatent := 4200
    fsize := 17
    database := 67
    clusters := by decide
    fat_fits := by decide
    fats_fit := by decide
    data_fits := by decide }

/-- What is on a drive that has been formatted: both FATs begin with the two reserved entries. -/
def freshSectors (s : UInt32) : Sector := fun i =>
  if (s = 1 ∨ s = 18) ∧ i.val < 4 then (if i.val = 0 then 0xF8 else 0xFF) else 0

/-- The volume on it, with the window at its first sector. -/
def freshFatfs : Fatfs (UInt32 → Sector) := { emptyFatfs with drive := freshSectors }

theorem view_freshFatfs (s : UInt32) : freshFatfs.view ramDrive s = freshSectors s := by
  by_cases hs : s = 0
  · subst hs
    funext i
    rfl
  · exact Function.update_of_ne hs _ _

/-- Behind the reserved entries the FAT is empty. -/
theorem fatMem_freshFatfs {i : ℕ} (hi : 4 ≤ i) :
    midGeometry.fatMem (freshFatfs.view ramDrive) i = 0 := by
  rw [Geometry.fatMem]
  split
  · rename_i hlt
    change i < 8704 at hlt
    rw [view_freshFatfs, freshSectors, if_neg]
    rintro ⟨hsect, hbyte⟩
    have hdiv : i / 512 < 17 := by omega
    have hval : (midGeometry.fatbase + UInt32.ofNat (i / 512)).toNat = 1 + i / 512 := by
      rw [UInt32.toNat_add, UInt32.toNat_ofNat_of_lt' (by change i / 512 < 2 ^ 32; omega)]
      change (1 + i / 512) % 2 ^ 32 = _
      omega
    change i % 512 < 4 at hbyte
    rcases hsect with h | h
    all_goals
      rw [h] at hval
      simp only [UInt32.reduceToNat] at hval
      omega
  · rfl

theorem entry_freshFatfs {k : ℕ} (hk : 2 ≤ k) :
    midGeometry.entry (freshFatfs.view ramDrive) k = 0 := by
  refine ByteMem.field_eq (Nat.two_pow_pos _) fun i _ => ?_
  have hbyte : 4 ≤ (16 * k + i) / 8 := by omega
  change ByteMem.bit _ (16 * k + i) = _
  rw [ByteMem.bit, fatMem_freshFatfs hbyte]
  simp

/-- The volume, with nothing on it. -/
def freshVolume : Mounted (UInt32 → Sector) := ⟨freshFatfs, []⟩

theorem freshVolume_counted : Counted ramDrive midGeometry freshVolume where
  sound := by
    refine ⟨fun _ => 0, ⟨⟨nofun, fun _ _ => ?_⟩, fun c hc => ?_⟩, ⟨Chains.forest_nil, nofun⟩⟩
    · funext i
      rfl
    · exact entry_freshFatfs (valid_iff.1 hc).1
  sane c hc := by
    rw [freshVolume, entry_freshFatfs (valid_iff.1 hc).1]
    decide
  count := Or.inr (by decide)

/-- All of its 4198 clusters are found free. -/
theorem fGetfree_counted_fresh :
    ∃ nclst fs', fGetfree ramDrive midGeometry 4200 freshFatfs = some (FR_OK, nclst, fs') ∧
      nclst.toNat = 4198 ∧ fs'.freeClst = nclst ∧ Counted ramDrive midGeometry ⟨fs', []⟩ := by
  have hres : ∀ k < 2, midGeometry.entry (freshFatfs.view ramDrive) k ≠ 0 := by decide +kernel
  obtain ⟨nclst, fs', hrun, hcount, hknown, hcounted⟩ :=
    fGetfree_counted ramDrive_reliable freshVolume_counted fun _ => hres
  refine ⟨nclst, fs', hrun, ?_, hknown, hcounted⟩
  have hfree : freeClusters ramDrive midGeometry freshFatfs = Finset.Ico 2 4200 := by
    ext n
    rw [freeClusters, Finset.mem_filter, Finset.mem_range, Finset.mem_Ico, and_comm (a := n < _)]
    refine and_congr_left fun _ => and_iff_left_of_imp fun hn => ?_
    exact entry_freshFatfs hn
  rw [hcount]
  change (freeClusters ramDrive midGeometry freshFatfs).card = 4198
  rw [hfree, Nat.card_Ico]

/-! ### A sector that cannot be read -/

/-- A drive in memory of which one sector cannot be read. -/
def scratchedDrive (bad : UInt32) : Drive (UInt32 → Sector) :=
  { ramDrive with
    diskRead := fun s b d => if s = bad then (false, b, d) else (true, d s, d)
    contents_diskRead := fun s _ _ => by split <;> rfl
    diskRead_ok := fun h => by
      split at h
      · cases h
      · rw [if_neg ‹_›]
        rfl }

theorem scratchedDrive_coherent (bad : UInt32) :
    Coherent (scratchedDrive bad) midGeometry freshFatfs := by
  refine ⟨nofun, fun _ _ => ?_⟩
  funext i
  rfl

/-- The first of the 17 sectors has 254 entries that are zero.  Where `f_getfree` fails at the
second one, it tells from then on that 254 of the 4198 clusters are free; where it fails at the
first one, the volume is full. -/
theorem fGetfree_failed_scratched :
    (∃ fs', fGetfree (scratchedDrive 2) midGeometry 4200 freshFatfs =
        some (FR_DISK_ERR, 254, fs') ∧
      (∃ n < 4200, ∃ fs₁, Stops (scratchedDrive 2) midGeometry 0 freshFatfs n (FR_DISK_ERR, fs₁) ∧
        254 = midGeometry.zeros (freshFatfs.view (scratchedDrive 2)) 0 n ∧
          fs' = { fs₁ with freeClst := 254, fsiFlag := fs₁.fsiFlag ||| 1 }) ∧
        ∀ fuel, fGetfree (scratchedDrive 2) midGeometry fuel fs' = some (FR_OK, 254, fs')) ∧
      ∃ fs', fGetfree (scratchedDrive 1) midGeometry 4200 freshFatfs =
          some (FR_DISK_ERR, 0, fs') ∧
        ∀ fuel, createChain (scratchedDrive 1) midGeometry fuel 0 fs' = some (0, fs') := by
  constructor
  · have hrun : (fGetfree (scratchedDrive 2) midGeometry 4200 freshFatfs).map
        (fun r => (r.1, r.2.1)) = some (FR_DISK_ERR, 254) := by decide +kernel
    obtain ⟨⟨res, nclst, fs'⟩, hsome, hres⟩ := Option.map_eq_some_iff.1 hrun
    obtain ⟨rfl, rfl⟩ := Prod.mk.inj hres
    obtain ⟨hstops, hnext, -⟩ := fGetfree_failed (scratchedDrive_coherent 2) hsome (by decide)
    exact ⟨fs', hsome, hstops, hnext (by decide)⟩
  · have hrun : (fGetfree (scratchedDrive 1) midGeometry 4200 freshFatfs).map
        (fun r => (r.1, r.2.1)) = some (FR_DISK_ERR, 0) := by decide +kernel
    obtain ⟨⟨res, nclst, fs'⟩, hsome, hres⟩ := Option.map_eq_some_iff.1 hrun
    obtain ⟨rfl, rfl⟩ := Prod.mk.inj hres
    obtain ⟨-, -, hfull⟩ := fGetfree_failed (scratchedDrive_coherent 1) hsome (by decide)
    exact ⟨fs', hsome, hfull rfl⟩

end Pico.Fat
