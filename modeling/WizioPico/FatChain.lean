/-
**Cluster chains of FatFs.**

`create_chain` and `remove_chain` of `library/fatfs/ff.c`.  The first one looks for a free cluster,
from the one behind the chain or from the last one that was given out on and around the end of the
FAT, and puts it behind the chain; the second one frees the clusters of a chain, one after the
other. Both only look at the FAT through `get_fat` and `put_fat`.

Main definitions:

* `Pico.Fat.createChain`, `Pico.Fat.removeChain` — `create_chain` and `remove_chain`;
* `Pico.Fat.HasFat` — a FAT, as a function;
* `Pico.Fat.Sound` — chains of clusters that there are, which do not meet.

Main results:

* `Pico.Fat.getFat_reads`, `Pico.Fat.putFat_writes` — reading and changing the function;
* `Pico.Fat.findFree_spec` — **the search finds a free cluster, or there is none**;
* `Pico.Fat.createChain_spec`, `Pico.Fat.removeChain_spec` — **what is asked of the two**, whatever
  the drive answers.
-/

import WizioPico.Chains
import WizioPico.FatEntry

set_option relaxedAutoImplicit false
set_option autoImplicit false

namespace Pico.Fat

open Pico.Vfs
open FRESULT FsType

section

variable {δ : Type*} (dr : Drive δ) (g : Geometry)

/-! ### The functions -/

/-- The loop of `create_chain` that looks for a free cluster behind `ncl` and around the end of the
FAT, up to `scl`: the cluster, or what `create_chain` returns. -/
def findFree (scl : UInt32) : ℕ → UInt32 → Fatfs δ → Option (Except UInt32 UInt32 × Fatfs δ)
  | 0, _, _ => none
  | fuel + 1, ncl, fs =>
    let ncl := ncl + 1
    let wrap := g.nFatent ≤ ncl
    let ncl := if wrap then 2 else ncl
    if wrap ∧ scl < ncl then some (.error 0, fs)
    else
      let r := getFat dr g ncl fs
      if r.1 = 0 then some (.ok ncl, r.2)
      else if r.1 = 1 ∨ r.1 = 0xFFFFFFFF then some (.error r.1, r.2)
      else if ncl = scl then some (.error 0, r.2)
      else findFree scl fuel ncl r.2

/-- The part of `create_chain` that chooses the cluster, for `clst` to be followed by it: the one
behind `clst` if it is free. -/
def chooseFree (fuel : ℕ) (clst scl : UInt32) (fs : Fatfs δ) :
    Option (Except UInt32 UInt32 × Fatfs δ) :=
  if scl = clst then
    let ncl := if g.nFatent ≤ scl + 1 then 2 else scl + 1
    let r := getFat dr g ncl fs
    if r.1 = 1 ∨ r.1 = 0xFFFFFFFF then some (.error r.1, r.2)
    else if r.1 ≠ 0 then
      let cs := r.2.lastClst
      let scl := if 2 ≤ cs ∧ cs < g.nFatent then cs else scl
      findFree dr g scl fuel scl r.2
    else some (.ok ncl, r.2)
  else findFree dr g scl fuel scl fs

/-- The end of `create_chain`: the new cluster is marked and linked. -/
def linkNew (clst ncl : UInt32) (fs : Fatfs δ) : UInt32 × Fatfs δ :=
  let r := putFat dr g ncl 0xFFFFFFFF fs
  let r := if r.1 = FR_OK ∧ clst ≠ 0 then putFat dr g clst ncl r.2 else r
  if r.1 = FR_OK then
    let freeClst := if r.2.freeClst ≤ g.nFatent - 2 then r.2.freeClst - 1 else r.2.freeClst
    (ncl, { r.2 with lastClst := ncl, freeClst := freeClst, fsiFlag := r.2.fsiFlag ||| 1 })
  else (if r.1 = FR_DISK_ERR then 0xFFFFFFFF else 1, r.2)

/-- `create_chain`, from where the cluster to start from has been found. -/
def createFrom (fuel : ℕ) (clst scl : UInt32) (fs : Fatfs δ) : Option (UInt32 × Fatfs δ) :=
  if fs.freeClst = 0 then some (0, fs)
  else
    (chooseFree dr g fuel clst scl fs).map fun r =>
      match r.1 with
      | .error cs => (cs, r.2)
      | .ok ncl => linkNew dr g clst ncl r.2

/-- `create_chain`. -/
def createChain (fuel : ℕ) (clst : UInt32) (fs : Fatfs δ) : Option (UInt32 × Fatfs δ) :=
  if clst = 0 then
    let scl := fs.lastClst
    createFrom dr g fuel clst (if scl = 0 ∨ g.nFatent ≤ scl then 1 else scl) fs
  else
    let r := getFat dr g clst fs
    if r.1 < 2 then some (1, r.2)
    else if r.1 = 0xFFFFFFFF then some (r.1, r.2)
    else if r.1 < g.nFatent then some (r.1, r.2)
    else createFrom dr g fuel clst clst r.2

/-- The loop of `remove_chain`. -/
def removeLoop : ℕ → UInt32 → Fatfs δ → Option (FRESULT × Fatfs δ)
  | 0, _, _ => none
  | fuel + 1, clst, fs =>
    let r := getFat dr g clst fs
    if r.1 = 0 then some (FR_OK, r.2)
    else if r.1 = 1 then some (FR_INT_ERR, r.2)
    else if r.1 = 0xFFFFFFFF then some (FR_DISK_ERR, r.2)
    else
      let nxt := r.1
      let r := putFat dr g clst 0 r.2
      if r.1 ≠ FR_OK then some r
      else
        let fs := if r.2.freeClst < g.nFatent - 2 then
          { r.2 with freeClst := r.2.freeClst + 1, fsiFlag := r.2.fsiFlag ||| 1 } else r.2
        if nxt < g.nFatent then removeLoop fuel nxt fs else some (FR_OK, fs)

/-- `remove_chain`. -/
def removeChain (fuel : ℕ) (clst pclst : UInt32) (fs : Fatfs δ) : Option (FRESULT × Fatfs δ) :=
  if clst < 2 ∨ g.nFatent ≤ clst then some (FR_INT_ERR, fs)
  else if pclst ≠ 0 then
    let r := putFat dr g pclst 0xFFFFFFFF fs
    if r.1 ≠ FR_OK then some r else removeLoop dr g fuel clst r.2
  else removeLoop dr g fuel clst fs

/-! ### A FAT as a function -/

/-- A cluster that there is. -/
def Geometry.Valid (c : UInt32) : Prop := 2 ≤ c ∧ c < g.nFatent

instance (c : UInt32) : Decidable (g.Valid c) := inferInstanceAs (Decidable (_ ∧ _))

/-- What a value becomes in the FAT. -/
def Geometry.mask (val : UInt32) : UInt32 := UInt32.ofNat (val.toNat % 2 ^ g.fsType.width)

/-- **The FAT says `fat`.** -/
structure HasFat (fs : Fatfs δ) (fat : UInt32 → UInt32) : Prop where
  coherent : Coherent dr g fs
  entry : ∀ c, g.Valid c → g.entry (fs.view dr) c.toNat = (fat c).toNat

/-- Nothing but the FAT has been changed of what is seen. -/
structure SameData (fs fs' : Fatfs δ) : Prop where
  frame : ∀ s, g.Ordinary s → ¬s - g.fatbase < g.fsize → fs'.view dr s = fs.view dr s

/-- What `FATFS` knows of the free clusters is as before. -/
structure SameInfo (fs fs' : Fatfs δ) : Prop where
  lastClst : fs'.lastClst = fs.lastClst
  freeClst : fs'.freeClst = fs.freeClst
  fsiFlag : fs'.fsiFlag = fs.fsiFlag

variable {dr g} {fs fs' fs'' : Fatfs δ} {fat : UInt32 → UInt32} {c clst ncl scl val : UInt32}

theorem SameData.refl (fs : Fatfs δ) : SameData dr g fs fs := ⟨fun _ _ _ => rfl⟩

theorem SameData.trans (h : SameData dr g fs fs') (h' : SameData dr g fs' fs'') :
    SameData dr g fs fs'' :=
  ⟨fun s hs hout => (h'.frame s hs hout).trans (h.frame s hs hout)⟩

theorem SameInfo.refl (fs : Fatfs δ) : SameInfo fs fs := ⟨rfl, rfl, rfl⟩

theorem SameInfo.trans (h : SameInfo fs fs') (h' : SameInfo fs' fs'') : SameInfo fs fs'' :=
  ⟨h'.lastClst.trans h.lastClst, h'.freeClst.trans h.freeClst, h'.fsiFlag.trans h.fsiFlag⟩

/-- What a FAT says is a matter of the clusters that there are. -/
theorem HasFat.congr {fat' : UInt32 → UInt32} (h : HasFat dr g fs fat)
    (heq : ∀ c, g.Valid c → fat' c = fat c) : HasFat dr g fs fat' :=
  ⟨h.coherent, fun c hc => by rw [heq c hc, h.entry c hc]⟩

theorem Keeps.hasFat (h : Keeps dr g fs fs') (hs : HasFat dr g fs fat) : HasFat dr g fs' fat where
  coherent := h.coherent hs.coherent
  entry c hc := by
    rw [← hs.entry c hc, Geometry.entry, Geometry.entry, h.fatMem hs.coherent]

theorem Keeps.sameData (h : Keeps dr g fs fs') (hc : Coherent dr g fs) : SameData dr g fs fs' :=
  ⟨fun s hs _ => h.view hc s hs⟩

theorem Keeps.sameInfo (h : Keeps dr g fs fs') : SameInfo fs fs' :=
  ⟨h.lastClst, h.freeClst, h.fsiFlag⟩

/-- `FATFS` knows something else of the free clusters. -/
theorem HasFat.info {lastClst freeClst : UInt32} {fsiFlag : UInt8} (h : HasFat dr g fs fat) :
    HasFat dr g { fs with lastClst := lastClst, freeClst := freeClst, fsiFlag := fsiFlag } fat :=
  ⟨⟨h.coherent.ordinary, h.coherent.clean⟩, h.entry⟩

/-- The FAT of an empty volume. -/
theorem emptyFatfs_hasFat (g : Geometry) : HasFat ramDrive g emptyFatfs fun _ => 0 where
  coherent := emptyFatfs_coherent g
  entry c _ := by
    have hmem : ∀ i, g.fatMem (emptyFatfs.view ramDrive) i = 0 := by
      intro i
      rw [Geometry.fatMem]
      split
      · exact view_emptyFatfs _ _
      · rfl
    refine ByteMem.field_eq (Nat.two_pow_pos _) fun i _ => ?_
    rw [ByteMem.bit, hmem]
    simp

/-- **Reading what the FAT says.** -/
structure Reads (dr : Drive δ) (g : Geometry) (fs : Fatfs δ) (fat : UInt32 → UInt32) (c : UInt32)
    (r : UInt32 × Fatfs δ) : Prop where
  hasFat : HasFat dr g r.2 fat
  value : r.1 ≠ 0xFFFFFFFF → r.1 = fat c
  data : SameData dr g fs r.2
  info : SameInfo fs r.2
  reliable : dr.Reliable → r.1 ≠ 0xFFFFFFFF

theorem getFat_reads (h : HasFat dr g fs fat) (hc : g.Valid c) :
    Reads dr g fs fat c (getFat dr g c fs) := by
  have hget := getFat_spec dr fs hc.1 hc.2
  refine ⟨hget.keeps.hasFat h, fun hne => ?_, hget.keeps.sameData h.coherent, hget.keeps.sameInfo,
    hget.reliable h.coherent⟩
  rw [← UInt32.toNat_inj, hget.value h.coherent hne, h.entry c hc]

/-- **Changing what the FAT says.** -/
structure Writes (dr : Drive δ) (g : Geometry) (fs : Fatfs δ) (fat : UInt32 → UInt32)
    (c val : UInt32) (r : FRESULT × Fatfs δ) : Prop where
  hasFat : ∃ v, HasFat dr g r.2 (Function.update fat c v) ∧ (r.1 = FR_OK → v = g.mask val) ∧
    (r.1 ≠ FR_OK → g.fsType ≠ FS_FAT12 → v = fat c)
  data : SameData dr g fs r.2
  info : SameInfo fs r.2
  result : r.1 = FR_OK ∨ r.1 = FR_DISK_ERR
  reliable : dr.Reliable → r.1 = FR_OK

theorem width_le_stride (t : FsType) : t.width ≤ t.stride := by cases t <;> decide

/-- Entries do not overlap. -/
theorem stride_disjoint {t : FsType} {i j n : ℕ} (hn : n ≤ t.width) (hne : i ≠ j) :
    t.stride * i + t.width ≤ t.stride * j ∨ t.stride * j + n ≤ t.stride * i := by
  have hwidth := width_le_stride t
  rcases Nat.lt_or_gt_of_ne hne with h | h
  · have := Nat.mul_le_mul_left t.stride (Nat.succ_le_of_lt h)
    rw [Nat.mul_succ] at this
    omega
  · have := Nat.mul_le_mul_left t.stride (Nat.succ_le_of_lt h)
    rw [Nat.mul_succ] at this
    omega

theorem torn_le_width (t : FsType) (c : ℕ) : t.torn c ≤ t.width := by
  cases t with
  | FS_FAT12 => exact torn_le c
  | FS_FAT16 => exact Nat.zero_le _
  | FS_FAT32 => exact Nat.zero_le _

theorem putFat_writes (val : UInt32) (h : HasFat dr g fs fat) (hc : g.Valid c) :
    Writes dr g fs fat c val (putFat dr g c val fs) := by
  have hput := putFat_spec dr fs val hc.1 hc.2
  refine ⟨?_, ⟨hput.frame h.coherent⟩, ⟨hput.lastClst, hput.freeClst, hput.fsiFlag⟩, hput.result,
    hput.reliable⟩
  revert hput
  generalize putFat dr g c val fs = r
  intro hput
  obtain ⟨n, hsets, hok, herr⟩ := hput.sets h.coherent
  have hn : n ≤ g.fsType.width := by
    by_cases hres : r.1 = FR_OK
    · exact Nat.le_of_eq (hok hres)
    · rcases herr hres with rfl | rfl
      · exact Nat.zero_le _
      · exact torn_le_width _ _
  have hlt := entry_lt g (r.2.view dr) c.toNat
  have hval : (UInt32.ofNat (g.entry (r.2.view dr) c.toNat)).toNat =
      g.entry (r.2.view dr) c.toNat := UInt32.toNat_ofNat_of_lt' (Nat.lt_trans hlt (by decide))
  refine ⟨UInt32.ofNat (g.entry (r.2.view dr) c.toNat), ⟨hput.coherent h.coherent, ?_⟩, ?_, ?_⟩
  · intro c' hc'
    by_cases heq : c' = c
    · subst heq
      rw [Function.update_self, hval]
    · rw [Function.update_of_ne heq, ← h.entry c' hc']
      exact hsets.field_of_disjoint (stride_disjoint hn fun hn => heq (UInt32.toNat_inj.1 hn))
  · intro hres
    have hfield := hok hres ▸ hsets
    rw [Geometry.mask, Geometry.entry, hfield.field_eq]
  · intro hres htype
    rw [← UInt32.toNat_inj, hval, ← h.entry c hc]
    refine hsets.field_of_disjoint (Or.inr ?_)
    rcases herr hres with rfl | rfl
    · exact Nat.le_refl _
    · rw [FsType.torn, if_neg htype]
      exact Nat.le_refl _

/-- What is seen of a FAT is some function. -/
theorem Coherent.hasFat (h : Coherent dr g fs) :
    HasFat dr g fs fun c => UInt32.ofNat (g.entry (fs.view dr) c.toNat) :=
  ⟨h, fun c _ => (UInt32.toNat_ofNat_of_lt'
    (Nat.lt_trans (entry_lt g (fs.view dr) c.toNat) (by decide))).symm⟩

/-- **`get_fat` tells what `put_fat` has stored**, of the cluster that it has been told, and what it
has told before of any other one. -/
theorem getFat_putFat (h : Coherent dr g fs) (hclst : g.Valid clst) (hc : g.Valid c) (val : UInt32)
    (hput : (putFat dr g clst val fs).1 = FR_OK)
    (hget : (getFat dr g c (putFat dr g clst val fs).2).1 ≠ 0xFFFFFFFF) :
    (getFat dr g c (putFat dr g clst val fs).2).1.toNat =
      if c = clst then val.toNat % 2 ^ g.fsType.width else g.entry (fs.view dr) c.toNat := by
  obtain ⟨v, hfat, hv, -⟩ := (putFat_writes val h.hasFat hclst).hasFat
  have hwidth : 2 ^ g.fsType.width < 2 ^ 32 := by cases g.fsType <;> decide
  have hmod := Nat.mod_lt val.toNat (Nat.two_pow_pos g.fsType.width)
  rw [(getFat_reads hfat hc).value hget]
  by_cases heq : c = clst
  · rw [if_pos heq, heq, Function.update_self, hv hput, Geometry.mask]
    exact UInt32.toNat_ofNat_of_lt' (Nat.lt_trans hmod hwidth)
  · rw [if_neg heq, Function.update_of_ne heq, ← h.hasFat.entry c hc]

/-- The first entry of 12 bits after the second one, with which it shares a byte, has been stored.
-/
theorem getFat_putFat_small :
    (getFat ramDrive smallGeometry 2 (putFat ramDrive smallGeometry 3 0xABC emptyFatfs).2).1.toNat =
      smallGeometry.entry (emptyFatfs.view ramDrive) 2 := by
  have htwo : smallGeometry.Valid 2 := ⟨by decide, by decide⟩
  have hthree : smallGeometry.Valid 3 := ⟨by decide, by decide⟩
  have hput := putFat_writes 0xABC (emptyFatfs_hasFat smallGeometry) hthree
  obtain ⟨v, hfat, -⟩ := hput.hasFat
  exact getFat_putFat (emptyFatfs_coherent smallGeometry) hthree htwo 0xABC
    (hput.reliable ramDrive_reliable) ((getFat_reads hfat htwo).reliable ramDrive_reliable)

/-! ### Looking for a free cluster -/

/-- What the search for a free cluster comes to. -/
inductive Found (dr : Drive δ) (g : Geometry) (fat : UInt32 → UInt32) : Except UInt32 UInt32 → Prop
  | free {ncl : UInt32} (valid : g.Valid ncl) (free : fat ncl = 0) : Found dr g fat (.ok ncl)
  | full (used : ∀ c, g.Valid c → fat c ≠ 0) : Found dr g fat (.error 0)
  | insane {c : UInt32} (valid : g.Valid c) (insane : fat c = 1) : Found dr g fat (.error 1)
  | failed (failed : ¬dr.Reliable) : Found dr g fat (.error 0xFFFFFFFF)

/-- What is asked of a function that looks for a free cluster. -/
structure Finds (dr : Drive δ) (g : Geometry) (fs : Fatfs δ) (fat : UInt32 → UInt32)
    (r : Except UInt32 UInt32 × Fatfs δ) : Prop where
  found : Found dr g fat r.1
  hasFat : HasFat dr g r.2 fat
  data : SameData dr g fs r.2
  info : SameInfo fs r.2

theorem nFatent_lt (g : Geometry) : g.nFatent.toNat < 2 ^ 28 := by
  refine Nat.lt_of_le_of_lt g.clusters.2 ?_
  cases g.fsType <;> decide

/-- How many clusters there are. -/
theorem toNat_clusters (g : Geometry) : (g.nFatent - 2).toNat = g.nFatent.toNat - 2 := by
  have hthree := g.clusters.1
  exact UInt32.toNat_sub_of_le _ _ (UInt32.le_iff_toNat_le.2 (by change 2 ≤ _; omega))

/-- The next cluster. -/
theorem toNat_add_one (hlt : ncl < g.nFatent) : (ncl + 1).toNat = ncl.toNat + 1 := by
  have h := UInt32.lt_iff_toNat_lt.1 hlt
  have hsmall := nFatent_lt g
  rw [UInt32.toNat_add]
  exact Nat.mod_eq_of_lt (by change ncl.toNat + 1 < _; omega)

/-- What has been looked at when the search has come to a cluster: those behind `scl`, or, once it
is around the end, those behind `scl` and those from the first one on. -/
def Searched (g : Geometry) (fat : UInt32 → UInt32) (scl ncl : ℕ) : Prop :=
  scl ≤ ncl ∧ (∀ c, g.Valid c → scl < c.toNat → c.toNat ≤ ncl → fat c ≠ 0) ∨
    ncl < scl ∧ ∀ c, g.Valid c → scl < c.toNat ∨ c.toNat ≤ ncl → fat c ≠ 0

/-- How many clusters are still to be looked at, at most. -/
def remaining (g : Geometry) (scl ncl : ℕ) : ℕ :=
  if scl ≤ ncl then g.nFatent.toNat - ncl + scl else scl - ncl

theorem valid_iff : g.Valid c ↔ 2 ≤ c.toNat ∧ c.toNat < g.nFatent.toNat := by
  rw [Geometry.Valid, UInt32.le_iff_toNat_le, UInt32.lt_iff_toNat_lt]
  rfl

/-- The cluster that is looked at next. -/
theorem toNat_next (hlt : ncl < g.nFatent) :
    (if g.nFatent ≤ ncl + 1 then 2 else ncl + 1).toNat =
      if g.nFatent.toNat ≤ ncl.toNat + 1 then 2 else ncl.toNat + 1 := by
  have hadd := toNat_add_one hlt
  by_cases hwrap : g.nFatent ≤ ncl + 1
  · have hwrap' := UInt32.le_iff_toNat_le.1 hwrap
    rw [hadd] at hwrap'
    rw [if_pos hwrap, if_pos hwrap']
    rfl
  · have hwrap' := mt UInt32.le_iff_toNat_le.2 hwrap
    rw [hadd] at hwrap'
    rw [if_neg hwrap, if_neg hwrap', hadd]

/-- A cluster that has been looked at. -/
theorem Searched.next {n m k : ℕ} (h : Searched g fat n m) (hfat : fat c ≠ 0) (hk : c.toNat = k)
    (hne : k ≠ n) (hnext : k = if g.nFatent.toNat ≤ m + 1 then 2 else m + 1)
    (hm : m < g.nFatent.toNat) (hwrap : g.nFatent.toNat ≤ m + 1 → 2 ≤ n) : Searched g fat n k := by
  have hused : ∀ c', g.Valid c' → c'.toNat = k → fat c' ≠ 0 := fun c' _ heq => by
    rw [UInt32.toNat_inj.1 (heq.trans hk.symm)]
    exact hfat
  by_cases hend : g.nFatent.toNat ≤ m + 1
  · rw [if_pos hend] at hnext
    have hn2 := hwrap hend
    refine Or.inr ⟨by omega, fun c' hc' hor => ?_⟩
    have hv := valid_iff.1 hc'
    rcases hor with hor | hor
    · rcases h with ⟨-, hall⟩ | ⟨hlt, hall⟩
      · exact hall c' hc' hor (by omega)
      · exact hall c' hc' (Or.inl hor)
    · exact hused c' hc' (by omega)
  · rw [if_neg hend] at hnext
    rcases h with ⟨hle, hall⟩ | ⟨hlt, hall⟩
    · refine Or.inl ⟨by omega, fun c' hc' hgt hle' => ?_⟩
      by_cases heq : c'.toNat = k
      · exact hused c' hc' heq
      · exact hall c' hc' hgt (by omega)
    · refine Or.inr ⟨by omega, fun c' hc' hor => ?_⟩
      by_cases heq : c'.toNat = k
      · exact hused c' hc' heq
      · exact hall c' hc' (by omega)

/-- Once the search is back at the cluster in front of which it has begun, it has looked at all. -/
theorem Searched.all {n m : ℕ} (h : Searched g fat n m) (hm : m < g.nFatent.toNat)
    (hnext : n = if g.nFatent.toNat ≤ m + 1 then 2 else m + 1)
    (hback : ∀ c, g.Valid c → c.toNat = n → fat c ≠ 0) : ∀ c, g.Valid c → fat c ≠ 0 := by
  intro c hc
  have hv := valid_iff.1 hc
  by_cases heq : c.toNat = n
  · exact hback c hc heq
  · split at hnext
    · rcases h with ⟨-, hall⟩ | ⟨hlt, hall⟩
      · exact hall c hc (by omega) (by omega)
      · exact hall c hc (by omega)
    · rcases h with ⟨hle, hall⟩ | ⟨hlt, hall⟩
      · omega
      · exact hall c hc (by omega)

/-- **The search ends**, with a free cluster if there is one. -/
theorem findFree_spec {fuel : ℕ} (h : HasFat dr g fs fat)
    (hs : Searched g fat scl.toNat ncl.toNat) (hpos : 1 ≤ scl.toNat) (hpos' : 1 ≤ ncl.toNat)
    (hscl : scl < g.nFatent) (hncl : ncl < g.nFatent)
    (hfuel : remaining g scl.toNat ncl.toNat ≤ fuel) :
    ∃ r, findFree dr g scl fuel ncl fs = some r ∧ Finds dr g fs fat r := by
  induction fuel generalizing ncl fs with
  | zero =>
      have hlt := UInt32.lt_iff_toNat_lt.1 hncl
      unfold remaining at hfuel
      split at hfuel
      · omega
      · omega
  | succ fuel ih =>
      have hlt := UInt32.lt_iff_toNat_lt.1 hncl
      have hlt' := UInt32.lt_iff_toNat_lt.1 hscl
      have hnext := toNat_next hncl
      have hthree := g.clusters.1
      rw [findFree]
      dsimp only
      generalize hn : (if g.nFatent ≤ ncl + 1 then 2 else ncl + 1) = n at hnext
      have hwrap : g.nFatent ≤ ncl + 1 ↔ g.nFatent.toNat ≤ ncl.toNat + 1 := by
        rw [UInt32.le_iff_toNat_le, toNat_add_one hncl]
      by_cases hend : g.nFatent ≤ ncl + 1 ∧ scl < n
      · rw [if_pos hend]
        refine ⟨_, rfl, Found.full fun c hc => ?_, h, SameData.refl fs, SameInfo.refl fs⟩
        have hv := valid_iff.1 hc
        rw [if_pos (hwrap.1 hend.1)] at hnext
        have hone := UInt32.lt_iff_toNat_lt.1 hend.2
        have hend' := hwrap.1 hend.1
        rcases hs with ⟨-, hall⟩ | ⟨hgt, -⟩
        · exact hall c hc (by omega) (by omega)
        · omega
      · rw [if_neg hend]
        have htwo : g.nFatent.toNat ≤ ncl.toNat + 1 → 2 ≤ scl.toNat := fun hw => by
          have hno := not_and.1 hend (hwrap.2 hw)
          rw [UInt32.lt_iff_toNat_lt, hnext, if_pos hw] at hno
          omega
        have hvalid : g.Valid n := by
          rw [valid_iff, hnext]
          split
          · omega
          · omega
        have hread := getFat_reads h hvalid
        revert hread
        generalize getFat dr g n fs = r
        intro hread
        by_cases hfree : r.1 = 0
        · rw [if_pos hfree]
          refine ⟨_, rfl, Found.free hvalid ?_, hread.hasFat, hread.data, hread.info⟩
          rw [← hread.value (by rw [hfree]; decide), hfree]
        rw [if_neg hfree]
        by_cases herr : r.1 = 1 ∨ r.1 = 0xFFFFFFFF
        · rw [if_pos herr]
          refine ⟨_, rfl, ?_, hread.hasFat, hread.data, hread.info⟩
          rcases herr with herr | herr
          · rw [herr]
            exact Found.insane hvalid (by rw [← hread.value (by rw [herr]; decide), herr])
          · rw [herr]
            exact Found.failed fun hrel => hread.reliable hrel herr
        rw [if_neg herr]
        have hused : fat n ≠ 0 := by
          rw [← hread.value (not_or.1 herr).2]
          exact hfree
        by_cases hback : n = scl
        · rw [if_pos hback]
          refine ⟨_, rfl, Found.full (hs.all hlt (by rw [← hback, hnext]) ?_), hread.hasFat,
            hread.data, hread.info⟩
          intro c _ heq
          rw [UInt32.toNat_inj.1 heq, ← hback]
          exact hused
        · rw [if_neg hback]
          have hne : n.toNat ≠ scl.toNat := fun heq => hback (UInt32.toNat_inj.1 heq)
          obtain ⟨t, ht, hfinds⟩ := ih hread.hasFat
            (hs.next hused rfl hne hnext hlt htwo) (by have := valid_iff.1 hvalid; omega)
            hvalid.2 (by
              have hv := valid_iff.1 hvalid
              unfold remaining at hfuel ⊢
              split at hnext
              all_goals
                split at hfuel
                all_goals
                  split
                  all_goals omega)
          exact ⟨t, ht, hfinds.found, hfinds.hasFat, hread.data.trans hfinds.data,
            hread.info.trans hfinds.info⟩

theorem Finds.trans {r : Except UInt32 UInt32 × Fatfs δ} (h : Finds dr g fs' fat r)
    (hdata : SameData dr g fs fs') (hinfo : SameInfo fs fs') : Finds dr g fs fat r :=
  ⟨h.found, h.hasFat, hdata.trans h.data, hinfo.trans h.info⟩

/-- The search from a cluster on, all the way round. -/
theorem findFree_self {fuel : ℕ} (h : HasFat dr g fs fat) (hpos : 1 ≤ scl.toNat)
    (hscl : scl < g.nFatent) (hfuel : g.nFatent.toNat ≤ fuel) :
    ∃ r, findFree dr g scl fuel scl fs = some r ∧ Finds dr g fs fat r := by
  refine findFree_spec h (Or.inl ⟨Nat.le_refl _, fun c _ hlt hle => ?_⟩) hpos hpos hscl hscl ?_
  · exact absurd hle (by omega)
  · have hlt := UInt32.lt_iff_toNat_lt.1 hscl
    rw [remaining, if_pos (Nat.le_refl _)]
    omega

/-- **A free cluster is chosen**, if there is one. -/
theorem chooseFree_spec {fuel : ℕ} (clst : UInt32) (h : HasFat dr g fs fat) (hpos : 1 ≤ scl.toNat)
    (hscl : scl < g.nFatent) (hfuel : g.nFatent.toNat ≤ fuel) :
    ∃ r, chooseFree dr g fuel clst scl fs = some r ∧ Finds dr g fs fat r := by
  unfold chooseFree
  by_cases hclst : scl = clst
  · rw [if_pos hclst]
    dsimp only
    have hvalid : g.Valid (if g.nFatent ≤ scl + 1 then 2 else scl + 1) := by
      have hthree := g.clusters.1
      rw [valid_iff, toNat_next hscl]
      split
      · omega
      · omega
    have hread := getFat_reads h hvalid
    revert hread
    generalize getFat dr g (if g.nFatent ≤ scl + 1 then 2 else scl + 1) fs = r
    intro hread
    by_cases herr : r.1 = 1 ∨ r.1 = 0xFFFFFFFF
    · rw [if_pos herr]
      refine ⟨_, rfl, ?_, hread.hasFat, hread.data, hread.info⟩
      rcases herr with herr | herr
      · rw [herr]
        exact Found.insane hvalid (by rw [← hread.value (by rw [herr]; decide), herr])
      · rw [herr]
        exact Found.failed fun hrel => hread.reliable hrel herr
    rw [if_neg herr]
    by_cases hused : r.1 ≠ 0
    · -- the cluster behind is in use, and the search begins at the last one given out
      rw [if_pos hused]
      have hstart : 1 ≤ (if 2 ≤ r.2.lastClst ∧ r.2.lastClst < g.nFatent then r.2.lastClst
          else scl).toNat ∧ (if 2 ≤ r.2.lastClst ∧ r.2.lastClst < g.nFatent then r.2.lastClst
          else scl) < g.nFatent := by
        split
        · rename_i hlast
          exact ⟨Nat.le_trans (by decide) (UInt32.le_iff_toNat_le.1 hlast.1), hlast.2⟩
        · exact ⟨hpos, hscl⟩
      obtain ⟨t, ht, hfinds⟩ := findFree_self hread.hasFat hstart.1 hstart.2 hfuel
      exact ⟨t, ht, hfinds.trans hread.data hread.info⟩
    · rw [if_neg hused]
      have hzero := not_not.1 hused
      refine ⟨_, rfl, Found.free hvalid ?_, hread.hasFat, hread.data, hread.info⟩
      rw [← hread.value (by rw [hzero]; decide), hzero]
  · rw [if_neg hclst]
    exact findFree_self h hpos hscl hfuel

/-! ### A new cluster -/

/-- What follows a cluster in its chain. -/
def Geometry.next (g : Geometry) (fat : UInt32 → UInt32) (c : UInt32) : Option UInt32 :=
  if g.nFatent ≤ fat c then none else some (fat c)

/-- The FAT with `ncl` as the last cluster of a chain, behind `clst` if that is one. -/
def Geometry.link (g : Geometry) (fat : UInt32 → UInt32) (clst ncl : UInt32) : UInt32 → UInt32 :=
  fun c =>
    if clst ≠ 0 ∧ c = clst then ncl else if c = ncl then g.mask 0xFFFFFFFF else fat c

theorem link_self (h : clst ≠ 0) : g.link fat clst ncl clst = ncl := if_pos ⟨h, rfl⟩

theorem link_new (h : ncl ≠ clst) : g.link fat clst ncl ncl = g.mask 0xFFFFFFFF := by
  rw [Geometry.link, if_neg fun heq => h heq.2, if_pos rfl]

theorem link_other (h : c ≠ clst) (h' : c ≠ ncl) : g.link fat clst ncl c = fat c := by
  rw [Geometry.link, if_neg fun heq => h heq.2, if_neg h']

theorem nFatent_le_width (g : Geometry) : g.nFatent.toNat < 2 ^ g.fsType.width := by
  refine Nat.lt_of_le_of_lt g.clusters.2 ?_
  cases g.fsType <;> decide

/-- A cluster fits into an entry. -/
theorem mask_valid (hc : g.Valid c) : g.mask c = c := by
  have hlt := nFatent_le_width g
  have hv := valid_iff.1 hc
  rw [Geometry.mask, Nat.mod_eq_of_lt (by omega), UInt32.ofNat_toNat]

/-- The mark for the last cluster is the number of none. -/
theorem le_mask_eoc (g : Geometry) : g.nFatent ≤ g.mask 0xFFFFFFFF := by
  have hmax := g.clusters.2
  rw [UInt32.le_iff_toNat_le, Geometry.mask]
  cases htype : g.fsType
  all_goals
    rw [htype] at hmax
    refine Nat.le_trans hmax ?_
    decide

/-- What `create_chain` comes to, to put a cluster behind `clst`, or to begin a chain if that is
0. -/
inductive Created (dr : Drive δ) (g : Geometry) (fs : Fatfs δ) (fat : UInt32 → UInt32)
    (clst : UInt32) (r : UInt32 × Fatfs δ) : Prop
  /-- There is a cluster behind `clst` already. -/
  | followed (start : clst ≠ 0) (next : 2 ≤ fat clst ∧ fat clst < g.nFatent)
      (value : r.1 = fat clst) (hasFat : HasFat dr g r.2 fat) (info : SameInfo fs r.2)
  /-- No cluster is behind `clst`, and there is no free one, or none is known of. -/
  | full (used : fs.freeClst = 0 ∨ ∀ c, g.Valid c → fat c ≠ 0) (value : r.1 = 0)
      (hasFat : HasFat dr g r.2 fat) (info : SameInfo fs r.2)
      (last : clst = 0 ∨ g.nFatent ≤ fat clst)
  /-- Some entry is not what one may be. -/
  | insane (entry : ∃ c, g.Valid c ∧ (fat c = 1 ∨ c = clst ∧ fat c = 0)) (value : r.1 = 1)
      (hasFat : HasFat dr g r.2 fat) (info : SameInfo fs r.2)
  /-- The drive has failed; what has been changed is a free cluster and, in a FAT of 12 bits,
  `clst`. -/
  | failed (failed : ¬dr.Reliable) (value : r.1 = 0xFFFFFFFF) (fat' : UInt32 → UInt32)
      (hasFat : HasFat dr g r.2 fat') (info : SameInfo fs r.2)
      (kept : ∀ c, fat c ≠ 0 → c ≠ clst ∨ g.fsType ≠ FS_FAT12 → fat' c = fat c)
  /-- A free cluster has been put behind `clst`. -/
  | linked (valid : g.Valid r.1) (free : fat r.1 = 0) (last : clst = 0 ∨ g.nFatent ≤ fat clst)
      (hasFat : HasFat dr g r.2 (g.link fat clst r.1)) (lastClst : r.2.lastClst = r.1)
      (freeClst : r.2.freeClst =
        if fs.freeClst ≤ g.nFatent - 2 then fs.freeClst - 1 else fs.freeClst)
      (fsiFlag : r.2.fsiFlag = fs.fsiFlag ||| 1)

/-- A drive that has failed is not reliable. -/
theorem Writes.not_reliable {r : FRESULT × Fatfs δ} (h : Writes dr g fs fat c val r)
    (hr : r.1 ≠ FR_OK) : ¬dr.Reliable := fun hrel => hr (h.reliable hrel)

/-- A chain that begins is marked as ending. -/
theorem link_zero (g : Geometry) (fat : UInt32 → UInt32) (ncl : UInt32) :
    g.link fat 0 ncl = Function.update fat ncl (g.mask 0xFFFFFFFF) := by
  funext c
  rw [Geometry.link, if_neg (by simp)]
  by_cases hc : c = ncl
  · subst hc
    rw [if_pos rfl, Function.update_self]
  · rw [if_neg hc, Function.update_of_ne hc]

theorem link_of_ne_zero (hne : clst ≠ 0) (hncl : g.Valid ncl) :
    g.link fat clst ncl =
      Function.update (Function.update fat ncl (g.mask 0xFFFFFFFF)) clst (g.mask ncl) := by
  funext c
  rw [Geometry.link, mask_valid hncl]
  by_cases hc : c = clst
  · subst hc
    rw [if_pos ⟨hne, rfl⟩, Function.update_self]
  · rw [if_neg fun h => hc h.2, Function.update_of_ne hc]
    by_cases hn : c = ncl
    · subst hn
      rw [if_pos rfl, Function.update_self]
    · rw [if_neg hn, Function.update_of_ne hn]

/-- **The new cluster is put behind the chain.** -/
theorem linkNew_spec (h : HasFat dr g fs fat) (hncl : g.Valid ncl) (hfree : fat ncl = 0)
    (hclst : clst = 0 ∨ g.Valid clst ∧ g.nFatent ≤ fat clst) :
    Created dr g fs fat clst (linkNew dr g clst ncl fs) ∧
      SameData dr g fs (linkNew dr g clst ncl fs).2 := by
  have hused : ∀ c, fat c ≠ 0 → c ≠ ncl := by
    rintro c hc rfl
    exact hc hfree
  have hmark := putFat_writes 0xFFFFFFFF h hncl
  unfold linkNew
  revert hmark
  generalize putFat dr g ncl 0xFFFFFFFF fs = r
  intro hmark
  obtain ⟨v, hfat, hok, -⟩ := hmark.hasFat
  dsimp only
  by_cases hr : r.1 = FR_OK
  · obtain rfl := hok hr
    by_cases hzero : clst = 0
    · subst hzero
      rw [if_neg (c := r.1 = FR_OK ∧ (0 : UInt32) ≠ 0) (by simp), if_pos hr]
      refine ⟨.linked hncl hfree (Or.inl rfl) ?_ rfl ?_ ?_, ⟨hmark.data.frame⟩⟩
      · rw [link_zero]
        exact hfat.info
      · dsimp only
        rw [hmark.info.freeClst]
      · dsimp only
        rw [hmark.info.fsiFlag]
    · obtain ⟨hvalid, hend⟩ := hclst.resolve_left hzero
      have hne : clst ≠ ncl := by
        rintro rfl
        rw [hfree] at hend
        have hthree := g.clusters.1
        have hle := UInt32.le_iff_toNat_le.1 hend
        exact absurd hle (by change ¬g.nFatent.toNat ≤ 0; omega)
      have hlink := putFat_writes ncl hfat hvalid
      rw [if_pos (c := r.1 = FR_OK ∧ clst ≠ 0) ⟨hr, hzero⟩]
      revert hlink
      generalize putFat dr g clst ncl r.2 = t
      intro hlink
      obtain ⟨v, hfat', hok', herr'⟩ := hlink.hasFat
      by_cases ht : t.1 = FR_OK
      · obtain rfl := hok' ht
        rw [if_pos ht]
        refine ⟨.linked hncl hfree (Or.inr hend) ?_ rfl ?_ ?_,
          ⟨(hmark.data.trans hlink.data).frame⟩⟩
        · rw [link_of_ne_zero hzero hncl]
          exact hfat'.info
        · dsimp only
          rw [hlink.info.freeClst, hmark.info.freeClst]
        · dsimp only
          rw [hlink.info.fsiFlag, hmark.info.fsiFlag]
      · rw [if_neg ht, if_pos (hlink.result.resolve_left ht)]
        refine ⟨.failed (hlink.not_reliable ht) rfl _ hfat' (hmark.info.trans hlink.info)
          fun c hc hor => ?_, hmark.data.trans hlink.data⟩
        by_cases heq : c = clst
        · subst heq
          rw [Function.update_self, herr' ht (hor.resolve_left fun h => h rfl),
            Function.update_of_ne hne]
        · rw [Function.update_of_ne heq, Function.update_of_ne (hused c hc)]
  · rw [if_neg (c := r.1 = FR_OK ∧ clst ≠ 0) (fun h => hr h.1), if_neg hr,
      if_pos (hmark.result.resolve_left hr)]
    refine ⟨.failed (hmark.not_reliable hr) rfl _ hfat hmark.info fun c hc _ => ?_, hmark.data⟩
    rw [Function.update_of_ne (hused c hc)]

/-- Reading an entry first. -/
theorem Created.of_read {r : UInt32 × Fatfs δ} (h : Created dr g fs' fat clst r)
    (hinfo : SameInfo fs fs') : Created dr g fs fat clst r := by
  cases h with
  | followed hstart hnext hvalue hfat hinfo' =>
      exact .followed hstart hnext hvalue hfat (hinfo.trans hinfo')
  | full hused hvalue hfat hinfo' hlast =>
      refine .full ?_ hvalue hfat (hinfo.trans hinfo') hlast
      rwa [← hinfo.freeClst]
  | insane hentry hvalue hfat hinfo' => exact .insane hentry hvalue hfat (hinfo.trans hinfo')
  | failed hfailed hvalue fat' hfat hinfo' hkept =>
      exact .failed hfailed hvalue fat' hfat (hinfo.trans hinfo') hkept
  | linked hvalid hfree hlast hfat hlastClst hfreeClst hfsiFlag =>
      refine .linked hvalid hfree hlast hfat hlastClst ?_ ?_
      · rw [← hinfo.freeClst, hfreeClst]
      · rw [← hinfo.fsiFlag, hfsiFlag]

/-- The place from which `create_chain` starts to look. -/
theorem createFrom_spec {fuel : ℕ} (h : HasFat dr g fs fat)
    (hclst : clst = 0 ∨ g.Valid clst ∧ g.nFatent ≤ fat clst) (hpos : 1 ≤ scl.toNat)
    (hscl : scl < g.nFatent) (hfuel : g.nFatent.toNat ≤ fuel) :
    ∃ r, createFrom dr g fuel clst scl fs = some r ∧ Created dr g fs fat clst r ∧
      SameData dr g fs r.2 := by
  have hlast : clst = 0 ∨ g.nFatent ≤ fat clst := hclst.imp_right And.right
  unfold createFrom
  by_cases hnone : fs.freeClst = 0
  · rw [if_pos hnone]
    exact ⟨_, rfl, .full (Or.inl hnone) rfl h (SameInfo.refl fs) hlast, SameData.refl fs⟩
  rw [if_neg hnone]
  obtain ⟨⟨out, fs'⟩, ht, hfinds⟩ := chooseFree_spec clst h hpos hscl hfuel
  rw [ht, Option.map_some]
  refine ⟨_, rfl, ?_⟩
  have hfound := hfinds.found
  dsimp only at hfound
  cases hfound with
  | free hvalid hfree =>
      obtain ⟨hcreated, hdata⟩ := linkNew_spec hfinds.hasFat hvalid hfree hclst
      exact ⟨hcreated.of_read hfinds.info, hfinds.data.trans hdata⟩
  | full hused => exact ⟨.full (Or.inr hused) rfl hfinds.hasFat hfinds.info hlast, hfinds.data⟩
  | insane hvalid hone =>
      exact ⟨.insane ⟨_, hvalid, Or.inl hone⟩ rfl hfinds.hasFat hfinds.info, hfinds.data⟩
  | failed hfailed =>
      exact ⟨.failed hfailed rfl fat hfinds.hasFat hfinds.info fun _ _ _ => rfl, hfinds.data⟩

/-- What `create_chain` comes to. -/
theorem createChain_creates {fuel : ℕ} (h : HasFat dr g fs fat) (hclst : clst = 0 ∨ g.Valid clst)
    (hfuel : g.nFatent.toNat ≤ fuel) :
    ∃ r, createChain dr g fuel clst fs = some r ∧ Created dr g fs fat clst r ∧
      SameData dr g fs r.2 := by
  unfold createChain
  by_cases hzero : clst = 0
  · rw [if_pos hzero]
    dsimp only
    have hstart : 1 ≤ (if fs.lastClst = 0 ∨ g.nFatent ≤ fs.lastClst then 1 else fs.lastClst).toNat ∧
        (if fs.lastClst = 0 ∨ g.nFatent ≤ fs.lastClst then 1 else fs.lastClst) < g.nFatent := by
      split
      · have hthree := g.clusters.1
        rw [UInt32.lt_iff_toNat_lt]
        exact ⟨Nat.le_refl 1, by change 1 < g.nFatent.toNat; omega⟩
      · rename_i hlast
        obtain ⟨hne, hlt⟩ := not_or.1 hlast
        refine ⟨Nat.pos_of_ne_zero fun h => hne (UInt32.toNat_inj.1 h), ?_⟩
        exact UInt32.not_le.1 hlt
    exact createFrom_spec h (Or.inl hzero) hstart.1 hstart.2 hfuel
  · rw [if_neg hzero]
    have hvalid := hclst.resolve_left hzero
    have hread := getFat_reads h hvalid
    revert hread
    generalize getFat dr g clst fs = r
    intro hread
    dsimp only
    by_cases hlow : r.1 < 2
    · rw [if_pos hlow]
      have hval := hread.value (by rintro heq; rw [heq] at hlow; exact absurd hlow (by decide))
      refine ⟨_, rfl, .insane ⟨clst, hvalid, ?_⟩ rfl hread.hasFat hread.info, hread.data⟩
      have hlow' := UInt32.lt_iff_toNat_lt.1 hlow
      rw [← hval, ← UInt32.toNat_inj, ← UInt32.toNat_inj (a := r.1) (b := 0)]
      change r.1.toNat < 2 at hlow'
      change r.1.toNat = 1 ∨ clst = clst ∧ r.1.toNat = 0
      rcases Nat.eq_zero_or_pos r.1.toNat with hz | hp
      · exact Or.inr ⟨rfl, hz⟩
      · exact Or.inl (by omega)
    rw [if_neg hlow]
    by_cases herr : r.1 = 0xFFFFFFFF
    · rw [if_pos herr]
      exact ⟨_, rfl, .failed (fun hrel => hread.reliable hrel herr) herr fat hread.hasFat
        hread.info fun _ _ _ => rfl, hread.data⟩
    rw [if_neg herr]
    have hval := hread.value herr
    by_cases hnext : r.1 < g.nFatent
    · rw [if_pos hnext]
      rw [hval] at hlow hnext
      exact ⟨_, rfl, .followed hzero ⟨UInt32.not_lt.1 hlow, hnext⟩ hval hread.hasFat hread.info,
        hread.data⟩
    · rw [if_neg hnext]
      rw [hval] at hnext
      have hpos : 1 ≤ clst.toNat := Nat.le_trans (by decide) (valid_iff.1 hvalid).1
      obtain ⟨t, ht, hcreated, hdata⟩ := createFrom_spec hread.hasFat
        (Or.inr ⟨hvalid, UInt32.not_lt.1 hnext⟩) hpos hvalid.2 hfuel
      exact ⟨t, ht, hcreated.of_read hread.info, hread.data.trans hdata⟩

/-- **What `create_chain` does**, whatever the drive answers. -/
theorem createChain_spec {fuel : ℕ} (h : HasFat dr g fs fat) (hclst : clst = 0 ∨ g.Valid clst)
    (hfuel : g.nFatent.toNat ≤ fuel) :
    ∃ r, createChain dr g fuel clst fs = some r ∧ Created dr g fs fat clst r ∧
      SameData dr g fs r.2 :=
  createChain_creates h hclst hfuel

theorem createChain_small : ∃ r, createChain ramDrive smallGeometry 100 0 emptyFatfs = some r ∧
    Created ramDrive smallGeometry emptyFatfs (fun _ => 0) 0 r ∧
      SameData ramDrive smallGeometry emptyFatfs r.2 :=
  createChain_spec (emptyFatfs_hasFat smallGeometry) (Or.inl rfl) (Nat.le_refl _)

/-! ### Freeing a chain -/

/-- What `remove_chain` comes to, for the clusters `l` of a chain. -/
structure Removed (dr : Drive δ) (g : Geometry) (fs : Fatfs δ) (fat : UInt32 → UInt32)
    (l : List UInt32) (r : FRESULT × Fatfs δ) : Prop where
  hasFat : ∃ fat', HasFat dr g r.2 fat' ∧ (∀ c, c ∉ l → fat' c = fat c) ∧
    (r.1 = FR_OK → ∀ c ∈ l, fat' c = 0) ∧
      (g.fsType ≠ FS_FAT12 → ∃ p s, l = p ++ s ∧ (∀ c ∈ p, fat' c = 0) ∧ ∀ c ∈ s, fat' c = fat c)
  result : r.1 = FR_OK ∨ r.1 = FR_DISK_ERR
  reliable : dr.Reliable → r.1 = FR_OK
  data : SameData dr g fs r.2
  freeClst : r.1 = FR_OK → r.2.freeClst.toNat =
    if fs.freeClst.toNat ≤ g.nFatent.toNat - 2 then
      min (fs.freeClst.toNat + l.length) (g.nFatent.toNat - 2)
    else fs.freeClst.toNat

open Chains

/-- What follows a cluster of a chain is one that there is, or it is the last one. -/
theorem next_eq_some {b : UInt32} (h : g.next fat c = some b) : fat c < g.nFatent ∧ fat c = b := by
  rw [Geometry.next] at h
  split at h
  · cases h
  · rename_i hlt
    exact ⟨UInt32.not_le.1 hlt, Option.some.inj h⟩

theorem next_eq_none (h : g.next fat c = none) : g.nFatent ≤ fat c := by
  rw [Geometry.next] at h
  split at h
  · assumption
  · cases h

/-- The entry of a cluster of a chain is neither free nor insane. -/
theorem two_le_of_chain {l : List UInt32} (h : Chain (g.next fat) (c :: l))
    (hv : ∀ b ∈ c :: l, g.Valid b) : 2 ≤ fat c := by
  cases l with
  | nil =>
      have hend := UInt32.le_iff_toNat_le.1 (next_eq_none h)
      have hthree := g.clusters.1
      rw [UInt32.le_iff_toNat_le]
      change 2 ≤ (fat c).toNat
      omega
  | cons b l =>
      rw [(next_eq_some h.1).2]
      exact (hv b (List.mem_cons_of_mem c List.mem_cons_self)).1

theorem mask_zero (g : Geometry) : g.mask 0 = 0 := by
  rw [Geometry.mask]
  change UInt32.ofNat (0 % _) = 0
  rw [Nat.zero_mod]
  rfl

/-- The drive has failed before anything was freed. -/
theorem removed_of_failed {l : List UInt32} {r : FRESULT × Fatfs δ} {fat' : UInt32 → UInt32}
    (hfat : HasFat dr g r.2 fat') (hout : ∀ c, c ∉ l → fat' c = fat c)
    (hin : g.fsType ≠ FS_FAT12 → ∀ c ∈ l, fat' c = fat c) (hr : r.1 = FR_DISK_ERR)
    (hrel : ¬dr.Reliable) (hdata : SameData dr g fs r.2) : Removed dr g fs fat l r := by
  have hne : r.1 ≠ FR_OK := by
    rw [hr]
    nofun
  refine ⟨⟨fat', hfat, hout, fun h => absurd h hne, fun ht => ⟨[], l, rfl, nofun, hin ht⟩⟩,
    Or.inr hr, fun h => absurd h hrel, hdata, fun h => absurd h hne⟩

/-- The count of the free clusters, after one has been freed. -/
theorem freeClst_succ {n k : ℕ} {m : UInt32}
    (hm : m = if fs.freeClst < g.nFatent - 2 then fs.freeClst + 1 else fs.freeClst)
    (hn : n = if m.toNat ≤ g.nFatent.toNat - 2 then min (m.toNat + k) (g.nFatent.toNat - 2)
      else m.toNat) :
    n = if fs.freeClst.toNat ≤ g.nFatent.toNat - 2 then
        min (fs.freeClst.toNat + (k + 1)) (g.nFatent.toNat - 2)
      else fs.freeClst.toNat := by
  have hthree := g.clusters.1
  have hlt := nFatent_lt g
  have hsub := toNat_clusters g
  have hiff : fs.freeClst < g.nFatent - 2 ↔ fs.freeClst.toNat < g.nFatent.toNat - 2 := by
    rw [UInt32.lt_iff_toNat_lt, hsub]
  by_cases hroom : fs.freeClst.toNat < g.nFatent.toNat - 2
  · rw [if_pos (hiff.2 hroom)] at hm
    have hm' : m.toNat = fs.freeClst.toNat + 1 := by
      rw [hm, UInt32.toNat_add]
      exact Nat.mod_eq_of_lt (by change fs.freeClst.toNat + 1 < _; omega)
    rw [hm', if_pos (by omega)] at hn
    rw [if_pos (by omega)]
    omega
  · rw [if_neg (mt hiff.1 hroom)] at hm
    subst hm
    split at hn
    · rename_i hle
      rw [if_pos hle]
      omega
    · rename_i hle
      rw [if_neg hle]
      exact hn

/-- What one round of the loop comes to: the drive fails, or the cluster is freed. -/
inductive Round (dr : Drive δ) (g : Geometry) (fs : Fatfs δ) (fat : UInt32 → UInt32)
    (clst : UInt32) (fuel : ℕ) (out : Option (FRESULT × Fatfs δ)) : Prop
  | failed (r : FRESULT × Fatfs δ) (fat' : UInt32 → UInt32) (out_eq : out = some r)
      (value : r.1 = FR_DISK_ERR) (failed : ¬dr.Reliable) (hasFat : HasFat dr g r.2 fat')
      (others : ∀ c, c ≠ clst → fat' c = fat c) (whole : g.fsType ≠ FS_FAT12 → fat' clst = fat clst)
      (data : SameData dr g fs r.2)
  | freed (fs' : Fatfs δ)
      (out_eq : out =
        if fat clst < g.nFatent then removeLoop dr g fuel (fat clst) fs' else some (FR_OK, fs'))
      (hasFat : HasFat dr g fs' (Function.update fat clst 0)) (data : SameData dr g fs fs')
      (freeClst : fs'.freeClst =
        if fs.freeClst < g.nFatent - 2 then fs.freeClst + 1 else fs.freeClst)

/-- One round of the loop. -/
theorem removeLoop_round (h : HasFat dr g fs fat) (hc : g.Valid clst) (htwo : 2 ≤ fat clst)
    (fuel : ℕ) : Round dr g fs fat clst fuel (removeLoop dr g (fuel + 1) clst fs) := by
  have hread := getFat_reads h hc
  rw [removeLoop]
  revert hread
  generalize getFat dr g clst fs = r
  intro hread
  dsimp only
  by_cases herr : r.1 = 0xFFFFFFFF
  · rw [if_neg (by rw [herr]; decide), if_neg (by rw [herr]; decide), if_pos herr]
    exact .failed _ fat rfl rfl (fun hrel => hread.reliable hrel herr) hread.hasFat
      (fun _ _ => rfl) (fun _ => rfl) hread.data
  have hval := hread.value herr
  have htwo' : 2 ≤ (fat clst).toNat := UInt32.le_iff_toNat_le.1 htwo
  rw [if_neg (by rw [hval]; rintro h0; rw [h0] at htwo'; exact absurd htwo' (by decide)),
    if_neg (by rw [hval]; rintro h1; rw [h1] at htwo'; exact absurd htwo' (by decide)),
    if_neg herr, hval]
  have hput := putFat_writes 0 hread.hasFat hc
  revert hput
  generalize putFat dr g clst 0 r.2 = t
  intro hput
  obtain ⟨v, hfat, hok, hkept⟩ := hput.hasFat
  have hdata := hread.data.trans hput.data
  by_cases ht : t.1 = FR_OK
  · rw [if_neg (not_not.2 ht)]
    obtain rfl := hok ht
    rw [mask_zero] at hfat
    have hfree : t.2.freeClst = fs.freeClst := hput.info.freeClst.trans hread.info.freeClst
    refine .freed _ rfl ?_ ?_ ?_
    · split
      · exact hfat.info
      · exact hfat
    · split
      · exact ⟨hdata.frame⟩
      · exact hdata
    · rw [hfree]
      split
      · rfl
      · exact hfree
  · rw [if_pos ht]
    refine .failed t _ rfl (hput.result.resolve_left ht) (hput.not_reliable ht) hfat
      (fun c hne => Function.update_of_ne hne _ _) (fun htype => ?_) hdata
    rw [Function.update_self, hkept ht htype]

/-- **The loop frees the chain.** -/
theorem removeLoop_spec {fuel : ℕ} {l : List UInt32} (h : HasFat dr g fs fat)
    (hchain : Chain (g.next fat) (clst :: l)) (hv : ∀ c ∈ clst :: l, g.Valid c)
    (hfuel : (clst :: l).length ≤ fuel) :
    ∃ r, removeLoop dr g fuel clst fs = some r ∧ Removed dr g fs fat (clst :: l) r := by
  induction l generalizing clst fs fat fuel with
  | nil =>
      obtain ⟨fuel, rfl⟩ := Nat.exists_eq_add_of_le' hfuel
      have hround := removeLoop_round h (hv clst List.mem_cons_self) (two_le_of_chain hchain hv)
        fuel
      cases hround with
      | failed r fat' hout hr hrel hfat hothers hwhole hdata =>
          refine ⟨r, hout, removed_of_failed hfat (fun c hc => hothers c ?_) (fun ht c hc => ?_) hr
            hrel hdata⟩
          · rintro rfl
            exact hc List.mem_cons_self
          · rw [List.mem_singleton.1 hc, hwhole ht]
      | freed fs' hout hfat hdata hfree =>
          rw [if_neg (UInt32.not_lt.2 (next_eq_none hchain))] at hout
          refine ⟨_, hout, ⟨_, hfat, fun c hc => ?_, fun _ c hc => ?_, fun _ =>
            ⟨[clst], [], rfl, fun c hc => ?_, nofun⟩⟩, Or.inl rfl, fun _ => rfl, hdata,
            fun _ => freeClst_succ (k := 0) hfree ?_⟩
          · exact Function.update_of_ne (fun heq => hc (List.mem_singleton.2 heq)) _ _
          · rw [List.mem_singleton.1 hc, Function.update_self]
          · rw [List.mem_singleton.1 hc, Function.update_self]
          · split
            · rw [Nat.add_zero, Nat.min_eq_left]
              assumption
            · rfl
  | cons b l ih =>
      obtain ⟨fuel, rfl⟩ := Nat.exists_eq_add_of_le' (Nat.le_trans (Nat.le_add_left 1 _) hfuel)
      have hround := removeLoop_round h (hv clst List.mem_cons_self) (two_le_of_chain hchain hv)
        fuel
      have hnodup := List.nodup_cons.1 hchain.nodup
      cases hround with
      | failed r fat' hout hr hrel hfat hothers hwhole hdata =>
          refine ⟨r, hout, removed_of_failed hfat (fun c hc => hothers c ?_) (fun ht c _ => ?_) hr
            hrel hdata⟩
          · rintro rfl
            exact hc List.mem_cons_self
          · by_cases heq : c = clst
            · rw [heq, hwhole ht]
            · exact hothers c heq
      | freed fs' hout hfat hdata hfree =>
          obtain ⟨hlt, hnext⟩ := next_eq_some hchain.1
          have hrest : Chain (g.next (Function.update fat clst 0)) (b :: l) := by
            refine hchain.2.congr fun c hc => ?_
            have hne : c ≠ clst := fun h => hnodup.1 (h ▸ hc)
            rw [Geometry.next, Geometry.next, Function.update_of_ne hne]
          rw [if_pos hlt, hnext] at hout
          obtain ⟨r, hr, hremoved⟩ := ih hfat hrest
            (fun c hc => hv c (List.mem_cons_of_mem clst hc))
            (Nat.le_of_succ_le_succ hfuel)
          obtain ⟨fat', hfat', hothers, hall, hpart⟩ := hremoved.hasFat
          have hfirst : fat' clst = 0 := by
            rw [hothers clst hnodup.1, Function.update_self]
          refine ⟨r, hout.trans hr, ⟨fat', hfat', fun c hc => ?_, fun hok c hc => ?_, fun ht => ?_⟩,
            hremoved.result, hremoved.reliable, hdata.trans hremoved.data, fun hok => ?_⟩
          · obtain ⟨hne, hout'⟩ := not_or.1 (mt List.mem_cons.2 hc)
            rw [hothers c hout', Function.update_of_ne hne]
          · rcases List.mem_cons.1 hc with rfl | hc
            · exact hfirst
            · exact hall hok c hc
          · obtain ⟨p, s, hps, hp, hs⟩ := hpart ht
            refine ⟨clst :: p, s, by rw [hps]; rfl, fun c hc => ?_, fun c hc => ?_⟩
            · rcases List.mem_cons.1 hc with rfl | hc
              · exact hfirst
              · exact hp c hc
            · have hne : c ≠ clst := by
                rintro rfl
                exact hnodup.1 (hps ▸ List.mem_append_right p hc)
              rw [hs c hc, Function.update_of_ne hne]
          · exact freeClst_succ hfree (hremoved.freeClst hok)

/-- A chain is removed. -/
theorem removeChain_removes {fuel : ℕ} {l : List UInt32} (h : HasFat dr g fs fat)
    (hchain : Chain (g.next fat) (clst :: l)) (hv : ∀ c ∈ clst :: l, g.Valid c)
    (hfuel : (clst :: l).length ≤ fuel) :
    ∃ r, removeChain dr g fuel clst 0 fs = some r ∧ Removed dr g fs fat (clst :: l) r := by
  have hvalid := hv clst List.mem_cons_self
  have hin : ¬(clst < 2 ∨ g.nFatent ≤ clst) :=
    not_or.2 ⟨UInt32.not_lt.2 hvalid.1, UInt32.not_le.2 hvalid.2⟩
  rw [removeChain, if_neg hin, if_neg (by simp)]
  exact removeLoop_spec h hchain hv hfuel

/-- **`remove_chain` frees a whole chain.** -/
theorem removeChain_spec {fuel : ℕ} {l : List UInt32} (h : HasFat dr g fs fat)
    (hchain : Chain (g.next fat) (clst :: l)) (hv : ∀ c ∈ clst :: l, g.Valid c)
    (hfuel : (clst :: l).length ≤ fuel) :
    ∃ r, removeChain dr g fuel clst 0 fs = some r ∧ Removed dr g fs fat (clst :: l) r :=
  removeChain_removes h hchain hv hfuel

/-- What `remove_chain` comes to, when it cuts off the clusters `l` that are behind `pclst`. -/
structure CutOff (dr : Drive δ) (g : Geometry) (fs : Fatfs δ) (fat : UInt32 → UInt32)
    (pclst : UInt32) (l : List UInt32) (r : FRESULT × Fatfs δ) : Prop where
  hasFat : ∃ fat', HasFat dr g r.2 fat' ∧ (∀ c, c ≠ pclst → c ∉ l → fat' c = fat c) ∧
    (r.1 = FR_OK → g.nFatent ≤ fat' pclst ∧ ∀ c ∈ l, fat' c = 0) ∧
      (g.fsType ≠ FS_FAT12 → g.nFatent ≤ fat' pclst ∨ ∀ c, fat' c = fat c)
  result : r.1 = FR_OK ∨ r.1 = FR_DISK_ERR
  reliable : dr.Reliable → r.1 = FR_OK
  data : SameData dr g fs r.2
  freeClst : r.1 = FR_OK → r.2.freeClst.toNat =
    if fs.freeClst.toNat ≤ g.nFatent.toNat - 2 then
      min (fs.freeClst.toNat + l.length) (g.nFatent.toNat - 2)
    else fs.freeClst.toNat

/-- A chain is cut off. -/
theorem removeChain_cuts {fuel : ℕ} {l : List UInt32} {pclst : UInt32} (h : HasFat dr g fs fat)
    (hchain : Chain (g.next fat) (pclst :: clst :: l)) (hv : ∀ c ∈ pclst :: clst :: l, g.Valid c)
    (hfuel : (clst :: l).length ≤ fuel) :
    ∃ r, removeChain dr g fuel clst pclst fs = some r ∧
      CutOff dr g fs fat pclst (clst :: l) r := by
  have hvalid := hv clst (List.mem_cons_of_mem _ List.mem_cons_self)
  have hpvalid := hv pclst List.mem_cons_self
  have hin : ¬(clst < 2 ∨ g.nFatent ≤ clst) :=
    not_or.2 ⟨UInt32.not_lt.2 hvalid.1, UInt32.not_le.2 hvalid.2⟩
  have hpne : pclst ≠ 0 := by
    rintro rfl
    exact absurd hpvalid.1 (by decide)
  have hnodup := List.nodup_cons.1 hchain.nodup
  have hput := putFat_writes 0xFFFFFFFF h hpvalid
  rw [removeChain, if_neg hin, if_pos hpne]
  revert hput
  generalize putFat dr g pclst 0xFFFFFFFF fs = t
  intro hput
  obtain ⟨v, hfat, hok, hkept⟩ := hput.hasFat
  dsimp only
  by_cases ht : t.1 = FR_OK
  · rw [if_neg (not_not.2 ht)]
    obtain rfl := hok ht
    have hrest : Chain (g.next (Function.update fat pclst (g.mask 0xFFFFFFFF))) (clst :: l) := by
      refine hchain.2.congr fun c hc => ?_
      have hne : c ≠ pclst := fun h => hnodup.1 (h ▸ hc)
      rw [Geometry.next, Geometry.next, Function.update_of_ne hne]
    obtain ⟨r, hr, hremoved⟩ := removeLoop_spec hfat hrest
      (fun c hc => hv c (List.mem_cons_of_mem pclst hc)) hfuel
    obtain ⟨fat', hfat', hothers, hall, -⟩ := hremoved.hasFat
    have hend : g.nFatent ≤ fat' pclst := by
      rw [hothers pclst hnodup.1, Function.update_self]
      exact le_mask_eoc g
    refine ⟨r, hr, ⟨fat', hfat', fun c hne hc => ?_, fun hok' => ⟨hend, hall hok'⟩,
      fun _ => Or.inl hend⟩, hremoved.result, hremoved.reliable, hput.data.trans hremoved.data,
      fun hok' => ?_⟩
    · rw [hothers c hc, Function.update_of_ne hne]
    · rw [← hput.info.freeClst]
      exact hremoved.freeClst hok'
  · rw [if_pos ht]
    refine ⟨t, rfl, ⟨_, hfat, fun c hne _ => Function.update_of_ne hne _ _,
      fun hok' => absurd hok' ht, fun htype => Or.inr fun c => ?_⟩, hput.result, hput.reliable,
      hput.data, fun hok' => absurd hok' ht⟩
    by_cases heq : c = pclst
    · rw [heq, Function.update_self, hkept ht htype]
    · exact Function.update_of_ne heq _ _

/-- **`remove_chain` cuts off the end of a chain.** -/
theorem removeChain_cut {fuel : ℕ} {l : List UInt32} {pclst : UInt32} (h : HasFat dr g fs fat)
    (hchain : Chain (g.next fat) (pclst :: clst :: l)) (hv : ∀ c ∈ pclst :: clst :: l, g.Valid c)
    (hfuel : (clst :: l).length ≤ fuel) :
    ∃ r, removeChain dr g fuel clst pclst fs = some r ∧
      CutOff dr g fs fat pclst (clst :: l) r :=
  removeChain_cuts h hchain hv hfuel

/-- A chain of two clusters. -/
def pairFat : UInt32 → UInt32 :=
  Function.update (Function.update (fun _ => 0) 3 (smallGeometry.mask 0xFFFFFFFF)) 2
    (smallGeometry.mask 3)

theorem pairFat_chain : Chain (smallGeometry.next pairFat) [2, 3] :=
  ⟨(by decide : smallGeometry.next pairFat 2 = some 3),
    (by decide : smallGeometry.next pairFat 3 = none)⟩

theorem pairFat_valid : ∀ c ∈ [2, 3], smallGeometry.Valid c := by
  intro c hc
  rcases List.mem_pair.1 hc with rfl | rfl
  · exact ⟨by decide, by decide⟩
  · exact ⟨by decide, by decide⟩

theorem exists_pairFat : ∃ fs, HasFat ramDrive smallGeometry fs pairFat := by
  have hput := putFat_writes 0xFFFFFFFF (emptyFatfs_hasFat smallGeometry)
    (pairFat_valid 3 (by simp))
  obtain ⟨v, hfat, hv, -⟩ := hput.hasFat
  obtain rfl := hv (hput.reliable ramDrive_reliable)
  have hput' := putFat_writes 3 hfat (pairFat_valid 2 (by simp))
  obtain ⟨v, hfat', hv', -⟩ := hput'.hasFat
  obtain rfl := hv' (hput'.reliable ramDrive_reliable)
  exact ⟨_, hfat'⟩

theorem removeChain_cut_pair : ∃ fs r, removeChain ramDrive smallGeometry 1 3 2 fs = some r ∧
    CutOff ramDrive smallGeometry fs pairFat 2 [3] r := by
  obtain ⟨fs, hfs⟩ := exists_pairFat
  exact ⟨fs, removeChain_cut hfs pairFat_chain pairFat_valid (Nat.le_refl 1)⟩

theorem removeChain_spec_pair : ∃ fs r, removeChain ramDrive smallGeometry 2 2 0 fs = some r ∧
    Removed ramDrive smallGeometry fs pairFat [2, 3] r := by
  obtain ⟨fs, hfs⟩ := exists_pairFat
  exact ⟨fs, removeChain_spec hfs pairFat_chain pairFat_valid (Nat.le_refl 2)⟩

end

end Pico.Fat
