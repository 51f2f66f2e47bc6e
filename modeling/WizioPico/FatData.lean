/-
**The data of a file of FatFs.**

The clusters of a chain hold the sectors of a file, one after the other.  A file object has a buffer
of one sector: `f_read` and `f_write` of `library/fatfs/ff.c` go through it for parts of a sector,
and transfer whole sectors directly, as many of a cluster at a time as there are.

Main definitions:

* `Pico.Fat.Disk` — a drive of which several sectors can be transferred at once;
* `Pico.Fat.Handle` — a file object with its buffer, and the volume;
* `Pico.Fat.Geometry.fileSector` — where the sectors of a file are;
* `Pico.Fat.Handle.bytes` — the bytes of a file, as they are seen through the buffer;
* `Pico.Fat.Owned` — the sectors that are those of a file or are free;
* `Pico.Fat.Open` — what is asked of a file that is open.

Main results:

* `Pico.Fat.fileSector_inj` — different sectors of a file are different sectors of the drive;
* `Pico.Fat.apart_stable` — **operations on the FAT leave the data alone**.
-/

import WizioPico.FatSync

set_option relaxedAutoImplicit false
set_option autoImplicit false

namespace Pico.Fat

open Pico.Vfs Chains
open FRESULT FsType

/-! ### Files and drives -/

/-- A drive of which several sectors are read and written at once, and that may be gone. -/
structure Disk (δ : Type*) extends Drive δ where
  noInit : δ → Bool
  readMany : UInt32 → UInt32 → δ → Bool × (ℕ → Sector) × δ
  writeMany : UInt32 → UInt32 → (ℕ → Sector) → δ → Bool × δ
  contents_readMany : ∀ s n d, contents (readMany s n d).2.2 = contents d
  readMany_ok : ∀ {s n d}, (readMany s n d).1 = true → ∀ i, i < n →
    (readMany s n d).2.1 i.toNat = contents d (s + i)
  writeMany_ok : ∀ {s n b d}, (writeMany s n b d).1 = true → ∀ i, i < n →
    contents (writeMany s n b d).2 (s + i) = b i.toNat
  contents_writeMany : ∀ {s n b d t}, ¬t - s < n → contents (writeMany s n b d).2 t = contents d t

/-- A drive that is there and never fails. -/
structure Disk.Reliable {δ : Type*} (dr : Disk δ) : Prop where
  drive : dr.toDrive.Reliable
  noInit : ∀ d, dr.noInit d = false
  readMany : ∀ s n d, (dr.readMany s n d).1 = true
  writeMany : ∀ s n b d, (dr.writeMany s n b d).1 = true

/-- A file object, with its buffer, and the volume that it is on. -/
structure Handle (δ : Type*) where
  fil : Fil
  buf : Sector
  fs : Fatfs δ

/-- `clst2sect`. -/
def Geometry.clst2sect (g : Geometry) (clst : UInt32) : UInt32 :=
  let clst := clst - 2
  if g.nFatent - 2 ≤ clst then 0 else g.database + g.csize * clst

/-- `csect`: the sector of a position, in its cluster. -/
def Geometry.csect (g : Geometry) (fptr : UInt32) : UInt32 := fptr / sectorSize &&& (g.csize - 1)

/-! ### Clusters -/

section

variable {g : Geometry} {c c' s t : UInt32} {l : List UInt32} {n m : ℕ}

/-- A sector of a cluster that there is. -/
structure Geometry.InCluster (g : Geometry) (c s : UInt32) : Prop where
  valid : g.Valid c
  low : g.database.toNat + g.csize.toNat * (c.toNat - 2) ≤ s.toNat
  high : s.toNat < g.database.toNat + g.csize.toNat * (c.toNat - 2) + g.csize.toNat

/-- A cluster lies in the data area. -/
theorem cluster_fits (hc : g.Valid c) :
    g.csize.toNat * (c.toNat - 2) + g.csize.toNat ≤ g.csize.toNat * (g.nFatent.toNat - 2) := by
  have hv := valid_iff.1 hc
  rw [← Nat.mul_succ]
  exact Nat.mul_le_mul_left _ (by omega)

theorem csize_pos (g : Geometry) : 0 < g.csize.toNat := by
  obtain ⟨k, -, hk⟩ := g.csize_pow
  rw [hk]
  exact Nat.two_pow_pos k

theorem csize_le (g : Geometry) : g.csize.toNat ≤ 128 := by
  obtain ⟨k, hle, hk⟩ := g.csize_pow
  rw [hk]
  exact Nat.pow_le_pow_right (by decide) hle

/-- The first sector of a cluster. -/
theorem toNat_clst2sect (hc : g.Valid c) :
    (g.clst2sect c).toNat = g.database.toNat + g.csize.toNat * (c.toNat - 2) := by
  have hv := valid_iff.1 hc
  have hfits := cluster_fits hc
  have hdata := g.data_fits
  have hpos := csize_pos g
  have hsub : (c - 2).toNat = c.toNat - 2 :=
    UInt32.toNat_sub_of_le _ _ (UInt32.le_iff_toNat_le.2 hv.1)
  have hin : ¬g.nFatent - 2 ≤ c - 2 := by
    rw [UInt32.le_iff_toNat_le, hsub, toNat_clusters]
    omega
  rw [Geometry.clst2sect, if_neg hin, UInt32.toNat_add, UInt32.toNat_mul, hsub,
    Nat.mod_eq_of_lt (a := g.csize.toNat * (c.toNat - 2)) (by omega), Nat.mod_eq_of_lt (by omega)]

/-- There are sectors in front of the data. -/
theorem database_pos (g : Geometry) : 0 < g.database.toNat := by
  have hfats := g.fats_fit
  have hfit := g.fat_fits
  have hthree := g.clusters.1
  have hstride : 12 ≤ g.fsType.stride := by cases g.fsType <;> decide
  have hroom : 12 * 3 ≤ g.fsType.stride * g.nFatent.toNat := Nat.mul_le_mul hstride hthree
  have hnFats : 1 ≤ g.nFats.toNat := by
    rcases g.fats with h | h
    all_goals
      rw [h]
      decide
  have hle : 1 * g.fsize.toNat ≤ g.nFats.toNat * g.fsize.toNat := Nat.mul_le_mul_right _ hnFats
  omega

theorem clst2sect_ne_zero (hc : g.Valid c) : g.clst2sect c ≠ 0 := by
  intro h
  have hpos := database_pos g
  have hsect := toNat_clst2sect hc
  rw [h] at hsect
  change 0 = _ at hsect
  omega

/-- A sector behind the first one. -/
theorem inCluster_add (hc : g.Valid c) (hs : s < g.csize) :
    g.InCluster c (g.clst2sect c + s) ∧
      (g.clst2sect c + s).toNat = g.database.toNat + g.csize.toNat * (c.toNat - 2) + s.toNat := by
  have hs' := UInt32.lt_iff_toNat_lt.1 hs
  have hfits := cluster_fits hc
  have hdata := g.data_fits
  have hadd : (g.clst2sect c + s).toNat =
      g.database.toNat + g.csize.toNat * (c.toNat - 2) + s.toNat := by
    rw [UInt32.toNat_add, toNat_clst2sect hc, Nat.mod_eq_of_lt (by omega)]
  exact ⟨⟨hc, by omega, by omega⟩, hadd⟩

/-- A sector of a cluster is not one of the FATs. -/
theorem Geometry.InCluster.apart (h : g.InCluster c s) :
    g.Ordinary s ∧ ¬s - g.fatbase < g.fsize ∧ s ≠ 0 := by
  have hfits := cluster_fits h.valid
  have hdata := g.data_fits
  have hfats := g.fats_fit
  have hlow := h.low
  have hhigh := h.high
  have hpos := database_pos g
  have hone : g.fsize.toNat ≤ g.nFats.toNat * g.fsize.toNat := by
    have hle : 1 * g.fsize.toNat ≤ g.nFats.toNat * g.fsize.toNat :=
      Nat.mul_le_mul_right _ (by
        rcases g.fats with h | h
        all_goals
          rw [h]
          decide)
    omega
  refine ⟨⟨?_, fun htwo => ?_⟩, ?_, ?_⟩
  · rintro rfl
    have hlast : (0 - 1 : UInt32).toNat = 2 ^ 32 - 1 := rfl
    omega
  · rw [htwo] at hfats
    change _ + 2 * _ ≤ _ at hfats
    rw [UInt32.lt_iff_toNat_lt, UInt32.toNat_sub, UInt32.toNat_add]
    omega
  · rw [UInt32.lt_iff_toNat_lt, UInt32.toNat_sub]
    omega
  · rintro rfl
    change _ ≤ 0 at hlow
    omega

/-- Clusters do not overlap. -/
theorem Geometry.InCluster.unique (h : g.InCluster c s) (h' : g.InCluster c' s) : c = c' := by
  have hv := valid_iff.1 h.valid
  have hv' := valid_iff.1 h'.valid
  have hmono : ∀ a b : ℕ, a < b → g.csize.toNat * a + g.csize.toNat ≤ g.csize.toNat * b := by
    intro a b hab
    rw [← Nat.mul_succ]
    exact Nat.mul_le_mul_left _ hab
  have hlow := h.low
  have hhigh := h.high
  have hlow' := h'.low
  have hhigh' := h'.high
  rw [← UInt32.toNat_inj]
  rcases Nat.lt_trichotomy (c.toNat - 2) (c'.toNat - 2) with hlt | heq | hgt
  · have := hmono _ _ hlt
    omega
  · omega
  · have := hmono _ _ hgt
    omega

/-! ### The sectors of a file -/

/-- The sector of number `n` of a file with the clusters `l`. -/
def Geometry.fileSector (g : Geometry) (l : List UInt32) (n : ℕ) : UInt32 :=
  g.clst2sect (l[n / g.csize.toNat]?.getD 0) + UInt32.ofNat (n % g.csize.toNat)

/-- It is one of its cluster. -/
theorem inCluster_fileSector (hv : ∀ c ∈ l, g.Valid c) (hn : n < g.csize.toNat * l.length) :
    ∃ c, l[n / g.csize.toNat]? = some c ∧ c ∈ l ∧ g.InCluster c (g.fileSector l n) ∧
      (g.fileSector l n).toNat =
        g.database.toNat + g.csize.toNat * (c.toNat - 2) + n % g.csize.toNat := by
  have hpos := csize_pos g
  have hlt : n / g.csize.toNat < l.length := Nat.div_lt_of_lt_mul hn
  have hmod := Nat.mod_lt n hpos
  have hmem : l[n / g.csize.toNat] ∈ l := List.getElem_mem hlt
  have hsmall : (UInt32.ofNat (n % g.csize.toNat)).toNat = n % g.csize.toNat :=
    UInt32.toNat_ofNat_of_lt' (Nat.lt_trans hmod g.csize.toNat_lt)
  have hin := inCluster_add (s := UInt32.ofNat (n % g.csize.toNat)) (hv _ hmem)
    (by rw [UInt32.lt_iff_toNat_lt, hsmall]; exact hmod)
  rw [hsmall] at hin
  refine ⟨_, List.getElem?_eq_getElem hlt, hmem, ?_⟩
  rw [Geometry.fileSector, List.getElem?_eq_getElem hlt, Option.getD_some]
  exact hin

/-- **Different sectors of a file are different sectors of the drive.** -/
theorem fileSector_inj (hv : ∀ c ∈ l, g.Valid c) (hnodup : l.Nodup)
    (hn : n < g.csize.toNat * l.length) (hm : m < g.csize.toNat * l.length)
    (h : g.fileSector l n = g.fileSector l m) : n = m := by
  obtain ⟨c, hc, -, hin, hsect⟩ := inCluster_fileSector hv hn
  obtain ⟨c', hc', -, hin', hsect'⟩ := inCluster_fileSector hv hm
  rw [h] at hin hsect
  obtain rfl := hin.unique hin'
  obtain ⟨hlt, hget⟩ := List.getElem?_eq_some_iff.1 hc
  obtain ⟨hlt', hget'⟩ := List.getElem?_eq_some_iff.1 hc'
  have hdiv := (List.Nodup.getElem_inj_iff hnodup).1 (hget.trans hget'.symm)
  have hn' := Nat.div_add_mod n g.csize.toNat
  have hm' := Nat.div_add_mod m g.csize.toNat
  rw [hdiv] at hn'
  omega

/-- A file that has become longer. -/
theorem fileSector_append (l' : List UInt32) (hn : n < g.csize.toNat * l.length) :
    g.fileSector (l ++ l') n = g.fileSector l n := by
  have hlt : n / g.csize.toNat < l.length := Nat.div_lt_of_lt_mul hn
  rw [Geometry.fileSector, Geometry.fileSector, List.getElem?_append_left hlt]

/-- The sectors of one cluster follow each other. -/
theorem fileSector_add (hn : n % g.csize.toNat + m < g.csize.toNat) :
    g.fileSector l (n + m) = g.fileSector l n + UInt32.ofNat m := by
  have hpos := csize_pos g
  have hdiv : (n + m) / g.csize.toNat = n / g.csize.toNat := by
    rw [Nat.add_div hpos, if_neg (by rw [Nat.mod_eq_of_lt (a := m) (by omega)]; omega),
      Nat.div_eq_of_lt (a := m) (by omega), Nat.add_zero]
  have hmod : (n + m) % g.csize.toNat = n % g.csize.toNat + m := by
    rw [Nat.add_mod, Nat.mod_eq_of_lt (a := m) (by omega), Nat.mod_eq_of_lt hn]
  rw [Geometry.fileSector, Geometry.fileSector, hdiv, hmod, UInt32.ofNat_add, UInt32.add_assoc]

/-- `csect`, from the number of the sector. -/
theorem toNat_csect (g : Geometry) (fptr : UInt32) :
    (g.csect fptr).toNat = fptr.toNat / 512 % g.csize.toNat := by
  obtain ⟨k, hk, hsize⟩ := g.csize_pow
  have hpos := csize_pos g
  have hle := csize_le g
  have hsub : (g.csize - 1).toNat = 2 ^ k - 1 := by
    rw [UInt32.toNat_sub_of_le _ _ (UInt32.le_iff_toNat_le.2 (by change 1 ≤ _; omega)), hsize]
    rfl
  rw [Geometry.csect, UInt32.toNat_and, UInt32.toNat_div, hsub, Nat.and_two_pow_sub_one_eq_mod,
    hsize]
  rfl

end

/-! ### Sectors that the window does not show -/

section

variable {δ : Type*} {dr : Drive δ} {g : Geometry} {D : UInt32 → Prop} {v : UInt32 → Sector}
  {fs : Fatfs δ} {fat : UInt32 → UInt32} {s : UInt32}

/-- The window shows no sector of `D`, and there the drive has `v`. -/
structure Apart (dr : Drive δ) (D : UInt32 → Prop) (v : UInt32 → Sector) (fs : Fatfs δ) :
    Prop where
  window : ¬D fs.winsect
  contents : ∀ s, D s → dr.contents fs.drive s = v s

/-- Sectors that are not of the FATs. -/
def Geometry.OffFat (g : Geometry) (D : UInt32 → Prop) : Prop :=
  ∀ s, D s → g.Ordinary s ∧ ¬s - g.fatbase < g.fsize

theorem syncWindow_apart (hD : g.OffFat D) (h : Apart dr D v fs) :
    Apart dr D v (syncWindow dr g fs).2 := by
  refine ⟨by rw [(syncWindow_spec dr g fs).winsect]; exact h.window, fun s hs => ?_⟩
  have hne : s ≠ fs.winsect := by
    rintro rfl
    exact h.window hs
  have hfirst := fun b d => dr.contents_diskWrite (b := b) (d := d) hne
  unfold syncWindow
  by_cases hflag : fs.wflag = true
  · rw [if_pos hflag]
    dsimp only
    split
    · split
      · rename_i hfat
        have hmirror : s ≠ fs.winsect + g.fsize := by
          rintro rfl
          exact not_ordinary_mirror hfat.1 hfat.2 (hD _ hs).1
        dsimp only
        rw [dr.contents_diskWrite hmirror, hfirst]
        exact h.contents s hs
      · dsimp only
        rw [hfirst]
        exact h.contents s hs
    · dsimp only
      rw [hfirst]
      exact h.contents s hs
  · rw [if_neg hflag]
    exact h.contents s hs

/-- **Operations on the FAT leave such sectors alone.** -/
theorem apart_stable (hD : g.OffFat D) (v : UInt32 → Sector) : Stable dr g (Apart dr D v) where
  move fs q hq h := by
    have hfat : ¬D (g.fatbase + q) := fun hs =>
      (hD _ hs).2 (by rwa [show g.fatbase + q - g.fatbase = q by grind])
    have hlast : ¬D (0 - 1) := fun hs => (hD _ hs).1.exists_sector rfl
    have hsync := syncWindow_apart hD h
    unfold moveWindow
    split
    · dsimp only
      split
      · split
        · exact ⟨hfat, fun s hs => by rw [dr.contents_diskRead]; exact hsync.contents s hs⟩
        · exact ⟨hlast, fun s hs => by rw [dr.contents_diskRead]; exact hsync.contents s hs⟩
      · exact hsync
    · exact h
  store fs q win hq hwin h := ⟨h.window, h.contents⟩
  info fs _ _ _ h := ⟨h.window, h.contents⟩

/-- Writing to such sectors leaves the FAT alone. -/
theorem HasFat.drive {d : δ} (h : HasFat dr g fs fat) (hD : g.OffFat D) (hwin : ¬D fs.winsect)
    (hd : ∀ t, ¬D t → dr.contents d t = dr.contents fs.drive t) :
    HasFat dr g { fs with drive := d } fat ∧
      ∀ t, ¬D t → ({ fs with drive := d } : Fatfs δ).view dr t = fs.view dr t := by
  have hview : ∀ t, ¬D t → ({ fs with drive := d } : Fatfs δ).view dr t = fs.view dr t := by
    intro t ht
    by_cases heq : t = fs.winsect
    · subst heq
      rw [view_winsect]
      exact (view_winsect fs).symm
    · rw [view_of_ne _ heq, view_of_ne { fs with drive := d } heq, hd t ht]
  refine ⟨⟨⟨h.coherent.ordinary, fun hw hs => ?_⟩, fun c hc => ?_⟩, hview⟩
  · exact (h.coherent.clean hw hs).trans (hd _ hwin).symm
  · rw [← h.entry c hc]
    refine entry_congr (fun q hq => hview _ fun hs => ?_) _
    exact (hD _ hs).2 (by rwa [show g.fatbase + q - g.fatbase = q by grind])

end

/-! ### A file that is open -/

section

variable {δ : Type*} (dr : Disk δ) (g : Geometry)

/-- A sector of a file with the clusters `l`. -/
def Geometry.InFile (l : List UInt32) (s : UInt32) : Prop := ∃ c ∈ l, g.InCluster c s

/-- A sector of a file with the clusters `l`, or of a cluster that is free. -/
def Geometry.Owned (fat : UInt32 → UInt32) (l : List UInt32) (s : UInt32) : Prop :=
  ∃ c, (c ∈ l ∨ fat c = 0) ∧ g.InCluster c s

/-- What is in the sectors of the drive, as it is seen through the buffer of the file. -/
def Handle.data (h : Handle δ) : UInt32 → Sector :=
  Function.update (dr.contents h.fs.drive) h.fil.sect h.buf

/-- **The bytes of the file.** -/
def Handle.bytes (l : List UInt32) (h : Handle δ) : ByteMem := fun i =>
  h.data dr (g.fileSector l (i / 512)) (sectorIndex i)

/-- So many bytes of the file, from a position on. -/
def Handle.slice (l : List UInt32) (h : Handle δ) (a n : ℕ) : List UInt8 :=
  (List.range n).map fun i => h.bytes dr g l (a + i)

/-- **What is asked of an open file**, wherever its pointer is: the FAT has its clusters, there is
room in them for what is in the file, the window shows none of their sectors, and what has not been
changed in the buffer is on the drive. -/
structure FileOk (fat : UInt32 → UInt32) (l : List UInt32) (h : Handle δ) : Prop where
  hasFat : HasFat dr.toDrive g h.fs fat
  chain : l ≠ [] → Chain (g.next fat) l
  valid : ∀ c ∈ l, g.Valid c
  window : ¬g.Owned fat l h.fs.winsect
  sclust : h.fil.sclust = l.head?.getD 0
  size : h.fil.objsize.toNat ≤ 512 * (g.csize.toNat * l.length)
  dirty : h.fil.flag &&& FA_DIRTY ≠ 0 → g.InFile l h.fil.sect
  clean : h.fil.flag &&& FA_DIRTY = 0 → g.Owned fat l h.fil.sect →
    h.buf = dr.contents h.fs.drive h.fil.sect

/-- The pointer is in the file, the cluster is the one behind which it is, and the buffer has the
sector that it is in. -/
structure Positioned (l : List UInt32) (fil : Fil) : Prop where
  fptr : fil.fptr.toNat ≤ fil.objsize.toNat
  clust : fil.fptr ≠ 0 → l[(fil.fptr.toNat - 1) / 512 / g.csize.toNat]? = some fil.clust
  sect : fil.fptr.toNat % 512 ≠ 0 → fil.sect = g.fileSector l (fil.fptr.toNat / 512)

/-- **A file that is open.** -/
structure Open (fat : UInt32 → UInt32) (l : List UInt32) (h : Handle δ) : Prop where
  ok : FileOk dr g fat l h
  positioned : Positioned g l h.fil

variable {dr g} {fat : UInt32 → UInt32} {l : List UInt32} {h h' h'' : Handle δ} {s : UInt32} {n : ℕ}

theorem offFat_owned (g : Geometry) (fat : UInt32 → UInt32) (l : List UInt32) :
    g.OffFat (g.Owned fat l) := by
  rintro s ⟨c, -, hin⟩
  exact ⟨hin.apart.1, hin.apart.2.1⟩

theorem offFat_inFile (g : Geometry) (l : List UInt32) : g.OffFat (g.InFile l) := by
  rintro s ⟨c, -, hin⟩
  exact ⟨hin.apart.1, hin.apart.2.1⟩

theorem Geometry.InFile.owned (hs : g.InFile l s) : g.Owned fat l s := by
  obtain ⟨c, hc, hin⟩ := hs
  exact ⟨c, Or.inl hc, hin⟩

/-- The sectors of a file are those of its clusters. -/
theorem inFile_fileSector (hv : ∀ c ∈ l, g.Valid c) (hn : n < g.csize.toNat * l.length) :
    g.InFile l (g.fileSector l n) := by
  obtain ⟨c, -, hc, hin, -⟩ := inCluster_fileSector hv hn
  exact ⟨c, hc, hin⟩

/-- Sectors of other files, and of directories, are as they have been seen before, the window has
not got to them, and how many clusters are free is still right. -/
structure Elsewhere (dr : Disk δ) (g : Geometry) (l : List UInt32) (fs fs' : Fatfs δ) : Prop where
  frame : ∀ s, g.Ordinary s → ¬s - g.fatbase < g.fsize → ¬g.InFile l s →
    fs'.view dr.toDrive s = fs.view dr.toDrive s
  window : g.Ordinary fs'.winsect → ¬fs'.winsect - g.fatbase < g.fsize → fs'.winsect = fs.winsect
  tally : Tally dr.toDrive g fs fs'

theorem Elsewhere.refl (fs : Fatfs δ) : Elsewhere dr g l fs fs :=
  ⟨fun _ _ _ _ => rfl, fun _ _ => rfl, fun _ hsane hcount => ⟨hsane, hcount⟩⟩

theorem Elsewhere.trans {fs fs' fs'' : Fatfs δ} (h : Elsewhere dr g l fs fs')
    (h' : Elsewhere dr g l fs' fs'') : Elsewhere dr g l fs fs'' := by
  refine ⟨fun s hs hfat hout => (h'.frame s hs hfat hout).trans (h.frame s hs hfat hout),
    fun hs hfat => ?_, h.tally.trans h'.tally⟩
  have heq := h'.window hs hfat
  rw [heq] at hs hfat ⊢
  exact h.window hs hfat

/-- A file that has more sectors. -/
theorem Elsewhere.mono {fs fs' : Fatfs δ} {l' : List UInt32} (h : Elsewhere dr g l fs fs')
    (hsub : l ⊆ l') : Elsewhere dr g l' fs fs' := by
  refine ⟨fun s hs hfat hout => h.frame s hs hfat fun hin => hout ?_, h.window, h.tally⟩
  obtain ⟨c, hc, hin⟩ := hin
  exact ⟨c, hsub hc, hin⟩

/-- **An operation on the FAT.** -/
theorem SameData.elsewhere {fs fs' : Fatfs δ} (h : SameData dr.toDrive g fs fs')
    (htally : Tally dr.toDrive g fs fs')
    (hrun : ∀ P : Fatfs δ → Prop, Stable dr.toDrive g P → P fs → P fs') :
    Elsewhere dr g l fs fs' := by
  refine ⟨fun s hs hfat _ => h.frame s hs hfat, fun hs hfat => ?_, htally⟩
  by_contra hne
  have hD : g.OffFat (· = fs'.winsect) := by
    rintro s rfl
    exact ⟨hs, hfat⟩
  have hapart := hrun _ (apart_stable hD (dr.contents fs.drive)) ⟨Ne.symm hne, fun _ _ => rfl⟩
  exact hapart.window rfl

/-- **Sectors of the file are written.** -/
theorem HasFat.elsewhere {fs : Fatfs δ} {d : δ} (hfat : HasFat dr.toDrive g fs fat)
    (hwin : ¬g.InFile l fs.winsect)
    (hd : ∀ t, ¬g.InFile l t → dr.contents d t = dr.contents fs.drive t) :
    HasFat dr.toDrive g { fs with drive := d } fat ∧
      Elsewhere dr g l fs { fs with drive := d } := by
  obtain ⟨hfat', hview⟩ := hfat.drive (d := d) (offFat_inFile g l) hwin hd
  exact ⟨hfat', fun s _ _ hout => hview s hout, fun _ _ => rfl,
    tally_same hfat hfat' ⟨rfl, rfl, rfl⟩⟩

/-- The clusters are there as long as the file is open. -/
theorem FileOk.nodup (ok : FileOk dr g fat l h) : l.Nodup := by
  by_cases hl : l = []
  · rw [hl]
    exact List.nodup_nil
  · exact (ok.chain hl).nodup

/-- What the drive has in the sectors of the file, if the buffer is not about them. -/
theorem data_of_ne (h : Handle δ) (hs : s ≠ h.fil.sect) :
    h.data dr s = dr.contents h.fs.drive s := Function.update_of_ne hs _ _

theorem data_sect (h : Handle δ) : h.data dr h.fil.sect = h.buf := Function.update_self _ _ _

/-- What is not changed in the buffer is on the drive. -/
theorem FileOk.data_clean (ok : FileOk dr g fat l h) (hclean : h.fil.flag &&& FA_DIRTY = 0)
    (hs : g.Owned fat l s) : h.data dr s = dr.contents h.fs.drive s := by
  by_cases heq : s = h.fil.sect
  · subst heq
    rw [data_sect, ok.clean hclean hs]
  · exact data_of_ne h heq

/-- The bytes of the file are those of its sectors. -/
theorem bytes_congr (hv : ∀ c ∈ l, g.Valid c)
    (hdata : ∀ s, g.InFile l s → h'.data dr s = h.data dr s) {i : ℕ}
    (hi : i < 512 * (g.csize.toNat * l.length)) : h'.bytes dr g l i = h.bytes dr g l i := by
  rw [Handle.bytes, Handle.bytes, hdata _ (inFile_fileSector hv (Nat.div_lt_of_lt_mul hi))]

/-- **Something is done to the FAT**: the file is as it has been. -/
theorem FileOk.follow {fs : Fatfs δ} (ok : FileOk dr g fat l h)
    (hfat : HasFat dr.toDrive g fs fat)
    (ha : Apart dr.toDrive (g.Owned fat l) (dr.contents h.fs.drive) fs) :
    FileOk dr g fat l { h with fs := fs } ∧
      ∀ s, g.Owned fat l s → ({ h with fs := fs } : Handle δ).data dr s = h.data dr s := by
  refine ⟨⟨hfat, ok.chain, ok.valid, ha.window, ok.sclust, ok.size, ok.dirty, fun hclean hs => ?_⟩,
    fun s hs => ?_⟩
  · exact (ok.clean hclean hs).trans (ha.contents _ hs).symm
  · by_cases heq : s = h.fil.sect
    · subst heq
      rw [data_sect]
      exact (data_sect h).symm
    · rw [data_of_ne h heq, data_of_ne { h with fs := fs } heq]
      exact ha.contents s hs

/-- The FAT is looked at. -/
theorem FileOk.getFat (ok : FileOk dr g fat l h) {c : UInt32} :
    Apart dr.toDrive (g.Owned fat l) (dr.contents h.fs.drive) (getFat dr.toDrive g c h.fs).2 :=
  getFat_stable (apart_stable (offFat_owned g fat l) _) ⟨ok.window, fun _ _ => rfl⟩

@[simp] theorem length_slice (h : Handle δ) (l : List UInt32) (a n : ℕ) :
    (h.slice dr g l a n).length = n := by
  rw [Handle.slice, List.length_map, List.length_range]

@[simp] theorem slice_zero (h : Handle δ) (l : List UInt32) (a : ℕ) :
    h.slice dr g l a 0 = [] := rfl

/-- Bytes, and those behind them. -/
theorem slice_append (h : Handle δ) (l : List UInt32) (a n m : ℕ) :
    h.slice dr g l a n ++ h.slice dr g l (a + n) m = h.slice dr g l a (n + m) := by
  simp only [Handle.slice, List.range_add, List.map_append, List.map_map, Function.comp_def,
    Nat.add_assoc]

/-- The same bytes. -/
theorem slice_congr {a : ℕ} {l' : List UInt32}
    (hn : ∀ i < n, h'.bytes dr g l' (a + i) = h.bytes dr g l (a + i)) :
    h'.slice dr g l' a n = h.slice dr g l a n :=
  List.map_congr_left fun i hi => hn i (List.mem_range.1 hi)

end

/-! ### An empty file -/

/-- A drive of which the sectors are in memory. -/
def ramDisk : Disk (UInt32 → Sector) where
  toDrive := ramDrive
  noInit _ := false
  readMany s _ d := (true, fun i => d (s + UInt32.ofNat i), d)
  writeMany s n b d := (true, fun t => if t - s < n then b (t - s).toNat else d t)
  contents_readMany _ _ _ := rfl
  readMany_ok {s n d} _ i _ := by
    dsimp only
    rw [UInt32.ofNat_toNat]
    rfl
  writeMany_ok {s n b d} _ i hi := by
    change (if s + i - s < n then b (s + i - s).toNat else d (s + i)) = b i.toNat
    have hsub : s + i - s = i := by grind
    rw [hsub, if_pos hi]
  contents_writeMany h := if_neg h

theorem ramDisk_reliable : ramDisk.Reliable :=
  ⟨ramDrive_reliable, fun _ => rfl, fun _ _ _ => rfl, fun _ _ _ _ => rfl⟩

/-- A file that is still empty, and open for reading and writing, on an empty volume. -/
def emptyFile : Handle (UInt32 → Sector) where
  fil := {
    mounted := true
    err := FR_OK
    flag := FA_READ ||| FA_WRITE
    fptr := 0
    objsize := 0
    sclust := 0
    clust := 0
    sect := 0 }
  buf := fun _ => 0
  fs := emptyFatfs

theorem emptyFile_open (g : Geometry) : Open ramDisk g (fun _ => 0) [] emptyFile where
  ok := {
    hasFat := emptyFatfs_hasFat g
    chain := fun h => absurd rfl h
    valid := nofun
    window := fun ⟨_, _, hin⟩ => hin.apart.2.2 rfl
    sclust := rfl
    size := Nat.zero_le _
    dirty := fun h => absurd rfl h
    clean := fun _ ⟨_, _, hin⟩ => absurd rfl hin.apart.2.2 }
  positioned := ⟨Nat.le_refl _, fun h => absurd rfl h, fun h => absurd rfl h⟩

/-! ### A file of two clusters -/

/-- What is on the drive: a FAT of 12 bits that has the chain `[2, 3]`, twice, and something in the
sectors of the two clusters. -/
def noteSectors (s : UInt32) : Sector := fun i =>
  if s = 1 ∨ s = 2 then
    match i.val with
    | 0 => 0xF8
    | 1 => 0xFF
    | 2 => 0xFF
    | 3 => 0x03
    | 4 => 0xF0
    | 5 => 0xFF
    | _ => 0
  else if s = 0 then 0
  else s.toUInt8 + UInt8.ofNat i.val

/-- Its FAT. -/
def noteFat (c : UInt32) : UInt32 := if c = 2 then 3 else if c = 3 then 0xFFF else 0

/-- A file of 3000 bytes on it, at the position 1500, of which the sector has been changed in the
buffer. -/
def noteFile : Handle (UInt32 → Sector) where
  fil := {
    mounted := true
    err := FR_OK
    flag := FA_READ ||| FA_WRITE ||| FA_MODIFIED ||| FA_DIRTY
    fptr := 1500
    objsize := 3000
    sclust := 2
    clust := 2
    sect := 6 }
  buf := fun _ => 0xAA
  fs := { emptyFatfs with drive := noteSectors }

theorem valid_noteFile : ∀ c ∈ ([2, 3] : List UInt32), smallGeometry.Valid c := by
  simp only [List.forall_mem_cons]
  exact ⟨by decide, by decide, by simp⟩

theorem noteFile_open : Open ramDisk smallGeometry noteFat [2, 3] noteFile where
  ok := {
    hasFat := by
      have hentry : ∀ n < 100, 2 ≤ n →
          smallGeometry.entry (noteFile.fs.view ramDrive) n = (noteFat (UInt32.ofNat n)).toNat := by
        decide +kernel
      refine ⟨⟨nofun, fun _ _ => ?_⟩, fun c hc => ?_⟩
      · funext i
        rfl
      · have hv := valid_iff.1 hc
        have heq := hentry c.toNat hv.2 hv.1
        rwa [UInt32.ofNat_toNat] at heq
    chain := fun _ => ⟨by decide, show smallGeometry.next noteFat 3 = none by decide⟩
    valid := valid_noteFile
    window := fun ⟨_, _, hin⟩ => hin.apart.2.2 rfl
    sclust := rfl
    size := by decide
    dirty := fun _ => @inFile_fileSector smallGeometry [2, 3] 2 valid_noteFile (by decide)
    clean := fun h => absurd h (by decide) }
  positioned := ⟨by decide, fun _ => rfl, fun _ => rfl⟩

end Pico.Fat
