/-
**Writing to a file of FatFs.**

`f_write` of `library/fatfs/ff.c` follows the cluster chain of the file, and makes it longer at its
end; whole sectors are written from the memory of the caller, and parts of a sector into the buffer,
which is filled before unless the file ends where the sector begins.  If no cluster is free, it
returns successfully, with fewer bytes written.

Main definitions:

* `Pico.Fat.writeRound`, `Pico.Fat.writeLoop`, `Pico.Fat.fWrite` — one round of the loop of
  `f_write`, the loop, and `f_write`;
* `Pico.Fat.Grown` — a file that may have got clusters that have been free;
* `Pico.Fat.WriteResult` — what is asked of `f_write`.

Main results:

* `Pico.Fat.writeSector_spec` — the chain is followed, or becomes longer;
* `Pico.Fat.fWrite_spec` — **`f_write` overwrites the bytes behind the file pointer, and makes the
  file longer with the others**, and whatever the drive answers, changes nothing of other files.
-/

import WizioPico.FatRead

set_option relaxedAutoImplicit false
set_option autoImplicit false

namespace Pico.Fat

open Pico.Vfs Chains
open FRESULT FsType

section

variable {δ : Type*} (dr : Disk δ) (g : Geometry)

/-! ### The function -/

/-- The cluster of the file pointer, at the beginning of a cluster; there may be none yet. -/
def stretchCluster (h : Handle δ) : Option (UInt32 × Handle δ) :=
  if h.fil.fptr = 0 then
    if h.fil.sclust = 0 then
      (createChain dr.toDrive g g.nFatent.toNat 0 h.fs).map fun r => (r.1, { h with fs := r.2 })
    else some (h.fil.sclust, h)
  else
    (createChain dr.toDrive g g.nFatent.toNat h.fil.clust h.fs).map fun r =>
      (r.1, { h with fs := r.2 })

/-- The part of `f_write` at the beginning of a sector: the sector, an error, or that no cluster is
free. -/
def writeSector (h : Handle δ) : Option (Except (Option FRESULT) UInt32 × Handle δ) :=
  let csect := g.csect h.fil.fptr
  (if csect = 0 then stretchCluster dr g h else some (h.fil.clust, h)).map fun r =>
    if csect = 0 ∧ r.1 = 0 then (.error none, r.2)
    else if csect = 0 ∧ r.1 = 1 then (.error (some FR_INT_ERR), r.2)
    else if csect = 0 ∧ r.1 = 0xFFFFFFFF then (.error (some FR_DISK_ERR), r.2)
    else
      let sclust := if csect = 0 ∧ r.2.fil.sclust = 0 then r.1 else r.2.fil.sclust
      let w := flushBuffer dr { r.2 with fil := { r.2.fil with clust := r.1, sclust := sclust } }
      if w.1 ≠ FR_OK then (.error (some w.1), w.2)
      else
        let sect := g.clst2sect w.2.fil.clust
        if sect = 0 then (.error (some FR_INT_ERR), w.2) else (.ok (sect + csect), w.2)

/-- Bytes, sector for sector. -/
def sectorsOf (bytes : List UInt8) (j : ℕ) : Sector := fun i => bytes.getD (512 * j + i.val) 0

/-- Whole sectors are written from the memory of the caller. -/
def writeDirect (sect cc : UInt32) (bytes : List UInt8) (h : Handle δ) :
    Except (Option FRESULT) ℕ × Handle δ :=
  let csect := g.csect h.fil.fptr
  let cc := if g.csize < csect + cc then g.csize - csect else cc
  let w := dr.writeMany sect cc (sectorsOf bytes) h.fs.drive
  let h := { h with fs := { h.fs with drive := w.2 } }
  if w.1 then
    if h.fil.sect - sect < cc then
      (.ok (512 * cc.toNat), { h with
        buf := sectorsOf bytes (h.fil.sect - sect).toNat
        fil := { h.fil with flag := h.fil.flag &&& ~~~FA_DIRTY } })
    else (.ok (512 * cc.toNat), h)
  else (.error (some FR_DISK_ERR), h)

/-- The buffer is filled with a sector, unless the file ends in front of it. -/
def fillSector (sect : UInt32) (h : Handle δ) : FRESULT × Handle δ :=
  if h.fil.sect ≠ sect ∧ h.fil.fptr < h.fil.objsize then
    let r := dr.diskRead sect h.buf h.fs.drive
    let h := { h with buf := r.2.1, fs := { h.fs with drive := r.2.2 } }
    if r.1 then (FR_OK, { h with fil := { h.fil with sect := sect } }) else (FR_DISK_ERR, h)
  else (FR_OK, { h with fil := { h.fil with sect := sect } })

/-- A part of a sector is copied into the buffer. -/
def writePartial (btw : UInt32) (bytes : List UInt8) (h : Handle δ) :
    Except (Option FRESULT) ℕ × Handle δ :=
  let wcnt := sectorSize - h.fil.fptr % sectorSize
  let wcnt := if btw < wcnt then btw else wcnt
  let ofs := (h.fil.fptr % sectorSize).toNat
  let buf : Sector := fun i =>
    if ofs ≤ i.val ∧ i.val < ofs + wcnt.toNat then bytes.getD (i.val - ofs) 0 else h.buf i
  (.ok wcnt.toNat, { h with buf := buf, fil := { h.fil with flag := h.fil.flag ||| FA_DIRTY } })

/-- One round of the loop of `f_write`: how many bytes it writes. -/
def writeRound (btw : UInt32) (bytes : List UInt8) (h : Handle δ) :
    Option (Except (Option FRESULT) ℕ × Handle δ) :=
  if h.fil.fptr % sectorSize = 0 then
    (writeSector dr g h).map fun s =>
      match s.1 with
      | .error res => (.error res, s.2)
      | .ok sect =>
        let cc := btw / sectorSize
        if 0 < cc then writeDirect dr g sect cc bytes s.2
        else
          let t := fillSector dr sect s.2
          if t.1 ≠ FR_OK then (.error (some t.1), t.2) else writePartial btw bytes t.2
  else some (writePartial btw bytes h)

/-- The file pointer goes on, and with it the end of the file. -/
def Handle.grow (n : ℕ) (h : Handle δ) : Handle δ :=
  let fptr := h.fil.fptr + UInt32.ofNat n
  let objsize := if h.fil.objsize < fptr then fptr else h.fil.objsize
  { h with fil := { h.fil with fptr := fptr, objsize := objsize } }

/-- The loop of `f_write`: the result, and how many bytes are written. -/
def writeLoop : ℕ → UInt32 → List UInt8 → ℕ → Handle δ → Option ((FRESULT × ℕ) × Handle δ)
  | 0, _, _, _, _ => none
  | fuel + 1, btw, bytes, done, h =>
    if btw = 0 then some ((FR_OK, done), h)
    else
      (writeRound dr g btw bytes h).bind fun r =>
        match r.1 with
        | .error none => some ((FR_OK, done), r.2)
        | .error (some res) => some ((res, done), r.2.abort res)
        | .ok n => writeLoop fuel (btw - UInt32.ofNat n) (bytes.drop n) (done + n) (r.2.grow n)

/-- `f_write`: the result, and how many bytes are written. -/
def fWrite (fuel : ℕ) (bytes : List UInt8) (btw : UInt32) (h : Handle δ) :
    Option ((FRESULT × ℕ) × Handle δ) :=
  let res := h.validate dr
  if res ≠ FR_OK then some ((res, 0), h)
  else if h.fil.flag &&& FA_WRITE = 0 then some ((FR_DENIED, 0), h)
  else
    let btw := if h.fil.fptr + btw < h.fil.fptr then 0xFFFFFFFF - h.fil.fptr else btw
    (writeLoop dr g fuel btw bytes 0 h).map fun r =>
      if r.1.1 = FR_OK then
        (r.1, { r.2 with fil := { r.2.fil with flag := r.2.fil.flag ||| FA_MODIFIED } })
      else r

end

section

variable {δ : Type*} {dr : Disk δ} {g : Geometry} {fat fat' fat'' : UInt32 → UInt32}
  {l l' l'' : List UInt32} {h h' h'' : Handle δ} {btw sect cc clst ncl : UInt32}
  {bytes : List UInt8}

/-! ### A file that becomes longer -/

/-- **The file may have got clusters that have been free**, and the FAT says of the clusters of
others what it has said before. -/
structure Grown (g : Geometry) (fat : UInt32 → UInt32) (l : List UInt32) (fat' : UInt32 → UInt32)
    (l' : List UInt32) : Prop where
  front : l <+: l'
  fresh : ∀ c ∈ l', c ∈ l ∨ fat c = 0
  free : ∀ c, fat' c = 0 → fat c = 0
  sane : ∀ c, fat' c = 1 → fat c = 1
  kept : ∀ c, fat c ≠ 0 → c ∉ l → fat' c = fat c

theorem Grown.refl (fat : UInt32 → UInt32) (l : List UInt32) : Grown g fat l fat l :=
  ⟨List.prefix_rfl, fun _ hc => Or.inl hc, fun _ hc => hc, fun _ hc => hc, fun _ _ _ => rfl⟩

theorem Grown.trans (hg : Grown g fat l fat' l') (hg' : Grown g fat' l' fat'' l'') :
    Grown g fat l fat'' l'' where
  front := hg.front.trans hg'.front
  fresh c hc := by
    rcases hg'.fresh c hc with hin | hfree
    · exact hg.fresh c hin
    · exact Or.inr (hg.free c hfree)
  free c hc := hg.free c (hg'.free c hc)
  sane c hc := hg.sane c (hg'.sane c hc)
  kept c hused hout := by
    have hkept := hg.kept c hused hout
    rw [← hkept]
    refine hg'.kept c (by rwa [hkept]) fun hin => ?_
    exact (hg.fresh c hin).elim hout hused

/-- What the file owns, it has owned or it has been free. -/
theorem Grown.owned (hg : Grown g fat l fat' l') {s : UInt32} (hs : g.Owned fat' l' s) :
    g.Owned fat l s := by
  obtain ⟨c, hc, hin⟩ := hs
  refine ⟨c, ?_, hin⟩
  rcases hc with hc | hc
  · exact hg.fresh c hc
  · exact Or.inr (hg.free c hc)

theorem Grown.inFile (hg : Grown g fat l fat' l') {s : UInt32} (hs : g.InFile l s) :
    g.InFile l' s := by
  obtain ⟨c, hc, hin⟩ := hs
  exact ⟨c, hg.front.subset hc, hin⟩

/-- A sector of the file is where it has been. -/
theorem Grown.fileSector (hg : Grown g fat l fat' l') {n : ℕ} (hn : n < g.csize.toNat * l.length) :
    g.fileSector l' n = g.fileSector l n := by
  obtain ⟨t, rfl⟩ := hg.front
  exact fileSector_append t hn

theorem Grown.length_le (hg : Grown g fat l fat' l') :
    g.csize.toNat * l.length ≤ g.csize.toNat * l'.length :=
  Nat.mul_le_mul_left _ hg.front.length_le

/-- Sectors of other files, and of directories, are as they have been seen before, and the window
has not got to them. -/
structure Outside (dr : Disk δ) (g : Geometry) (fat : UInt32 → UInt32) (l : List UInt32)
    (fs fs' : Fatfs δ) : Prop where
  frame : ∀ s, g.Ordinary s → ¬s - g.fatbase < g.fsize → ¬g.Owned fat l s →
    fs'.view dr.toDrive s = fs.view dr.toDrive s
  window : g.Ordinary fs'.winsect → ¬fs'.winsect - g.fatbase < g.fsize → fs'.winsect = fs.winsect

theorem Outside.refl (fs : Fatfs δ) : Outside dr g fat l fs fs :=
  ⟨fun _ _ _ _ => rfl, fun _ _ => rfl⟩

theorem Outside.trans {fs fs' fs'' : Fatfs δ} (hg : Grown g fat l fat' l')
    (ho : Outside dr g fat l fs fs') (ho' : Outside dr g fat' l' fs' fs'') :
    Outside dr g fat l fs fs'' := by
  refine ⟨fun s hs hfat hout => (ho'.frame s hs hfat fun hown => hout (hg.owned hown)).trans
    (ho.frame s hs hfat hout), fun hs hfat => ?_⟩
  have heq := ho'.window hs hfat
  rw [heq] at hs hfat ⊢
  exact ho.window hs hfat

theorem Elsewhere.outside {fs fs' : Fatfs δ} (he : Elsewhere dr g l fs fs') :
    Outside dr g fat l fs fs' :=
  ⟨fun s hs hfat hout => he.frame s hs hfat fun hin => hout hin.owned, he.window⟩

/-- The file gets clusters, and is otherwise as it has been. -/
theorem FileOk.grow {fs : Fatfs δ} (ok : FileOk dr g fat l h) (hg : Grown g fat l fat' l')
    (hfat : HasFat dr.toDrive g fs fat') (hchain : Chain (g.next fat') l')
    (hv : ∀ c ∈ l', g.Valid c)
    (ha : Apart dr.toDrive (g.Owned fat l) (dr.contents h.fs.drive) fs) (clst : UInt32) :
    FileOk dr g fat' l' { h with
      fs := fs, fil := { h.fil with clust := clst, sclust := l'.head?.getD 0 } } ∧
      ∀ s, g.Owned fat l s →
        (⟨{ h.fil with clust := clst, sclust := l'.head?.getD 0 }, h.buf, fs⟩ : Handle δ).data dr
          s = h.data dr s := by
  refine ⟨⟨hfat, fun _ => hchain, hv, fun hown => ha.window (hg.owned hown), rfl,
    ok.size.trans (Nat.mul_le_mul_left _ hg.length_le), fun hd => hg.inFile (ok.dirty hd),
    fun hc hown => ?_⟩, fun s hs => ?_⟩
  · exact (ok.clean hc (hg.owned hown)).trans (ha.contents _ (hg.owned hown)).symm
  · by_cases heq : s = h.fil.sect
    · subst heq
      rw [data_sect]
      exact (data_sect h).symm
    · rw [data_of_ne h heq, data_of_ne _ (by exact heq)]
      exact ha.contents s hs

/-- A new cluster is the last one of its chain. -/
theorem next_link_new (hne : ncl ≠ clst) :
    g.next (g.link fat clst ncl) ncl = none := by
  rw [Geometry.next, link_new hne, if_pos (le_mask_eoc g)]

/-- The mark of an end is no error. -/
theorem mask_eoc_ne_one (g : Geometry) : g.mask 0xFFFFFFFF ≠ 1 := by
  intro h
  have hle := UInt32.le_iff_toNat_le.1 (le_mask_eoc g)
  have hthree := g.clusters.1
  rw [h] at hle
  change _ ≤ 1 at hle
  omega

/-- A cluster is put behind the last one of the file, or it is the first one. -/
theorem grown_link (hclst : clst = 0 ∧ l = [] ∨ clst ∈ l) (hfree : fat ncl = 0)
    (hc : g.Valid ncl) :
    Grown g fat l (g.link fat clst ncl) (l ++ [ncl]) := by
  have hzero := (not_error hc).1
  refine ⟨List.prefix_append _ _, fun c hin => ?_, fun c hlink => ?_, fun c hlink => ?_,
    fun c hne hout => ?_⟩
  · rcases List.mem_append.1 hin with hin | hin
    · exact Or.inl hin
    · exact Or.inr (List.mem_singleton.1 hin ▸ hfree)
  · rw [Geometry.link] at hlink
    split at hlink
    · exact absurd hlink hzero
    split at hlink
    · exact absurd hlink (mask_eoc_ne_zero g)
    · exact hlink
  · rw [Geometry.link] at hlink
    split at hlink
    · exact absurd hlink (not_error hc).2.1
    split at hlink
    · exact absurd hlink (mask_eoc_ne_one g)
    · exact hlink
  · rw [Geometry.link, if_neg, if_neg]
    · rintro rfl
      exact hne hfree
    · rintro ⟨hstart, rfl⟩
      rcases hclst with ⟨hstart', -⟩ | hin
      · exact hstart hstart'
      · exact hout hin

/-- The chain of a file that has become longer. -/
theorem chain_link (hchain : l ≠ [] → Chain (g.next fat) l) (hv : ∀ c ∈ l, g.Valid c)
    (hclst : clst = 0 ∧ l = [] ∨ l.getLast? = some clst) (hnew : ncl ∉ l) (hc : g.Valid ncl) :
    Chain (g.next (g.link fat clst ncl)) (l ++ [ncl]) := by
  have hzero := (not_error hc).1
  rcases hclst with ⟨rfl, rfl⟩ | hlast
  · exact next_link_new hzero
  · obtain ⟨p, rfl⟩ := List.getLast?_eq_some_iff.1 hlast
    have hne : ncl ≠ clst := by
      rintro rfl
      exact hnew (List.mem_append_right _ List.mem_cons_self)
    have hne' : p ++ [clst] ≠ [] := by simp
    have hch := hchain hne'
    have hstart := (not_error (hv clst (List.mem_append_right _ List.mem_cons_self))).1
    rw [List.append_assoc]
    refine hch.snoc ?_ (next_link_new hne) fun c hin => ?_
    · rw [Geometry.next, link_self hstart, if_neg (UInt32.not_le.2 hc.2)]
    · refine next_congr (link_other ?_ ?_)
      · rintro rfl
        exact (List.nodup_append.1 hch.nodup).2.2 c hin c List.mem_cons_self rfl
      · rintro rfl
        exact hnew (List.mem_append_left _ hin)

/-! ### The sector of the file pointer -/

/-- What the FAT says of other clusters is kept. -/
def OthersKept (g : Geometry) (fat : UInt32 → UInt32) (l : List UInt32)
    (fat' : UInt32 → UInt32) : Prop :=
  ∀ c, g.Valid c → fat c ≠ 0 → c ∉ l → fat' c = fat c

/-- What the way to the cluster of number `q` comes to: the number that is returned, and the
volume. -/
inductive Stretched (dr : Disk δ) (g : Geometry) (fat : UInt32 → UInt32) (l : List UInt32) (q : ℕ)
    (fs : Fatfs δ) : UInt32 → Fatfs δ → Prop
  | full {fs' : Fatfs δ} (used : fs'.freeClst = 0 ∨ ∀ c, g.Valid c → fat c ≠ 0)
      (hasFat : HasFat dr.toDrive g fs' fat) (last : l.length = q) : Stretched dr g fat l q fs 0 fs'
  | insane {fs' : Fatfs δ} (entry : ∃ c, g.Valid c ∧ fat c = 1)
      (hasFat : HasFat dr.toDrive g fs' fat) : Stretched dr g fat l q fs 1 fs'
  | failed {fs' : Fatfs δ} (failed : ¬dr.Reliable) (fat' : UInt32 → UInt32)
      (hasFat : HasFat dr.toDrive g fs' fat') (kept : OthersKept g fat l fat') :
      Stretched dr g fat l q fs 0xFFFFFFFF fs'
  | clust {fs' : Fatfs δ} {c : UInt32} (fat' : UInt32 → UInt32) (l' : List UInt32)
      (grown : Grown g fat l fat' l') (hasFat : HasFat dr.toDrive g fs' fat')
      (chain : Chain (g.next fat') l') (valid : ∀ c ∈ l', g.Valid c) (at_q : l'[q]? = some c)
      (head : l ≠ [] → l'.head? = l.head?) : Stretched dr g fat l q fs c fs'

/-- The clusters of a file are in use. -/
theorem FileOk.used (ok : FileOk dr g fat l h) {c : UInt32} (hc : c ∈ l) : fat c ≠ 0 := by
  intro hfree
  have hne : l ≠ [] := by
    rintro rfl
    cases hc
  have hthree := g.clusters.1
  have hnext : g.next fat c = some 0 := by
    rw [Geometry.next, hfree, if_neg]
    rw [UInt32.le_iff_toNat_le]
    change ¬g.nFatent.toNat ≤ 0
    omega
  exact absurd (ok.valid 0 ((ok.chain hne).next_mem hc hnext)).1 (by decide)

/-- A cluster that none is behind is the last one of the file. -/
theorem FileOk.at_end (ok : FileOk dr g fat l h) {q : ℕ}
    (hclst : clst = 0 ∧ l = [] ∧ q = 0 ∨ 0 < q ∧ l[q - 1]? = some clst)
    (hlast : clst = 0 ∨ g.nFatent ≤ fat clst) :
    (clst = 0 ∧ l = [] ∨ l.getLast? = some clst) ∧ l.length = q := by
  rcases hclst with ⟨hzero, hnil, rfl⟩ | ⟨hq, hat⟩
  · exact ⟨Or.inl ⟨hzero, hnil⟩, by rw [hnil, List.length_nil]⟩
  · obtain ⟨hlt, hget⟩ := List.getElem?_eq_some_iff.1 hat
    have hmem : clst ∈ l := hget ▸ List.getElem_mem hlt
    have hzero := (not_error (ok.valid _ hmem)).1
    have hnext := (ok.chain (List.ne_nil_of_mem hmem)).next_eq_getElem? hat
    rw [Nat.sub_add_cancel hq, Geometry.next, if_pos (hlast.resolve_left hzero)] at hnext
    have hle := List.getElem?_eq_none_iff.1 hnext.symm
    refine ⟨Or.inr ?_, by omega⟩
    rw [List.getLast?_eq_getElem?, ← hat]
    congr 1
    omega

/-- What `create_chain` comes to, behind the cluster in front of that of number `q`. -/
theorem stretched_of_created (ok : FileOk dr g fat l h) {q : ℕ} {r : UInt32 × Fatfs δ}
    (hclst : clst = 0 ∧ l = [] ∧ q = 0 ∨ 0 < q ∧ l[q - 1]? = some clst)
    (hr : Created dr.toDrive g h.fs fat clst r) : Stretched dr g fat l q h.fs r.1 r.2 := by
  obtain ⟨x, fs'⟩ := r
  cases hr with
  | followed start next value hasFat info =>
      obtain ⟨hq, hat⟩ := hclst.resolve_left fun h => start h.1
      obtain ⟨hlt, hget⟩ := List.getElem?_eq_some_iff.1 hat
      have hmem : clst ∈ l := hget ▸ List.getElem_mem hlt
      have hchain := ok.chain (List.ne_nil_of_mem hmem)
      have hnext := hchain.next_eq_getElem? hat
      rw [Nat.sub_add_cancel hq, Geometry.next, if_neg (UInt32.not_le.2 next.2)] at hnext
      refine .clust fat l (Grown.refl fat l) hasFat hchain ok.valid ?_ fun _ => rfl
      rw [← hnext]
      exact congrArg some value.symm
  | full used value hasFat info last =>
      cases value
      exact .full (used.imp_left info.freeClst.trans) hasFat (ok.at_end hclst last).2
  | insane entry value hasFat info =>
      cases value
      refine .insane ?_ hasFat
      obtain ⟨c, hc, hone | ⟨rfl, hzero⟩⟩ := entry
      · exact ⟨c, hc, hone⟩
      · rcases hclst with ⟨rfl, -⟩ | ⟨-, hat⟩
        · exact absurd hc.1 (by decide)
        · obtain ⟨hlt, hget⟩ := List.getElem?_eq_some_iff.1 hat
          exact absurd hzero (ok.used (hget ▸ List.getElem_mem hlt))
  | failed failed value fat' hasFat info kept =>
      cases value
      refine .failed (fun hrel => failed hrel.drive) fat' hasFat fun c hc hused hout => ?_
      refine kept c hused (Or.inl ?_)
      rintro rfl
      rcases hclst with ⟨rfl, -⟩ | ⟨-, hat⟩
      · exact absurd hc.1 (by decide)
      · obtain ⟨hlt, hget⟩ := List.getElem?_eq_some_iff.1 hat
        exact hout (hget ▸ List.getElem_mem hlt)
  | linked valid free last hasFat lastClst freeClst fsiFlag =>
      have hnew : x ∉ l := fun hin => ok.used hin free
      obtain ⟨hend, hq⟩ := ok.at_end hclst last
      refine .clust _ (l ++ [x]) (grown_link ?_ free valid) hasFat
        (chain_link ok.chain ok.valid hend hnew valid) ?_ ?_ ?_
      · exact hend.imp_right List.mem_of_getLast?
      · intro c hc
        rcases List.mem_append.1 hc with hc | hc
        · exact ok.valid c hc
        · rw [List.mem_singleton.1 hc]
          exact valid
      · rw [← hq]
        exact List.getElem?_concat_length
      · intro hne
        rw [List.head?_append_of_ne_nil _ hne]

/-- **The chain is followed, or becomes longer.** -/
theorem stretch_spec (ok : FileOk dr g fat l h) {q : ℕ}
    (hclst : clst = 0 ∧ l = [] ∧ q = 0 ∨ 0 < q ∧ l[q - 1]? = some clst) :
    ∃ r, createChain dr.toDrive g g.nFatent.toNat clst h.fs = some r ∧
      Stretched dr g fat l q h.fs r.1 r.2 ∧
        Apart dr.toDrive (g.Owned fat l) (dr.contents h.fs.drive) r.2 ∧
          Elsewhere dr g [] h.fs r.2 := by
  have hvalid : clst = 0 ∨ g.Valid clst := by
    rcases hclst with ⟨hzero, -⟩ | ⟨-, hat⟩
    · exact Or.inl hzero
    · obtain ⟨hlt, hget⟩ := List.getElem?_eq_some_iff.1 hat
      exact Or.inr (ok.valid _ (hget ▸ List.getElem_mem hlt))
  obtain ⟨r, hr, hcreated, hdata⟩ := createChain_creates ok.hasFat hvalid (Nat.le_refl _)
  exact ⟨r, hr, stretched_of_created ok hclst hcreated,
    createChain_stable (apart_stable (offFat_owned g fat l) _) ⟨ok.window, fun _ _ => rfl⟩ hr,
    hdata.elsewhere (hcreated.tally ok.hasFat) fun P hst hP => createChain_stable hst hP hr⟩

/-- The cluster of the file pointer, at the beginning of a cluster. -/
theorem stretchCluster_spec (ok : FileOk dr g fat l h) (hp : Positioned g l h.fil)
    (hsect : h.fil.fptr.toNat % 512 = 0) (hmod : h.fil.fptr.toNat / 512 % g.csize.toNat = 0) :
    ∃ x fs, stretchCluster dr g h = some (x, { h with fs := fs }) ∧
      Stretched dr g fat l (h.fil.fptr.toNat / 512 / g.csize.toNat) h.fs x fs ∧
        Apart dr.toDrive (g.Owned fat l) (dr.contents h.fs.drive) fs ∧
          Elsewhere dr g [] h.fs fs := by
  unfold stretchCluster
  by_cases hzero : h.fil.fptr = 0
  · rw [if_pos hzero]
    have hfirst : h.fil.fptr.toNat / 512 / g.csize.toNat = 0 := by
      rw [hzero]
      exact Nat.zero_div _
    rw [hfirst]
    have hsclust := ok.sclust
    by_cases hnil : l = []
    · rw [if_pos (by rw [hsclust, hnil]; rfl)]
      obtain ⟨r, hr, hrest⟩ := stretch_spec ok (Or.inl ⟨rfl, hnil, rfl⟩)
      exact ⟨r.1, r.2, by rw [hr]; rfl, hrest⟩
    · obtain ⟨c, t, rfl⟩ := List.exists_cons_of_ne_nil hnil
      rw [List.head?_cons, Option.getD_some] at hsclust
      have hc := (not_error (ok.valid c List.mem_cons_self)).1
      rw [if_neg (by rw [hsclust]; exact hc)]
      refine ⟨_, h.fs, rfl, .clust fat (c :: t) (Grown.refl fat _) ok.hasFat (ok.chain hnil)
        ok.valid ?_ fun _ => rfl, ⟨ok.window, fun _ _ => rfl⟩, Elsewhere.refl _⟩
      exact congrArg some hsclust.symm
  · rw [if_neg hzero]
    obtain ⟨r, hr, hrest⟩ := stretch_spec ok (Or.inr (hp.clust_of_boundary hzero hsect hmod))
    exact ⟨r.1, r.2, by rw [hr]; rfl, hrest⟩

/-- Why a file operation fails: the drive has, or an entry of the FAT is 1. -/
def Failing (dr : Disk δ) (g : Geometry) (fat : UInt32 → UInt32) (res : FRESULT) : Prop :=
  res = FR_DISK_ERR ∧ ¬dr.Reliable ∨ res = FR_INT_ERR ∧ ∃ c, g.Valid c ∧ fat c = 1

theorem Failing.trans {res : FRESULT} (hg : Grown g fat l fat' l') (hf : Failing dr g fat' res) :
    Failing dr g fat res := by
  refine hf.imp_right ?_
  rintro ⟨hres, c, hc, hone⟩
  exact ⟨hres, c, hc, hg.sane c hone⟩

/-- There is no cluster to be had. -/
def Full (g : Geometry) (fat : UInt32 → UInt32) (fs : Fatfs δ) : Prop :=
  fs.freeClst = 0 ∨ ∀ c, g.Valid c → fat c ≠ 0

/-- What is asked of the way to the sector of the file pointer. -/
structure WriteSought (dr : Disk δ) (g : Geometry) (fat : UInt32 → UInt32) (l : List UInt32)
    (h : Handle δ) (r : Except (Option FRESULT) UInt32 × Handle δ) : Prop where
  outside : Outside dr g fat l h.fs r.2.fs
  hasFat : ∃ fat', HasFat dr.toDrive g r.2.fs fat' ∧ OthersKept g fat l fat'
  full : r.1 = .error none → SameFile dr g fat l h r.2 ∧ Elsewhere dr g l h.fs r.2.fs ∧
    r.2.fil = h.fil ∧ Full g fat r.2.fs
  error : ∀ res, r.1 = .error (some res) → Failing dr g fat res
  found : ∀ sect, r.1 = .ok sect → ∃ fat' l', Grown g fat l fat' l' ∧
    Elsewhere dr g l' h.fs r.2.fs ∧ FileOk dr g fat' l' r.2 ∧
    h.fil.fptr.toNat / 512 < g.csize.toNat * l'.length ∧
    sect = g.fileSector l' (h.fil.fptr.toNat / 512) ∧
    l'[h.fil.fptr.toNat / 512 / g.csize.toNat]? = some r.2.fil.clust ∧
    r.2.fil.flag &&& FA_DIRTY = 0 ∧ (∀ s, g.Owned fat' l' s → r.2.data dr s = h.data dr s) ∧
    SameFil { h.fil with sclust := r.2.fil.sclust } r.2.fil

theorem Grown.others (hg : Grown g fat l fat' l') : OthersKept g fat l fat' :=
  fun c _ hused hout => hg.kept c hused hout

theorem writeSector_spec (ok : FileOk dr g fat l h) (hp : Positioned g l h.fil)
    (hsect : h.fil.fptr.toNat % 512 = 0) :
    ∃ r, writeSector dr g h = some r ∧ WriteSought dr g fat l h r := by
  have hcsect := toNat_csect g h.fil.fptr
  have hzero : g.csect h.fil.fptr = 0 ↔ h.fil.fptr.toNat / 512 % g.csize.toNat = 0 := by
    rw [← hcsect, ← UInt32.toNat_inj]
    rfl
  generalize hq : h.fil.fptr.toNat / 512 / g.csize.toNat = q
  have hfollow : ∃ x fs, (if g.csect h.fil.fptr = 0 then stretchCluster dr g h
      else some (h.fil.clust, h)) = some (x, { h with fs := fs }) ∧
        (Stretched dr g fat l q h.fs x fs ∧ (g.csect h.fil.fptr ≠ 0 → g.Valid x)) ∧
          Apart dr.toDrive (g.Owned fat l) (dr.contents h.fs.drive) fs ∧
            Elsewhere dr g [] h.fs fs := by
    by_cases hc : g.csect h.fil.fptr = 0
    · rw [if_pos hc]
      obtain ⟨x, fs, heq, hst, ha, ho⟩ := stretchCluster_spec ok hp hsect (hzero.1 hc)
      exact ⟨x, fs, heq, ⟨hq ▸ hst, fun hne => absurd hc hne⟩, ha, ho⟩
    · rw [if_neg hc]
      have hclust := hp.clust_of_inner hsect (mt hzero.2 hc)
      rw [hq] at hclust
      obtain ⟨hlt, hget⟩ := List.getElem?_eq_some_iff.1 hclust
      have hmem : h.fil.clust ∈ l := hget ▸ List.getElem_mem hlt
      exact ⟨_, h.fs, rfl, ⟨.clust fat l (Grown.refl fat l) ok.hasFat
        (ok.chain (List.ne_nil_of_mem hmem)) ok.valid hclust fun _ => rfl,
        fun _ => ok.valid _ hmem⟩, ⟨ok.window, fun _ _ => rfl⟩, Elsewhere.refl _⟩
  obtain ⟨x, fs, heq, ⟨hst, hinner⟩, ha, helse⟩ := hfollow
  have ho : Outside dr g fat l h.fs fs := (helse.mono (List.nil_subset l)).outside
  rw [writeSector]
  dsimp only
  rw [heq, Option.map_some]
  refine ⟨_, rfl, ?_⟩
  have hboundary : ¬g.Valid x → g.csect h.fil.fptr = 0 := fun hx => by
    by_contra hne
    exact hx (hinner hne)
  dsimp only
  cases hst with
  | full used hasFat =>
      have hc := hboundary fun hv => (not_error hv).1 rfl
      obtain ⟨ok', hdata⟩ := ok.follow hasFat ha
      rw [if_pos ⟨hc, rfl⟩]
      exact ⟨ho, ⟨fat, hasFat, fun _ _ _ _ => rfl⟩, fun _ => ⟨⟨ok', hdata, SameFil.refl h.fil⟩,
        helse.mono (List.nil_subset l), rfl, used⟩, by rintro _ ⟨⟩, by rintro _ ⟨⟩⟩
  | insane entry hasFat =>
      have hc := hboundary fun hv => (not_error hv).2.1 rfl
      rw [if_neg fun h => absurd h.2 (by decide), if_pos ⟨hc, rfl⟩]
      refine ⟨ho, ⟨fat, hasFat, fun _ _ _ _ => rfl⟩, by rintro ⟨⟩, fun res heq => ?_,
        by rintro _ ⟨⟩⟩
      cases heq
      exact Or.inr ⟨rfl, entry⟩
  | failed failed fat' hasFat kept =>
      have hc := hboundary fun hv => (not_error hv).2.2 rfl
      rw [if_neg fun h => absurd h.2 (by decide), if_neg fun h => absurd h.2 (by decide),
        if_pos ⟨hc, rfl⟩]
      refine ⟨ho, ⟨fat', hasFat, kept⟩, by rintro ⟨⟩, fun res heq => ?_, by rintro _ ⟨⟩⟩
      cases heq
      exact Or.inl ⟨rfl, failed⟩
  | clust fat' l' grown hasFat chain valid at_q head =>
      obtain ⟨hlt, hget⟩ := List.getElem?_eq_some_iff.1 at_q
      have hvalid : g.Valid x := valid _ (hget ▸ List.getElem_mem hlt)
      obtain ⟨h0, h1, hd⟩ := not_error hvalid
      rw [if_neg fun h => h0 h.2, if_neg fun h => h1 h.2, if_neg fun h => hd h.2]
      have hsclust : (if g.csect h.fil.fptr = 0 ∧ h.fil.sclust = 0 then x else h.fil.sclust) =
          l'.head?.getD 0 := by
        by_cases hnil : l = []
        · -- the file has been empty
          have hsize := ok.size
          have hfptr := hp.fptr
          rw [hnil, List.length_nil, Nat.mul_zero, Nat.mul_zero] at hsize
          have hstart : h.fil.fptr.toNat = 0 := by omega
          have hfirst : g.csect h.fil.fptr = 0 := by
            rw [hzero, hstart]
            exact Nat.zero_mod _
          have hq' : q = 0 := by
            rw [← hq, hstart]
            exact Nat.zero_div _
          rw [hq'] at at_q
          rw [if_pos ⟨hfirst, by rw [ok.sclust, hnil]; rfl⟩, List.head?_eq_getElem?, at_q,
            Option.getD_some]
        · obtain ⟨c, t, rfl⟩ := List.exists_cons_of_ne_nil hnil
          have hc := (not_error (ok.valid c List.mem_cons_self)).1
          have hold := ok.sclust
          rw [head hnil, ← hold]
          rw [List.head?_cons, Option.getD_some] at hold
          rw [if_neg fun h => hc (hold ▸ h.2)]
      rw [hsclust]
      obtain ⟨ok', hdata⟩ := ok.grow grown hasFat chain valid ha x
      have hflush := flushBuffer_spec ok'
      revert hflush
      generalize flushBuffer dr _ = w
      intro hflush
      have hout : Outside dr g fat l h.fs w.2.fs :=
        Outside.trans grown ho hflush.elsewhere.outside
      by_cases hw : w.1 = FR_OK
      · rw [if_neg (not_not.2 hw)]
        have hsame := hflush.same hw
        have hclust := hflush.clust
        dsimp only at hclust
        rw [hclust, if_neg (clst2sect_ne_zero hvalid)]
        refine ⟨hout, ⟨fat', hsame.ok.hasFat, grown.others⟩, by rintro ⟨⟩, by rintro _ ⟨⟩,
          fun sect heq => ?_⟩
        obtain rfl := Except.ok.inj heq
        refine ⟨fat', l', grown, (helse.mono (List.nil_subset l')).trans hflush.elsewhere, hsame.ok,
          ?_, ?_, ?_, hflush.clean hw, fun s hs => ?_, ?_⟩
        · rw [← hq] at hlt
          exact Nat.lt_of_div_lt_div (by rwa [Nat.mul_div_cancel_left _ (csize_pos g)])
        · rw [Geometry.fileSector, hq, at_q, Option.getD_some, ← hcsect, UInt32.ofNat_toNat]
        · rw [hq, hclust]
          exact at_q
        · exact (hsame.data s hs).trans (hdata s (grown.owned hs))
        · have hfil := hsame.fil
          exact ⟨hfil.mounted, hfil.err, hfil.fptr, hfil.objsize, rfl, hfil.flag⟩
      · rw [if_pos hw]
        refine ⟨hout, ⟨fat', hflush.hasFat, grown.others⟩, by rintro ⟨⟩, fun res heq => ?_,
          by rintro _ ⟨⟩⟩
        cases heq
        exact Or.inl (hflush.error hw)

/-! ### Bytes that are written -/

/-- How a file has been opened, which `FA_DIRTY` and `FA_MODIFIED` are no part of. -/
theorem mode_of_clear {flag flag' : UInt8} (h : flag' &&& ~~~FA_DIRTY = flag &&& ~~~FA_DIRTY) :
    flag' &&& 0x3F = flag &&& 0x3F := by
  rw [show (0x3F : UInt8) = ~~~FA_DIRTY &&& 0x3F by rfl, ← UInt8.and_assoc, h, UInt8.and_assoc]

/-- **So many bytes are written behind the file pointer.** -/
structure Wrote (dr : Disk δ) (g : Geometry) (fat : UInt32 → UInt32) (l : List UInt32)
    (bytes : List UInt8) (n : ℕ) (h : Handle δ) (fat' : UInt32 → UInt32) (l' : List UInt32)
    (h' : Handle δ) : Prop where
  grown : Grown g fat l fat' l'
  elsewhere : Elsewhere dr g l' h.fs h'.fs
  opened : Open dr g fat' l' h'
  fptr : h'.fil.fptr.toNat = h.fil.fptr.toNat + n
  objsize : h'.fil.objsize.toNat = max h.fil.objsize.toNat (h.fil.fptr.toNat + n)
  mounted : h'.fil.mounted = h.fil.mounted
  err : h'.fil.err = h.fil.err
  mode : h'.fil.flag &&& 0x3F = h.fil.flag &&& 0x3F
  written : ∀ i, h.fil.fptr.toNat ≤ i → i < h.fil.fptr.toNat + n →
    h'.bytes dr g l' i = bytes.getD (i - h.fil.fptr.toNat) 0
  kept : ∀ i < h.fil.objsize.toNat, i < h.fil.fptr.toNat ∨ h.fil.fptr.toNat + n ≤ i →
    h'.bytes dr g l' i = h.bytes dr g l i

theorem Wrote.refl (hopen : Open dr g fat l h) : Wrote dr g fat l bytes 0 h fat l h := by
  have hfptr := hopen.positioned.fptr
  exact ⟨Grown.refl fat l, Elsewhere.refl _, hopen, rfl, by omega, rfl, rfl, rfl,
    fun i hi hlt => by omega, fun _ _ _ => rfl⟩

/-- Bytes, and those behind them. -/
theorem Wrote.trans {n m : ℕ} (hw : Wrote dr g fat l bytes n h fat' l' h')
    (hw' : Wrote dr g fat' l' (bytes.drop n) m h' fat'' l'' h'') :
    Wrote dr g fat l bytes (n + m) h fat'' l'' h'' := by
  have hfptr := hw.fptr
  have hobjsize := hw.objsize
  have hfptr' := hw'.fptr
  have hobjsize' := hw'.objsize
  have hwritten := hw'.written
  have hkept := hw'.kept
  rw [hfptr] at hwritten hkept
  refine ⟨hw.grown.trans hw'.grown,
    (hw.elsewhere.mono hw'.grown.front.subset).trans hw'.elsewhere, hw'.opened, by omega, by omega,
    hw'.mounted.trans hw.mounted, hw'.err.trans hw.err, hw'.mode.trans hw.mode,
    fun i hle hlt => ?_, fun i hi hout => ?_⟩
  · by_cases hfirst : i < h.fil.fptr.toNat + n
    · rw [hkept i (by omega) (Or.inl hfirst)]
      exact hw.written i hle hfirst
    · rw [hwritten i (by omega) (by omega), List.getD_eq_getElem?_getD, List.getElem?_drop,
        List.getD_eq_getElem?_getD]
      congr 2
      omega
  · rw [hkept i (by omega) (by omega)]
    exact hw.kept i hi (by omega)

/-- The end of a file that has been written to. -/
theorem toNat_grow {n : ℕ} (hlt : h.fil.fptr.toNat + n < 2 ^ 32) :
    (h.grow n).fil.fptr.toNat = h.fil.fptr.toNat + n ∧
      (h.grow n).fil.objsize.toNat = max h.fil.objsize.toNat (h.fil.fptr.toNat + n) := by
  have hadd : (h.fil.fptr + UInt32.ofNat n).toNat = h.fil.fptr.toNat + n := by
    rw [UInt32.toNat_add, UInt32.toNat_ofNat_of_lt' (by change n < 2 ^ 32; omega),
      Nat.mod_eq_of_lt hlt]
  refine ⟨hadd, ?_⟩
  change (if h.fil.objsize < h.fil.fptr + UInt32.ofNat n then h.fil.fptr + UInt32.ofNat n
    else h.fil.objsize).toNat = _
  by_cases hgt : h.fil.objsize < h.fil.fptr + UInt32.ofNat n
  · have hgt' := UInt32.lt_iff_toNat_lt.1 hgt
    rw [if_pos hgt, hadd]
    omega
  · have hgt' := mt UInt32.lt_iff_toNat_lt.2 hgt
    rw [if_neg hgt]
    omega

/-- **The file pointer goes on, in the cluster that it is in.** -/
theorem FileOk.open_grow {n : ℕ} (ok : FileOk dr g fat l h)
    (hlt : h.fil.fptr.toNat + n < 2 ^ 32)
    (hroom : h.fil.fptr.toNat + n ≤ 512 * (g.csize.toNat * l.length))
    (hclust : l[h.fil.fptr.toNat / 512 / g.csize.toNat]? = some h.fil.clust)
    (hin : (h.fil.fptr.toNat + n - 1) / 512 / g.csize.toNat =
      h.fil.fptr.toNat / 512 / g.csize.toNat)
    (hsect : (h.fil.fptr.toNat + n) % 512 ≠ 0 →
      h.fil.sect = g.fileSector l ((h.fil.fptr.toNat + n) / 512)) :
    Open dr g fat l (h.grow n) := by
  obtain ⟨hfptr, hobjsize⟩ := toNat_grow hlt
  have hsize := ok.size
  refine ⟨⟨ok.hasFat, ok.chain, ok.valid, ok.window, ok.sclust, by omega, ok.dirty, ok.clean⟩,
    ⟨by omega, fun _ => ?_, fun hne => ?_⟩⟩
  · rw [hfptr, hin]
    exact hclust
  · rw [hfptr] at hne ⊢
    exact hsect hne

/-! ### One round -/

/-- **What is asked of a round**: it writes some bytes behind the file pointer. -/
structure WriteRound (dr : Disk δ) (g : Geometry) (fat : UInt32 → UInt32) (l : List UInt32)
    (btw : UInt32) (bytes : List UInt8) (h : Handle δ)
    (r : Except (Option FRESULT) ℕ × Handle δ) : Prop where
  outside : Outside dr g fat l h.fs r.2.fs
  hasFat : ∃ fat', HasFat dr.toDrive g r.2.fs fat' ∧ OthersKept g fat l fat'
  full : r.1 = .error none → SameFile dr g fat l h r.2 ∧ Elsewhere dr g l h.fs r.2.fs ∧
    r.2.fil = h.fil ∧ Full g fat r.2.fs
  error : ∀ res, r.1 = .error (some res) → Failing dr g fat res
  chunk : ∀ n, r.1 = .ok n → 0 < n ∧ n ≤ btw.toNat ∧
    ∃ fat' l', Wrote dr g fat l bytes n h fat' l' (r.2.grow n)

/-- Sectors of a file that follow each other on the drive. -/
theorem fileSector_range {n m : ℕ} (hv : ∀ c ∈ l, g.Valid c) (hnodup : l.Nodup)
    (hn : n % g.csize.toNat + cc.toNat ≤ g.csize.toNat)
    (hlt : n + cc.toNat ≤ g.csize.toNat * l.length) (hm : m < g.csize.toNat * l.length) :
    (g.fileSector l m - g.fileSector l n < cc ↔ n ≤ m ∧ m < n + cc.toNat) ∧
      (n ≤ m → m < n + cc.toNat → (g.fileSector l m - g.fileSector l n).toNat = m - n) := by
  have hinside : n ≤ m → m < n + cc.toNat →
      (g.fileSector l m - g.fileSector l n).toNat = m - n := by
    intro hle hlt'
    have hadd := fileSector_add (g := g) (l := l) (n := n) (m := m - n) (by omega)
    rw [Nat.add_sub_cancel' hle] at hadd
    rw [hadd, show g.fileSector l n + UInt32.ofNat (m - n) - g.fileSector l n =
      UInt32.ofNat (m - n) by grind]
    have hcc := cc.toNat_lt
    exact UInt32.toNat_ofNat_of_lt' (by change m - n < 2 ^ 32; omega)
  refine ⟨⟨fun hsub => ?_, fun ⟨hle, hlt'⟩ => ?_⟩, hinside⟩
  · have hsub' := UInt32.lt_iff_toNat_lt.1 hsub
    have hadd := fileSector_add (g := g) (l := l) (n := n)
      (m := (g.fileSector l m - g.fileSector l n).toNat) (by omega)
    rw [UInt32.ofNat_toNat, show g.fileSector l n + (g.fileSector l m - g.fileSector l n) =
      g.fileSector l m by grind] at hadd
    have := fileSector_inj hv hnodup (by omega) hm hadd
    omega
  · rw [UInt32.lt_iff_toNat_lt, hinside hle hlt']
    omega

/-- Sectors of the file are written, and what the buffer has of them. -/
theorem FileOk.drive {d : δ} (ok : FileOk dr g fat l h) (flag : UInt8) (buf : Sector)
    (hd : ∀ t, ¬g.InFile l t → dr.contents d t = dr.contents h.fs.drive t)
    (hdirty : flag &&& FA_DIRTY ≠ 0 → h.fil.flag &&& FA_DIRTY ≠ 0)
    (hclean : flag &&& FA_DIRTY = 0 → g.Owned fat l h.fil.sect →
      buf = dr.contents d h.fil.sect) :
    FileOk dr g fat l
        { h with fil := { h.fil with flag := flag }, buf := buf, fs := { h.fs with drive := d } } ∧
      Elsewhere dr g l h.fs { h.fs with drive := d } := by
  have hwin : ¬g.InFile l h.fs.winsect := fun hs => ok.window hs.owned
  obtain ⟨hfat, helse⟩ := ok.hasFat.elsewhere hwin hd
  exact ⟨⟨hfat, ok.chain, ok.valid, ok.window, ok.sclust, ok.size,
    fun hf => ok.dirty (hdirty hf), hclean⟩, helse⟩

/-- The bytes of the file, when sectors of it have been replaced. -/
theorem bytes_direct {n i : ℕ} (ok : FileOk dr g fat l h)
    (hn : n % g.csize.toNat + cc.toNat ≤ g.csize.toNat)
    (hlt : n + cc.toNat ≤ g.csize.toNat * l.length) (hi : i < 512 * (g.csize.toNat * l.length))
    (hin : ∀ s, s - g.fileSector l n < cc →
      h'.data dr s = sectorsOf bytes (s - g.fileSector l n).toNat)
    (hout : ∀ s, ¬s - g.fileSector l n < cc → h'.data dr s = h.data dr s) :
    h'.bytes dr g l i = if 512 * n ≤ i ∧ i < 512 * n + 512 * cc.toNat then
      bytes.getD (i - 512 * n) 0 else h.bytes dr g l i := by
  obtain ⟨hiff, hsub⟩ := fileSector_range ok.valid ok.nodup hn hlt
    (show i / 512 < g.csize.toNat * l.length from Nat.div_lt_of_lt_mul hi)
  by_cases hrange : 512 * n ≤ i ∧ i < 512 * n + 512 * cc.toNat
  · have hle : n ≤ i / 512 := by omega
    have hlt' : i / 512 < n + cc.toNat := by omega
    rw [if_pos hrange, Handle.bytes, hin _ (hiff.2 ⟨hle, hlt'⟩), hsub hle hlt', sectorsOf]
    congr 1
    simp only [val_sectorIndex]
    omega
  · rw [if_neg hrange, Handle.bytes, hout _ fun h => hrange (by have := hiff.1 h; omega)]
    rfl

/-- The bytes of whole sectors have been written. -/
theorem wrote_direct {n : ℕ} {flag : UInt8} (ok : FileOk dr g fat l h) (ok' : FileOk dr g fat l h')
    (hfptr : h.fil.fptr.toNat = 512 * n) (hclust : l[n / g.csize.toNat]? = some h.fil.clust)
    (hccpos : 0 < cc.toNat) (hlt : h.fil.fptr.toNat + 512 * cc.toNat < 2 ^ 32)
    (hn : n % g.csize.toNat + cc.toNat ≤ g.csize.toNat)
    (hend : n + cc.toNat ≤ g.csize.toNat * l.length)
    (helse : Elsewhere dr g l h.fs h'.fs) (hfil : h'.fil = { h.fil with flag := flag })
    (hflag : flag &&& ~~~FA_DIRTY = h.fil.flag &&& ~~~FA_DIRTY)
    (hin : ∀ s, s - g.fileSector l n < cc →
      h'.data dr s = sectorsOf bytes (s - g.fileSector l n).toNat)
    (hout : ∀ s, ¬s - g.fileSector l n < cc → h'.data dr s = h.data dr s) :
    Wrote dr g fat l bytes (512 * cc.toNat) h fat l (h'.grow (512 * cc.toNat)) := by
  have hsize := ok.size
  have hpos : h'.fil.fptr = h.fil.fptr := by rw [hfil]
  have hobj : h'.fil.objsize = h.fil.objsize := by rw [hfil]
  have hquot : h.fil.fptr.toNat / 512 = n := by omega
  have hgrow := toNat_grow (h := h') (n := 512 * cc.toNat) (by rw [hpos]; exact hlt)
  rw [hpos, hobj] at hgrow
  have hbytes : ∀ i < 512 * (g.csize.toNat * l.length), (h'.grow (512 * cc.toNat)).bytes dr g l i =
      if 512 * n ≤ i ∧ i < 512 * n + 512 * cc.toNat then bytes.getD (i - 512 * n) 0
      else h.bytes dr g l i := fun i hi => bytes_direct ok hn hend hi hin hout
  refine ⟨Grown.refl fat l, helse, ok'.open_grow ?_ ?_ ?_ ?_ fun hne => ?_, hgrow.1, hgrow.2, ?_,
    ?_, ?_, fun i hle hlt' => ?_, fun i hi hor => ?_⟩
  · rw [hpos]
    exact hlt
  · rw [hpos, hfptr]
    omega
  · rw [hpos, hquot, hfil]
    exact hclust
  · rw [hpos, hquot,
      show (h.fil.fptr.toNat + 512 * cc.toNat - 1) / 512 = n + (cc.toNat - 1) by omega,
      Nat.add_div (csize_pos g)]
    have hsmall : cc.toNat - 1 < g.csize.toNat := by omega
    rw [Nat.div_eq_of_lt hsmall, Nat.mod_eq_of_lt hsmall, if_neg (by omega)]
    rfl
  · rw [hpos] at hne
    exact absurd (by omega) hne
  · change h'.fil.mounted = _
    rw [hfil]
  · change h'.fil.err = _
    rw [hfil]
  · change h'.fil.flag &&& 0x3F = _
    rw [hfil]
    exact mode_of_clear hflag
  · rw [hbytes i (by omega), if_pos (by omega), hfptr]
  · rw [hbytes i (by omega), if_neg (by omega)]

/-- Whole sectors. -/
theorem writeDirect_spec (ok : FileOk dr g fat l h) (hsect : h.fil.fptr.toNat % 512 = 0)
    (hclust : l[h.fil.fptr.toNat / 512 / g.csize.toNat]? = some h.fil.clust)
    (hbtw : 0 < btw / sectorSize) (hlt : h.fil.fptr.toNat + btw.toNat < 2 ^ 32) :
    WriteRound dr g fat l btw bytes h (writeDirect dr g
        (g.fileSector l (h.fil.fptr.toNat / 512)) (btw / sectorSize) bytes h) ∧
      (writeDirect dr g (g.fileSector l (h.fil.fptr.toNat / 512)) (btw / sectorSize) bytes h).1 ≠
        .error none := by
  have hquot : (btw / sectorSize).toNat = btw.toNat / 512 := UInt32.toNat_div _ _
  have hpos := UInt32.lt_iff_toNat_lt.1 hbtw
  have hbound := btw.toNat_lt
  change 0 < _ at hpos
  have hclip := toNat_clip (g := g) h.fil.fptr (btw / sectorSize) (by omega)
  have hmod := Nat.mod_lt (h.fil.fptr.toNat / 512) (csize_pos g)
  have hsize := ok.size
  obtain ⟨hin, -⟩ := List.getElem?_eq_some_iff.1 hclust
  have hend : g.csize.toNat * (h.fil.fptr.toNat / 512 / g.csize.toNat) + g.csize.toNat ≤
      g.csize.toNat * l.length := by
    rw [← Nat.mul_succ]
    exact Nat.mul_le_mul_left _ hin
  have hdiv := Nat.div_add_mod (h.fil.fptr.toNat / 512) g.csize.toNat
  have hfptr := Nat.div_add_mod h.fil.fptr.toNat 512
  unfold writeDirect
  dsimp only
  revert hclip
  generalize (if g.csize < g.csect h.fil.fptr + btw / sectorSize then _ else _) = cc
  intro hclip
  generalize hn : h.fil.fptr.toNat / 512 = n at hclust hclip hmod hfptr hend hdiv ⊢
  have hc : 0 < cc.toNat ∧ 512 * cc.toNat ≤ btw.toNat ∧
      n % g.csize.toNat + cc.toNat ≤ g.csize.toNat ∧ n + cc.toNat ≤ g.csize.toNat * l.length := by
    omega
  obtain ⟨hccpos, hccle, hccin, hccend⟩ := hc
  -- what is written is of the file
  have hfile : ∀ t, t - g.fileSector l n < cc → g.InFile l t := by
    intro t ht
    have ht' := UInt32.lt_iff_toNat_lt.1 ht
    have hadd := fileSector_add (g := g) (l := l) (n := n)
      (m := (t - g.fileSector l n).toNat) (by omega)
    rw [UInt32.ofNat_toNat, show g.fileSector l n + (t - g.fileSector l n) = t by grind] at hadd
    rw [← hadd]
    exact inFile_fileSector ok.valid (by omega)
  have hother : ∀ t, ¬t - g.fileSector l n < cc →
      dr.contents (dr.writeMany (g.fileSector l n) cc (sectorsOf bytes) h.fs.drive).2 t =
        dr.contents h.fs.drive t := fun t ht => dr.contents_writeMany ht
  have hkeep : ∀ t, ¬g.InFile l t →
      dr.contents (dr.writeMany (g.fileSector l n) cc (sectorsOf bytes) h.fs.drive).2 t =
        dr.contents h.fs.drive t := fun t ht => hother t fun h => ht (hfile t h)
  have hwin : ¬g.InFile l h.fs.winsect := fun hs => ok.window hs.owned
  cases hwrite : (dr.writeMany (g.fileSector l n) cc (sectorsOf bytes) h.fs.drive).1 with
  | false =>
      obtain ⟨hfat, helse⟩ := ok.hasFat.elsewhere hwin hkeep
      rw [if_neg (by simp)]
      refine ⟨⟨helse.outside,
        ⟨fat, hfat, fun _ _ _ _ => rfl⟩, nofun, fun res heq => ?_, nofun⟩, nofun⟩
      cases heq
      refine Or.inl ⟨rfl, fun hrel => ?_⟩
      rw [hrel.writeMany] at hwrite
      cases hwrite
  | true =>
      rw [if_pos rfl]
      have hsaved : ∀ t, t - g.fileSector l n < cc →
          dr.contents (dr.writeMany (g.fileSector l n) cc (sectorsOf bytes) h.fs.drive).2 t =
            sectorsOf bytes (t - g.fileSector l n).toNat := by
        intro t ht
        have hat := dr.writeMany_ok hwrite _ ht
        rwa [show g.fileSector l n + (t - g.fileSector l n) = t by grind] at hat
      revert hother hkeep hsaved
      generalize (dr.writeMany (g.fileSector l n) cc (sectorsOf bytes) h.fs.drive).2 = d
      intro hother hkeep hsaved
      by_cases hbuf : h.fil.sect - g.fileSector l n < cc
      · -- the buffer gets what has been written of its sector
        rw [if_pos hbuf]
        obtain ⟨ok', helse⟩ := ok.drive (d := d) (h.fil.flag &&& ~~~FA_DIRTY)
          (sectorsOf bytes (h.fil.sect - g.fileSector l n).toNat) hkeep
          (fun hd => absurd (clear_dirty h.fil.flag) hd) fun _ _ => (hsaved _ hbuf).symm
        refine ⟨⟨helse.outside, ⟨fat, ok'.hasFat, fun _ _ _ _ => rfl⟩, nofun, nofun,
          fun k hk => ?_⟩, nofun⟩
        obtain rfl := Except.ok.inj hk
        refine ⟨by omega, hccle, fat, l, wrote_direct ok ok' (by omega) hclust hccpos (by omega)
          hccin hccend helse rfl (clear_dirty_twice h.fil.flag) (fun s hs => ?_) fun s hs => ?_⟩
        · by_cases heq : s = h.fil.sect
          · subst heq
            exact data_sect _
          · rw [data_of_ne _ (by exact heq)]
            exact hsaved s hs
        · have heq : s ≠ h.fil.sect := by
            rintro rfl
            exact hs hbuf
          rw [data_of_ne h heq, data_of_ne _ (by exact heq)]
          exact hother s hs
      · rw [if_neg hbuf]
        obtain ⟨ok', helse⟩ := ok.drive (d := d) h.fil.flag h.buf hkeep
          (fun hd => hd) fun hclean hown => (ok.clean hclean hown).trans (hother _ hbuf).symm
        refine ⟨⟨helse.outside, ⟨fat, ok'.hasFat, fun _ _ _ _ => rfl⟩, nofun, nofun,
          fun k hk => ?_⟩, nofun⟩
        obtain rfl := Except.ok.inj hk
        refine ⟨by omega, hccle, fat, l, wrote_direct ok ok' (by omega) hclust hccpos (by omega)
          hccin hccend helse rfl rfl (fun s hs => ?_) fun s hs => ?_⟩
        · have heq : s ≠ h.fil.sect := by
            rintro rfl
            exact hbuf hs
          rw [data_of_ne _ (by exact heq)]
          exact hsaved s hs
        · by_cases heq : s = h.fil.sect
          · subst heq
            exact (data_sect _).trans (data_sect h).symm
          · rw [data_of_ne h heq, data_of_ne _ (by exact heq)]
            exact hother s hs

theorem set_dirty (flag : UInt8) : (flag ||| FA_DIRTY) &&& FA_DIRTY ≠ 0 := by
  intro h
  have hbit := congrArg (fun x : UInt8 => x.toBitVec.getLsbD 7) h
  simp [FA_DIRTY] at hbit

/-- A part of a sector, which is in the buffer, or behind the end of the file. -/
theorem writePartial_spec (bytes : List UInt8) (ok : FileOk dr g fat l h)
    (hfil : h'.fil = { h.fil with sect := sect })
    (hsect : sect = g.fileSector l (h.fil.fptr.toNat / 512))
    (hin : h.fil.fptr.toNat / 512 < g.csize.toNat * l.length)
    (hclust : l[h.fil.fptr.toNat / 512 / g.csize.toNat]? = some h.fil.clust) (hbtw : btw ≠ 0)
    (hlt : h.fil.fptr.toNat + btw.toNat < 2 ^ 32) (helse : Elsewhere dr g l h.fs h'.fs)
    (hfat : HasFat dr.toDrive g h'.fs fat) (hwin : ¬g.Owned fat l h'.fs.winsect)
    (hdata : ∀ s, g.InFile l s → s ≠ sect → dr.contents h'.fs.drive s = h.data dr s)
    (hbuf : h.fil.fptr.toNat % 512 ≠ 0 ∨ h.fil.fptr.toNat < h.fil.objsize.toNat →
      h'.buf = h.data dr sect) :
    ∃ k r, writePartial btw bytes h' = (.ok k, r) ∧ r.fs = h'.fs ∧ 0 < k ∧ k ≤ btw.toNat ∧
      Wrote dr g fat l bytes k h fat l (r.grow k) := by
  have hfptr : h'.fil.fptr = h.fil.fptr := by rw [hfil]
  have hobj : h'.fil.objsize = h.fil.objsize := by rw [hfil]
  have hmod : (h'.fil.fptr % sectorSize).toNat = h.fil.fptr.toNat % 512 := by
    rw [hfptr, UInt32.toNat_mod]
    rfl
  have hsub : (sectorSize - h'.fil.fptr % sectorSize).toNat = 512 - h.fil.fptr.toNat % 512 := by
    rw [UInt32.toNat_sub_of_le _ _ (UInt32.le_iff_toNat_le.2 (by
      rw [hmod]
      change _ ≤ 512
      omega)), hmod]
    rfl
  have hpos : 0 < btw.toNat := Nat.pos_of_ne_zero fun hz => hbtw (UInt32.toNat_inj.1 hz)
  have hsize := ok.size
  unfold writePartial
  dsimp only
  rw [hmod]
  generalize hk : (if btw < sectorSize - h'.fil.fptr % sectorSize then btw
    else sectorSize - h'.fil.fptr % sectorSize) = wcnt
  have hwcnt : wcnt.toNat = min btw.toNat (512 - h.fil.fptr.toNat % 512) := by
    rw [← hk]
    by_cases hlt : btw < sectorSize - h'.fil.fptr % sectorSize
    · have hlt' := UInt32.lt_iff_toNat_lt.1 hlt
      rw [if_pos hlt]
      omega
    · have hlt' := mt UInt32.lt_iff_toNat_lt.2 hlt
      rw [if_neg hlt]
      omega
  refine ⟨wcnt.toNat, _, rfl, rfl, by omega, by omega, ?_⟩
  generalize hr : (⟨{ h'.fil with flag := h'.fil.flag ||| FA_DIRTY }, _, h'.fs⟩ : Handle δ) = r
  have hrfil : r.fil = { h.fil with sect := sect, flag := h.fil.flag ||| FA_DIRTY } := by
    rw [← hr]
    dsimp only
    rw [hfil]
  have hrfs : r.fs = h'.fs := by rw [← hr]
  have hrptr : r.fil.fptr = h.fil.fptr := by rw [hrfil]
  have hrobj : r.fil.objsize = h.fil.objsize := by rw [hrfil]
  have hgrow := toNat_grow (h := r) (n := wcnt.toNat) (by rw [hrptr]; omega)
  rw [hrptr, hrobj] at hgrow
  have hfile : g.InFile l sect := hsect ▸ inFile_fileSector ok.valid hin
  have hok : FileOk dr g fat l r := by
    refine ⟨by rw [hrfs]; exact hfat, ok.chain, ok.valid, by rw [hrfs]; exact hwin, ?_, ?_, ?_, ?_⟩
    · rw [hrfil]
      exact ok.sclust
    · rw [hrobj]
      exact hsize
    · intro _
      rw [hrfil]
      exact hfile
    · intro hclean
      rw [hrfil] at hclean
      exact absurd hclean (set_dirty h.fil.flag)
  have hrsect : r.fil.sect = sect := by rw [hrfil]
  have hrbuf : ∀ i : Fin 512, r.buf i = if h.fil.fptr.toNat % 512 ≤ i.val ∧
      i.val < h.fil.fptr.toNat % 512 + wcnt.toNat then
        bytes.getD (i.val - h.fil.fptr.toNat % 512) 0 else h'.buf i := by
    intro i
    rw [← hr]
  -- the sector of the file pointer is the one in the buffer
  have hat : ∀ i, i / 512 = h.fil.fptr.toNat / 512 →
      (r.grow wcnt.toNat).bytes dr g l i = r.buf (sectorIndex i) := by
    intro i hi
    change r.data dr _ _ = _
    rw [hi, ← hsect, ← hrsect, data_sect]
  refine ⟨Grown.refl fat l, hrfs ▸ helse, hok.open_grow ?_ ?_ ?_ ?_ fun hne => ?_, hgrow.1,
    hgrow.2, ?_, ?_, ?_, fun i hle hlt' => ?_, fun i hi hor => ?_⟩
  · rw [hrptr]
    omega
  · rw [hrptr]
    omega
  · rw [hrptr, hrfil]
    exact hclust
  · rw [hrptr, show (h.fil.fptr.toNat + wcnt.toNat - 1) / 512 = h.fil.fptr.toNat / 512 by omega]
  · rw [hrptr] at hne ⊢
    rw [hrsect, hsect, show (h.fil.fptr.toNat + wcnt.toNat) / 512 = h.fil.fptr.toNat / 512 by omega]
  · change r.fil.mounted = _
    rw [hrfil]
  · change r.fil.err = _
    rw [hrfil]
  · change r.fil.flag &&& 0x3F = _
    rw [hrfil]
    exact or_and_of_disjoint rfl
  · rw [hat i (by omega), hrbuf, if_pos (by simp only [val_sectorIndex]; omega), val_sectorIndex,
      show i % 512 - h.fil.fptr.toNat % 512 = i - h.fil.fptr.toNat by omega]
  · by_cases hsame : i / 512 = h.fil.fptr.toNat / 512
    · rw [hat i hsame, hrbuf, if_neg (by simp only [val_sectorIndex]; omega), hbuf (by omega),
        hsect, ← hsame]
      rfl
    · have hne : g.fileSector l (i / 512) ≠ sect := by
        intro heq
        rw [hsect] at heq
        exact hsame (fileSector_inj ok.valid ok.nodup (Nat.div_lt_of_lt_mul (by omega)) hin heq)
      change r.data dr _ _ = h.data dr _ _
      rw [data_of_ne r (by rw [hrsect]; exact hne), hrfs,
        hdata _ (inFile_fileSector ok.valid (Nat.div_lt_of_lt_mul (by omega))) hne]

/-- What is asked of filling the buffer. -/
structure Filled (dr : Disk δ) (g : Geometry) (fat : UInt32 → UInt32) (l : List UInt32)
    (sect : UInt32) (h : Handle δ) (r : FRESULT × Handle δ) : Prop where
  elsewhere : Elsewhere dr g l h.fs r.2.fs
  hasFat : HasFat dr.toDrive g r.2.fs fat
  error : r.1 ≠ FR_OK → r.1 = FR_DISK_ERR ∧ ¬dr.Reliable
  window : r.2.fs.winsect = h.fs.winsect
  contents : dr.contents r.2.fs.drive = dr.contents h.fs.drive
  fil : r.1 = FR_OK → r.2.fil = { h.fil with sect := sect }
  buf : r.1 = FR_OK → h.fil.fptr < h.fil.objsize → r.2.buf = h.data dr sect

theorem fillSector_spec (ok : FileOk dr g fat l h) (sect : UInt32) :
    Filled dr g fat l sect h (fillSector dr sect h) := by
  unfold fillSector
  by_cases hcond : h.fil.sect ≠ sect ∧ h.fil.fptr < h.fil.objsize
  · rw [if_pos hcond]
    have hcontents := dr.contents_diskRead sect h.buf h.fs.drive
    have hdrive := (SameFile.refl ok).drive hcontents
    have helse := ok.hasFat.elsewhere_read (l := l) hcontents
    dsimp only
    cases hread : (dr.diskRead sect h.buf h.fs.drive).1 with
    | false =>
        rw [if_neg (by simp)]
        refine ⟨helse, hdrive.ok.hasFat, fun _ => ⟨rfl, fun hrel => ?_⟩, rfl, hcontents, nofun,
          nofun⟩
        rw [hrel.drive.diskRead] at hread
        cases hread
    | true =>
        rw [if_pos rfl]
        refine ⟨helse, hdrive.ok.hasFat, fun hne => absurd rfl hne, rfl, hcontents, fun _ => rfl,
          fun _ _ => ?_⟩
        rw [data_of_ne h (Ne.symm hcond.1)]
        exact dr.diskRead_ok hread
  · rw [if_neg hcond]
    refine ⟨Elsewhere.refl _, ok.hasFat, fun hne => absurd rfl hne, rfl, rfl, fun _ => rfl,
      fun _ hlt => ?_⟩
    have hsect : h.fil.sect = sect := by
      by_contra hne
      exact hcond ⟨hne, hlt⟩
    rw [← hsect, data_sect]

/-- What is written after the way to the sector. -/
theorem Wrote.follow {n : ℕ} (hgrown : Grown g fat l fat' l') (ok : FileOk dr g fat l h)
    (helse : Elsewhere dr g l' h.fs h'.fs)
    (hdata : ∀ s, g.Owned fat' l' s → h'.data dr s = h.data dr s)
    (hfil : SameFil { h.fil with sclust := h'.fil.sclust } h'.fil)
    (hw : Wrote dr g fat' l' bytes n h' fat'' l'' h'') :
    Wrote dr g fat l bytes n h fat'' l'' h'' := by
  have hfptr : h'.fil.fptr = h.fil.fptr := hfil.fptr
  have hobj : h'.fil.objsize = h.fil.objsize := hfil.objsize
  have hsize := ok.size
  obtain ⟨hgrown', helse', hopened, hfptr', hobj', hmounted, herr, hmode, hwritten, hkept⟩ := hw
  rw [hfptr] at hfptr' hobj' hwritten hkept
  rw [hobj] at hobj' hkept
  refine ⟨hgrown.trans hgrown', (helse.mono hgrown'.front.subset).trans helse', hopened, hfptr',
    hobj', hmounted.trans hfil.mounted, herr.trans hfil.err,
    hmode.trans (mode_of_clear hfil.flag), hwritten, fun i hi hor => ?_⟩
  have hlt : i / 512 < g.csize.toNat * l.length := Nat.div_lt_of_lt_mul (by omega)
  rw [hkept i hi hor, Handle.bytes, Handle.bytes, hgrown.fileSector hlt]
  exact congrFun (hdata _ (hgrown.inFile (inFile_fileSector ok.valid hlt)).owned) _

/-- What the FAT says of other clusters is kept all the way. -/
theorem OthersKept.trans (hg : Grown g fat l fat' l') (ho : OthersKept g fat' l' fat'') :
    OthersKept g fat l fat'' := by
  intro c hc hused hout
  have hkept := hg.kept c hused hout
  rw [← hkept]
  refine ho c hc (by rwa [hkept]) fun hin => ?_
  exact (hg.fresh c hin).elim hout hused

/-- The rest of a round, after the way to the sector. -/
theorem WriteRound.follow {r : Except (Option FRESULT) ℕ × Handle δ}
    (hgrown : Grown g fat l fat' l') (ok : FileOk dr g fat l h)
    (helse : Elsewhere dr g l' h.fs h'.fs)
    (hdata : ∀ s, g.Owned fat' l' s → h'.data dr s = h.data dr s)
    (hfil : SameFil { h.fil with sclust := h'.fil.sclust } h'.fil)
    (hout : Outside dr g fat l h.fs h'.fs)
    (hr : WriteRound dr g fat' l' btw bytes h' r ∧ r.1 ≠ .error none) :
    WriteRound dr g fat l btw bytes h r := by
  obtain ⟨hround, hroom⟩ := hr
  obtain ⟨fat₁, hfat₁, hothers⟩ := hround.hasFat
  refine ⟨Outside.trans hgrown hout hround.outside, ⟨fat₁, hfat₁, OthersKept.trans hgrown hothers⟩,
    fun heq => absurd heq hroom, fun res heq => (hround.error res heq).trans hgrown,
    fun n heq => ?_⟩
  · obtain ⟨hn, hle, fat₂, l₂, hwrote⟩ := hround.chunk n heq
    exact ⟨hn, hle, fat₂, l₂, Wrote.follow hgrown ok helse hdata hfil hwrote⟩

/-- A part of a sector, at its beginning. -/
theorem fillPartial_spec (ok : FileOk dr g fat l h) (hclean : h.fil.flag &&& FA_DIRTY = 0)
    (hsect : h.fil.fptr.toNat % 512 = 0)
    (hin : h.fil.fptr.toNat / 512 < g.csize.toNat * l.length)
    (hclust : l[h.fil.fptr.toNat / 512 / g.csize.toNat]? = some h.fil.clust) (hbtw : btw ≠ 0)
    (hlt : h.fil.fptr.toNat + btw.toNat < 2 ^ 32) {r : Except (Option FRESULT) ℕ × Handle δ}
    (hr : r = let t := fillSector dr (g.fileSector l (h.fil.fptr.toNat / 512)) h
      if t.1 ≠ FR_OK then (.error (some t.1), t.2) else writePartial btw bytes t.2) :
    WriteRound dr g fat l btw bytes h r ∧ r.1 ≠ .error none := by
  have hfill := fillSector_spec ok (g.fileSector l (h.fil.fptr.toNat / 512))
  revert hr hfill
  generalize fillSector dr (g.fileSector l (h.fil.fptr.toNat / 512)) h = t
  rintro rfl hfill
  dsimp only
  by_cases ht : t.1 = FR_OK
  · rw [if_neg (not_not.2 ht)]
    obtain ⟨k, r, hr, hfs, hk, hkle, hwrote⟩ := writePartial_spec bytes ok
      (hfill.fil ht) rfl hin hclust hbtw hlt hfill.elsewhere hfill.hasFat
      (by rw [hfill.window]; exact ok.window)
      (fun s hs _ => by rw [hfill.contents, ok.data_clean hclean hs.owned])
      (fun hor => hfill.buf ht (UInt32.lt_iff_toNat_lt.2 (hor.resolve_left (absurd hsect))))
    rw [hr]
    refine ⟨⟨?_, ⟨fat, by rw [hfs]; exact hfill.hasFat, fun _ _ _ _ => rfl⟩, nofun, nofun,
      fun n heq => ?_⟩, nofun⟩
    · rw [hfs]
      exact hfill.elsewhere.outside
    · obtain rfl := Except.ok.inj heq
      exact ⟨hk, hkle, fat, l, hwrote⟩
  · rw [if_pos ht]
    refine ⟨⟨hfill.elsewhere.outside, ⟨fat, hfill.hasFat, fun _ _ _ _ => rfl⟩, nofun,
      fun res heq => ?_, nofun⟩, nofun⟩
    cases heq
    exact Or.inl (hfill.error ht)

/-- **One round writes behind the file pointer.** -/
theorem writeRound_spec (bytes : List UInt8) (hopen : Open dr g fat l h) (hbtw : btw ≠ 0)
    (hlt : h.fil.fptr.toNat + btw.toNat < 2 ^ 32) :
    ∃ r, writeRound dr g btw bytes h = some r ∧ WriteRound dr g fat l btw bytes h r := by
  obtain ⟨ok, hp⟩ := hopen
  have hmod : h.fil.fptr % sectorSize = 0 ↔ h.fil.fptr.toNat % 512 = 0 := by
    rw [← UInt32.toNat_inj, UInt32.toNat_mod]
    rfl
  have hfptr := hp.fptr
  have hsize := ok.size
  unfold writeRound
  by_cases hsect : h.fil.fptr % sectorSize = 0
  · rw [if_pos hsect]
    obtain ⟨s, hs, hsought⟩ := writeSector_spec ok hp (hmod.1 hsect)
    rw [hs, Option.map_some]
    refine ⟨_, rfl, ?_⟩
    cases hcase : s.1 with
    | error res =>
        refine ⟨hsought.outside, hsought.hasFat, fun heq => hsought.full ?_,
          fun res' heq => hsought.error res' ?_, nofun⟩
        · rw [hcase]
          cases heq
          rfl
        · rw [hcase]
          cases heq
          rfl
    | ok sect =>
        obtain ⟨fat', l', hgrown, helse, ok', hin, rfl, hclust, hclean, hdata, hfil⟩ :=
          hsought.found sect hcase
        have hpos : s.2.fil.fptr = h.fil.fptr := hfil.fptr
        have hobj : s.2.fil.objsize = h.fil.objsize := hfil.objsize
        dsimp only
        by_cases hcc : 0 < btw / sectorSize
        · rw [if_pos hcc]
          refine WriteRound.follow hgrown ok helse hdata hfil hsought.outside ?_
          rw [← hpos]
          exact writeDirect_spec ok' (by rw [hpos]; exact hmod.1 hsect) (by rw [hpos]; exact hclust)
            hcc (by rw [hpos]; exact hlt)
        · rw [if_neg hcc]
          refine WriteRound.follow hgrown ok helse hdata hfil hsought.outside ?_
          rw [← hpos] at hin hclust hlt ⊢
          exact fillPartial_spec ok' hclean (by rw [hpos]; exact hmod.1 hsect) hin hclust hbtw hlt
            rfl
  · rw [if_neg hsect]
    have hmod' := mt hmod.2 hsect
    have hin : h.fil.fptr.toNat / 512 < g.csize.toNat * l.length := by omega
    have hself : h.fil = { h.fil with sect := h.fil.sect } := rfl
    obtain ⟨k, r, hr, hfs, hk, hkle, hwrote⟩ := writePartial_spec bytes ok hself
      (hp.sect hmod') hin (hp.clust_of_mod hmod') hbtw hlt (Elsewhere.refl _) ok.hasFat ok.window
      (fun s hs hne => (data_of_ne h hne).symm) fun _ => (data_sect h).symm
    refine ⟨_, rfl, ?_⟩
    rw [hr]
    refine ⟨by rw [hfs]; exact Outside.refl _,
      ⟨fat, by rw [hfs]; exact ok.hasFat, fun _ _ _ _ => rfl⟩, nofun, nofun, fun n heq => ?_⟩
    obtain rfl := Except.ok.inj heq
    exact ⟨hk, hkle, fat, l, hwrote⟩

/-! ### The whole of it -/

/-- **What is asked of writing `n` bytes.** -/
structure WriteResult (dr : Disk δ) (g : Geometry) (fat : UInt32 → UInt32) (l : List UInt32)
    (n : ℕ) (bytes : List UInt8) (h : Handle δ) (r : (FRESULT × ℕ) × Handle δ) : Prop where
  outside : Outside dr g fat l h.fs r.2.fs
  hasFat : ∃ fat', HasFat dr.toDrive g r.2.fs fat' ∧ OthersKept g fat l fat'
  error : r.1.1 ≠ FR_OK → r.2.fil.err = r.1.1 ∧ Failing dr g fat r.1.1
  count : r.1.2 ≤ n
  wrote : r.1.1 = FR_OK → ∃ fat' l', Wrote dr g fat l bytes r.1.2 h fat' l' r.2 ∧
    (r.1.2 < n → Full g fat' r.2.fs)

/-- What is written behind what has been written. -/
theorem Wrote.result {n m : ℕ} {r : (FRESULT × ℕ) × Handle δ}
    (hout : Outside dr g fat l h.fs h'.fs) (hw : Wrote dr g fat l bytes n h fat' l' h')
    (hr : WriteResult dr g fat' l' m (bytes.drop n) h' r) :
    WriteResult dr g fat l (n + m) bytes h ((r.1.1, n + r.1.2), r.2) := by
  obtain ⟨fat₁, hfat₁, hothers⟩ := hr.hasFat
  have hcount := hr.count
  refine ⟨Outside.trans hw.grown hout hr.outside, ⟨fat₁, hfat₁, OthersKept.trans hw.grown hothers⟩,
    fun hne => ?_, Nat.add_le_add_left hcount n, fun hok => ?_⟩
  · obtain ⟨herr, hor⟩ := hr.error hne
    refine ⟨herr, hor.imp_right ?_⟩
    rintro ⟨hres, c, hc, hone⟩
    exact ⟨hres, c, hc, hw.grown.sane c hone⟩
  · obtain ⟨fat₂, l₂, hwrote, hfull⟩ := hr.wrote hok
    exact ⟨fat₂, l₂, hw.trans hwrote, fun hlt => hfull (Nat.lt_of_add_lt_add_left hlt)⟩

/-- The rounds of the loop write the bytes one chunk after the other. -/
theorem writeLoop_spec {fuel : ℕ} (bytes : List UInt8) (done : ℕ) (hopen : Open dr g fat l h)
    (hlt : h.fil.fptr.toNat + btw.toNat < 2 ^ 32) (hfuel : btw.toNat < fuel) :
    ∃ res n h', writeLoop dr g fuel btw bytes done h = some ((res, done + n), h') ∧
      WriteResult dr g fat l btw.toNat bytes h ((res, n), h') := by
  induction fuel generalizing btw bytes done h fat l with
  | zero => omega
  | succ fuel ih =>
      rw [writeLoop]
      by_cases hzero : btw = 0
      · subst hzero
        rw [if_pos rfl]
        exact ⟨FR_OK, 0, h, rfl, Outside.refl _, ⟨fat, hopen.ok.hasFat, fun _ _ _ _ => rfl⟩,
          fun hne => absurd rfl hne, Nat.le_refl _,
          fun _ => ⟨fat, l, Wrote.refl hopen, fun hgt => absurd hgt (Nat.lt_irrefl _)⟩⟩
      · rw [if_neg hzero]
        obtain ⟨t, ht, hround⟩ := writeRound_spec bytes hopen hzero hlt
        rw [ht, Option.bind_some]
        cases hcase : t.1 with
        | error res =>
            cases res with
            | none =>
                -- no cluster is free
                obtain ⟨hsame, helse, hfil, hfull⟩ := hround.full hcase
                refine ⟨FR_OK, 0, t.2, rfl, hround.outside, hround.hasFat,
                  fun hne => absurd rfl hne, Nat.zero_le _, fun _ => ⟨fat, l, ?_, fun _ => hfull⟩⟩
                refine Wrote.follow (Grown.refl fat l) hopen.ok helse hsame.data ?_
                  (Wrote.refl ⟨hsame.ok, by rw [hfil]; exact hopen.positioned⟩)
                rw [hfil]
                exact SameFil.refl h.fil
            | some res =>
                have herr := hround.error res hcase
                exact ⟨res, 0, t.2.abort res, rfl, hround.outside, hround.hasFat,
                  fun _ => ⟨rfl, herr⟩, Nat.zero_le _, by
                    rintro rfl
                    rcases herr with ⟨hres, -⟩ | ⟨hres, -⟩
                    · cases hres
                    · cases hres⟩
        | ok k =>
            obtain ⟨hk, hkle, fat', l', hwrote⟩ := hround.chunk k hcase
            have hbound := btw.toNat_lt
            have hsmall : (UInt32.ofNat k).toNat = k :=
              UInt32.toNat_ofNat_of_lt' (by change k < 2 ^ 32; omega)
            have hleft : (btw - UInt32.ofNat k).toNat = btw.toNat - k := by
              have hle := UInt32.le_iff_toNat_le.2 (hsmall.symm ▸ hkle)
              rw [UInt32.toNat_sub_of_le _ _ hle, hsmall]
            obtain ⟨res, n, h', hr, hresult⟩ := ih (bytes.drop k) (done + k)
              hwrote.opened
              (show (t.2.grow k).fil.fptr.toNat + (btw - UInt32.ofNat k).toNat < 2 ^ 32 by
                rw [hwrote.fptr, hleft]
                omega)
              (by omega)
            have hout : Outside dr g fat l h.fs (t.2.grow k).fs := hround.outside
            have hall := Wrote.result hout hwrote hresult
            rw [hleft, Nat.add_sub_cancel' hkle] at hall
            dsimp only
            exact ⟨res, k + n, h', by rw [hr, Nat.add_assoc], hall⟩

theorem set_modified (flag : UInt8) : (flag ||| FA_MODIFIED) &&& FA_MODIFIED ≠ 0 := by
  intro h
  have hbit := congrArg (fun x : UInt8 => x.toBitVec.getLsbD 6) h
  simp [FA_MODIFIED] at hbit

/-- The file object has been marked. -/
theorem Wrote.modified {n : ℕ} (hw : Wrote dr g fat l bytes n h fat' l' h') :
    Wrote dr g fat l bytes n h fat' l'
      { h' with fil := { h'.fil with flag := h'.fil.flag ||| FA_MODIFIED } } := by
  have hdirty : (h'.fil.flag ||| FA_MODIFIED) &&& FA_DIRTY = h'.fil.flag &&& FA_DIRTY :=
    or_and_of_disjoint rfl
  have ok := hw.opened.ok
  have hp := hw.opened.positioned
  exact ⟨hw.grown, hw.elsewhere, ⟨⟨ok.hasFat, ok.chain, ok.valid, ok.window, ok.sclust, ok.size,
      fun hd => ok.dirty (hdirty ▸ hd), fun hc => ok.clean (hdirty ▸ hc)⟩,
    ⟨hp.fptr, hp.clust, hp.sect⟩⟩, hw.fptr, hw.objsize, hw.mounted, hw.err,
    (or_and_of_disjoint rfl).trans hw.mode, hw.written, hw.kept⟩

/-- What `f_write` comes to. -/
theorem fWrite_result {fuel : ℕ} (bytes : List UInt8) (hopen : Open dr g fat l h)
    (hvalid : h.validate dr = FR_OK)
    (hflag : h.fil.flag &&& FA_WRITE ≠ 0) (hfuel : btw.toNat < fuel) :
    ∃ r, fWrite dr g fuel bytes btw h = some r ∧
      WriteResult dr g fat l (min btw.toNat (2 ^ 32 - 1 - h.fil.fptr.toNat)) bytes h r ∧
      (r.1.1 = FR_OK → r.2.fil.flag &&& FA_MODIFIED ≠ 0) := by
  have hptr := h.fil.fptr.toNat_lt
  have hbtw := btw.toNat_lt
  rw [fWrite]
  dsimp only
  rw [hvalid, if_neg (by simp), if_neg hflag]
  generalize hn : (if h.fil.fptr + btw < h.fil.fptr then 0xFFFFFFFF - h.fil.fptr else btw) = n
  have hmin : n.toNat = min btw.toNat (2 ^ 32 - 1 - h.fil.fptr.toNat) := by
    have hadd := UInt32.toNat_add h.fil.fptr btw
    rw [← hn]
    by_cases hwrap : h.fil.fptr + btw < h.fil.fptr
    · have hwrap' := UInt32.lt_iff_toNat_lt.1 hwrap
      rw [if_pos hwrap, UInt32.toNat_sub_of_le _ _ (UInt32.le_iff_toNat_le.2 (by
        change _ ≤ 2 ^ 32 - 1
        omega))]
      change 2 ^ 32 - 1 - _ = _
      omega
    · have hwrap' := mt UInt32.lt_iff_toNat_lt.2 hwrap
      rw [if_neg hwrap]
      omega
  obtain ⟨res, k, h', hr, hresult⟩ := writeLoop_spec bytes 0 hopen
    (show h.fil.fptr.toNat + n.toNat < 2 ^ 32 by omega) (show n.toNat < fuel by omega)
  rw [← hmin, hr, Nat.zero_add, Option.map_some]
  refine ⟨_, rfl, ?_⟩
  by_cases hok : res = FR_OK
  · subst hok
    rw [if_pos rfl]
    refine ⟨⟨hresult.outside, hresult.hasFat, fun hne => absurd rfl hne, hresult.count,
      fun _ => ?_⟩, fun _ => set_modified h'.fil.flag⟩
    obtain ⟨fat', l', hwrote, hfull⟩ := hresult.wrote rfl
    exact ⟨fat', l', hwrote.modified, hfull⟩
  · rw [if_neg hok]
    exact ⟨hresult, fun h => absurd h hok⟩

end

end Pico.Fat
