/-
**Bringing a volume of FatFs to the drive.**

`sync_fs` of `library/fatfs/ff.c` writes back the window and, on volumes with a FAT of 32 bits, what
is known of the free clusters; `sync_window` writes each sector of the first FAT to the second one
as well.  After a run of operations on a drive that does not fail, the drive has all that has been
seen of the volume, and the two FATs are the same.

Main definitions:

* `Pico.Fat.Stable` — what moving and changing the window keeps;
* `Pico.Fat.syncFs` — `sync_fs`;
* `Pico.Fat.Mirrored` — what is not to be written back is in both FATs.

Main results:

* `Pico.Fat.step_stable` — **what moving and changing the window keeps, every operation keeps**;
* `Pico.Fat.run_synced` — after any run and `sync_fs`, **the drive has what was seen of the volume,
  in both FATs**.
-/

import WizioPico.FatVolume

set_option relaxedAutoImplicit false
set_option autoImplicit false

namespace Pico.Fat

open Pico.Vfs
open FRESULT FsType

section

variable {δ : Type*} (dr : Drive δ) (g : Geometry)

/-! ### What the window keeps -/

/-- What is kept when the window is moved to a sector of the FAT, when it is changed there, and
when something else becomes known of the free clusters. -/
structure Stable (P : Fatfs δ → Prop) : Prop where
  move : ∀ fs q, q < g.fsize → P fs → P (moveWindow dr g (g.fatbase + q) fs).2
  store : ∀ fs q win, q < g.fsize → fs.winsect = g.fatbase + q → P fs →
    P { fs with win := win, wflag := true }
  info : ∀ fs lastClst freeClst fsiFlag, P fs →
    P { fs with lastClst := lastClst, freeClst := freeClst, fsiFlag := fsiFlag }

variable {dr g} {P : Fatfs δ → Prop} {fs : Fatfs δ} {clst pclst ncl scl val : UInt32} {fuel : ℕ}

theorem getFat_stable (hst : Stable dr g P) (h : P fs) : P (getFat dr g clst fs).2 := by
  unfold getFat
  split
  · exact h
  · rename_i hout
    have hlt : clst < g.nFatent := UInt32.not_le.1 (not_or.1 hout).2
    split
    · rename_i htype
      obtain ⟨hfirst, hsecond, hin⟩ := offset_fat12 htype hlt
      obtain ⟨hq, -, -⟩ := position_byte g (clst + clst / 2) (by omega)
      obtain ⟨hq', -, -⟩ := position_byte g (clst + clst / 2 + 1) (by omega)
      have hmove := hst.move fs _ hq h
      dsimp only
      split
      · exact hmove
      · split
        · exact hst.move _ _ hq' hmove
        · exact hst.move _ _ hq' hmove
    · rename_i htype
      obtain ⟨hq, -, -⟩ := position_word (Or.inl rfl) (fits_fat16 htype) hlt
      dsimp only
      split
      · exact hst.move _ _ hq h
      · exact hst.move _ _ hq h
    · rename_i htype
      obtain ⟨hq, -, -⟩ := position_word (Or.inr rfl) (fits_fat32 htype) hlt
      dsimp only
      split
      · exact hst.move _ _ hq h
      · exact hst.move _ _ hq h

theorem putFat_stable (hst : Stable dr g P) (h : P fs) : P (putFat dr g clst val fs).2 := by
  unfold putFat
  split
  · rename_i hv
    split
    · rename_i htype
      obtain ⟨hfirst, hsecond, hin⟩ := offset_fat12 htype hv.2
      obtain ⟨hq, -, -⟩ := position_byte g (clst + clst / 2) (by omega)
      obtain ⟨hq', -, -⟩ := position_byte g (clst + clst / 2 + 1) (by omega)
      have hmove := hst.move fs _ hq h
      dsimp only
      split
      · exact hmove
      · rename_i hok
        have hwin := (moveWindow_moves dr g (g.fatbase + (clst + clst / 2) / sectorSize) fs).winsect
          (not_not.1 hok)
        -- the two bytes of the entry are stored one after the other
        generalize hstored : ({ (moveWindow dr g (g.fatbase + (clst + clst / 2) / sectorSize) fs).2
          with win := _, wflag := true } : Fatfs δ) = fs₁
        have hstore : P fs₁ := hstored ▸ hst.store _ _ _ hq hwin hmove
        have hmove' := hst.move _ _ hq' hstore
        by_cases hok' :
            (moveWindow dr g (g.fatbase + (clst + clst / 2 + 1) / sectorSize) fs₁).1 = FR_OK
        · rw [if_neg (not_not.2 hok')]
          exact hst.store _ _ _ hq' ((moveWindow_moves dr g _ _).winsect hok') hmove'
        · rw [if_pos hok']
          exact hmove'
    · rename_i htype
      obtain ⟨hq, -, -⟩ := position_word (Or.inl rfl) (fits_fat16 htype) hv.2
      have hmove := hst.move fs _ hq h
      dsimp only
      split
      · exact hmove
      · rename_i hok
        exact hst.store _ _ _ hq ((moveWindow_moves dr g _ _).winsect (not_not.1 hok)) hmove
    · rename_i htype
      obtain ⟨hq, -, -⟩ := position_word (Or.inr rfl) (fits_fat32 htype) hv.2
      have hmove := hst.move fs _ hq h
      dsimp only
      split
      · exact hmove
      · rename_i hok
        exact hst.store _ _ _ hq ((moveWindow_moves dr g _ _).winsect (not_not.1 hok)) hmove
  · exact h

theorem findFree_stable (hst : Stable dr g P) {r : Except UInt32 UInt32 × Fatfs δ} (h : P fs)
    (hr : findFree dr g scl fuel ncl fs = some r) : P r.2 := by
  induction fuel generalizing ncl fs with
  | zero => cases hr
  | succ fuel ih =>
      rw [findFree] at hr
      dsimp only at hr
      generalize (if g.nFatent ≤ ncl + 1 then 2 else ncl + 1) = n at hr
      have hget : P (getFat dr g n fs).2 := getFat_stable hst h
      split at hr
      · cases hr
        exact h
      split at hr
      · cases hr
        exact hget
      split at hr
      · cases hr
        exact hget
      split at hr
      · cases hr
        exact hget
      · exact ih hget hr

theorem createFrom_stable (hst : Stable dr g P) {r : UInt32 × Fatfs δ} (h : P fs)
    (hr : createFrom dr g fuel clst scl fs = some r) : P r.2 := by
  have hchoose : ∀ t, chooseFree dr g fuel clst scl fs = some t → P t.2 := by
    intro t ht
    unfold chooseFree at ht
    split at ht
    · dsimp only at ht
      generalize (if g.nFatent ≤ scl + 1 then 2 else scl + 1) = n at ht
      have hget : P (getFat dr g n fs).2 := getFat_stable hst h
      split at ht
      · cases ht
        exact hget
      split at ht
      · exact findFree_stable hst hget ht
      · cases ht
        exact hget
    · exact findFree_stable hst h ht
  have hlink : ∀ n fs, P fs → P (linkNew dr g clst n fs).2 := by
    intro n fs h
    have hput : P (putFat dr g n 0xFFFFFFFF fs).2 := putFat_stable hst h
    have hput' : P (if (putFat dr g n 0xFFFFFFFF fs).1 = FR_OK ∧ clst ≠ 0 then
        putFat dr g clst n (putFat dr g n 0xFFFFFFFF fs).2
      else putFat dr g n 0xFFFFFFFF fs).2 := by
      split
      · exact putFat_stable hst hput
      · exact hput
    unfold linkNew
    dsimp only
    revert hput'
    generalize (if (putFat dr g n 0xFFFFFFFF fs).1 = FR_OK ∧ clst ≠ 0 then
      putFat dr g clst n (putFat dr g n 0xFFFFFFFF fs).2
      else putFat dr g n 0xFFFFFFFF fs) = t
    intro hput'
    split
    · exact hst.info _ _ _ _ hput'
    · exact hput'
  unfold createFrom at hr
  split at hr
  · cases hr
    exact h
  · obtain ⟨t, ht, rfl⟩ := Option.map_eq_some_iff.1 hr
    have hst' := hchoose t ht
    split
    · exact hst'
    · exact hlink _ _ hst'

theorem createChain_stable (hst : Stable dr g P) {r : UInt32 × Fatfs δ} (h : P fs)
    (hr : createChain dr g fuel clst fs = some r) : P r.2 := by
  have hget : P (getFat dr g clst fs).2 := getFat_stable hst h
  unfold createChain at hr
  split at hr
  · exact createFrom_stable hst h hr
  dsimp only at hr
  split at hr
  · cases hr
    exact hget
  split at hr
  · cases hr
    exact hget
  split at hr
  · cases hr
    exact hget
  · exact createFrom_stable hst hget hr

theorem removeLoop_stable (hst : Stable dr g P) {r : FRESULT × Fatfs δ} (h : P fs)
    (hr : removeLoop dr g fuel clst fs = some r) : P r.2 := by
  induction fuel generalizing clst fs with
  | zero => cases hr
  | succ fuel ih =>
      have hget : P (getFat dr g clst fs).2 := getFat_stable hst h
      have hput : P (putFat dr g clst 0 (getFat dr g clst fs).2).2 := putFat_stable hst hget
      rw [removeLoop] at hr
      dsimp only at hr
      split at hr
      · cases hr
        exact hget
      split at hr
      · cases hr
        exact hget
      split at hr
      · cases hr
        exact hget
      split at hr
      · cases hr
        exact hput
      revert hput hr
      generalize (putFat dr g clst 0 (getFat dr g clst fs).2).2 = t
      intro hput hr
      have hinfo : P (if t.freeClst < g.nFatent - 2 then
          { t with freeClst := t.freeClst + 1, fsiFlag := t.fsiFlag ||| 1 } else t) := by
        split
        · exact hst.info _ _ _ _ hput
        · exact hput
      split at hr
      · exact ih hinfo hr
      · cases hr
        exact hinfo

theorem removeChain_stable (hst : Stable dr g P) {r : FRESULT × Fatfs δ} (h : P fs)
    (hr : removeChain dr g fuel clst pclst fs = some r) : P r.2 := by
  have hput : P (putFat dr g pclst 0xFFFFFFFF fs).2 := putFat_stable hst h
  unfold removeChain at hr
  split at hr
  · cases hr
    exact h
  split at hr
  · dsimp only at hr
    split at hr
    · cases hr
      exact hput
    · exact removeLoop_stable hst hput hr
  · exact removeLoop_stable hst h hr

/-- **What moving and changing the window keeps, every operation keeps.** -/
theorem step_stable (hst : Stable dr g P) {s s' : Mounted δ} {op : Op} (h : P s.fs)
    (hs : step dr g s op = some s') : P s'.fs := by
  have hcreate : ∀ {clst fs r}, P fs → createChain dr g g.nFatent.toNat clst fs = some r → P r.2 :=
    fun h hr => createChain_stable hst h hr
  have hremove : ∀ {clst pclst fs r}, P fs →
      removeChain dr g g.nFatent.toNat clst pclst fs = some r → P r.2 :=
    fun h hr => removeChain_stable hst h hr
  cases op with
  | create =>
      rw [step, create] at hs
      obtain ⟨r, hr, rfl⟩ := Option.map_eq_some_iff.1 hs
      have hdone := hcreate h hr
      split
      · exact hdone
      · exact hdone
  | stretch i j =>
      rw [step] at hs
      split at hs
      · cases hs
        exact h
      · unfold stretch at hs
        split at hs
        · cases hs
          exact h
        · obtain ⟨r, hr, rfl⟩ := Option.map_eq_some_iff.1 hs
          have hdone := hcreate h hr
          split
          · exact hdone
          split
          · exact hdone
          split
          · exact hdone
          · exact hdone
  | truncate i j =>
      rw [step] at hs
      split at hs
      · cases hs
        exact h
      · unfold truncate at hs
        split at hs
        · cases hs
          exact h
        · dsimp only at hs
          have hget : ∀ clst, P (getFat dr g clst s.fs).2 := fun _ => getFat_stable hst h
          split at hs
          · cases hs
            exact hget _
          split at hs
          · obtain ⟨r, hr, rfl⟩ := Option.map_eq_some_iff.1 hs
            have hdone := hremove (hget _) hr
            split
            · exact hdone
            · exact hdone
          · cases hs
            exact hget _
  | remove i =>
      rw [step] at hs
      split at hs
      · cases hs
        exact h
      · unfold remove at hs
        split at hs
        · cases hs
          exact h
        · obtain ⟨r, hr, rfl⟩ := Option.map_eq_some_iff.1 hs
          exact hremove h hr

/-- **And so does every run.** -/
theorem run_stable (hst : Stable dr g P) {s s' : Mounted δ} {ops : List Op} (h : P s.fs)
    (hs : Runs.exec (step dr g) s ops = some s') : P s'.fs :=
  Runs.exec_invariant (P := fun s : Mounted δ => P s.fs) (fun _ _ _ => step_stable hst) ops h hs

/-! ### The second FAT -/

/-- **What is not to be written back is in both FATs.** -/
structure Mirrored (dr : Drive δ) (g : Geometry) (fs : Fatfs δ) : Prop where
  coherent : Coherent dr g fs
  mirror : ∀ q, q < g.fsize → (fs.wflag = true → fs.winsect ≠ g.fatbase + q) →
    dr.contents fs.drive (g.fatbase + q + g.fsize) = dr.contents fs.drive (g.fatbase + q)

/-- On a drive that does not fail, writing back the window brings it into both FATs. -/
theorem syncWindow_mirrored (hrel : dr.Reliable) (htwo : g.nFats = 2) (h : Mirrored dr g fs) :
    Mirrored dr g (syncWindow dr g fs).2 := by
  refine ⟨(syncWindow_spec dr g fs).keeps.coherent h.coherent, ?_⟩
  unfold syncWindow
  by_cases hflag : fs.wflag = true
  case neg =>
      rw [if_neg hflag]
      exact h.mirror
  case pos =>
      rw [if_pos hflag]
      dsimp only
      rw [if_pos (hrel.diskWrite _ _ _)]
      have hwin := dr.diskWrite_ok (hrel.diskWrite fs.winsect fs.win fs.drive)
      have hother := fun t (ht : t ≠ fs.winsect) =>
        dr.contents_diskWrite (s := fs.winsect) (b := fs.win) (d := fs.drive) ht
      have hord := h.coherent.ordinary hflag
      have hnot : ∀ q, q < g.fsize → g.fatbase + q + g.fsize ≠ fs.winsect := fun q hq heq =>
        not_ordinary_mirror (s := g.fatbase + q)
          (by rwa [show g.fatbase + q - g.fatbase = q by grind]) htwo (heq ▸ hord)
      intro q hq _
      by_cases hfat : fs.winsect - g.fatbase < g.fsize
      · rw [if_pos ⟨hfat, htwo⟩]
        dsimp only
        generalize hd : (dr.diskWrite fs.winsect fs.win fs.drive).2 = d at hwin hother ⊢
        have hmirror := dr.diskWrite_ok (hrel.diskWrite (fs.winsect + g.fsize) fs.win d)
        have hkept := fun t (ht : t ≠ fs.winsect + g.fsize) =>
          dr.contents_diskWrite (s := fs.winsect + g.fsize) (b := fs.win) (d := d) ht
        have hfirst : g.fatbase + q ≠ fs.winsect + g.fsize := by
          rintro heq
          exact not_ordinary_mirror hfat htwo (heq ▸ ordinary_fat hq)
        rw [hkept _ hfirst]
        by_cases heq : fs.winsect = g.fatbase + q
        · rw [← heq, hmirror, hwin]
        · rw [hkept _ fun h => heq (by grind), hother _ (hnot q hq), hother _ (Ne.symm heq),
            h.mirror q hq fun _ => heq]
      · rw [if_neg fun h => hfat h.1]
        dsimp only
        have hne : fs.winsect ≠ g.fatbase + q := ne_fatbase_add hq hfat
        rw [hother _ (hnot q hq), hother _ hne.symm, h.mirror q hq fun _ => hne]

/-- Moving the window does so, too. -/
theorem moveWindow_mirrored (hrel : dr.Reliable) (htwo : g.nFats = 2) (h : Mirrored dr g fs)
    (sect : UInt32) : Mirrored dr g (moveWindow dr g sect fs).2 := by
  refine ⟨(moveWindow_moves dr g sect fs).keeps.coherent h.coherent, ?_⟩
  unfold moveWindow
  split
  · have hsync := syncWindow_mirrored hrel htwo h
    have hspec := syncWindow_spec dr g fs
    have hclean := hspec.clean (hspec.reliable hrel)
    dsimp only
    rw [if_pos (hspec.reliable hrel), if_pos (hrel.diskRead _ _ _)]
    intro q hq _
    dsimp only
    rw [dr.contents_diskRead]
    refine hsync.mirror q hq fun hdirty => ?_
    rw [hclean] at hdirty
    cases hdirty
  · exact h.mirror

theorem mirrored_stable (hrel : dr.Reliable) (htwo : g.nFats = 2) :
    Stable dr g (Mirrored dr g) where
  move fs q _ h := moveWindow_mirrored hrel htwo h _
  store fs q win hq hwin h := by
    refine ⟨coherent_win (hwin ▸ ordinary_fat hq), fun q' hq' hne => ?_⟩
    have hne' : fs.winsect ≠ g.fatbase + q' := hne rfl
    exact h.mirror q' hq' fun _ => hne'
  info fs _ _ _ h := ⟨⟨h.coherent.ordinary, h.coherent.clean⟩, h.mirror⟩

/-! ### What the drive has in the end -/

/-- The sector with what is known of the free clusters. -/
def fsInfo (lastClst freeClst : UInt32) : Sector :=
  let win := stWord (fun _ => 0) 510 0xAA55
  let win := stDword (stDword win 0 0x41615252) 484 0x61417272
  stDword (stDword win 488 freeClst) 492 lastClst

/-- `sync_fs`. -/
def syncFs (dr : Drive δ) (g : Geometry) (fs : Fatfs δ) : FRESULT × Fatfs δ :=
  let r := syncWindow dr g fs
  if r.1 = FR_OK then
    let fs :=
      if g.fsType = FS_FAT32 ∧ r.2.fsiFlag = 1 then
        let win := fsInfo r.2.lastClst r.2.freeClst
        -- what the drive answers is not looked at
        let w := dr.diskWrite (g.volbase + 1) win r.2.drive
        { r.2 with win := win, winsect := g.volbase + 1, fsiFlag := 0, drive := w.2 }
      else r.2
    let c := dr.ctrlSync fs.drive
    (if c.1 then r.1 else FR_DISK_ERR, { fs with drive := c.2 })
  else r

/-- The sector with what is known of the free clusters, of a volume that has one. -/
def Geometry.IsInfo (g : Geometry) (t : UInt32) : Prop := g.fsType = FS_FAT32 ∧ t = g.volbase + 1

/-- It is not one of the FATs. -/
structure Geometry.InfoApart (g : Geometry) : Prop where
  ordinary : ∀ t, g.IsInfo t → g.Ordinary t
  not_fat : ∀ t, g.IsInfo t → ¬t - g.fatbase < g.fsize

/-- What is asked of `sync_fs`. -/
structure Synced (dr : Drive δ) (g : Geometry) (fs : Fatfs δ) (r : FRESULT × Fatfs δ) : Prop where
  result : r.1 = FR_OK
  clean : r.2.wflag = false
  mirrored : g.nFats = 2 → Mirrored dr g fs → Mirrored dr g r.2
  contents : ∀ t, g.Ordinary t → ¬g.IsInfo t →
    dr.contents r.2.drive t = fs.view dr t ∧ r.2.view dr t = fs.view dr t
  coherent : Coherent dr g r.2
  lastClst : r.2.lastClst = fs.lastClst
  freeClst : r.2.freeClst = fs.freeClst
  info : ∀ t, g.IsInfo t → dr.contents r.2.drive t =
    if fs.fsiFlag = 1 then fsInfo fs.lastClst fs.freeClst else fs.view dr t

/-- The window, once it is written back, gets the sector of the free clusters. -/
theorem syncFs_spec (hrel : dr.Reliable) (happart : g.InfoApart) (hc : Coherent dr g fs) :
    Synced dr g fs (syncFs dr g fs) := by
  have hsync := syncWindow_spec dr g fs
  have hmirror := fun htwo (h : Mirrored dr g fs) => syncWindow_mirrored hrel htwo h
  unfold syncFs
  revert hsync hmirror
  generalize syncWindow dr g fs = r
  intro hsync hmirror
  have hok := hsync.reliable hrel
  have hclean := hsync.clean hok
  have hc' := hsync.keeps.coherent hc
  have hdrive := fun t (ht : g.Ordinary t) => hc'.contents (s := t) hclean ht
  dsimp only
  rw [if_pos hok, if_pos (hrel.ctrlSync _)]
  by_cases hinfo : g.fsType = FS_FAT32 ∧ r.2.fsiFlag = 1
  · rw [if_pos hinfo]
    generalize hwin : fsInfo r.2.lastClst r.2.freeClst = win
    have hstored := dr.diskWrite_ok (hrel.diskWrite (g.volbase + 1) win r.2.drive)
    have hother := fun t (ht : t ≠ g.volbase + 1) =>
      dr.contents_diskWrite (s := g.volbase + 1) (b := win) (d := r.2.drive) ht
    have hseen : ∀ t, g.Ordinary t → ¬g.IsInfo t →
        dr.contents (dr.diskWrite (g.volbase + 1) win r.2.drive).2 t = fs.view dr t := by
      intro t ht hne
      rw [hother t fun heq => hne ⟨hinfo.1, heq⟩, hdrive t ht, hsync.keeps.view hc t ht]
    have hwindow : Coherent dr g
        { r.2 with win := win, winsect := g.volbase + 1, fsiFlag := 0,
                   drive := (dr.ctrlSync (dr.diskWrite (g.volbase + 1) win r.2.drive).2).2 } := by
      refine ⟨fun hdirty => ?_, fun _ _ => ?_⟩
      · rw [show r.2.wflag = true from hdirty] at hclean
        cases hclean
      · rw [dr.contents_ctrlSync]
        exact hstored.symm
    refine ⟨hok, hclean, fun htwo h => ⟨hwindow, fun q hq _ => ?_⟩, fun t ht hne => ⟨?_, ?_⟩,
      hwindow, hsync.keeps.lastClst, hsync.keeps.freeClst, fun t ht => ?_⟩
    · have hfirst : g.fatbase + q ≠ g.volbase + 1 := fun heq =>
        happart.not_fat _ ⟨hinfo.1, heq⟩ (by rwa [show g.fatbase + q - g.fatbase = q by grind])
      have hsecond : g.fatbase + q + g.fsize ≠ g.volbase + 1 := fun heq =>
        not_ordinary_mirror (s := g.fatbase + q)
          (by rwa [show g.fatbase + q - g.fatbase = q by grind]) htwo
          (happart.ordinary _ ⟨hinfo.1, heq⟩)
      dsimp only
      rw [dr.contents_ctrlSync, hother _ hfirst, hother _ hsecond]
      refine (hmirror htwo h).mirror q hq fun hdirty => ?_
      rw [hclean] at hdirty
      cases hdirty
    · rw [dr.contents_ctrlSync]
      exact hseen t ht hne
    · rw [view_of_ne _ fun heq => hne ⟨hinfo.1, heq⟩]
      dsimp only
      rw [dr.contents_ctrlSync]
      exact hseen t ht hne
    · rw [if_pos (hsync.keeps.fsiFlag ▸ hinfo.2), dr.contents_ctrlSync, ← hsync.keeps.lastClst,
        ← hsync.keeps.freeClst, hwin, ht.2]
      exact hstored
  · rw [if_neg hinfo]
    have hkept : Keeps dr g r.2 { r.2 with drive := (dr.ctrlSync r.2.drive).2 } :=
      keeps_drive (fun _ _ _ _ => by rw [dr.contents_ctrlSync])
        fun _ _ _ => by rw [dr.contents_ctrlSync]
    have hview : ∀ t, g.Ordinary t →
        dr.contents (dr.ctrlSync r.2.drive).2 t = fs.view dr t := by
      intro t ht
      rw [dr.contents_ctrlSync, hdrive t ht, hsync.keeps.view hc t ht]
    refine ⟨hok, hclean, fun htwo h => ⟨hkept.coherent hc', fun q hq hne => ?_⟩,
      fun t ht _ => ⟨hview t ht, ?_⟩, hkept.coherent hc', hsync.keeps.lastClst,
      hsync.keeps.freeClst, fun t ht => ?_⟩
    · dsimp only at hne ⊢
      rw [dr.contents_ctrlSync]
      exact (hmirror htwo h).mirror q hq hne
    · rw [hkept.view hc' t ht, hsync.keeps.view hc t ht]
    · rw [if_neg fun h => hinfo ⟨ht.1, hsync.keeps.fsiFlag.trans h⟩]
      exact hview t (happart.ordinary t ht)

/-- **What the FAT says is on the drive**: a FAT, read where it is on the drive. -/
def Geometry.OnDrive (contents : UInt32 → Sector) (fat : UInt32 → UInt32) : Prop :=
  ∀ c, g.Valid c → g.entry contents c.toNat = (fat c).toNat

end

section

variable {δ : Type*} {dr : Drive δ} {g : Geometry}

/-- Contents that agree in the FAT. -/
theorem entry_congr {v w : UInt32 → Sector}
    (h : ∀ q, q < g.fsize → v (g.fatbase + q) = w (g.fatbase + q)) (c : ℕ) :
    g.entry v c = g.entry w c := by
  have hmem : g.fatMem v = g.fatMem w := by
    funext i
    unfold Geometry.fatMem
    split
    · rename_i hi
      have hq : UInt32.ofNat (i / 512) < g.fsize := by
        have hlt := g.fsize.toNat_lt
        rw [UInt32.lt_iff_toNat_lt, UInt32.toNat_ofNat_of_lt' (by change i / 512 < 2 ^ 32; omega)]
        omega
      rw [h _ hq]
    · rfl
  rw [Geometry.entry, Geometry.entry, hmem]

/-- **After any run on a drive that does not fail, `sync_fs` leaves the chains of all objects on the
drive**, in both FATs, and the other sectors as they have been seen all along. -/
theorem run_synced (hrel : dr.Reliable) (happart : g.InfoApart) {s : Mounted δ}
    (h : Sound dr g s) (hmirror : g.nFats = 2 → Mirrored dr g s.fs) (ops : List Op) :
    ∃ s', Runs.exec (step dr g) s ops = some s' ∧
      ∃ fs', syncFs dr g s'.fs = (FR_OK, fs') ∧ Sound dr g ⟨fs', s'.chains⟩ ∧
        (∃ fat, Chained g fat s'.chains ∧ g.OnDrive (dr.contents fs'.drive) fat ∧
          (g.nFats = 2 → g.OnDrive (fun t => dr.contents fs'.drive (t + g.fsize)) fat)) ∧
        ∀ t, g.Ordinary t → ¬t - g.fatbase < g.fsize → ¬g.IsInfo t →
          dr.contents fs'.drive t = s.fs.view dr t := by
  obtain ⟨s', hs', ⟨fat, hfat, hch⟩, hdata⟩ := exec_sound h ops
  have hsync := syncFs_spec hrel happart hfat.coherent
  have hnot : ∀ q, q < g.fsize → ¬g.IsInfo (g.fatbase + q) := fun q hq h =>
    happart.not_fat _ h (by rwa [show g.fatbase + q - g.fatbase = q by grind])
  refine ⟨s', hs', (syncFs dr g s'.fs).2, Prod.ext hsync.result rfl, ?_, ?_, ?_⟩
  · refine ⟨fat, ⟨hsync.coherent, fun c hc => ?_⟩, hch⟩
    rw [← hfat.entry c hc]
    exact entry_congr (fun q hq => (hsync.contents _ (ordinary_fat hq) (hnot q hq)).2) _
  · have hfirst : ∀ q, q < g.fsize →
        dr.contents (syncFs dr g s'.fs).2.drive (g.fatbase + q) =
          s'.fs.view dr (g.fatbase + q) := fun q hq =>
      (hsync.contents _ (ordinary_fat hq) (hnot q hq)).1
    refine ⟨fat, hch, fun c hc => ?_, fun htwo c hc => ?_⟩
    · rw [← hfat.entry c hc]
      exact entry_congr hfirst _
    · have hboth := hsync.mirrored htwo (run_stable (mirrored_stable hrel htwo) (hmirror htwo) hs')
      rw [← hfat.entry c hc]
      refine entry_congr (fun q hq => ?_) _
      rw [← hfirst q hq]
      refine hboth.mirror q hq fun hdirty => ?_
      rw [hsync.clean] at hdirty
      cases hdirty
  · intro t ht hout hne
    rw [(hsync.contents t ht hne).1, hdata.frame t ht hout]

theorem wideGeometry_infoApart : wideGeometry.InfoApart where
  ordinary := by
    rintro t ⟨-, rfl⟩
    exact ⟨by decide, fun _ => by decide⟩
  not_fat := by
    rintro t ⟨-, rfl⟩
    decide

/-- An empty one is filled and emptied. -/
theorem run_synced_empty :
    ∃ s', Runs.exec (step ramDrive wideGeometry) emptyVolume
        [.create, .stretch 0 0, .create, .truncate 1 0] = some s' ∧
      ∃ fs', syncFs ramDrive wideGeometry s'.fs = (FR_OK, fs') ∧
        Sound ramDrive wideGeometry ⟨fs', s'.chains⟩ ∧
        (∃ fat, Chained wideGeometry fat s'.chains ∧
          wideGeometry.OnDrive (ramDrive.contents fs'.drive) fat ∧
          (wideGeometry.nFats = 2 → wideGeometry.OnDrive
            (fun t => ramDrive.contents fs'.drive (t + wideGeometry.fsize)) fat)) ∧
        ∀ t, wideGeometry.Ordinary t → ¬t - wideGeometry.fatbase < wideGeometry.fsize →
          ¬wideGeometry.IsInfo t →
            ramDrive.contents fs'.drive t = emptyVolume.fs.view ramDrive t :=
  run_synced ramDrive_reliable wideGeometry_infoApart (emptyVolume_sound wideGeometry)
    (fun _ => ⟨(emptyFatfs_hasFat wideGeometry).coherent, fun _ _ _ => rfl⟩) _

end

end Pico.Fat
