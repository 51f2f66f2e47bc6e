/-
**Seeking along the clusters of a file.**

`f_lseek` of `library/fatfs/ff.c`, on a volume whose `create_chain` and `get_fat` are those that
look at its FAT: it follows the cluster chain to the new position, makes it longer if the file is
open for writing, and fills the buffer with the sector of the position.

Main definitions:

* `Pico.Fat.Disk.volume` — the volume of an open file, as `f_lseek` uses it;
* `Pico.Fat.Handle.seek` — `f_lseek` on an open file;
* `Pico.Fat.Went` — a file of which the chain has been followed, or made longer;
* `Pico.Fat.SeekResult` — what is asked of `f_lseek`.

Main results:

* `Pico.Fat.walk_spec` — the loop leads along the clusters;
* `Pico.Fat.seek_spec` — **`f_lseek` leads to the position**, or to the end of the last cluster if
  none is left, and keeps the bytes of the file.
-/

import WizioPico.FatWrite

set_option relaxedAutoImplicit false
set_option autoImplicit false

namespace Pico.Fat

open Pico.Vfs Chains
open FRESULT FsType

section

variable {δ : Type*} (dr : Disk δ) (g : Geometry)

/-! ### The function -/

/-- The volume of an open file, whose buffer goes with it. -/
def Disk.volume : Volume (Sector × Fatfs δ) where
  noInit v := dr.noInit v.2.drive
  createChain clst v :=
    -- as many clusters as there are is enough of a bound for the search
    match createChain dr.toDrive g g.nFatent.toNat clst v.2 with
    | some r => (r.1, v.1, r.2)
    | none => (0xFFFFFFFF, v)
  getFat clst v :=
    let r := getFat dr.toDrive g clst v.2
    (r.1, v.1, r.2)
  diskRead sect v :=
    let r := dr.diskRead sect v.1 v.2.drive
    (r.1, r.2.1, { v.2 with drive := r.2.2 })
  diskWrite sect v :=
    let w := dr.diskWrite sect v.1 v.2.drive
    (w.1, v.1, { v.2 with drive := w.2 })
  nFatent := g.nFatent
  database := g.database
  csize := g.csize
  csize_pow := g.csize_pow

/-- `f_lseek` on an open file. -/
def Handle.seek (ofs : UInt32) (h : Handle δ) : FRESULT × Handle δ :=
  let r := fLseek (dr.volume g) h.fil ofs (h.buf, h.fs)
  (r.1, ⟨r.2.1, r.2.2.1, r.2.2.2⟩)

end

section

variable {δ : Type*} {dr : Disk δ} {g : Geometry} {fat fat' fat'' : UInt32 → UInt32}
  {l l' l'' : List UInt32} {h h' h'' : Handle δ} {ofs clst : UInt32} {q : ℕ}

/-! ### The clusters on the way -/

/-- The size of a cluster. -/
theorem toNat_bcs (dr : Disk δ) (g : Geometry) :
    (dr.volume g).bcs.toNat = 512 * g.csize.toNat := by
  have hle := csize_le g
  change (g.csize * sectorSize).toNat = _
  rw [UInt32.toNat_mul, show sectorSize.toNat = 512 from rfl, Nat.mod_eq_of_lt (by omega),
    Nat.mul_comm]

/-- **The chain of the file has been followed, or made longer.** -/
structure Went (dr : Disk δ) (g : Geometry) (fat : UInt32 → UInt32) (l : List UInt32)
    (h : Handle δ) (fat' : UInt32 → UInt32) (l' : List UInt32) (h' : Handle δ) : Prop where
  grown : Grown g fat l fat' l'
  ok : FileOk dr g fat' l' h'
  data : ∀ s, g.Owned fat' l' s → h'.data dr s = h.data dr s
  elsewhere : Elsewhere dr g l' h.fs h'.fs
  fil : h'.fil =
    { h.fil with fptr := h'.fil.fptr, sclust := h'.fil.sclust, clust := h'.fil.clust }

theorem Went.refl (ok : FileOk dr g fat l h) : Went dr g fat l h fat l h :=
  ⟨Grown.refl fat l, ok, fun _ _ => rfl, Elsewhere.refl _, rfl⟩

theorem Went.trans (hw : Went dr g fat l h fat' l' h') (hw' : Went dr g fat' l' h' fat'' l'' h'') :
    Went dr g fat l h fat'' l'' h'' := by
  refine ⟨hw.grown.trans hw'.grown, hw'.ok, fun s hs => ?_,
    (hw.elsewhere.mono hw'.grown.front.subset).trans hw'.elsewhere, ?_⟩
  · rw [hw'.data s hs, hw.data s (hw'.grown.owned hs)]
  · rw [hw'.fil, hw.fil]

/-- Others are left alone. -/
theorem Went.outside (hw : Went dr g fat l h fat' l' h') : Outside dr g fat l h.fs h'.fs := by
  refine ⟨fun s hs hfat hout => hw.elsewhere.frame s hs hfat fun hin => hout ?_,
    hw.elsewhere.window⟩
  exact hw.grown.owned hin.owned

/-- The file pointer does not matter on the way. -/
theorem Went.fptr (hw : Went dr g fat l h fat' l' h') (fptr : UInt32) :
    Went dr g fat l h fat' l' { h' with fil := { h'.fil with fptr := fptr } } :=
  ⟨hw.grown, ⟨hw.ok.hasFat, hw.ok.chain, hw.ok.valid, hw.ok.window, hw.ok.sclust, hw.ok.size,
    hw.ok.dirty, hw.ok.clean⟩, hw.data, hw.elsewhere, by
      dsimp only
      rw [hw.fil]⟩

/-- The file open for reading has its clusters, and the one open for writing can get some. -/
theorem next_spec (ok : FileOk dr g fat l h) (hat : l[q]? = some clst)
    (hmode : h.fil.writes = true ∨ q + 1 < l.length) :
    ∃ x fs, (dr.volume g).next h.fil.writes clst (h.buf, h.fs) = (x, h.buf, fs) ∧
      Stretched dr g fat l (q + 1) h.fs x fs ∧ (x = 0 → h.fil.writes = true) ∧
        Apart dr.toDrive (g.Owned fat l) (dr.contents h.fs.drive) fs ∧
          Elsewhere dr g [] h.fs fs := by
  unfold Volume.next
  cases hw : h.fil.writes with
  | true =>
      rw [if_pos rfl]
      obtain ⟨r, hr, hst, ha, helse⟩ := stretch_spec ok (q := q + 1)
        (Or.inr ⟨Nat.succ_pos q, by rwa [Nat.add_sub_cancel]⟩)
      refine ⟨r.1, r.2, ?_, hst, fun _ => rfl, ha, helse⟩
      change (match createChain dr.toDrive g g.nFatent.toNat clst h.fs with
        | some r => (r.1, h.buf, r.2)
        | none => (0xFFFFFFFF, h.buf, h.fs)) = _
      rw [hr]
  | false =>
      rw [if_neg (by simp)]
      obtain ⟨hlt, hget⟩ := List.getElem?_eq_some_iff.1 hat
      have hmem : clst ∈ l := hget ▸ List.getElem_mem hlt
      have hin := hmode.resolve_left (by simp [hw])
      have hread := getFat_reads ok.hasFat (ok.valid clst hmem)
      have hchain := ok.chain (List.ne_nil_of_mem hmem)
      have hnext := hchain.next_eq_getElem? hat
      rw [List.getElem?_eq_getElem hin] at hnext
      have hnext' := (next_eq_some hnext).2
      have hvalid := ok.valid _ (List.getElem_mem hin)
      refine ⟨_, _, rfl, ?_, fun hzero => ?_, ok.getFat,
        hread.data.elsewhere (tally_same ok.hasFat hread.hasFat hread.info)
          fun P hst hP => getFat_stable hst hP⟩
      · by_cases herr : (getFat dr.toDrive g clst h.fs).1 = 0xFFFFFFFF
        · change Stretched dr g fat l (q + 1) h.fs (getFat dr.toDrive g clst h.fs).1 _
          rw [herr]
          exact .failed (fun hrel => hread.reliable hrel.drive herr) fat hread.hasFat
            fun _ _ _ _ => rfl
        · refine .clust fat l (Grown.refl fat l) hread.hasFat hchain ok.valid ?_ fun _ => rfl
          change l[q + 1]? = some (getFat dr.toDrive g clst h.fs).1
          rw [hread.value herr, hnext', List.getElem?_eq_getElem hin]
      · change (getFat dr.toDrive g clst h.fs).1 = 0 at hzero
        have hval := hread.value (by rw [hzero]; decide)
        rw [hzero, hnext'] at hval
        exact absurd hval.symm (not_error hvalid).1

/-- **Where the loop ends**: in the cluster of the position, or at the end of the last one that is
to be had. -/
structure Walked (dr : Disk δ) (g : Geometry) (fat : UInt32 → UInt32) (l : List UInt32)
    (target : ℕ) (h : Handle δ) (t : Step (Sector × Fatfs δ)) : Prop where
  outside : Outside dr g fat l h.fs t.v.2
  hasFat : ∃ fat', HasFat dr.toDrive g t.v.2 fat' ∧ OthersKept g fat l fat'
  error : ∀ res, t.abort = some res → Failing dr g fat res
  found : t.abort = none → ∃ fat' l' q, Went dr g fat l h fat' l' ⟨t.fil, t.v.1, t.v.2⟩ ∧
    l'[q]? = some t.fil.clust ∧
      (t.fil.fptr.toNat = 512 * (g.csize.toNat * q) ∧ t.clst = t.fil.clust ∧ 0 < t.ofs.toNat ∧
          t.ofs.toNat ≤ 512 * g.csize.toNat ∧ t.fil.fptr.toNat + t.ofs.toNat = target ∨
        t.ofs = 0 ∧ t.fil.fptr.toNat = 512 * (g.csize.toNat * (q + 1)) ∧ l'.length = q + 1 ∧
          t.fil.fptr.toNat < target ∧ h.fil.writes = true ∧ Full g fat' t.v.2)

/-- What is found behind what has been found. -/
theorem Went.walked {target : ℕ} {t : Step (Sector × Fatfs δ)}
    (hw : Went dr g fat l h fat' l' h') (hmode : h'.fil.writes = h.fil.writes)
    (ht : Walked dr g fat' l' target h' t) : Walked dr g fat l target h t := by
  obtain ⟨fat₁, hfat₁, hothers⟩ := ht.hasFat
  refine ⟨Outside.trans hw.grown hw.outside ht.outside,
    ⟨fat₁, hfat₁, OthersKept.trans hw.grown hothers⟩,
    fun res hres => (ht.error res hres).trans hw.grown, fun hnone => ?_⟩
  obtain ⟨fat₂, l₂, q, hwent, hat, hor⟩ := ht.found hnone
  rw [hmode] at hor
  exact ⟨fat₂, l₂, q, hw.trans hwent, hat, hor⟩

/-- A cluster has been followed, or has been got. -/
theorem Went.of_stretched {fs : Fatfs δ} {x : UInt32} (ok : FileOk dr g fat l h)
    (hg : Grown g fat l fat' l') (hfat : HasFat dr.toDrive g fs fat')
    (hchain : Chain (g.next fat') l') (hv : ∀ c ∈ l', g.Valid c)
    (ha : Apart dr.toDrive (g.Owned fat l) (dr.contents h.fs.drive) fs)
    (helse : Elsewhere dr g [] h.fs fs) (fptr : UInt32) :
    Went dr g fat l h fat' l'
      ⟨{ h.fil with fptr := fptr, clust := x, sclust := l'.head?.getD 0 }, h.buf, fs⟩ := by
  obtain ⟨ok', hdata⟩ := ok.grow hg hfat hchain hv ha x
  exact Went.fptr ⟨hg, ok', fun s hs => hdata s (hg.owned hs),
    helse.mono (List.nil_subset l'), rfl⟩ fptr

/-- **The loop leads along the clusters.** -/
theorem walk_spec {target : ℕ} (ok : FileOk dr g fat l h) (hat : l[q]? = some h.fil.clust)
    (hfptr : h.fil.fptr.toNat = 512 * (g.csize.toNat * q)) (hpos : 0 < ofs.toNat)
    (htarget : h.fil.fptr.toNat + ofs.toNat = target) (hlt : target < 2 ^ 32)
    (hmode : h.fil.writes = true ∨ target ≤ 512 * (g.csize.toNat * l.length)) :
    Walked dr g fat l target h (walk (dr.volume g) ofs h.fil.clust h.fil (h.buf, h.fs)) := by
  have hbcs := toNat_bcs dr g
  have hsize := csize_pos g
  induction hn : ofs.toNat using Nat.strong_induction_on generalizing ofs h fat l q with
  | _ n ih =>
  by_cases hgt : (dr.volume g).bcs < ofs
  · have hgt' := UInt32.lt_iff_toNat_lt.1 hgt
    have hsub : (ofs - (dr.volume g).bcs).toNat = ofs.toNat - (dr.volume g).bcs.toNat :=
      UInt32.toNat_sub_of_le _ _ (UInt32.le_of_lt hgt)
    have hadd : (h.fil.fptr + (dr.volume g).bcs).toNat = 512 * (g.csize.toNat * (q + 1)) := by
      rw [UInt32.toNat_add, Nat.mod_eq_of_lt (by omega), hfptr, hbcs]
      grind
    have hin : h.fil.writes = true ∨ q + 1 < l.length := by
      refine hmode.imp_right fun hle => ?_
      have hmul : g.csize.toNat * (q + 1) < g.csize.toNat * l.length := by
        rw [Nat.mul_succ]
        omega
      exact Nat.lt_of_mul_lt_mul_left hmul
    obtain ⟨x, fs, hnext, hst, hzero, ha, helse⟩ := next_spec ok hat hin
    have ho : Outside dr g fat l h.fs fs := (helse.mono (List.nil_subset l)).outside
    rw [walk_step hgt, hnext]
    dsimp only
    cases hst with
    | full used hasFat last =>
        have hwrites := hzero rfl
        rw [if_pos (by rw [hwrites]; rfl)]
        have hwent := Went.of_stretched (x := h.fil.clust) ok (Grown.refl fat l) hasFat
          (ok.chain (List.ne_nil_of_mem (List.mem_of_getElem? hat))) ok.valid ha helse
          (h.fil.fptr + (dr.volume g).bcs)
        rw [← ok.sclust] at hwent
        refine ⟨ho, ⟨fat, hasFat, fun _ _ _ _ => rfl⟩, by rintro _ ⟨⟩,
          fun _ => ⟨fat, l, q, hwent, hat,
          Or.inr ⟨rfl, hadd, last, ?_, hwrites, used⟩⟩⟩
        change (h.fil.fptr + (dr.volume g).bcs).toNat < target
        rw [UInt32.toNat_add, Nat.mod_eq_of_lt (by omega)]
        omega
    | insane entry hasFat =>
        rw [if_neg (by simp), if_neg (by decide), if_pos (Or.inl (by decide))]
        refine ⟨ho, ⟨fat, hasFat, fun _ _ _ _ => rfl⟩, fun res hres => ?_, by rintro ⟨⟩⟩
        cases hres
        exact Or.inr ⟨rfl, entry⟩
    | failed failed fat' hasFat kept =>
        rw [if_neg (by simp), if_pos rfl]
        refine ⟨ho, ⟨fat', hasFat, kept⟩, fun res hres => ?_, by rintro ⟨⟩⟩
        cases hres
        exact Or.inl ⟨rfl, failed⟩
    | clust fat' l' grown hasFat chain valid at_q head =>
        obtain ⟨hlt', hget⟩ := List.getElem?_eq_some_iff.1 at_q
        have hvalid : g.Valid x := valid _ (hget ▸ List.getElem_mem hlt')
        obtain ⟨h0, h1, hd⟩ := not_error hvalid
        have hin : ¬(x ≤ 1 ∨ (dr.volume g).nFatent ≤ x) := by
          rintro (hle | hle)
          · exact absurd hvalid.1 (UInt32.not_le.2 (UInt32.lt_of_le_of_lt hle (by decide)))
          · exact absurd hvalid.2 (UInt32.not_lt.2 hle)
        have hwent := Went.of_stretched (x := x) ok grown hasFat chain valid ha helse
          (h.fil.fptr + (dr.volume g).bcs)
        rw [head (List.ne_nil_of_mem (List.mem_of_getElem? hat)), ← ok.sclust] at hwent
        rw [if_neg (by simp [h0]), if_neg hd, if_neg hin]
        refine hwent.walked rfl ?_
        refine ih _ ?_ hwent.ok at_q hadd ?_ ?_ ?_ rfl
        · rw [hsub]
          omega
        · rw [hsub]
          omega
        · change (h.fil.fptr + (dr.volume g).bcs).toNat + _ = _
          rw [hsub, UInt32.toNat_add, Nat.mod_eq_of_lt (by omega)]
          omega
        · refine hmode.imp_right fun hle => hle.trans ?_
          exact Nat.mul_le_mul_left _ grown.length_le
  · have hle := UInt32.le_iff_toNat_le.1 (UInt32.not_lt.1 hgt)
    rw [walk, if_neg hgt]
    refine ⟨Outside.refl _, ⟨fat, ok.hasFat, fun _ _ _ _ => rfl⟩, by rintro _ ⟨⟩, fun _ => ?_⟩
    refine ⟨fat, l, q, Went.refl ok, hat, Or.inl ⟨hfptr, rfl, hpos, ?_, htarget⟩⟩
    change ofs.toNat ≤ _
    omega

/-! ### The way to a position -/

/-- **Where the way to a position ends**: there, or where no cluster is left, with the sector that
the buffer is to have. -/
structure Arrived (dr : Disk δ) (g : Geometry) (fat : UInt32 → UInt32) (l : List UInt32)
    (target : ℕ) (h : Handle δ) (t : Option FRESULT × UInt32 × Fil × Sector × Fatfs δ) :
    Prop where
  outside : Outside dr g fat l h.fs t.2.2.2.2
  hasFat : ∃ fat', HasFat dr.toDrive g t.2.2.2.2 fat' ∧ OthersKept g fat l fat'
  error : ∀ res, t.1 = some res → Failing dr g fat res
  found : t.1 = none → ∃ fat' l', Went dr g fat l h fat' l' ⟨t.2.2.1, t.2.2.2.1, t.2.2.2.2⟩ ∧
    (t.2.2.1.fptr.toNat = target ∨ t.2.2.1.fptr.toNat < target ∧
      t.2.2.1.fptr.toNat = 512 * (g.csize.toNat * l'.length) ∧ h.fil.writes = true ∧
        Full g fat' t.2.2.2.2) ∧
    t.2.2.1.fptr.toNat ≤ 512 * (g.csize.toNat * l'.length) ∧
    (t.2.2.1.fptr ≠ 0 →
      l'[(t.2.2.1.fptr.toNat - 1) / 512 / g.csize.toNat]? = some t.2.2.1.clust) ∧
    (t.2.2.1.fptr.toNat % 512 ≠ 0 → t.2.1 = g.fileSector l' (t.2.2.1.fptr.toNat / 512))

/-- What is behind what has been followed. -/
theorem Went.arrived {target : ℕ} {t : Option FRESULT × UInt32 × Fil × Sector × Fatfs δ}
    (hw : Went dr g fat l h fat' l' h') (hmode : h'.fil.writes = h.fil.writes)
    (ht : Arrived dr g fat' l' target h' t) : Arrived dr g fat l target h t := by
  obtain ⟨fat₁, hfat₁, hothers⟩ := ht.hasFat
  refine ⟨Outside.trans hw.grown hw.outside ht.outside,
    ⟨fat₁, hfat₁, OthersKept.trans hw.grown hothers⟩,
    fun res hres => (ht.error res hres).trans hw.grown, fun hnone => ?_⟩
  obtain ⟨fat₂, l₂, hwent, hor, hrest⟩ := ht.found hnone
  rw [hmode] at hor
  exact ⟨fat₂, l₂, hw.trans hwent, hor, hrest⟩

/-- The sector of a position in a cluster. -/
theorem position_cluster {c p o : ℕ} (hc : 0 < c) (hp : p = 512 * (c * q) + o) (ho : 0 < o)
    (hle : o ≤ 512 * c) :
    (p - 1) / 512 / c = q ∧ p % 512 = o % 512 ∧
      (p % 512 ≠ 0 → p / 512 / c = q ∧ p / 512 % c = o / 512) := by
  have hdiv : ∀ n, n < 512 * c → (512 * (c * q) + n) / 512 / c = q := by
    intro n hn
    have hlt : n / 512 < c := Nat.div_lt_of_lt_mul hn
    rw [Nat.mul_add_div (by decide), Nat.mul_add_div hc, Nat.div_eq_of_lt hlt, Nat.add_zero]
  refine ⟨?_, by omega, fun hne => ?_⟩
  · rw [show p - 1 = 512 * (c * q) + (o - 1) by omega]
    exact hdiv _ (by omega)
  · have hlt : o < 512 * c := by omega
    refine ⟨hp ▸ hdiv o hlt, ?_⟩
    rw [hp, Nat.mul_add_div (by decide), Nat.mul_add_mod, Nat.mod_eq_of_lt (by omega)]

/-- From a cluster on. -/
theorem seekFrom_spec {target : ℕ} (ok : FileOk dr g fat l h) (hat : l[q]? = some h.fil.clust)
    (hfptr : h.fil.fptr.toNat = 512 * (g.csize.toNat * q)) (hpos : 0 < ofs.toNat)
    (htarget : h.fil.fptr.toNat + ofs.toNat = target) (hlt : target < 2 ^ 32)
    (hmode : h.fil.writes = true ∨ target ≤ 512 * (g.csize.toNat * l.length)) :
    Arrived dr g fat l target h
      (seekFrom (dr.volume g) ofs h.fil.clust h.fil (h.buf, h.fs)) := by
  have hwalk := walk_spec ok hat hfptr hpos htarget hlt hmode
  have hcsize := csize_pos g
  unfold seekFrom
  revert hwalk
  generalize walk (dr.volume g) ofs h.fil.clust h.fil (h.buf, h.fs) = t
  intro hwalk
  dsimp only
  cases habort : t.abort with
  | some res =>
      rw [if_pos (by rfl)]
      exact ⟨hwalk.outside, hwalk.hasFat, fun res' heq => hwalk.error res' (habort.trans heq),
        by rintro ⟨⟩⟩
  | none =>
      rw [if_neg (by simp)]
      obtain ⟨fat', l', q', hwent, hat', hor⟩ := hwalk.found habort
      obtain ⟨hlt', hget⟩ := List.getElem?_eq_some_iff.1 hat'
      have hvalid : g.Valid t.fil.clust := hwent.ok.valid _ (hget ▸ List.getElem_mem hlt')
      have hend : g.csize.toNat * (q' + 1) ≤ g.csize.toNat * l'.length :=
        Nat.mul_le_mul_left _ hlt'
      rw [Nat.mul_succ] at hend
      have hwent' := hwent.fptr (t.fil.fptr + t.ofs)
      rw [seekSector]
      dsimp only
      rcases hor with ⟨hptr, hclst, hopos, hole, hsum⟩ |
        ⟨hzero, hptr, hlast, hshort, hwrites, hfull⟩
      · -- the position is in this cluster
        have hadd : (t.fil.fptr + t.ofs).toNat = target := by
          rw [UInt32.toNat_add, Nat.mod_eq_of_lt (by omega), hsum]
        obtain ⟨hbefore, hmod, hsect⟩ := position_cluster (q := q') (p := target)
          (o := t.ofs.toNat) hcsize (by omega) hopos hole
        have hmod' : t.ofs % sectorSize ≠ 0 ↔ target % 512 ≠ 0 := by
          rw [Ne, ← UInt32.toNat_inj, UInt32.toNat_mod, hmod]
          rfl
        have hplace : ∀ nsect : UInt32,
            (target % 512 ≠ 0 → nsect = g.fileSector l' (target / 512)) →
            Arrived dr g fat l target h
              (none, nsect, { t.fil with fptr := t.fil.fptr + t.ofs }, t.v) := by
          intro nsect hnsect
          refine ⟨hwalk.outside, hwalk.hasFat, by rintro _ ⟨⟩, fun _ => ⟨fat', l', hwent',
            ?_, ?_, ?_, ?_⟩⟩
          · exact Or.inl hadd
          · change (t.fil.fptr + t.ofs).toNat ≤ _
            omega
          · intro _
            change l'[((t.fil.fptr + t.ofs).toNat - 1) / 512 / g.csize.toNat]? = _
            rw [hadd, hbefore]
            exact hat'
          · change (t.fil.fptr + t.ofs).toNat % 512 ≠ 0 →
              nsect = g.fileSector l' ((t.fil.fptr + t.ofs).toNat / 512)
            rw [hadd]
            exact hnsect
        by_cases hpart : t.ofs % sectorSize ≠ 0
        · have hne : (dr.volume g).clst2sect t.fil.clust ≠ 0 := clst2sect_ne_zero hvalid
          rw [if_pos hpart, hclst, if_neg hne]
          refine hplace _ fun hne => ?_
          obtain ⟨hq, hrest⟩ := hsect hne
          rw [Geometry.fileSector, hq, hat', Option.getD_some, hrest]
          congr 1
          rw [← UInt32.toNat_inj, UInt32.toNat_div, UInt32.toNat_ofNat_of_lt' (by
            have := t.ofs.toNat_lt
            change _ < 2 ^ 32
            omega)]
          rfl
        · rw [if_neg hpart]
          exact hplace 0 fun hne => absurd (hmod'.2 hne) hpart
      · -- the clusters end in front of it
        have hadd : t.fil.fptr + t.ofs = t.fil.fptr := by rw [hzero, UInt32.add_zero]
        obtain ⟨hbefore, hmod, -⟩ := position_cluster (q := q') (p := t.fil.fptr.toNat)
          (o := 512 * g.csize.toNat) hcsize (by rw [hptr, Nat.mul_succ]; omega) (by omega)
          (Nat.le_refl _)
        have hpart : ¬t.ofs % sectorSize ≠ 0 := by
          rw [hzero]
          decide
        rw [if_neg hpart]
        refine ⟨hwalk.outside, hwalk.hasFat, by rintro _ ⟨⟩, fun _ => ⟨fat', l', hwent',
          ?_, ?_, ?_, ?_⟩⟩
        all_goals
          dsimp only
          rw [hadd]
        · exact Or.inr ⟨hshort, by rw [hptr, hlast], hwrites, hfull⟩
        · rw [hptr, Nat.mul_succ]
          omega
        · intro _
          rw [hbefore]
          exact hat'
        · intro hne
          omega

/-- From the cluster of the file pointer. -/
theorem seekWay_near (hopen : Open dr g fat l h) (hpos : 0 < ofs.toNat)
    (hmode : h.fil.writes = true ∨ ofs.toNat ≤ 512 * (g.csize.toNat * l.length))
    (hsame : 0 < h.fil.fptr ∧
      (h.fil.fptr - 1) / (dr.volume g).bcs ≤ (ofs - 1) / (dr.volume g).bcs) :
    Arrived dr g fat l ofs.toNat h (seekWay (dr.volume g) h.fil.fptr ofs { h.fil with fptr := 0 }
      (h.buf, h.fs)) := by
  obtain ⟨ok, hp⟩ := hopen
  have hlt := ofs.toNat_lt
  have hbcs := toNat_bcs dr g
  have hgoing : ¬(none : Option FRESULT).isSome = true := nofun
  unfold seekWay seekStart
  dsimp only
  have hsame' := (sameOrFollowing_iff hpos).1 hsame
  have hfptr : h.fil.fptr ≠ 0 := by
    intro hz
    rw [hz] at hsame'
    exact absurd hsame'.1 (by decide)
  have hat := hp.clust hfptr
  rw [Nat.div_div_eq_div_mul] at hat
  have hbase : (h.fil.fptr - 1 &&& ~~~((dr.volume g).bcs - 1)).toNat =
      512 * (g.csize.toNat * ((h.fil.fptr.toNat - 1) / (512 * g.csize.toNat))) := by
    rw [toNat_and_not_bcs, toNat_sub_one hsame'.1, hbcs, Nat.mul_comm, Nat.mul_assoc]
  have hle : (h.fil.fptr - 1 &&& ~~~((dr.volume g).bcs - 1)).toNat ≤ ofs.toNat - 1 :=
    calc _ = (h.fil.fptr.toNat - 1) / (dr.volume g).bcs.toNat * (dr.volume g).bcs.toNat := by
          rw [toNat_and_not_bcs, toNat_sub_one hsame'.1]
      _ ≤ (ofs.toNat - 1) / (dr.volume g).bcs.toNat * (dr.volume g).bcs.toNat :=
          Nat.mul_le_mul_right _ hsame'.2
      _ ≤ ofs.toNat - 1 := Nat.div_mul_le_self _ _
  obtain ⟨hin, hget⟩ := List.getElem?_eq_some_iff.1 hat
  have hvalid : g.Valid h.fil.clust := ok.valid _ (hget ▸ List.getElem_mem hin)
  rw [if_pos hsame, if_neg hgoing]
  dsimp only
  rw [if_neg (not_error hvalid).1]
  generalize h.fil.fptr - 1 &&& ~~~((dr.volume g).bcs - 1) = base at hbase hle ⊢
  have hsub : (ofs - base).toNat = ofs.toNat - base.toNat :=
    UInt32.toNat_sub_of_le _ _ (UInt32.le_iff_toNat_le.2 (by omega))
  refine ((Went.refl ok).fptr base).arrived rfl ?_
  exact seekFrom_spec ((Went.refl ok).fptr base).ok hat hbase (by rw [hsub]; omega)
    (by change base.toNat + _ = _; omega) hlt hmode

/-- From a first cluster that the file does not have yet. -/
theorem seekWay_new (ok : FileOk dr g fat l h) (hpos : 0 < ofs.toNat)
    (hmode : h.fil.writes = true ∨ ofs.toNat ≤ 512 * (g.csize.toNat * l.length))
    (hsame : ¬(0 < h.fil.fptr ∧
      (h.fil.fptr - 1) / (dr.volume g).bcs ≤ (ofs - 1) / (dr.volume g).bcs)) (hnil : l = []) :
    Arrived dr g fat l ofs.toNat h (seekWay (dr.volume g) h.fil.fptr ofs { h.fil with fptr := 0 }
      (h.buf, h.fs)) := by
  have hlt := ofs.toNat_lt
  have hgoing : ¬(none : Option FRESULT).isSome = true := nofun
  have hstart := (Went.refl ok).fptr 0
  unfold seekWay seekStart
  dsimp only
  rw [if_neg hsame]
  have hwrites : h.fil.writes = true := by
    refine hmode.resolve_right fun hle => ?_
    rw [hnil, List.length_nil, Nat.mul_zero, Nat.mul_zero] at hle
    omega
  have hzero : h.fil.sclust = 0 := by
    rw [ok.sclust, hnil]
    rfl
  rw [if_pos hzero]
  have hfirst : (0 : UInt32) = 0 ∧ l = [] ∧ 0 = 0 ∨ 0 < 0 ∧ l[0 - 1]? = some 0 :=
    Or.inl ⟨rfl, hnil, rfl⟩
  obtain ⟨r, hr, hst, ha, helse⟩ := stretch_spec ok hfirst
  have ho : Outside dr g fat l h.fs r.2 := (helse.mono (List.nil_subset l)).outside
  have hcreate : (dr.volume g).createChain 0 (h.buf, h.fs) = (r.1, h.buf, r.2) := by
    change (match createChain dr.toDrive g g.nFatent.toNat 0 h.fs with
      | some r => (r.1, h.buf, r.2)
      | none => (0xFFFFFFFF, h.buf, h.fs)) = _
    rw [hr]
  rw [hcreate]
  dsimp only
  obtain ⟨x, fs⟩ := r
  dsimp only at hst ha helse ho ⊢
  cases hst with
  | full used hasFat =>
      rw [if_neg (show ¬(0 : UInt32) = 1 by decide),
        if_neg (show ¬(0 : UInt32) = 0xFFFFFFFF by decide), if_neg hgoing, if_pos (by rfl)]
      obtain ⟨ok', hdata⟩ := hstart.ok.follow hasFat ha
      refine ⟨ho, ⟨fat, hasFat, fun _ _ _ _ => rfl⟩, nofun, fun _ => ⟨fat, l, ?_,
        Or.inr ⟨hpos, by rw [hnil]; rfl, hwrites, used⟩, Nat.zero_le _,
        fun hne => absurd rfl hne,
        fun hne => absurd rfl hne⟩⟩
      refine ⟨Grown.refl fat l, ⟨ok'.hasFat, ok'.chain, ok'.valid, ok'.window, ?_, ok'.size,
        ok'.dirty, ok'.clean⟩, hdata, helse.mono (List.nil_subset l), rfl⟩
      rw [hnil]
      rfl
  | insane entry hasFat =>
      rw [if_pos (show (1 : UInt32) = 1 from rfl), if_pos (by rfl)]
      refine ⟨ho, ⟨fat, hasFat, fun _ _ _ _ => rfl⟩, fun res heq => ?_, nofun⟩
      cases heq
      exact Or.inr ⟨rfl, entry⟩
  | failed failed fat' hasFat kept =>
      rw [if_neg (show ¬(0xFFFFFFFF : UInt32) = 1 by decide),
        if_pos (show (0xFFFFFFFF : UInt32) = 0xFFFFFFFF from rfl), if_pos (by rfl)]
      refine ⟨ho, ⟨fat', hasFat, kept⟩, fun res heq => ?_, nofun⟩
      cases heq
      exact Or.inl ⟨rfl, failed⟩
  | clust fat' l' grown hasFat chain valid at_q head =>
      obtain ⟨hlt', hget⟩ := List.getElem?_eq_some_iff.1 at_q
      have hvalid : g.Valid x := valid _ (hget ▸ List.getElem_mem hlt')
      obtain ⟨h0, h1, hd⟩ := not_error hvalid
      have hwent := Went.of_stretched (x := x) ok grown hasFat chain valid ha helse 0
      rw [List.head?_eq_getElem?, at_q, Option.getD_some] at hwent
      rw [if_neg h1, if_neg hd, if_neg hgoing, if_neg h0]
      refine hwent.arrived rfl ?_
      exact seekFrom_spec hwent.ok at_q (by rw [Nat.mul_zero]; rfl) hpos (Nat.zero_add _) hlt
        (Or.inl hwrites)

/-- From the first cluster. -/
theorem seekWay_begin (ok : FileOk dr g fat l h) (hpos : 0 < ofs.toNat)
    (hmode : h.fil.writes = true ∨ ofs.toNat ≤ 512 * (g.csize.toNat * l.length))
    (hsame : ¬(0 < h.fil.fptr ∧
      (h.fil.fptr - 1) / (dr.volume g).bcs ≤ (ofs - 1) / (dr.volume g).bcs)) (hnil : l ≠ []) :
    Arrived dr g fat l ofs.toNat h (seekWay (dr.volume g) h.fil.fptr ofs { h.fil with fptr := 0 }
      (h.buf, h.fs)) := by
  have hlt := ofs.toNat_lt
  have hgoing : ¬(none : Option FRESULT).isSome = true := nofun
  have hstart := (Went.refl ok).fptr 0
  obtain ⟨c, t, rfl⟩ := List.exists_cons_of_ne_nil hnil
  unfold seekWay seekStart
  dsimp only
  rw [if_neg hsame]
  have hsclust := ok.sclust
  rw [List.head?_cons, Option.getD_some] at hsclust
  have hne : h.fil.sclust ≠ 0 := by
    rw [hsclust]
    exact (not_error (ok.valid c List.mem_cons_self)).1
  have hwent : Went dr g fat (c :: t) h fat (c :: t)
      { h with fil := { h.fil with fptr := 0, clust := h.fil.sclust } } :=
    ⟨Grown.refl fat _, ((SameFile.refl hstart.ok).clust h.fil.sclust).ok, hstart.data,
      Elsewhere.refl _, rfl⟩
  rw [if_neg hne, if_neg hgoing, if_neg hne]
  refine hwent.arrived rfl ?_
  exact seekFrom_spec hwent.ok (congrArg some hsclust.symm) (by rw [Nat.mul_zero]; rfl) hpos
    (Nat.zero_add _) hlt hmode

/-- From the cluster of the file pointer, or from the first one. -/
theorem seekWay_spec (hopen : Open dr g fat l h) (hpos : 0 < ofs.toNat)
    (hmode : h.fil.writes = true ∨ ofs.toNat ≤ 512 * (g.csize.toNat * l.length)) :
    Arrived dr g fat l ofs.toNat h (seekWay (dr.volume g) h.fil.fptr ofs { h.fil with fptr := 0 }
      (h.buf, h.fs)) := by
  by_cases hsame : 0 < h.fil.fptr ∧
      (h.fil.fptr - 1) / (dr.volume g).bcs ≤ (ofs - 1) / (dr.volume g).bcs
  · exact seekWay_near hopen hpos hmode hsame
  · by_cases hnil : l = []
    · exact seekWay_new hopen.ok hpos hmode hsame hnil
    · exact seekWay_begin hopen.ok hpos hmode hsame hnil

/-! ### The whole of it -/

theorem and_not_of_disjoint {flag bit : UInt8} (h : flag &&& bit = 0) :
    flag &&& ~~~bit = flag := by
  have hall : flag &&& (bit ||| ~~~bit) = flag := by
    rw [UInt8.or_not_self, UInt8.and_neg_one]
  refine Eq.trans (UInt8.toBitVec_inj.1 ?_) hall
  rw [UInt8.toBitVec_and flag (bit ||| ~~~bit), UInt8.toBitVec_or, BitVec.and_or_distrib_left,
    ← UInt8.toBitVec_and, ← UInt8.toBitVec_and, h]
  exact BitVec.zero_or.symm

/-- The buffer is filled as it is for reading. -/
theorem seekFill_eq (nsect : UInt32) (h : Handle δ) :
    seekFill (dr.volume g) nsect h.fil (h.buf, h.fs) =
      if h.fil.fptr % sectorSize ≠ 0 then
        let t := loadSector dr nsect h
        let h' := if t.1 = FR_OK then t.2 else t.2.abort FR_DISK_ERR
        (t.1, h'.fil, h'.buf, h'.fs)
      else (FR_OK, h.fil, h.buf, h.fs) := by
  unfold seekFill
  by_cases hpart : h.fil.fptr % sectorSize ≠ 0
  · rw [if_pos hpart, loadSector]
    by_cases hsect : h.fil.sect = nsect
    · rw [if_neg fun hand => hand.2 hsect.symm, if_neg (not_not.2 hsect)]
      rfl
    · rw [if_pos ⟨hpart, Ne.symm hsect⟩, if_pos hsect, flushBuffer]
      by_cases hdirty : h.fil.flag &&& FA_DIRTY = 0
      · rw [if_neg (not_not.2 hdirty), if_neg (not_not.2 hdirty)]
        dsimp only [Disk.volume]
        rw [and_not_of_disjoint hdirty]
        cases (dr.diskRead nsect h.buf h.fs.drive).1
        · rfl
        · rfl
      · rw [if_pos hdirty, if_pos hdirty]
        dsimp only [Disk.volume]
        cases (dr.diskWrite h.fil.sect h.buf h.fs.drive).1 with
        | false => rfl
        | true =>
            simp only [Bool.not_true, Bool.false_eq_true, if_false, if_true, ne_eq,
              not_true_eq_false]
            cases (dr.diskRead nsect h.buf (dr.diskWrite h.fil.sect h.buf h.fs.drive).2).1
            · rfl
            · rfl
  · rw [if_neg fun hand => hpart hand.1, if_neg hpart]

/-- **The file pointer is at a position**, and the file is long enough for it. -/
structure Moved (dr : Disk δ) (g : Geometry) (fat : UInt32 → UInt32) (l : List UInt32) (pos : ℕ)
    (h : Handle δ) (fat' : UInt32 → UInt32) (l' : List UInt32) (h' : Handle δ) : Prop where
  grown : Grown g fat l fat' l'
  elsewhere : Elsewhere dr g l' h.fs h'.fs
  opened : Open dr g fat' l' h'
  fptr : h'.fil.fptr.toNat = pos
  objsize : h'.fil.objsize.toNat = max h.fil.objsize.toNat pos
  mounted : h'.fil.mounted = h.fil.mounted
  err : h'.fil.err = h.fil.err
  mode : h'.fil.flag &&& 0x3F = h.fil.flag &&& 0x3F
  kept : ∀ i < h.fil.objsize.toNat, h'.bytes dr g l' i = h.bytes dr g l i

/-- **What is asked of seeking a position**: it is reached, or the file is open for writing, the
volume is full, and its clusters end in front of the position, where the file pointer is. -/
structure SeekResult (dr : Disk δ) (g : Geometry) (fat : UInt32 → UInt32) (l : List UInt32)
    (target : ℕ) (h : Handle δ) (r : FRESULT × Handle δ) : Prop where
  outside : Outside dr g fat l h.fs r.2.fs
  hasFat : ∃ fat', HasFat dr.toDrive g r.2.fs fat' ∧ OthersKept g fat l fat'
  error : r.1 ≠ FR_OK → r.2.fil.err = r.1 ∧ Failing dr g fat r.1
  sought : r.1 = FR_OK → ∃ fat' l' pos, Moved dr g fat l pos h fat' l' r.2 ∧
    (pos = target ∨ pos < target ∧ pos = 512 * (g.csize.toNat * l'.length) ∧
      h.fil.writes = true ∧ Full g fat' r.2.fs)

/-- The end of the file is where the file pointer has got. -/
def Handle.extend (h : Handle δ) : Handle δ :=
  { h with fil := if h.fil.objsize < h.fil.fptr then
      { h.fil with objsize := h.fil.fptr, flag := h.fil.flag ||| FA_MODIFIED } else h.fil }

theorem extend_spec (ok : FileOk dr g fat l h)
    (hroom : h.fil.fptr.toNat ≤ 512 * (g.csize.toNat * l.length)) :
    FileOk dr g fat l h.extend ∧ (∀ s, h.extend.data dr s = h.data dr s) ∧
      h.extend.fil.fptr = h.fil.fptr ∧ h.extend.fil.clust = h.fil.clust ∧
        h.extend.fil.mounted = h.fil.mounted ∧ h.extend.fil.err = h.fil.err ∧
          h.extend.fil.flag &&& 0x3F = h.fil.flag &&& 0x3F ∧
            h.extend.fil.objsize.toNat = max h.fil.objsize.toNat h.fil.fptr.toNat := by
  unfold Handle.extend
  by_cases hlt : h.fil.objsize < h.fil.fptr
  · have hlt' := UInt32.lt_iff_toNat_lt.1 hlt
    have hdirty : (h.fil.flag ||| FA_MODIFIED) &&& FA_DIRTY = h.fil.flag &&& FA_DIRTY :=
      or_and_of_disjoint rfl
    rw [if_pos hlt]
    exact ⟨⟨ok.hasFat, ok.chain, ok.valid, ok.window, ok.sclust, hroom,
      fun hd => ok.dirty (hdirty ▸ hd), fun hc => ok.clean (hdirty ▸ hc)⟩, fun _ => rfl, rfl, rfl,
      rfl, rfl, or_and_of_disjoint rfl, by dsimp only; omega⟩
  · have hlt' := mt UInt32.lt_iff_toNat_lt.2 hlt
    rw [if_neg hlt]
    refine ⟨ok, fun _ => rfl, rfl, rfl, rfl, rfl, rfl, ?_⟩
    change h.fil.objsize.toNat = _
    omega

/-- How many clusters are free is not looked at. -/
theorem freeClst_seekFill (dr : Disk δ) (g : Geometry) (nsect : UInt32) (h : Handle δ) :
    (seekFill (dr.volume g) nsect h.fil (h.buf, h.fs)).2.2.2.freeClst = h.fs.freeClst := by
  unfold seekFill
  split
  · have hflush : ∀ w : Bool × Sector × Fatfs δ,
        w = (if h.fil.flag &&& FA_DIRTY ≠ 0 then (dr.volume g).diskWrite h.fil.sect (h.buf, h.fs)
          else (true, h.buf, h.fs)) → w.2.2.freeClst = h.fs.freeClst := by
      rintro w rfl
      split
      · rfl
      · rfl
    have hfree := hflush _ rfl
    dsimp only
    generalize (if h.fil.flag &&& FA_DIRTY ≠ 0 then (dr.volume g).diskWrite h.fil.sect (h.buf, h.fs)
      else (true, h.buf, h.fs)) = w at hfree ⊢
    split
    · exact hfree
    · split
      · exact hfree
      · exact hfree
  · rfl

/-- The buffer gets the sector of the file pointer. -/
theorem fill_spec {nsect : UInt32} (ok : FileOk dr g fat l h)
    (hfptr : h.fil.fptr.toNat ≤ h.fil.objsize.toNat)
    (hclust : h.fil.fptr ≠ 0 →
      l[(h.fil.fptr.toNat - 1) / 512 / g.csize.toNat]? = some h.fil.clust)
    (hsect : h.fil.fptr.toNat % 512 ≠ 0 → nsect = g.fileSector l (h.fil.fptr.toNat / 512))
    {r : FRESULT × Fil × Sector × Fatfs δ}
    (hr : r = seekFill (dr.volume g) nsect h.fil (h.buf, h.fs)) :
    Elsewhere dr g l h.fs r.2.2.2 ∧ HasFat dr.toDrive g r.2.2.2 fat ∧
      (r.1 ≠ FR_OK → r.2.1.err = FR_DISK_ERR ∧ r.1 = FR_DISK_ERR ∧ ¬dr.Reliable) ∧
        (r.1 = FR_OK → SameFile dr g fat l h ⟨r.2.1, r.2.2.1, r.2.2.2⟩ ∧
          Positioned g l r.2.1) := by
  have hmod : h.fil.fptr % sectorSize ≠ 0 ↔ h.fil.fptr.toNat % 512 ≠ 0 := by
    rw [Ne, ← UInt32.toNat_inj, UInt32.toNat_mod]
    rfl
  rw [seekFill_eq] at hr
  by_cases hpart : h.fil.fptr % sectorSize ≠ 0
  · rw [if_pos hpart] at hr
    have hne := hmod.1 hpart
    have hsize := ok.size
    have hin : h.fil.fptr.toNat / 512 < g.csize.toNat * l.length := by omega
    have hown : g.Owned fat l nsect := by
      rw [hsect hne]
      exact (inFile_fileSector ok.valid hin).owned
    have hload := loadSector_spec ok hown
    revert hr hload
    generalize loadSector dr nsect h = t
    rintro rfl hload
    dsimp only
    by_cases ht : t.1 = FR_OK
    · rw [if_pos ht]
      have hsame := hload.same ht
      have hsect' := hload.sect ht
      refine ⟨hload.elsewhere, hsame.ok.hasFat, fun hne => absurd ht hne, fun _ => ⟨hsame, ?_⟩⟩
      refine ⟨?_, fun hz => ?_, fun hne' => ?_⟩
      · rw [hsame.fil.fptr, hsame.fil.objsize]
        exact hfptr
      · rw [hsame.fil.fptr] at hz ⊢
        rw [hload.clust]
        exact hclust hz
      · rw [hsame.fil.fptr] at hne' ⊢
        rw [hsect']
        exact hsect hne'
    · rw [if_neg ht]
      exact ⟨hload.elsewhere, hload.hasFat, fun _ => ⟨rfl, hload.error ht⟩, fun h' => absurd h' ht⟩
  · rw [if_neg hpart] at hr
    subst hr
    refine ⟨Elsewhere.refl _, ok.hasFat, fun hne => absurd rfl hne, fun _ => ⟨SameFile.refl ok,
      hfptr, hclust, fun hne => absurd (hmod.2 hne) hpart⟩⟩

/-- The file object is one that can be used. -/
theorem ready_of_validate (hvalid : h.validate dr = FR_OK) :
    Ready (dr.volume g) h.fil (h.buf, h.fs) := by
  have hmount : (h.fil.mounted && !dr.noInit h.fs.drive) = true := by
    by_contra hno
    rw [Handle.validate, if_neg hno] at hvalid
    cases hvalid
  rw [Handle.validate, if_pos hmount] at hvalid
  exact ⟨if_pos hmount, hvalid⟩

/-- A file open for reading has room for the position that `f_lseek` goes for. -/
theorem clip_le (ok : FileOk dr g fat l h) (ofs : UInt32) :
    h.fil.writes = true ∨ (h.fil.clip ofs).toNat ≤ 512 * (g.csize.toNat * l.length) := by
  have hsize := ok.size
  by_cases hwrites : h.fil.writes = true
  · exact Or.inl hwrites
  · rw [Fil.clip]
    right
    split
    · exact hsize
    · rename_i hin
      have hle : ¬h.fil.objsize < ofs := fun hlt => hin ⟨hlt, by simpa using hwrites⟩
      rw [UInt32.lt_iff_toNat_lt] at hle
      omega

/-- The way to a position, which is none to the beginning. -/
theorem way_spec (hopen : Open dr g fat l h)
    (hmode : h.fil.writes = true ∨ ofs.toNat ≤ 512 * (g.csize.toNat * l.length)) :
    Arrived dr g fat l ofs.toNat h
      (if 0 < ofs then
        seekWay (dr.volume g) h.fil.fptr ofs { h.fil with fptr := 0 } (h.buf, h.fs)
      else (none, 0, { h.fil with fptr := 0 }, h.buf, h.fs)) := by
  have ok := hopen.ok
  by_cases hpos : 0 < ofs
  · rw [if_pos hpos]
    exact seekWay_spec hopen (UInt32.lt_iff_toNat_lt.1 hpos) hmode
  · rw [if_neg hpos]
    have hzero : ofs.toNat = 0 := by
      rw [UInt32.lt_iff_toNat_lt, UInt32.toNat_zero] at hpos
      omega
    rw [hzero]
    exact ⟨Outside.refl _, ⟨fat, ok.hasFat, fun _ _ _ _ => rfl⟩, by rintro _ ⟨⟩, fun _ => ⟨fat, l,
      (Went.refl ok).fptr 0, Or.inl rfl, Nat.zero_le _, fun hne => absurd rfl hne,
      fun hne => absurd rfl hne⟩⟩

/-- What `f_lseek` comes to. -/
theorem seek_result (hopen : Open dr g fat l h) (hvalid : h.validate dr = FR_OK) (ofs : UInt32) :
    SeekResult dr g fat l (h.fil.clip ofs).toNat h (h.seek dr g ofs) := by
  have ok := hopen.ok
  have hready := @ready_of_validate _ dr g h hvalid
  have harrive := way_spec hopen (clip_le ok ofs)
  unfold Handle.seek fLseek
  dsimp only
  rw [if_pos hready.1, if_neg (not_not.2 hready.2)]
  have hclip : (if h.fil.objsize < ofs ∧ (!h.fil.writes) = true then h.fil.objsize else ofs) =
      h.fil.clip ofs := rfl
  rw [hclip]
  revert harrive
  generalize (if 0 < h.fil.clip ofs then
      seekWay (dr.volume g) h.fil.fptr (h.fil.clip ofs) { h.fil with fptr := 0 } (h.buf, h.fs)
    else (none, 0, { h.fil with fptr := 0 }, h.buf, h.fs)) = t
  obtain ⟨abort, nsect, fil, buf, fs⟩ := t
  intro harrive
  cases abort with
  | some res =>
      refine ⟨harrive.outside, harrive.hasFat, fun _ => ⟨rfl, harrive.error res rfl⟩, ?_⟩
      intro hres
      rcases harrive.error res rfl with ⟨heq, -⟩ | ⟨heq, -⟩
      · rw [heq] at hres
        cases hres
      · rw [heq] at hres
        cases hres
  | none =>
      obtain ⟨fat', l', hwent, hor, hroom, hclust, hsect⟩ := harrive.found rfl
      have hspec := extend_spec hwent.ok hroom
      dsimp only at hor hroom hclust hsect ⊢
      -- the rest is about the file object that has been extended
      generalize hext : (⟨fil, buf, fs⟩ : Handle δ).extend = h₁ at hspec
      obtain ⟨ok', hdata, hfptr, hcl, hmounted, herr, hmode', hobj⟩ := hspec
      have hfil : (if fil.objsize < fil.fptr then
          { fil with objsize := fil.fptr, flag := fil.flag ||| FA_MODIFIED } else fil) =
            h₁.fil := by
        rw [← hext]
        rfl
      have hrest : buf = h₁.buf ∧ fs = h₁.fs := by
        rw [← hext]
        exact ⟨rfl, rfl⟩
      have hwelse := hwent.elsewhere
      have hout := hwent.outside
      have hwfil := hwent.fil
      dsimp only at hout hwelse hwfil hobj hfptr hcl hmounted herr hmode'
      rw [hfil, hrest.1, hrest.2]
      rw [hrest.2] at hout hwelse hor
      rw [← hfptr] at hsect
      obtain ⟨helse, hfat, herror, hok⟩ := fill_spec ok'
        (by rw [hobj, hfptr]; exact Nat.le_max_right _ _) (by rw [hfptr, hcl]; exact hclust)
        hsect rfl
      have hfree := freeClst_seekFill dr g nsect h₁
      generalize seekFill (dr.volume g) nsect h₁.fil (h₁.buf, h₁.fs) = r at *
      refine ⟨Outside.trans hwent.grown hout helse.outside, ⟨fat', hfat, hwent.grown.others⟩,
        fun hne => ⟨(herror hne).1.trans (herror hne).2.1.symm, Or.inl (herror hne).2⟩,
        fun hres => ⟨fat', l', fil.fptr.toNat, ?_, ?_⟩⟩
      · obtain ⟨hsame, hp⟩ := hok hres
        refine ⟨hwent.grown, hwelse.trans helse, ⟨hsame.ok, hp⟩, ?_, ?_, ?_, ?_, ?_, fun i hi => ?_⟩
        · rw [hsame.fil.fptr, hfptr]
        · rw [hsame.fil.objsize, hobj, hwfil]
        · rw [hsame.fil.mounted, hmounted, hwfil]
        · rw [hsame.fil.err, herr, hwfil]
        · exact (mode_of_clear hsame.fil.flag).trans (hmode'.trans (by rw [hwfil]))
        · have hsize := ok.size
          have hlt : i / 512 < g.csize.toNat * l.length := Nat.div_lt_of_lt_mul (by omega)
          rw [Handle.bytes, Handle.bytes, hwent.grown.fileSector hlt]
          have hown : g.Owned fat' l' (g.fileSector l (i / 512)) :=
            (hwent.grown.inFile (inFile_fileSector ok.valid hlt)).owned
          exact congrFun ((hsame.data _ hown).trans ((hdata _).trans (hwent.data _ hown))) _
      · refine hor.imp_right fun hor => ⟨hor.1, hor.2.1, hor.2.2.1, ?_⟩
        exact hor.2.2.2.imp_left hfree.trans

end

end Pico.Fat
