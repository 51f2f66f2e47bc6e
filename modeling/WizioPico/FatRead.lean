/-
**Reading from a file of FatFs.**

`f_read` of `library/fatfs/ff.c` goes from the sector of the file pointer to the end of what is
asked for: whole sectors are read into the memory of the caller, up to the end of a cluster at a
time, and what the buffer of the file has of them is put over it; of other sectors the buffer is
filled first, after what has been changed in it is written back.

Main definitions:

* `Pico.Fat.readRound`, `Pico.Fat.readLoop`, `Pico.Fat.fRead` — one round of the loop of `f_read`,
  the loop, and `f_read`;
* `Pico.Fat.ReadRound` — what is asked of a round.

Main results:

* `Pico.Fat.readRound_spec` — a round reads bytes of the file;
* `Pico.Fat.fRead_spec` — **`f_read` reads the bytes behind the file pointer**, and whatever the
  drive answers, changes nothing that is not the file's.
-/

import WizioPico.FatData

set_option relaxedAutoImplicit false
set_option autoImplicit false

namespace Pico.Fat

open Pico.Vfs Chains
open FRESULT FsType

section

variable {δ : Type*} (dr : Disk δ) (g : Geometry)

/-! ### The function -/

/-- `ABORT`. -/
def Handle.abort (res : FRESULT) (h : Handle δ) : Handle δ :=
  { h with fil := { h.fil with err := res } }

/-- The file pointer goes on. -/
def Handle.advance (n : ℕ) (h : Handle δ) : Handle δ :=
  { h with fil := { h.fil with fptr := h.fil.fptr + UInt32.ofNat n } }

/-- The cluster of the file pointer, at the beginning of a cluster. -/
def followCluster (h : Handle δ) : UInt32 × Handle δ :=
  if h.fil.fptr = 0 then (h.fil.sclust, h)
  else
    let r := getFat dr.toDrive g h.fil.clust h.fs
    (r.1, { h with fs := r.2 })

/-- The sector of the file pointer, at the beginning of a sector. -/
def readSector (h : Handle δ) : Except FRESULT UInt32 × Handle δ :=
  let csect := g.csect h.fil.fptr
  let r := if csect = 0 then followCluster dr g h else (h.fil.clust, h)
  if csect = 0 ∧ r.1 < 2 then (.error FR_INT_ERR, r.2)
  else if csect = 0 ∧ r.1 = 0xFFFFFFFF then (.error FR_DISK_ERR, r.2)
  else
    let h := { r.2 with fil := { r.2.fil with clust := r.1 } }
    let sect := g.clst2sect h.fil.clust
    if sect = 0 then (.error FR_INT_ERR, h) else (.ok (sect + csect), h)

/-- So many sectors, byte for byte. -/
def sectorBytes (data : ℕ → Sector) (n : ℕ) : List UInt8 :=
  (List.range (512 * n)).map fun i => data (i / 512) (sectorIndex i)

/-- Whole sectors are read into the memory of the caller. -/
def readDirect (sect cc : UInt32) (h : Handle δ) : Except FRESULT (List UInt8) × Handle δ :=
  let csect := g.csect h.fil.fptr
  let cc := if g.csize < csect + cc then g.csize - csect else cc
  let r := dr.readMany sect cc h.fs.drive
  let h := { h with fs := { h.fs with drive := r.2.2 } }
  if r.1 then
    let data :=
      if h.fil.flag &&& FA_DIRTY ≠ 0 ∧ h.fil.sect - sect < cc then
        Function.update r.2.1 (h.fil.sect - sect).toNat h.buf
      else r.2.1
    (.ok (sectorBytes data cc.toNat), h)
  else (.error FR_DISK_ERR, h)

/-- What has been changed in the buffer is written back. -/
def flushBuffer (h : Handle δ) : FRESULT × Handle δ :=
  if h.fil.flag &&& FA_DIRTY ≠ 0 then
    let w := dr.diskWrite h.fil.sect h.buf h.fs.drive
    let h := { h with fs := { h.fs with drive := w.2 } }
    if w.1 then (FR_OK, { h with fil := { h.fil with flag := h.fil.flag &&& ~~~FA_DIRTY } })
    else (FR_DISK_ERR, h)
  else (FR_OK, h)

/-- The buffer gets a sector. -/
def loadSector (sect : UInt32) (h : Handle δ) : FRESULT × Handle δ :=
  if h.fil.sect ≠ sect then
    let w := flushBuffer dr h
    if w.1 ≠ FR_OK then w
    else
      let r := dr.diskRead sect w.2.buf w.2.fs.drive
      let h := { w.2 with buf := r.2.1, fs := { w.2.fs with drive := r.2.2 } }
      if r.1 then (FR_OK, { h with fil := { h.fil with sect := sect } }) else (FR_DISK_ERR, h)
  else (FR_OK, h)

/-- A part of a sector is copied from the buffer. -/
def readPartial (btr : UInt32) (h : Handle δ) : List UInt8 :=
  let rcnt := sectorSize - h.fil.fptr % sectorSize
  let rcnt := if btr < rcnt then btr else rcnt
  (List.range rcnt.toNat).map fun i => h.buf (sectorIndex ((h.fil.fptr % sectorSize).toNat + i))

/-- One round of the loop of `f_read`: the bytes that it reads. -/
def readRound (btr : UInt32) (h : Handle δ) : Except FRESULT (List UInt8) × Handle δ :=
  if h.fil.fptr % sectorSize = 0 then
    let s := readSector dr g h
    match s.1 with
    | .error res => (.error res, s.2)
    | .ok sect =>
      let cc := btr / sectorSize
      if 0 < cc then readDirect dr g sect cc s.2
      else
        let t := loadSector dr sect s.2
        if t.1 ≠ FR_OK then (.error t.1, t.2) else (.ok (readPartial btr t.2), t.2)
  else (.ok (readPartial btr h), h)

/-- The loop of `f_read`: the result, and the bytes that are read. -/
def readLoop : ℕ → UInt32 → List UInt8 → Handle δ → Option ((FRESULT × List UInt8) × Handle δ)
  | 0, _, _, _ => none
  | fuel + 1, btr, done, h =>
    if btr = 0 then some ((FR_OK, done), h)
    else
      let r := readRound dr g btr h
      match r.1 with
      | .error res => some ((res, done), r.2.abort res)
      | .ok chunk =>
        readLoop fuel (btr - UInt32.ofNat chunk.length) (done ++ chunk) (r.2.advance chunk.length)

/-- `validate`, and the error that the file object has got before. -/
def Handle.validate (h : Handle δ) : FRESULT :=
  if h.fil.mounted && !dr.noInit h.fs.drive then h.fil.err else FR_INVALID_OBJECT

/-- `f_read`: the result, and the bytes that are read. -/
def fRead (fuel : ℕ) (btr : UInt32) (h : Handle δ) : Option ((FRESULT × List UInt8) × Handle δ) :=
  let res := h.validate dr
  if res ≠ FR_OK then some ((res, []), h)
  else if h.fil.flag &&& FA_READ = 0 then some ((FR_DENIED, []), h)
  else
    let remain := h.fil.objsize - h.fil.fptr
    let btr := if remain < btr then remain else btr
    readLoop dr g fuel btr [] h

end

section

variable {δ : Type*} {dr : Disk δ} {g : Geometry} {fat : UInt32 → UInt32} {l : List UInt32}
  {h h' h'' : Handle δ} {btr sect cc : UInt32}

/-! ### What reading leaves alone -/

/-- Of the file object, only where it is, and whether something is to be written back, has become
different. -/
structure SameFil (fil fil' : Fil) : Prop where
  mounted : fil'.mounted = fil.mounted
  err : fil'.err = fil.err
  fptr : fil'.fptr = fil.fptr
  objsize : fil'.objsize = fil.objsize
  sclust : fil'.sclust = fil.sclust
  flag : fil'.flag &&& ~~~FA_DIRTY = fil.flag &&& ~~~FA_DIRTY

theorem SameFil.refl (fil : Fil) : SameFil fil fil := ⟨rfl, rfl, rfl, rfl, rfl, rfl⟩

theorem SameFil.trans {fil fil' fil'' : Fil} (h : SameFil fil fil') (h' : SameFil fil' fil'') :
    SameFil fil fil'' :=
  ⟨h'.mounted.trans h.mounted, h'.err.trans h.err, h'.fptr.trans h.fptr,
    h'.objsize.trans h.objsize, h'.sclust.trans h.sclust, h'.flag.trans h.flag⟩

/-- The file is as before, and it is still open. -/
structure SameFile (dr : Disk δ) (g : Geometry) (fat : UInt32 → UInt32) (l : List UInt32)
    (h h' : Handle δ) : Prop where
  ok : FileOk dr g fat l h'
  data : ∀ s, g.Owned fat l s → h'.data dr s = h.data dr s
  fil : SameFil h.fil h'.fil

theorem SameFile.refl (ok : FileOk dr g fat l h) : SameFile dr g fat l h h :=
  ⟨ok, fun _ _ => rfl, SameFil.refl h.fil⟩

theorem SameFile.trans (hs : SameFile dr g fat l h h') (hs' : SameFile dr g fat l h' h'') :
    SameFile dr g fat l h h'' :=
  ⟨hs'.ok, fun s hown => (hs'.data s hown).trans (hs.data s hown), hs.fil.trans hs'.fil⟩

/-- The file has the same bytes. -/
theorem SameFile.bytes (hs : SameFile dr g fat l h h') {i : ℕ}
    (hi : i < 512 * (g.csize.toNat * l.length)) : h'.bytes dr g l i = h.bytes dr g l i :=
  bytes_congr hs.ok.valid (fun s hin => hs.data s hin.owned) hi

/-- The file object is at another cluster. -/
theorem SameFile.clust (hs : SameFile dr g fat l h h') (c : UInt32) :
    SameFile dr g fat l h { h' with fil := { h'.fil with clust := c } } :=
  ⟨⟨hs.ok.hasFat, hs.ok.chain, hs.ok.valid, hs.ok.window, hs.ok.sclust, hs.ok.size, hs.ok.dirty,
    hs.ok.clean⟩, hs.data, ⟨hs.fil.mounted, hs.fil.err, hs.fil.fptr, hs.fil.objsize, hs.fil.sclust,
    hs.fil.flag⟩⟩

/-- Something is read from the drive. -/
theorem SameFile.drive (hs : SameFile dr g fat l h h') {d : δ}
    (hd : dr.contents d = dr.contents h'.fs.drive) :
    SameFile dr g fat l h { h' with fs := { h'.fs with drive := d } } := by
  have hfat := hs.ok.hasFat.drive (D := g.Owned fat l) (d := d) (offFat_owned g fat l) hs.ok.window
    fun t _ => by rw [hd]
  refine ⟨⟨hfat.1, hs.ok.chain, hs.ok.valid, hs.ok.window, hs.ok.sclust, hs.ok.size, hs.ok.dirty,
    fun hclean hown => ?_⟩, fun s hown => ?_, hs.fil⟩
  · exact (hs.ok.clean hclean hown).trans (by rw [hd])
  · rw [← hs.data s hown, Handle.data, Handle.data, hd]

/-- What the drive has is as before. -/
theorem HasFat.elsewhere_read {d : δ} {fs : Fatfs δ} (hfat : HasFat dr.toDrive g fs fat)
    (hd : dr.contents d = dr.contents fs.drive) : Elsewhere dr g l fs { fs with drive := d } := by
  have hnone : ¬g.InFile [] fs.winsect := by
    rintro ⟨c, hc, -⟩
    cases hc
  exact (hfat.elsewhere hnone fun t _ => congrFun hd t).2.mono (List.nil_subset l)

/-! ### Where the file pointer is -/

/-- The sectors of a file are where its bytes are. -/
theorem lt_sectors {p k : ℕ} (hk : p < k) {size : ℕ} (hsize : k ≤ 512 * size) : p / 512 < size :=
  Nat.div_lt_of_lt_mul (by omega)

/-- The file pointer has gone on in its cluster. -/
theorem positioned_advance {fil : Fil} {k : ℕ}
    (hle : fil.fptr.toNat + k ≤ fil.objsize.toNat)
    (hclust : l[fil.fptr.toNat / 512 / g.csize.toNat]? = some fil.clust)
    (hin : (fil.fptr.toNat + k - 1) / 512 / g.csize.toNat = fil.fptr.toNat / 512 / g.csize.toNat)
    (hsect : (fil.fptr.toNat + k) % 512 ≠ 0 →
      fil.sect = g.fileSector l ((fil.fptr.toNat + k) / 512)) :
    Positioned g l { fil with fptr := fil.fptr + UInt32.ofNat k } := by
  have hlt := fil.objsize.toNat_lt
  have hadd : (fil.fptr + UInt32.ofNat k).toNat = fil.fptr.toNat + k := by
    rw [UInt32.toNat_add, UInt32.toNat_ofNat_of_lt' (by change k < 2 ^ 32; omega),
      Nat.mod_eq_of_lt (by omega)]
  refine ⟨by rw [hadd]; exact hle, fun _ => ?_, fun hne => ?_⟩
  · rw [hadd, hin]
    exact hclust
  · rw [hadd] at hne ⊢
    exact hsect hne

/-- The cluster, in the middle of a sector. -/
theorem Positioned.clust_of_mod {fil : Fil} (hp : Positioned g l fil)
    (hmod : fil.fptr.toNat % 512 ≠ 0) :
    l[fil.fptr.toNat / 512 / g.csize.toNat]? = some fil.clust := by
  have hne : fil.fptr ≠ 0 := by
    rintro hz
    rw [hz] at hmod
    exact hmod rfl
  rw [← hp.clust hne]
  congr 2
  omega

/-- The cluster in front, at the beginning of another one. -/
theorem Positioned.clust_of_boundary {fil : Fil} (hp : Positioned g l fil) (hzero : fil.fptr ≠ 0)
    (hsect : fil.fptr.toNat % 512 = 0) (hmod : fil.fptr.toNat / 512 % g.csize.toNat = 0) :
    0 < fil.fptr.toNat / 512 / g.csize.toNat ∧
      l[fil.fptr.toNat / 512 / g.csize.toNat - 1]? = some fil.clust := by
  have hclust := hp.clust hzero
  have hpos : 0 < fil.fptr.toNat := Nat.pos_of_ne_zero fun hz => hzero (UInt32.toNat_inj.1 hz)
  have hcsize := csize_pos g
  generalize hq : fil.fptr.toNat / 512 / g.csize.toNat = q
  have hsplit : fil.fptr.toNat = 512 * (g.csize.toNat * q) := by
    have h₁ := Nat.div_add_mod fil.fptr.toNat 512
    have h₂ := Nat.div_add_mod (fil.fptr.toNat / 512) g.csize.toNat
    rw [hq, hmod] at h₂
    omega
  have hqpos : 0 < q := by
    rcases Nat.eq_zero_or_pos q with rfl | hqpos
    · omega
    · exact hqpos
  have hbefore : (fil.fptr.toNat - 1) / 512 / g.csize.toNat = q - 1 := by
    rw [Nat.div_div_eq_div_mul, hsplit, ← Nat.mul_assoc]
    refine Nat.div_eq_of_lt_le ?_ ?_
    · have := Nat.mul_le_mul_left (512 * g.csize.toNat) (Nat.sub_le q 1)
      rw [Nat.mul_comm (q - 1), Nat.mul_sub_one]
      omega
    · rw [Nat.sub_add_cancel hqpos, Nat.mul_comm q]
      exact Nat.sub_lt (Nat.mul_pos (by omega) hqpos) Nat.one_pos
  rw [hbefore] at hclust
  exact ⟨hqpos, hclust⟩

/-- The cluster, at the beginning of a sector in the middle of it. -/
theorem Positioned.clust_of_inner {fil : Fil} (hp : Positioned g l fil)
    (hsect : fil.fptr.toNat % 512 = 0) (hmod : fil.fptr.toNat / 512 % g.csize.toNat ≠ 0) :
    l[fil.fptr.toNat / 512 / g.csize.toNat]? = some fil.clust := by
  have hne : fil.fptr ≠ 0 := by
    intro heq
    refine hmod ?_
    rw [heq]
    exact Nat.zero_mod _
  have hpos : 0 < fil.fptr.toNat := Nat.pos_of_ne_zero fun hz => hne (UInt32.toNat_inj.1 hz)
  rw [← hp.clust hne]
  -- the byte in front of the sector is in the same cluster
  have hcsize := csize_pos g
  have hbefore : (fil.fptr.toNat - 1) / 512 = fil.fptr.toNat / 512 - 1 := by omega
  have hsplit := Nat.div_add_mod (fil.fptr.toNat / 512) g.csize.toNat
  have hltmod := Nat.mod_lt (fil.fptr.toNat / 512) hcsize
  have hsame : (fil.fptr.toNat / 512 - 1) / g.csize.toNat =
      fil.fptr.toNat / 512 / g.csize.toNat := by
    refine Nat.div_eq_of_lt_le ?_ ?_
    · rw [Nat.mul_comm]
      omega
    · rw [Nat.succ_mul, Nat.mul_comm]
      omega
  rw [hbefore, hsame]

/-! ### The sector of the file pointer -/

/-- The first cluster of a file. -/
theorem FileOk.head (ok : FileOk dr g fat l h) {c : UInt32} (hc : l[0]? = some c) :
    h.fil.sclust = c := by
  rw [ok.sclust, List.head?_eq_getElem?, hc]
  rfl

/-- The cluster of the file pointer is the one that follows. -/
theorem followCluster_spec (ok : FileOk dr g fat l h) (hp : Positioned g l h.fil)
    (hlt : h.fil.fptr.toNat / 512 / g.csize.toNat < l.length)
    (hmod : h.fil.fptr.toNat / 512 % g.csize.toNat = 0) (hsect : h.fil.fptr.toNat % 512 = 0) :
    Elsewhere dr g l h.fs (followCluster dr g h).2.fs ∧
      SameFile dr g fat l h (followCluster dr g h).2 ∧
      ((followCluster dr g h).1 = 0xFFFFFFFF ∧ ¬dr.Reliable ∨
        l[h.fil.fptr.toNat / 512 / g.csize.toNat]? = some (followCluster dr g h).1) := by
  unfold followCluster
  by_cases hzero : h.fil.fptr = 0
  · rw [if_pos hzero]
    refine ⟨Elsewhere.refl _, SameFile.refl ok, Or.inr ?_⟩
    have hfirst : h.fil.fptr.toNat / 512 / g.csize.toNat = 0 := by
      rw [hzero]
      exact Nat.zero_div _
    rw [hfirst] at hlt ⊢
    have hc := List.getElem?_eq_getElem hlt
    rw [hc]
    exact congrArg some (ok.head hc).symm
  · rw [if_neg hzero]
    dsimp only
    obtain ⟨hqpos, hclust⟩ := hp.clust_of_boundary hzero hsect hmod
    generalize h.fil.fptr.toNat / 512 / g.csize.toNat = q at hlt hqpos hclust ⊢
    obtain ⟨hlt', hget⟩ := List.getElem?_eq_some_iff.1 hclust
    have hmem : h.fil.clust ∈ l := hget ▸ List.getElem_mem hlt'
    have hread := getFat_reads ok.hasFat (ok.valid _ hmem)
    obtain ⟨ok', hdata⟩ := ok.follow hread.hasFat ok.getFat
    refine ⟨hread.data.elsewhere (tally_same ok.hasFat hread.hasFat hread.info)
        fun P hst hP => getFat_stable hst hP,
      ⟨ok', hdata, SameFil.refl h.fil⟩, ?_⟩
    by_cases herr : (getFat dr.toDrive g h.fil.clust h.fs).1 = 0xFFFFFFFF
    · exact Or.inl ⟨herr, fun hrel => hread.reliable hrel.drive herr⟩
    · right
      have hne : l ≠ [] := by
        rintro rfl
        cases hmem
      have hnext := (ok.chain hne).next_eq_getElem? hclust
      rw [Nat.sub_add_cancel hqpos, List.getElem?_eq_getElem hlt] at hnext
      rw [List.getElem?_eq_getElem hlt, hread.value herr, (next_eq_some hnext).2]

/-- What is asked of the search for the sector of the file pointer. -/
structure Sought (dr : Disk δ) (g : Geometry) (fat : UInt32 → UInt32) (l : List UInt32)
    (h : Handle δ) (r : Except FRESULT UInt32 × Handle δ) : Prop where
  elsewhere : Elsewhere dr g l h.fs r.2.fs
  hasFat : HasFat dr.toDrive g r.2.fs fat
  error : ∀ res, r.1 = .error res → res = FR_DISK_ERR ∧ ¬dr.Reliable
  found : ∀ sect, r.1 = .ok sect → sect = g.fileSector l (h.fil.fptr.toNat / 512) ∧
    SameFile dr g fat l h r.2 ∧
      l[h.fil.fptr.toNat / 512 / g.csize.toNat]? = some r.2.fil.clust

theorem readSector_spec (ok : FileOk dr g fat l h) (hp : Positioned g l h.fil)
    (hsect : h.fil.fptr.toNat % 512 = 0)
    (hlt : h.fil.fptr.toNat / 512 < g.csize.toNat * l.length) :
    Sought dr g fat l h (readSector dr g h) := by
  have hin : h.fil.fptr.toNat / 512 / g.csize.toNat < l.length := Nat.div_lt_of_lt_mul hlt
  have hcsect := toNat_csect g h.fil.fptr
  have hzero : g.csect h.fil.fptr = 0 ↔ h.fil.fptr.toNat / 512 % g.csize.toNat = 0 := by
    rw [← hcsect, ← UInt32.toNat_inj]
    rfl
  -- the cluster is the one of the file pointer, or the drive has failed
  have hfollow : ∃ r : UInt32 × Handle δ,
      (if g.csect h.fil.fptr = 0 then followCluster dr g h else (h.fil.clust, h)) = r ∧
        Elsewhere dr g l h.fs r.2.fs ∧ SameFile dr g fat l h r.2 ∧
          (g.csect h.fil.fptr = 0 ∧ r.1 = 0xFFFFFFFF ∧ ¬dr.Reliable ∨
            l[h.fil.fptr.toNat / 512 / g.csize.toNat]? = some r.1) := by
    by_cases hc : g.csect h.fil.fptr = 0
    · obtain ⟨helse, hsame, hor⟩ := followCluster_spec ok hp hin (hzero.1 hc) hsect
      rw [if_pos hc]
      exact ⟨_, rfl, helse, hsame, hor.imp_left fun herr => ⟨hc, herr⟩⟩
    · rw [if_neg hc]
      exact ⟨_, rfl, Elsewhere.refl _, SameFile.refl ok,
        Or.inr (hp.clust_of_inner hsect (mt hzero.2 hc))⟩
  obtain ⟨r, hr, helse, hsame, hor⟩ := hfollow
  rw [readSector]
  dsimp only
  rw [hr]
  rcases hor with ⟨hc, herr, hfailed⟩ | hclust
  · rw [if_neg (by rw [herr]; exact fun h => absurd h.2 (by decide)), if_pos ⟨hc, herr⟩]
    refine ⟨helse, hsame.ok.hasFat, fun res heq => ?_, nofun⟩
    cases heq
    exact ⟨rfl, hfailed⟩
  · obtain ⟨hlt', hget⟩ := List.getElem?_eq_some_iff.1 hclust
    have hvalid : g.Valid r.1 := ok.valid _ (hget ▸ List.getElem_mem hlt')
    obtain ⟨-, -, hd⟩ := not_error hvalid
    rw [if_neg fun h => absurd hvalid.1 (UInt32.not_le.2 h.2), if_neg fun h => hd h.2,
      if_neg (clst2sect_ne_zero hvalid)]
    refine ⟨helse, hsame.ok.hasFat, nofun, fun sect heq => ?_⟩
    cases heq
    refine ⟨?_, hsame.clust r.1, hclust⟩
    rw [Geometry.fileSector, hclust, Option.getD_some, ← hcsect, UInt32.ofNat_toNat]

/-! ### One round -/

/-- **What is asked of a round**: it reads some bytes behind the file pointer. -/
structure ReadRound (dr : Disk δ) (g : Geometry) (fat : UInt32 → UInt32) (l : List UInt32)
    (btr : UInt32) (h : Handle δ) (r : Except FRESULT (List UInt8) × Handle δ) : Prop where
  elsewhere : Elsewhere dr g l h.fs r.2.fs
  hasFat : HasFat dr.toDrive g r.2.fs fat
  error : ∀ res, r.1 = .error res → res = FR_DISK_ERR ∧ ¬dr.Reliable
  chunk : ∀ chunk, r.1 = .ok chunk → ∃ k, 0 < k ∧ k ≤ btr.toNat ∧
    chunk = h.slice dr g l h.fil.fptr.toNat k ∧ SameFile dr g fat l h r.2 ∧
      Positioned g l (r.2.advance k).fil

/-- How many sectors are read at once: up to the end of the cluster. -/
theorem toNat_clip (fptr cc : UInt32) (hcc : cc.toNat < 2 ^ 23) :
    (if g.csize < g.csect fptr + cc then g.csize - g.csect fptr else cc).toNat =
      min cc.toNat (g.csize.toNat - fptr.toNat / 512 % g.csize.toNat) := by
  have hcsect := toNat_csect g fptr
  have hlt := Nat.mod_lt (fptr.toNat / 512) (csize_pos g)
  have hle := csize_le g
  have hadd : (g.csect fptr + cc).toNat = fptr.toNat / 512 % g.csize.toNat + cc.toNat := by
    rw [UInt32.toNat_add, hcsect, Nat.mod_eq_of_lt (by omega)]
  have hsub : (g.csize - g.csect fptr).toNat =
      g.csize.toNat - fptr.toNat / 512 % g.csize.toNat := by
    rw [UInt32.toNat_sub_of_le _ _ (UInt32.le_iff_toNat_le.2 (by omega)), hcsect]
  have hiff : g.csize < g.csect fptr + cc ↔
      g.csize.toNat < fptr.toNat / 512 % g.csize.toNat + cc.toNat := by
    rw [UInt32.lt_iff_toNat_lt, hadd]
  by_cases h : g.csize.toNat < fptr.toNat / 512 % g.csize.toNat + cc.toNat
  · rw [if_pos (hiff.2 h), hsub]
    omega
  · rw [if_neg (mt hiff.1 h)]
    omega

/-- What is read of a sector, with what the buffer has of it. -/
theorem readDirect_data (ok : FileOk dr g fat l h) {n j c : ℕ} {data : ℕ → Sector}
    (hn : n % g.csize.toNat + c ≤ g.csize.toNat) (hlt : n + j < g.csize.toNat * l.length)
    (hj : j < c) (hdata : data j = dr.contents h.fs.drive (g.fileSector l (n + j)))
    (hc : c < 2 ^ 32) {k : UInt32} (hk : k.toNat = c) :
    (if h.fil.flag &&& FA_DIRTY ≠ 0 ∧ h.fil.sect - g.fileSector l n < k then
        Function.update data (h.fil.sect - g.fileSector l n).toNat h.buf
      else data) j = h.data dr (g.fileSector l (n + j)) := by
  have hsmall : (UInt32.ofNat j).toNat = j :=
    UInt32.toNat_ofNat_of_lt' (Nat.lt_trans hj hc)
  have hadd := fileSector_add (g := g) (l := l) (n := n) (m := j) (by omega)
  have hiff : h.fil.sect = g.fileSector l (n + j) ↔
      (h.fil.sect - g.fileSector l n).toNat = j := by
    rw [hadd]
    constructor
    · intro heq
      rw [heq, show g.fileSector l n + UInt32.ofNat j - g.fileSector l n = UInt32.ofNat j by grind,
        hsmall]
    · intro heq
      rw [← heq, UInt32.ofNat_toNat]
      grind
  by_cases hbuf : h.fil.flag &&& FA_DIRTY ≠ 0 ∧ h.fil.sect - g.fileSector l n < k
  · rw [if_pos hbuf]
    by_cases heq : h.fil.sect = g.fileSector l (n + j)
    · rw [hiff.1 heq, Function.update_self, ← heq, data_sect]
    · rw [Function.update_of_ne fun h' => heq (hiff.2 h'.symm), data_of_ne h (Ne.symm heq), hdata]
  · rw [if_neg hbuf, hdata]
    by_cases hdirty : h.fil.flag &&& FA_DIRTY = 0
    · rw [ok.data_clean hdirty (inFile_fileSector ok.valid hlt).owned]
    · refine (data_of_ne h fun heq => hbuf ⟨hdirty, ?_⟩).symm
      rw [UInt32.lt_iff_toNat_lt, hiff.1 heq.symm, hk]
      exact hj

/-- Whole sectors. -/
theorem readDirect_spec (ok : FileOk dr g fat l h) (hsect : h.fil.fptr.toNat % 512 = 0)
    (hclust : l[h.fil.fptr.toNat / 512 / g.csize.toNat]? = some h.fil.clust)
    (hbtr : 0 < btr / sectorSize) (hle : h.fil.fptr.toNat + btr.toNat ≤ h.fil.objsize.toNat) :
    ReadRound dr g fat l btr h (readDirect dr g (g.fileSector l (h.fil.fptr.toNat / 512))
      (btr / sectorSize) h) := by
  have hquot : (btr / sectorSize).toNat = btr.toNat / 512 := UInt32.toNat_div _ _
  have hpos := UInt32.lt_iff_toNat_lt.1 hbtr
  have hlt := btr.toNat_lt
  change 0 < _ at hpos
  have hclip := toNat_clip (g := g) h.fil.fptr (btr / sectorSize) (by omega)
  have hmod := Nat.mod_lt (h.fil.fptr.toNat / 512) (csize_pos g)
  have hsize := ok.size
  unfold readDirect
  dsimp only
  revert hclip
  generalize (if g.csize < g.csect h.fil.fptr + btr / sectorSize then _ else _) = cc
  intro hclip
  have hsplit := Nat.div_add_mod h.fil.fptr.toNat 512
  generalize hn : h.fil.fptr.toNat / 512 = n at hclust hclip hmod hsplit ⊢
  have hc : 0 < cc.toNat ∧ 512 * cc.toNat ≤ btr.toNat ∧
      n % g.csize.toNat + cc.toNat ≤ g.csize.toNat := by
    omega
  have hcontents := dr.contents_readMany (g.fileSector l n) cc h.fs.drive
  have hsame := (SameFile.refl ok).drive hcontents
  cases hread : (dr.readMany (g.fileSector l n) cc h.fs.drive).1 with
  | false =>
      rw [if_neg (by simp)]
      refine ⟨ok.hasFat.elsewhere_read hcontents, hsame.ok.hasFat, fun res heq => ?_, nofun⟩
      cases heq
      refine ⟨rfl, fun hrel => ?_⟩
      rw [hrel.readMany] at hread
      cases hread
  | true =>
      rw [if_pos rfl]
      refine ⟨ok.hasFat.elsewhere_read hcontents, hsame.ok.hasFat, nofun, fun chunk heq => ?_⟩
      cases heq
      refine ⟨512 * cc.toNat, by omega, hc.2.1, ?_, hsame, ?_⟩
      · refine List.map_congr_left fun i hi => ?_
        have hi' := List.mem_range.1 hi
        have hj : i / 512 < cc.toNat := Nat.div_lt_of_lt_mul hi'
        have hin : n + i / 512 < g.csize.toNat * l.length := by omega
        have hsmall : (UInt32.ofNat (i / 512)).toNat = i / 512 :=
          UInt32.toNat_ofNat_of_lt' (Nat.lt_trans hj cc.toNat_lt)
        have hdata := dr.readMany_ok hread (UInt32.ofNat (i / 512))
          (by rw [UInt32.lt_iff_toNat_lt, hsmall]; exact hj)
        rw [hsmall, ← fileSector_add (by omega)] at hdata
        rw [readDirect_data ok hc.2.2 hin hj hdata cc.toNat_lt rfl, Handle.bytes,
          show (h.fil.fptr.toNat + i) / 512 = n + i / 512 by omega,
          show sectorIndex (h.fil.fptr.toNat + i) = sectorIndex i from Fin.ext (by simp; omega)]
      · refine positioned_advance ?_ ?_ ?_ fun hne => ?_
        · change h.fil.fptr.toNat + _ ≤ h.fil.objsize.toNat
          omega
        · change l[h.fil.fptr.toNat / 512 / g.csize.toNat]? = some h.fil.clust
          rw [hn]
          exact hclust
        · change (h.fil.fptr.toNat + 512 * cc.toNat - 1) / 512 / g.csize.toNat =
            h.fil.fptr.toNat / 512 / g.csize.toNat
          rw [hn, show (h.fil.fptr.toNat + 512 * cc.toNat - 1) / 512 = n + (cc.toNat - 1) by omega,
            Nat.add_div (csize_pos g)]
          have hsmall : cc.toNat - 1 < g.csize.toNat := by omega
          rw [Nat.div_eq_of_lt hsmall, Nat.mod_eq_of_lt hsmall, if_neg (by omega)]
          rfl
        · exact absurd (by change (h.fil.fptr.toNat + 512 * cc.toNat) % 512 = 0; omega) hne

theorem clear_dirty (flag : UInt8) : flag &&& ~~~FA_DIRTY &&& FA_DIRTY = 0 := by
  rw [UInt8.and_assoc, show ~~~FA_DIRTY &&& FA_DIRTY = 0 by rfl, UInt8.and_zero]

theorem clear_dirty_twice (flag : UInt8) :
    flag &&& ~~~FA_DIRTY &&& ~~~FA_DIRTY = flag &&& ~~~FA_DIRTY := by
  rw [UInt8.and_assoc, UInt8.and_self]

/-- What is asked of writing back the buffer. -/
structure Flushed (dr : Disk δ) (g : Geometry) (fat : UInt32 → UInt32) (l : List UInt32)
    (h : Handle δ) (r : FRESULT × Handle δ) : Prop where
  elsewhere : Elsewhere dr g l h.fs r.2.fs
  hasFat : HasFat dr.toDrive g r.2.fs fat
  error : r.1 ≠ FR_OK → r.1 = FR_DISK_ERR ∧ ¬dr.Reliable
  same : r.1 = FR_OK → SameFile dr g fat l h r.2
  clean : r.1 = FR_OK → r.2.fil.flag &&& FA_DIRTY = 0
  clust : r.2.fil.clust = h.fil.clust
  sect : r.2.fil.sect = h.fil.sect

theorem flushBuffer_spec (ok : FileOk dr g fat l h) :
    Flushed dr g fat l h (flushBuffer dr h) := by
  unfold flushBuffer
  by_cases hdirty : h.fil.flag &&& FA_DIRTY = 0
  · rw [if_neg (not_not.2 hdirty)]
    exact ⟨Elsewhere.refl _, ok.hasFat, fun hne => absurd rfl hne, fun _ => SameFile.refl ok,
      fun _ => hdirty, rfl, rfl⟩
  · rw [if_pos hdirty]
    have hin := ok.dirty hdirty
    have hother : ∀ t, t ≠ h.fil.sect →
        dr.contents (dr.diskWrite h.fil.sect h.buf h.fs.drive).2 t = dr.contents h.fs.drive t :=
      fun t ht => dr.contents_diskWrite ht
    have hwin : ¬g.InFile l h.fs.winsect := fun hs => ok.window hs.owned
    obtain ⟨hfat, helse⟩ := ok.hasFat.elsewhere
      (d := (dr.diskWrite h.fil.sect h.buf h.fs.drive).2) hwin
      fun t ht => hother t (by rintro rfl; exact ht hin)
    dsimp only
    cases hw : (dr.diskWrite h.fil.sect h.buf h.fs.drive).1 with
    | false =>
        rw [if_neg (by simp)]
        refine ⟨helse, hfat, fun _ => ⟨rfl, fun hrel => ?_⟩, nofun, nofun, rfl, rfl⟩
        rw [hrel.drive.diskWrite] at hw
        cases hw
    | true =>
        rw [if_pos rfl]
        have hsaved := dr.diskWrite_ok hw
        refine ⟨helse, hfat, fun hne => absurd rfl hne, fun _ => ⟨⟨hfat, ok.chain, ok.valid,
          ok.window, ok.sclust, ok.size, fun hd => absurd (clear_dirty h.fil.flag) hd,
          fun _ _ => ?_⟩, fun s hs => ?_, ⟨rfl, rfl, rfl, rfl, rfl, clear_dirty_twice h.fil.flag⟩⟩,
          fun _ => clear_dirty h.fil.flag, rfl, rfl⟩
        · exact hsaved.symm
        · by_cases heq : s = h.fil.sect
          · subst heq
            rw [data_sect]
            exact (data_sect h).symm
          · rw [data_of_ne h heq, data_of_ne _ (by exact heq)]
            exact hother s heq

/-- What is asked of filling the buffer with a sector. -/
structure Loaded (dr : Disk δ) (g : Geometry) (fat : UInt32 → UInt32) (l : List UInt32)
    (sect : UInt32) (h : Handle δ) (r : FRESULT × Handle δ) : Prop where
  elsewhere : Elsewhere dr g l h.fs r.2.fs
  hasFat : HasFat dr.toDrive g r.2.fs fat
  error : r.1 ≠ FR_OK → r.1 = FR_DISK_ERR ∧ ¬dr.Reliable
  same : r.1 = FR_OK → SameFile dr g fat l h r.2
  sect : r.1 = FR_OK → r.2.fil.sect = sect
  clust : r.2.fil.clust = h.fil.clust

theorem loadSector_spec (ok : FileOk dr g fat l h) (hown : g.Owned fat l sect) :
    Loaded dr g fat l sect h (loadSector dr sect h) := by
  unfold loadSector
  by_cases hsect : h.fil.sect = sect
  · rw [if_neg (not_not.2 hsect)]
    exact ⟨Elsewhere.refl _, ok.hasFat, fun hne => absurd rfl hne, fun _ => SameFile.refl ok,
      fun _ => hsect, rfl⟩
  · rw [if_pos hsect]
    have hflush := flushBuffer_spec ok
    dsimp only
    revert hflush
    generalize flushBuffer dr h = w
    intro hflush
    by_cases hw : w.1 = FR_OK
    · rw [if_neg (not_not.2 hw)]
      have hsame := hflush.same hw
      have hcontents := dr.contents_diskRead sect w.2.buf w.2.fs.drive
      have helse : Elsewhere dr g l h.fs
          { w.2.fs with drive := (dr.diskRead sect w.2.buf w.2.fs.drive).2.2 } :=
        hflush.elsewhere.trans (hsame.ok.hasFat.elsewhere_read hcontents)
      cases hread : (dr.diskRead sect w.2.buf w.2.fs.drive).1 with
      | false =>
          rw [if_neg (by simp)]
          refine ⟨helse, (hsame.drive hcontents).ok.hasFat, fun _ => ⟨rfl, fun hrel => ?_⟩, nofun,
            nofun, hflush.clust⟩
          rw [hrel.drive.diskRead] at hread
          cases hread
      | true =>
          rw [if_pos rfl]
          have hbuf := dr.diskRead_ok hread
          have hclean := hflush.clean hw
          have hdrive := hsame.drive hcontents
          refine ⟨helse, hdrive.ok.hasFat, fun hne => absurd rfl hne, fun _ => ⟨⟨hdrive.ok.hasFat,
            hdrive.ok.chain, hdrive.ok.valid, hdrive.ok.window, hdrive.ok.sclust, hdrive.ok.size,
            fun hd => absurd hclean hd, fun _ _ => ?_⟩, fun s hs => ?_,
            ⟨hsame.fil.mounted, hsame.fil.err, hsame.fil.fptr, hsame.fil.objsize, hsame.fil.sclust,
              hsame.fil.flag⟩⟩, fun _ => rfl, hflush.clust⟩
          · dsimp only
            rw [hbuf, hcontents]
          · rw [← hsame.data s hs, hsame.ok.data_clean hclean hs]
            by_cases heq : s = sect
            · subst heq
              exact (data_sect _).trans hbuf
            · rw [data_of_ne _ (by exact heq), hcontents]
    · rw [if_pos hw]
      exact ⟨hflush.elsewhere, hflush.hasFat, fun _ => hflush.error hw, fun h' => absurd h' hw,
        fun h' => absurd h' hw, hflush.clust⟩

/-- A part of a sector. -/
theorem readPartial_spec (hsame : SameFile dr g fat l h h') (hbtr : btr ≠ 0)
    (hle : h.fil.fptr.toNat + btr.toNat ≤ h.fil.objsize.toNat)
    (hclust : l[h.fil.fptr.toNat / 512 / g.csize.toNat]? = some h'.fil.clust)
    (hsect : h'.fil.sect = g.fileSector l (h.fil.fptr.toNat / 512)) :
    ∃ k, 0 < k ∧ k ≤ btr.toNat ∧ readPartial btr h' = h.slice dr g l h.fil.fptr.toNat k ∧
      Positioned g l (h'.advance k).fil := by
  have hfptr := hsame.fil.fptr
  have hobjsize := hsame.fil.objsize
  have hmod : (h'.fil.fptr % sectorSize).toNat = h.fil.fptr.toNat % 512 := by
    rw [hfptr, UInt32.toNat_mod]
    rfl
  have hsub : (sectorSize - h'.fil.fptr % sectorSize).toNat = 512 - h.fil.fptr.toNat % 512 := by
    rw [UInt32.toNat_sub_of_le _ _ (UInt32.le_iff_toNat_le.2 (by
      rw [hmod]
      change _ ≤ 512
      omega)), hmod]
    rfl
  have hpos : 0 < btr.toNat := Nat.pos_of_ne_zero fun hz => hbtr (UInt32.toNat_inj.1 hz)
  unfold readPartial
  dsimp only
  generalize hk : (if btr < sectorSize - h'.fil.fptr % sectorSize then btr
    else sectorSize - h'.fil.fptr % sectorSize) = rcnt
  have hrcnt : rcnt.toNat = min btr.toNat (512 - h.fil.fptr.toNat % 512) := by
    rw [← hk]
    by_cases hlt : btr < sectorSize - h'.fil.fptr % sectorSize
    · have hlt' := UInt32.lt_iff_toNat_lt.1 hlt
      rw [if_pos hlt]
      omega
    · have hlt' := mt UInt32.lt_iff_toNat_lt.2 hlt
      rw [if_neg hlt]
      omega
  have hsize := hsame.ok.size
  rw [hobjsize] at hsize
  refine ⟨rcnt.toNat, by omega, by omega, ?_, ?_⟩
  · refine List.map_congr_left fun i hi => ?_
    have hi' := List.mem_range.1 hi
    rw [← hsame.bytes (by omega), Handle.bytes,
      show (h.fil.fptr.toNat + i) / 512 = h.fil.fptr.toNat / 512 by omega, ← hsect, data_sect, hmod,
      show sectorIndex (h.fil.fptr.toNat + i) = sectorIndex (h.fil.fptr.toNat % 512 + i) from
        Fin.ext (by simp)]
  · refine positioned_advance ?_ ?_ ?_ fun hne => ?_
    · rw [hfptr, hobjsize]
      omega
    · rw [hfptr]
      exact hclust
    · rw [hfptr, show (h.fil.fptr.toNat + rcnt.toNat - 1) / 512 = h.fil.fptr.toNat / 512 by omega]
    · rw [hfptr] at hne ⊢
      rw [hsect, show (h.fil.fptr.toNat + rcnt.toNat) / 512 = h.fil.fptr.toNat / 512 by omega]

/-- **One round reads bytes of the file.** -/
theorem readRound_spec (hopen : Open dr g fat l h) (hbtr : btr ≠ 0)
    (hle : h.fil.fptr.toNat + btr.toNat ≤ h.fil.objsize.toNat) :
    ReadRound dr g fat l btr h (readRound dr g btr h) := by
  obtain ⟨ok, hp⟩ := hopen
  have hpos : 0 < btr.toNat := Nat.pos_of_ne_zero fun hz => hbtr (UInt32.toNat_inj.1 hz)
  have hlt : h.fil.fptr.toNat / 512 < g.csize.toNat * l.length :=
    lt_sectors (by omega) ok.size
  have hmod : h.fil.fptr % sectorSize = 0 ↔ h.fil.fptr.toNat % 512 = 0 := by
    rw [← UInt32.toNat_inj, UInt32.toNat_mod]
    rfl
  unfold readRound
  by_cases hsect : h.fil.fptr % sectorSize = 0
  · rw [if_pos hsect]
    have hsought := readSector_spec ok hp (hmod.1 hsect) hlt
    dsimp only
    revert hsought
    generalize readSector dr g h = s
    intro hsought
    cases hs : s.1 with
    | error res =>
        refine ⟨hsought.elsewhere, hsought.hasFat, fun res' heq => ?_, nofun⟩
        cases heq
        exact hsought.error res hs
    | ok sect =>
        obtain ⟨rfl, hsame, hclust⟩ := hsought.found sect hs
        have hfptr := hsame.fil.fptr
        have hobjsize := hsame.fil.objsize
        dsimp only
        by_cases hcc : 0 < btr / sectorSize
        · rw [if_pos hcc]
          have hdirect : ReadRound dr g fat l btr s.2 _ :=
            readDirect_spec hsame.ok (by rw [hfptr]; exact hmod.1 hsect)
              (by rw [hfptr]; exact hclust) hcc (by rw [hfptr, hobjsize]; exact hle)
          rw [hfptr] at hdirect
          refine ⟨hsought.elsewhere.trans hdirect.elsewhere, hdirect.hasFat, hdirect.error,
            fun chunk heq => ?_⟩
          obtain ⟨k, hk, hkle, hchunk, hsame', hp'⟩ := hdirect.chunk chunk heq
          refine ⟨k, hk, hkle, ?_, hsame.trans hsame', hp'⟩
          rw [hchunk, hfptr]
          refine slice_congr fun i hi => hsame.bytes ?_
          have hsize := ok.size
          omega
        · rw [if_neg hcc]
          have hload := loadSector_spec hsame.ok (inFile_fileSector ok.valid hlt).owned
          revert hload
          generalize loadSector dr (g.fileSector l (h.fil.fptr.toNat / 512)) s.2 = t
          intro hload
          by_cases ht : t.1 = FR_OK
          · rw [if_neg (not_not.2 ht)]
            have hsame' := hsame.trans (hload.same ht)
            refine ⟨hsought.elsewhere.trans hload.elsewhere, hload.hasFat, nofun,
              fun chunk heq => ?_⟩
            obtain rfl := Except.ok.inj heq
            obtain ⟨k, hk, hkle, hchunk, hp'⟩ := readPartial_spec hsame' hbtr hle
              (by rw [hload.clust]; exact hclust) (hload.sect ht)
            exact ⟨k, hk, hkle, hchunk, hsame', hp'⟩
          · rw [if_pos ht]
            refine ⟨hsought.elsewhere.trans hload.elsewhere, hload.hasFat, fun res heq => ?_, nofun⟩
            cases heq
            exact hload.error ht
  · rw [if_neg hsect]
    have hmod' := mt hmod.2 hsect
    refine ⟨Elsewhere.refl _, ok.hasFat, nofun, fun chunk heq => ?_⟩
    obtain rfl := Except.ok.inj heq
    obtain ⟨k, hk, hkle, hchunk, hp'⟩ := readPartial_spec (SameFile.refl ok) hbtr hle
      (hp.clust_of_mod hmod') (hp.sect hmod')
    exact ⟨k, hk, hkle, hchunk, SameFile.refl ok, hp'⟩

/-! ### The whole of it -/

/-- **What is asked of reading `n` bytes.** -/
structure ReadResult (dr : Disk δ) (g : Geometry) (fat : UInt32 → UInt32) (l : List UInt32)
    (n : UInt32) (h : Handle δ) (r : (FRESULT × List UInt8) × Handle δ) : Prop where
  elsewhere : Elsewhere dr g l h.fs r.2.fs
  hasFat : HasFat dr.toDrive g r.2.fs fat
  error : r.1.1 ≠ FR_OK → r.1.1 = FR_DISK_ERR ∧ r.2.fil.err = FR_DISK_ERR ∧ ¬dr.Reliable
  read : ∃ k ≤ n.toNat, r.1.2 = h.slice dr g l h.fil.fptr.toNat k ∧ (r.1.1 = FR_OK → k = n.toNat)
  opened : r.1.1 = FR_OK → Open dr g fat l r.2
  data : r.1.1 = FR_OK → ∀ s, g.Owned fat l s → r.2.data dr s = h.data dr s
  fil : r.1.1 = FR_OK → SameFil { h.fil with fptr := h.fil.fptr + n } r.2.fil

/-- The file pointer has gone on. -/
theorem SameFile.advance (hs : SameFile dr g fat l h h') {k : ℕ}
    (hp : Positioned g l (h'.advance k).fil) :
    Open dr g fat l (h'.advance k) ∧
      (∀ s, g.Owned fat l s → (h'.advance k).data dr s = h.data dr s) ∧
        SameFil { h.fil with fptr := h.fil.fptr + UInt32.ofNat k } (h'.advance k).fil := by
  refine ⟨⟨⟨hs.ok.hasFat, hs.ok.chain, hs.ok.valid, hs.ok.window, hs.ok.sclust, hs.ok.size,
    hs.ok.dirty, hs.ok.clean⟩, hp⟩, hs.data, ⟨hs.fil.mounted, hs.fil.err, ?_, hs.fil.objsize,
    hs.fil.sclust, hs.fil.flag⟩⟩
  rw [← hs.fil.fptr]
  rfl

/-- The rounds of the loop read the bytes one chunk after the other. -/
theorem readLoop_spec {fuel : ℕ} {done : List UInt8} (hopen : Open dr g fat l h)
    (hle : h.fil.fptr.toNat + btr.toNat ≤ h.fil.objsize.toNat) (hfuel : btr.toNat < fuel) :
    ∃ res bytes h', readLoop dr g fuel btr done h = some ((res, done ++ bytes), h') ∧
      ReadResult dr g fat l btr h ((res, bytes), h') := by
  induction fuel generalizing btr done h with
  | zero => omega
  | succ fuel ih =>
      rw [readLoop]
      by_cases hzero : btr = 0
      · subst hzero
        rw [if_pos rfl]
        refine ⟨FR_OK, [], h, by rw [List.append_nil], Elsewhere.refl _, hopen.ok.hasFat,
          fun hne => absurd rfl hne, ⟨0, Nat.zero_le _, rfl, fun _ => rfl⟩, fun _ => hopen,
          fun _ _ _ => rfl, fun _ => ?_⟩
        rw [UInt32.add_zero]
        exact SameFil.refl h.fil
      · rw [if_neg hzero]
        have hround := readRound_spec hopen hzero hle
        dsimp only
        revert hround
        generalize readRound dr g btr h = t
        intro hround
        cases ht : t.1 with
        | error res =>
            obtain ⟨rfl, hfailed⟩ := hround.error res ht
            refine ⟨FR_DISK_ERR, [], t.2.abort FR_DISK_ERR, by rw [List.append_nil],
              hround.elsewhere, hround.hasFat, fun _ => ⟨rfl, rfl, hfailed⟩,
              ⟨0, Nat.zero_le _, rfl, nofun⟩,
              nofun, nofun, nofun⟩
        | ok chunk =>
            obtain ⟨k, hk, hkle, rfl, hsame, hp⟩ := hround.chunk chunk ht
            obtain ⟨hopen', hdata, hfil⟩ := hsame.advance hp
            have hlt := btr.toNat_lt
            have hsmall : (UInt32.ofNat k).toNat = k :=
              UInt32.toNat_ofNat_of_lt' (by change k < 2 ^ 32; omega)
            have hleft : (btr - UInt32.ofNat k).toNat = btr.toNat - k := by
              have hle := UInt32.le_iff_toNat_le.2 (hsmall.symm ▸ hkle)
              rw [UInt32.toNat_sub_of_le _ _ hle, hsmall]
            have hbound := h.fil.objsize.toNat_lt
            have hfptr : (t.2.advance k).fil.fptr.toNat = h.fil.fptr.toNat + k := by
              rw [hfil.fptr, UInt32.toNat_add, hsmall, Nat.mod_eq_of_lt (by omega)]
            dsimp only
            rw [length_slice]
            have hle' : (t.2.advance k).fil.fptr.toNat + (btr - UInt32.ofNat k).toNat ≤
                (t.2.advance k).fil.objsize.toNat := by
              rw [hfptr, hleft, hfil.objsize]
              change _ ≤ h.fil.objsize.toNat
              omega
            obtain ⟨res, bytes, h', hr, hresult⟩ := ih hopen' hle' (by omega)
            obtain ⟨j, hj, rfl, hall⟩ := hresult.read
            have hsize := hopen.ok.size
            have hslice : (t.2.advance k).slice dr g l (t.2.advance k).fil.fptr.toNat j =
                h.slice dr g l (h.fil.fptr.toNat + k) j := by
              rw [hfptr]
              refine slice_congr fun i hi => bytes_congr hopen.ok.valid
                (fun s hs => hdata s hs.owned) ?_
              omega
            refine ⟨res, h.slice dr g l h.fil.fptr.toNat (k + j), h', ?_,
              hround.elsewhere.trans hresult.elsewhere, hresult.hasFat, hresult.error,
              ⟨k + j, by omega, rfl, fun hok => ?_⟩, hresult.opened,
              fun hok s hs => (hresult.data hok s hs).trans (hdata s hs), fun hok => ?_⟩
            · rw [hr, hslice, List.append_assoc, slice_append]
            · have := hall hok
              omega
            · have hdone := hresult.fil hok
              refine ⟨hdone.mounted.trans hfil.mounted, hdone.err.trans hfil.err, ?_,
                hdone.objsize.trans hfil.objsize, hdone.sclust.trans hfil.sclust,
                hdone.flag.trans hfil.flag⟩
              rw [hdone.fptr]
              dsimp only
              rw [hfil.fptr]
              dsimp only
              grind

/-- What `f_read` comes to. -/
theorem fRead_result {fuel : ℕ} (hopen : Open dr g fat l h) (hvalid : h.validate dr = FR_OK)
    (hflag : h.fil.flag &&& FA_READ ≠ 0) (hfuel : btr.toNat < fuel) :
    ∃ n r, n.toNat = min btr.toNat (h.fil.objsize.toNat - h.fil.fptr.toNat) ∧
      fRead dr g fuel btr h = some r ∧ ReadResult dr g fat l n h r := by
  have hfptr := hopen.positioned.fptr
  have hsub : (h.fil.objsize - h.fil.fptr).toNat = h.fil.objsize.toNat - h.fil.fptr.toNat :=
    UInt32.toNat_sub_of_le _ _ (UInt32.le_iff_toNat_le.2 hfptr)
  rw [fRead]
  dsimp only
  rw [hvalid, if_neg (by simp), if_neg hflag]
  generalize hn : (if h.fil.objsize - h.fil.fptr < btr then h.fil.objsize - h.fil.fptr
    else btr) = n
  have hmin : n.toNat = min btr.toNat (h.fil.objsize.toNat - h.fil.fptr.toNat) := by
    rw [← hn]
    by_cases hlt : h.fil.objsize - h.fil.fptr < btr
    · have hlt' := UInt32.lt_iff_toNat_lt.1 hlt
      rw [if_pos hlt]
      omega
    · have hlt' := mt UInt32.lt_iff_toNat_lt.2 hlt
      rw [if_neg hlt]
      omega
  obtain ⟨res, bytes, h', hr, hresult⟩ := readLoop_spec hopen
    (show h.fil.fptr.toNat + n.toNat ≤ h.fil.objsize.toNat by omega)
    (show n.toNat < fuel by omega)
  exact ⟨n, _, hmin, hr, hresult⟩

/-- **`f_read` reads the bytes behind the file pointer**, as many as there are, of a file that is
open for reading. -/
theorem fRead_spec {fuel : ℕ} (hopen : Open dr g fat l h) (hvalid : h.validate dr = FR_OK)
    (hflag : h.fil.flag &&& FA_READ ≠ 0) (hfuel : btr.toNat < fuel) :
    ∃ n r, n.toNat = min btr.toNat (h.fil.objsize.toNat - h.fil.fptr.toNat) ∧
      fRead dr g fuel btr h = some r ∧ ReadResult dr g fat l n h r :=
  fRead_result hopen hvalid hflag hfuel

/-- What is read of a file of two clusters, from a sector that is dirty on into the next cluster. -/
theorem fRead_spec_note : ∃ r, fRead ramDisk smallGeometry 1101 1100 noteFile = some r ∧
    r.1 = (FR_OK, noteFile.slice ramDisk smallGeometry [2, 3] 1500 1100) ∧
      ReadResult ramDisk smallGeometry noteFat [2, 3] 1100 noteFile r := by
  have hread : noteFile.fil.flag &&& FA_READ ≠ 0 := by decide
  have hfuel : (1100 : UInt32).toNat < 1101 := by decide
  obtain ⟨n, r, hn, hr, hresult⟩ := fRead_spec noteFile_open rfl hread hfuel
  obtain rfl : n = 1100 := UInt32.toNat_inj.1 hn
  refine ⟨r, hr, ?_, hresult⟩
  have hok : r.1.1 = FR_OK := by
    by_contra hne
    exact (hresult.error hne).2.2 ramDisk_reliable
  have hpos : noteFile.fil.fptr.toNat = 1500 := rfl
  have hlen : (1100 : UInt32).toNat = 1100 := rfl
  obtain ⟨k, -, hbytes, hall⟩ := hresult.read
  rw [hall hok, hpos, hlen] at hbytes
  rw [← hbytes, ← hok]

end

end Pico.Fat
