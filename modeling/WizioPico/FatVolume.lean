/-
**The clusters of a mounted volume.**

What the files and directories of a volume do to its FAT: `f_write`, `f_lseek` and `f_mkdir` begin a
chain and make it longer, `f_truncate` cuts it off, and `f_unlink` gives it up, with `create_chain`
and `remove_chain`.  The drive may fail at any time; an object of which an operation has failed is
not used any more, as `ABORT` in `library/fatfs/ff.c` has it.

Main definitions:

* `Pico.Fat.Mounted` — a volume and the chains of its objects;
* `Pico.Fat.step` — one operation on one of the objects;
* `Pico.Fat.Sound` — the FAT has the chains, and no two of them meet;
* `Pico.Fat.Counted` — what `FATFS` knows of the number of free clusters is right.

Main results:

* `Pico.Fat.run_sound` — **over any run, and whatever the drive answers**, every operation comes to
  an end, the chains do not meet, and nothing but the FAT is changed;
* `Pico.Fat.run_counted` — on a drive that does not fail, the number of free clusters stays right;
* `Pico.Fat.create_full_iff` — **the volume is full exactly if no cluster is free**.
-/

import Mathlib.Order.Interval.Finset.Nat
import Mathlib.Data.List.Perm.Subperm
import WizioPico.FatChain
import WizioPico.Runs

set_option relaxedAutoImplicit false
set_option autoImplicit false

namespace Pico.Fat

open Pico.Vfs Chains
open FRESULT FsType

section

variable {δ : Type*} (dr : Drive δ) (g : Geometry)

/-! ### Operations -/

/-- A mounted volume, and the chains of the objects on it, each with its clusters in order. -/
structure Mounted (δ : Type*) where
  fs : Fatfs δ
  chains : List (List UInt32)

/-- What is done to a volume: an object gets its first cluster, the one behind the `j`-th cluster of
the `i`-th object, loses those behind the `j`-th one, or all of them. -/
inductive Op where
  | create
  | stretch (i j : ℕ)
  | truncate (i j : ℕ)
  | remove (i : ℕ)

/-- An object gets its first cluster, if there is one. -/
def create (s : Mounted δ) : Option (Mounted δ) :=
  (createChain dr g g.nFatent.toNat 0 s.fs).map fun r =>
    if r.1 = 0 ∨ r.1 = 1 ∨ r.1 = 0xFFFFFFFF then ⟨r.2, s.chains⟩ else ⟨r.2, [r.1] :: s.chains⟩

/-- An object `l` gets a cluster behind its `j`-th one, unless there is one already. -/
def stretch (l : List UInt32) (j : ℕ) (rest : List (List UInt32)) (fs : Fatfs δ) :
    Option (Mounted δ) :=
  match l[j]? with
  | none => some ⟨fs, l :: rest⟩
  | some clst =>
    (createChain dr g g.nFatent.toNat clst fs).map fun r =>
      if r.1 = 0 then ⟨r.2, l :: rest⟩
      else if r.1 = 1 ∨ r.1 = 0xFFFFFFFF then ⟨r.2, rest⟩
      else if l.length = j + 1 then ⟨r.2, (l ++ [r.1]) :: rest⟩
      else ⟨r.2, l :: rest⟩

/-- An object `l` is cut off behind its `j`-th cluster, as in `f_truncate`. -/
def truncate (l : List UInt32) (j : ℕ) (rest : List (List UInt32)) (fs : Fatfs δ) :
    Option (Mounted δ) :=
  match l[j]? with
  | none => some ⟨fs, l :: rest⟩
  | some clst =>
    let r := getFat dr g clst fs
    if r.1 = 0xFFFFFFFF ∨ r.1 = 1 then some ⟨r.2, rest⟩
    else if r.1 < g.nFatent then
      (removeChain dr g g.nFatent.toNat r.1 clst r.2).map fun t =>
        if t.1 = FR_OK then ⟨t.2, l.take (j + 1) :: rest⟩ else ⟨t.2, rest⟩
    else some ⟨r.2, l :: rest⟩

/-- An object `l` is given up. -/
def remove (l : List UInt32) (rest : List (List UInt32)) (fs : Fatfs δ) : Option (Mounted δ) :=
  match l.head? with
  | none => some ⟨fs, rest⟩
  | some clst => (removeChain dr g g.nFatent.toNat clst 0 fs).map fun r => ⟨r.2, rest⟩

/-- **One operation.**  The object that it is about is the first one afterwards; there is nothing to
do for an object that there is not. -/
def step (s : Mounted δ) : Op → Option (Mounted δ)
  | .create => create dr g s
  | .stretch i j =>
    match s.chains[i]? with
    | none => some s
    | some l => stretch dr g l j (s.chains.eraseIdx i) s.fs
  | .truncate i j =>
    match s.chains[i]? with
    | none => some s
    | some l => truncate dr g l j (s.chains.eraseIdx i) s.fs
  | .remove i =>
    match s.chains[i]? with
    | none => some s
    | some l => remove dr g l (s.chains.eraseIdx i) s.fs

/-! ### The chains do not meet -/

/-- **The FAT `fat` has the chains**, of clusters that there are, and no two of them meet. -/
structure Chained (fat : UInt32 → UInt32) (chains : List (List UInt32)) : Prop where
  forest : Forest (g.next fat) chains
  valid : ∀ l ∈ chains, ∀ c ∈ l, g.Valid c

/-- **The FAT of the volume has the chains.** -/
def Sound (s : Mounted δ) : Prop := ∃ fat, HasFat dr g s.fs fat ∧ Chained g fat s.chains

variable {dr g} {fs : Fatfs δ} {s s' : Mounted δ} {fat fat' : UInt32 → UInt32}
  {l : List UInt32} {rest : List (List UInt32)} {c clst ncl : UInt32} {i j : ℕ}

theorem Chained.perm {ls ls' : List (List UInt32)} (h : Chained g fat ls) (hp : ls.Perm ls') :
    Chained g fat ls' :=
  ⟨h.forest.perm hp, fun l hl => h.valid l (hp.mem_iff.2 hl)⟩

/-- The object that an operation is about is put first. -/
theorem Chained.pick {ls : List (List UInt32)} (h : Chained g fat ls) (hi : ls[i]? = some l) :
    Chained g fat (l :: ls.eraseIdx i) := by
  obtain ⟨hlt, rfl⟩ := List.getElem?_eq_some_iff.1 hi
  exact h.perm (List.getElem_cons_eraseIdx_perm hlt).symm

theorem Chained.tail (h : Chained g fat (l :: rest)) : Chained g fat rest :=
  ⟨h.forest.erase fun _ _ _ _ => rfl, fun k hk => h.valid k (List.mem_cons_of_mem l hk)⟩

/-- The clusters of a chain are in use. -/
theorem Chained.ne_zero (h : Chained g fat rest) (hl : l ∈ rest) (hc : c ∈ l) : fat c ≠ 0 := by
  intro hzero
  have hthree := g.clusters.1
  have hnext : g.next fat c = some 0 := by
    rw [Geometry.next, hzero, if_neg]
    rw [UInt32.le_iff_toNat_le]
    change ¬g.nFatent.toNat ≤ 0
    omega
  have hmem := (h.forest.chain l hl).next_mem hc hnext
  exact absurd (h.valid l hl 0 hmem).1 (by decide)

/-- A free cluster is in no chain. -/
theorem Chained.not_mem (h : Chained g fat rest) (hfree : fat c = 0) : ∀ k ∈ rest, c ∉ k :=
  fun _ hk hc => h.ne_zero hk hc hfree

/-- The FAT says of the chains what it has said before. -/
theorem Chained.congr (h : Chained g fat rest) (heq : ∀ k ∈ rest, ∀ c ∈ k, fat' c = fat c) :
    Chained g fat' rest := by
  refine ⟨h.forest.congr fun k hk c hc => ?_, h.valid⟩
  rw [Geometry.next, Geometry.next, heq k hk c hc]

/-- There are no more clusters in a chain than in the volume. -/
theorem length_le_of_chain (h : Chain (g.next fat) l) (hv : ∀ c ∈ l, g.Valid c) :
    l.length ≤ g.nFatent.toNat := by
  have hnodup : (l.map UInt32.toNat).Nodup :=
    h.nodup.map fun _ _ heq => UInt32.toNat_inj.1 heq
  have hsub : l.map UInt32.toNat ⊆ List.range g.nFatent.toNat := by
    intro n hn
    obtain ⟨c, hc, rfl⟩ := List.mem_map.1 hn
    exact List.mem_range.2 (valid_iff.1 (hv c hc)).2
  have hle := (hnodup.subperm hsub).length_le
  rwa [List.length_map, List.length_range] at hle

/-- What follows a cluster in the FAT. -/
theorem next_congr (h : fat' c = fat c) : g.next fat' c = g.next fat c := by
  rw [Geometry.next, Geometry.next, h]

/-- A cluster that there is has another number than the errors. -/
theorem not_error (hc : g.Valid c) : c ≠ 0 ∧ c ≠ 1 ∧ c ≠ 0xFFFFFFFF := by
  have hv := valid_iff.1 hc
  have hlt := nFatent_lt g
  refine ⟨?_, ?_, ?_⟩
  all_goals
    rintro rfl
    simp only [UInt32.reduceToNat] at hv
    omega

/-! ### The number of free clusters -/

/-- The clusters that a FAT says are free. -/
def Geometry.free (g : Geometry) (fat : UInt32 → UInt32) : Finset ℕ :=
  (Finset.range g.nFatent.toNat).filter fun n => 2 ≤ n ∧ fat (UInt32.ofNat n) = 0

/-- The clusters that are free on the volume. -/
def freeClusters (dr : Drive δ) (g : Geometry) (fs : Fatfs δ) : Finset ℕ :=
  (Finset.range g.nFatent.toNat).filter fun n => 2 ≤ n ∧ g.entry (fs.view dr) n = 0

theorem mem_free {n : ℕ} :
    n ∈ g.free fat ↔ n < g.nFatent.toNat ∧ 2 ≤ n ∧ fat (UInt32.ofNat n) = 0 := by
  rw [Geometry.free, Finset.mem_filter, Finset.mem_range]

theorem valid_ofNat {n : ℕ} (hn : 2 ≤ n) (hlt : n < g.nFatent.toNat) :
    g.Valid (UInt32.ofNat n) ∧ (UInt32.ofNat n).toNat = n := by
  have hsmall := nFatent_lt g
  have heq : (UInt32.ofNat n).toNat = n :=
    UInt32.toNat_ofNat_of_lt' (by change n < 2 ^ 32; omega)
  exact ⟨valid_iff.2 (by rw [heq]; exact ⟨hn, hlt⟩), heq⟩

theorem mem_free_toNat (hc : g.Valid c) : c.toNat ∈ g.free fat ↔ fat c = 0 := by
  have hv := valid_iff.1 hc
  rw [mem_free, UInt32.ofNat_toNat]
  exact ⟨fun h => h.2.2, fun h => ⟨hv.2, hv.1, h⟩⟩

/-- What is free is what the FAT says is free. -/
theorem HasFat.freeClusters_eq (h : HasFat dr g fs fat) : freeClusters dr g fs = g.free fat := by
  refine Finset.filter_congr fun n hn => ?_
  rw [and_congr_right_iff]
  intro htwo
  obtain ⟨hv, heq⟩ := valid_ofNat htwo (Finset.mem_range.1 hn)
  have hentry := h.entry _ hv
  rw [heq] at hentry
  rw [hentry, ← UInt32.toNat_inj]
  rfl

/-- There are two entries more than clusters. -/
theorem card_free_le (g : Geometry) (fat : UInt32 → UInt32) :
    (g.free fat).card ≤ g.nFatent.toNat - 2 := by
  have hsub : g.free fat ⊆ Finset.Ico 2 g.nFatent.toNat := by
    intro n hn
    obtain ⟨hlt, htwo, -⟩ := mem_free.1 hn
    exact Finset.mem_Ico.2 ⟨htwo, hlt⟩
  have hle := Finset.card_le_card hsub
  rwa [Nat.card_Ico] at hle

theorem mask_eoc_ne_zero (g : Geometry) : g.mask 0xFFFFFFFF ≠ 0 := by
  intro h
  have hle := le_mask_eoc g
  have hthree := g.clusters.1
  rw [h, UInt32.le_iff_toNat_le] at hle
  change g.nFatent.toNat ≤ 0 at hle
  omega

/-- A cluster that is linked is no longer free. -/
theorem free_link (hncl : g.Valid ncl) (hlast : clst = 0 ∨ g.nFatent ≤ fat clst) :
    g.free (g.link fat clst ncl) = (g.free fat).erase ncl.toNat := by
  have hused : clst = 0 ∨ fat clst ≠ 0 := hlast.imp_right fun hend h => by
    have hthree := g.clusters.1
    rw [h, UInt32.le_iff_toNat_le] at hend
    change g.nFatent.toNat ≤ 0 at hend
    omega
  ext n
  rw [Finset.mem_erase, mem_free, mem_free, and_left_comm (a := n ≠ ncl.toNat)]
  refine and_congr_right fun hlt => ?_
  rw [and_left_comm (a := n ≠ ncl.toNat)]
  refine and_congr_right fun htwo => ?_
  obtain ⟨hv, heq⟩ := valid_ofNat htwo hlt
  generalize UInt32.ofNat n = c at hv heq
  subst heq
  rw [Ne, UInt32.toNat_inj]
  by_cases hc : clst ≠ 0 ∧ c = clst
  · obtain ⟨hne, rfl⟩ := hc
    rw [link_self hne]
    have h0 := (not_error hncl).1
    have h1 := hused.resolve_left hne
    exact ⟨fun h => absurd h h0, fun h => absurd h.2 h1⟩
  · rw [Geometry.link, if_neg hc]
    by_cases hn : c = ncl
    · rw [if_pos hn]
      exact ⟨fun h => absurd h (mask_eoc_ne_zero g), fun h => absurd hn h.1⟩
    · rw [if_neg hn]
      exact ⟨fun h => ⟨hn, h⟩, fun h => h.2⟩

/-- The clusters of a chain that is given up are free. -/
theorem card_free_removed (hnodup : l.Nodup) (hv : ∀ c ∈ l, g.Valid c) (hused : ∀ c ∈ l, fat c ≠ 0)
    (hzero : ∀ c ∈ l, fat' c = 0) (hothers : ∀ c, g.Valid c → c ∉ l → (fat' c = 0 ↔ fat c = 0)) :
    (g.free fat').card = (g.free fat).card + l.length := by
  have hset : g.free fat' = g.free fat ∪ (l.map UInt32.toNat).toFinset := by
    ext n
    rw [Finset.mem_union, List.mem_toFinset, mem_free, mem_free]
    constructor
    · rintro ⟨hlt, htwo, hfree⟩
      obtain ⟨hvalid, heq⟩ := valid_ofNat htwo hlt
      by_cases hmem : UInt32.ofNat n ∈ l
      · exact Or.inr (List.mem_map.2 ⟨_, hmem, heq⟩)
      · exact Or.inl ⟨hlt, htwo, (hothers _ hvalid hmem).1 hfree⟩
    · rintro (⟨hlt, htwo, hfree⟩ | hmem)
      · obtain ⟨hvalid, -⟩ := valid_ofNat htwo hlt
        exact ⟨hlt, htwo, (hothers _ hvalid fun h => hused _ h hfree).2 hfree⟩
      · obtain ⟨c, hc, rfl⟩ := List.mem_map.1 hmem
        have hvalid := valid_iff.1 (hv c hc)
        rw [UInt32.ofNat_toNat]
        exact ⟨hvalid.2, hvalid.1, hzero c hc⟩
  have hdisjoint : Disjoint (g.free fat) (l.map UInt32.toNat).toFinset := by
    rw [Finset.disjoint_left]
    intro n hn hmem
    obtain ⟨c, hc, rfl⟩ := List.mem_map.1 (List.mem_toFinset.1 hmem)
    exact hused c hc ((mem_free_toNat (hv c hc)).1 hn)
  have hnodup' : (l.map UInt32.toNat).Nodup :=
    hnodup.map fun _ _ heq => UInt32.toNat_inj.1 heq
  rw [hset, Finset.card_union_of_disjoint hdisjoint, List.toFinset_card_of_nodup hnodup',
    List.length_map]

/-- **What `FATFS` knows of the number of free clusters is right**, if it knows anything. -/
def CountOk (dr : Drive δ) (g : Geometry) (fs : Fatfs δ) : Prop :=
  fs.freeClst.toNat = (freeClusters dr g fs).card ∨ g.nFatent.toNat - 2 < fs.freeClst.toNat

/-- No entry of the FAT is insane. -/
def Sane (dr : Drive δ) (g : Geometry) (fs : Fatfs δ) : Prop :=
  ∀ c, g.Valid c → g.entry (fs.view dr) c.toNat ≠ 1

/-- What has been done has kept the count right, on a drive that does not fail. -/
def Tally (dr : Drive δ) (g : Geometry) (fs fs' : Fatfs δ) : Prop :=
  dr.Reliable → Sane dr g fs → CountOk dr g fs → Sane dr g fs' ∧ CountOk dr g fs'

variable {fs' : Fatfs δ} {r : UInt32 × Fatfs δ} {t : FRESULT × Fatfs δ}

theorem HasFat.sane_iff (h : HasFat dr g fs fat) :
    Sane dr g fs ↔ ∀ c, g.Valid c → fat c ≠ 1 := by
  refine forall_congr' fun c => imp_congr_right fun hc => ?_
  rw [h.entry c hc, Ne, Ne, ← UInt32.toNat_inj]
  rfl

/-- The FAT and what is known of it are as before. -/
theorem tally_same (hfat : HasFat dr g fs fat) (hfat' : HasFat dr g fs' fat)
    (hinfo : SameInfo fs fs') : Tally dr g fs fs' := by
  intro _ hsane hcount
  refine ⟨hfat'.sane_iff.2 (hfat.sane_iff.1 hsane), ?_⟩
  rwa [CountOk, hinfo.freeClst, hfat'.freeClusters_eq, ← hfat.freeClusters_eq]

theorem Tally.trans {fs'' : Fatfs δ} (h : Tally dr g fs fs') (h' : Tally dr g fs' fs'') :
    Tally dr g fs fs'' := by
  intro hrel hsane hcount
  obtain ⟨hsane', hcount'⟩ := h hrel hsane hcount
  exact h' hrel hsane' hcount'

/-- The numbers that are written to the FAT are sane. -/
theorem link_sane (hncl : g.Valid ncl) (hc : fat c ≠ 1) : g.link fat clst ncl c ≠ 1 := by
  rw [Geometry.link]
  split
  · exact (not_error hncl).2.1
  · split
    · intro h
      have hle := UInt32.le_iff_toNat_le.1 (le_mask_eoc g)
      have hthree := g.clusters.1
      rw [h] at hle
      change g.nFatent.toNat ≤ 1 at hle
      omega
    · exact hc

theorem Created.tally (h : Created dr g fs fat clst r) (hfat : HasFat dr g fs fat) :
    Tally dr g fs r.2 := by
  cases h with
  | followed _ _ _ hfat' hinfo => exact tally_same hfat hfat' hinfo
  | full _ _ hfat' hinfo => exact tally_same hfat hfat' hinfo
  | insane _ _ hfat' hinfo => exact tally_same hfat hfat' hinfo
  | failed hfailed => exact fun hrel => absurd hrel hfailed
  | linked hvalid hfree hlast hfat' _ hfreeClst =>
      intro _ hsane hcount
      refine ⟨hfat'.sane_iff.2 fun c hc => link_sane hvalid (hfat.sane_iff.1 hsane c hc), ?_⟩
      have hmem := (mem_free_toNat hvalid).2 hfree
      have hpos := Finset.card_pos.2 ⟨_, hmem⟩
      have hthree := g.clusters.1
      have hsub := toNat_clusters g
      have hle := card_free_le g fat
      have hiff : fs.freeClst ≤ g.nFatent - 2 ↔ fs.freeClst.toNat ≤ g.nFatent.toNat - 2 := by
        rw [UInt32.le_iff_toNat_le, hsub]
      rw [CountOk, hfat.freeClusters_eq] at hcount
      rw [CountOk, hfat'.freeClusters_eq, free_link hvalid hlast, Finset.card_erase_of_mem hmem,
        hfreeClst]
      rcases hcount with hcount | hcount
      · rw [if_pos (hiff.2 (by omega)), UInt32.toNat_sub_of_le _ _
          (UInt32.le_iff_toNat_le.2 (by change 1 ≤ _; omega)), hcount]
        exact Or.inl rfl
      · rw [if_neg (mt hiff.1 (by omega))]
        exact Or.inr hcount

/-- Clusters have been freed, and counted. -/
theorem tally_freed {k : ℕ} (hfat : HasFat dr g fs fat) (hfat' : HasFat dr g fs' fat')
    (hsane : ∀ c, g.Valid c → fat c ≠ 1 → fat' c ≠ 1)
    (hcard : (g.free fat').card = (g.free fat).card + k)
    (hfree : fs'.freeClst.toNat = if fs.freeClst.toNat ≤ g.nFatent.toNat - 2 then
      min (fs.freeClst.toNat + k) (g.nFatent.toNat - 2) else fs.freeClst.toNat) :
    Tally dr g fs fs' := by
  intro _ hs hcount
  refine ⟨hfat'.sane_iff.2 fun c hc => hsane c hc (hfat.sane_iff.1 hs c hc), ?_⟩
  have hle := card_free_le g fat
  have hle' := card_free_le g fat'
  rw [CountOk, hfat.freeClusters_eq] at hcount
  rw [CountOk, hfat'.freeClusters_eq, hfree, hcard]
  rcases hcount with hcount | hcount
  · rw [if_pos (by omega)]
    omega
  · rw [if_neg (by omega)]
    exact Or.inr hcount

theorem Removed.tally (h : Removed dr g fs fat l t) (hfat : HasFat dr g fs fat) (hnodup : l.Nodup)
    (hv : ∀ c ∈ l, g.Valid c) (hused : ∀ c ∈ l, fat c ≠ 0) : Tally dr g fs t.2 := by
  intro hrel
  have hok := h.reliable hrel
  obtain ⟨fat', hfat', hothers, hzero, -⟩ := h.hasFat
  refine tally_freed hfat hfat' (fun c _ hc => ?_)
    (card_free_removed hnodup hv hused (hzero hok) fun c _ hout => by rw [hothers c hout])
    (h.freeClst hok) hrel
  by_cases hmem : c ∈ l
  · rw [hzero hok c hmem]
    decide
  · rwa [hothers c hmem]

theorem CutOff.tally (h : CutOff dr g fs fat clst l t) (hfat : HasFat dr g fs fat)
    (hnodup : l.Nodup) (hv : ∀ c ∈ l, g.Valid c) (hused : ∀ c ∈ l, fat c ≠ 0)
    (hlast : fat clst ≠ 0) : Tally dr g fs t.2 := by
  intro hrel
  have hok := h.reliable hrel
  obtain ⟨fat', hfat', hothers, hcut, -⟩ := h.hasFat
  obtain ⟨hend, hzero⟩ := hcut hok
  have hthree := g.clusters.1
  have hend' := UInt32.le_iff_toNat_le.1 hend
  refine tally_freed hfat hfat' (fun c _ hc => ?_)
    (card_free_removed hnodup hv hused hzero fun c _ hout => ?_) (h.freeClst hok) hrel
  · by_cases hmem : c ∈ l
    · rw [hzero c hmem]
      decide
    · by_cases heq : c = clst
      · rintro h1
        rw [heq] at h1
        rw [h1] at hend'
        change g.nFatent.toNat ≤ 1 at hend'
        omega
      · rwa [hothers c heq hmem]
  · by_cases heq : c = clst
    · subst heq
      refine ⟨fun h0 => ?_, fun h0 => absurd h0 hlast⟩
      rw [h0] at hend'
      change g.nFatent.toNat ≤ 0 at hend'
      omega
    · rw [hothers c heq hout]

/-! ### What the operations keep -/

/-- An operation has come to an end, and the chains do not meet. -/
structure Kept (dr : Drive δ) (g : Geometry) (fs : Fatfs δ) (out : Option (Mounted δ)) :
    Prop where
  exists_sound : ∃ s', out = some s' ∧ Sound dr g s' ∧ SameData dr g fs s'.fs ∧ Tally dr g fs s'.fs

theorem create_kept (h : Sound dr g s) : Kept dr g s.fs (create dr g s) := by
  obtain ⟨fat, hfat, hch⟩ := h
  obtain ⟨r, hr, hcreated, hdata⟩ := createChain_creates hfat (Or.inl rfl) (Nat.le_refl _)
  have hdone := And.intro hdata (hcreated.tally hfat)
  rw [create, hr, Option.map_some]
  refine ⟨_, rfl, ?_⟩
  cases hcreated with
  | followed hstart => exact absurd rfl hstart
  | full _ hvalue hfat' =>
      rw [if_pos (Or.inl hvalue)]
      exact ⟨⟨fat, hfat', hch⟩, hdone⟩
  | insane _ hvalue hfat' =>
      rw [if_pos (Or.inr (Or.inl hvalue))]
      exact ⟨⟨fat, hfat', hch⟩, hdone⟩
  | failed _ hvalue fat' hfat' _ hkept =>
      rw [if_pos (Or.inr (Or.inr hvalue))]
      refine ⟨⟨fat', hfat', hch.congr fun k hk c hc => hkept c (hch.ne_zero hk hc) (Or.inl ?_)⟩,
        hdone⟩
      rintro rfl
      exact absurd (hch.valid k hk 0 hc).1 (by decide)
  | linked hvalid hfree _ hfat' =>
      have hv := valid_iff.1 hvalid
      have hlt := nFatent_lt g
      rw [if_neg]
      · rw [link_zero] at hfat'
        refine ⟨⟨_, hfat', ⟨hch.forest.cons ?_ (hch.not_mem hfree) fun c hc => ?_, ?_⟩⟩, hdone⟩
        · rw [Geometry.next, Function.update_self, if_pos (le_mask_eoc g)]
        · exact next_congr (Function.update_of_ne hc _ _)
        · intro k hk c hc
          rcases List.mem_cons.1 hk with rfl | hk
          · rw [List.mem_singleton.1 hc]
            exact hvalid
          · exact hch.valid k hk c hc
      · rintro (h | h | h)
        all_goals
          rw [h] at hv
          simp only [UInt32.reduceToNat] at hv
          omega

/-- The clusters of a chain, up to one of them. -/
theorem take_eq (hj : l[j]? = some c) : l = l.take j ++ c :: l.drop (j + 1) := by
  obtain ⟨hlt, rfl⟩ := List.getElem?_eq_some_iff.1 hj
  rw [← List.drop_eq_getElem_cons hlt, List.take_append_drop]

theorem take_succ_eq (hj : l[j]? = some c) : l.take (j + 1) = l.take j ++ [c] := by
  rw [List.take_add_one, hj]
  rfl

theorem stretch_kept (hfat : HasFat dr g fs fat) (hch : Chained g fat (l :: rest)) (j : ℕ) :
    Kept dr g fs (stretch dr g l j rest fs) := by
  unfold stretch
  cases hj : l[j]? with
  | none => exact ⟨_, rfl, ⟨fat, hfat, hch⟩, SameData.refl fs,
      tally_same hfat hfat (SameInfo.refl fs)⟩
  | some clst =>
      have hmem : clst ∈ l := List.mem_of_getElem? hj
      have hvalid := hch.valid l List.mem_cons_self clst hmem
      have htail := hch.tail
      obtain ⟨r, hr, hcreated, hdata⟩ := createChain_creates hfat (Or.inr hvalid) (Nat.le_refl _)
      have hdone := And.intro hdata (hcreated.tally hfat)
      dsimp only
      rw [hr, Option.map_some]
      refine ⟨_, rfl, ?_⟩
      cases hcreated with
      | followed _ hnext hvalue hfat' =>
          -- a cluster that follows another one is no last cluster
          have hb : g.next fat clst = some (fat clst) := by
            rw [Geometry.next, if_neg (UInt32.not_le.2 hnext.2)]
          have hv : g.Valid r.1 := by
            rw [hvalue]
            exact hnext
          obtain ⟨h0, h1, hd⟩ := not_error hv
          rw [if_neg h0, if_neg (not_or.2 ⟨h1, hd⟩), if_neg]
          · exact ⟨⟨fat, hfat', hch⟩, hdone⟩
          · intro hlen
            have hchain := hch.forest.chain l List.mem_cons_self
            rw [take_eq hj, List.drop_of_length_le (Nat.le_of_eq hlen)] at hchain
            have hlast : g.next fat clst = none := hchain.suffix
            rw [hb] at hlast
            cases hlast
      | full _ hvalue hfat' =>
          rw [if_pos hvalue]
          exact ⟨⟨fat, hfat', hch⟩, hdone⟩
      | insane _ hvalue hfat' =>
          rw [if_neg (by rw [hvalue]; decide), if_pos (Or.inl hvalue)]
          exact ⟨⟨fat, hfat', htail⟩, hdone⟩
      | failed _ hvalue fat' hfat' _ hkept =>
          rw [if_neg (by rw [hvalue]; decide), if_pos (Or.inr hvalue)]
          refine ⟨⟨fat', hfat', htail.congr fun k hk c hc => ?_⟩, hdone⟩
          refine hkept c (htail.ne_zero hk hc) (Or.inl ?_)
          rintro rfl
          exact hch.forest.disjoint hmem hk hc
      | linked hv hfree hlast hfat' =>
          obtain ⟨h0, h1, hd⟩ := not_error hv
          have hzero : clst ≠ 0 := (not_error hvalid).1
          have hend := hlast.resolve_left hzero
          have hlen : l.length = j + 1 := by
            have hchain := hch.forest.chain l List.mem_cons_self
            rw [take_eq hj] at hchain
            have hsuffix := hchain.suffix
            cases hdrop : l.drop (j + 1) with
            | nil =>
                have hle := List.drop_eq_nil_iff.1 hdrop
                have hlt := (List.getElem?_eq_some_iff.1 hj).1
                omega
            | cons b k =>
                rw [hdrop] at hsuffix
                have hlt := (next_eq_some hsuffix.1).1
                exact absurd hend (UInt32.not_le.2 hlt)
          rw [if_neg h0, if_neg (not_or.2 ⟨h1, hd⟩), if_pos hlen]
          have hl : l = l.take j ++ [clst] := by
            rw [← take_succ_eq hj, List.take_of_length_le (Nat.le_of_eq hlen)]
          have hnew := hch.not_mem hfree
          have hne : r.1 ≠ clst := by
            rintro heq
            exact hnew l List.mem_cons_self (heq ▸ hmem)
          refine ⟨⟨_, hfat', ⟨?_, fun k hk c hc => ?_⟩⟩, hdone⟩
          · have hforest : Forest (g.next fat) ((l.take j ++ [clst]) :: rest) := hl ▸ hch.forest
            rw [hl, List.append_assoc]
            refine hforest.snoc ?_ ?_ (hl ▸ hnew) fun c hc hc' => ?_
            · rw [Geometry.next, link_self hzero, if_neg (UInt32.not_le.2 hv.2)]
            · rw [Geometry.next, link_new hne, if_pos (le_mask_eoc g)]
            · exact next_congr (link_other hc hc')
          · rcases List.mem_cons.1 hk with rfl | hk
            · rcases List.mem_append.1 hc with hc | hc
              · exact hch.valid l List.mem_cons_self c hc
              · rw [List.mem_singleton.1 hc]
                exact hv
            · exact hch.valid k (List.mem_cons_of_mem l hk) c hc

theorem remove_kept (hfat : HasFat dr g fs fat) (hch : Chained g fat (l :: rest)) :
    Kept dr g fs (remove dr g l rest fs) := by
  have hchain := hch.forest.chain l List.mem_cons_self
  have hv := hch.valid l List.mem_cons_self
  have hlen := length_le_of_chain hchain hv
  cases l with
  | nil => exact absurd rfl hchain.ne_nil
  | cons clst l =>
      obtain ⟨r, hr, hremoved⟩ := removeChain_removes hfat hchain hv hlen
      obtain ⟨fat', hfat', hothers, -⟩ := hremoved.hasFat
      rw [remove, List.head?_cons]
      dsimp only
      rw [hr, Option.map_some]
      refine ⟨_, rfl, ⟨fat', hfat', hch.tail.congr fun k hk c hc => hothers c fun hmem => ?_⟩,
        hremoved.data, hremoved.tally hfat hchain.nodup hv fun c hc =>
          hch.ne_zero List.mem_cons_self hc⟩
      exact hch.forest.disjoint hmem hk hc

theorem truncate_kept (hfat : HasFat dr g fs fat) (hch : Chained g fat (l :: rest)) (j : ℕ) :
    Kept dr g fs (truncate dr g l j rest fs) := by
  unfold truncate
  cases hj : l[j]? with
  | none => exact ⟨_, rfl, ⟨fat, hfat, hch⟩, SameData.refl fs,
      tally_same hfat hfat (SameInfo.refl fs)⟩
  | some clst =>
      have hmem : clst ∈ l := List.mem_of_getElem? hj
      have hvalid := hch.valid l List.mem_cons_self clst hmem
      have hread := getFat_reads hfat hvalid
      dsimp only
      revert hread
      generalize getFat dr g clst fs = r
      intro hread
      by_cases herr : r.1 = 0xFFFFFFFF ∨ r.1 = 1
      · rw [if_pos herr]
        exact ⟨_, rfl, ⟨fat, hread.hasFat, hch.tail⟩, hread.data,
          tally_same hfat hread.hasFat hread.info⟩
      rw [if_neg herr]
      have hval := hread.value (not_or.1 herr).1
      by_cases hlt : r.1 < g.nFatent
      · -- there is a rest of the chain, and it begins with the next cluster
        rw [if_pos hlt]
        rw [hval] at hlt ⊢
        have hchain := hch.forest.chain l List.mem_cons_self
        have hl := take_eq hj
        rw [hl] at hchain
        have hsuffix := hchain.suffix
        have hb : g.next fat clst = some (fat clst) := by
          rw [Geometry.next, if_neg (UInt32.not_le.2 hlt)]
        cases hdrop : l.drop (j + 1) with
        | nil =>
            rw [hdrop] at hsuffix
            have hnone : g.next fat clst = none := hsuffix
            rw [hb] at hnone
            cases hnone
        | cons b k =>
            rw [hdrop] at hsuffix hl
            obtain rfl : fat clst = b := Option.some.inj (hb.symm.trans hsuffix.1)
            have hv : ∀ c ∈ clst :: fat clst :: k, g.Valid c := fun c hc =>
              hch.valid l List.mem_cons_self c (hl ▸ List.mem_append_right _ hc)
            have hlen : (fat clst :: k).length ≤ g.nFatent.toNat :=
              Nat.le_trans (Nat.le_succ _) (length_le_of_chain hsuffix hv)
            obtain ⟨t, ht, hcut⟩ := removeChain_cuts hread.hasFat hsuffix hv hlen
            have hused : ∀ c ∈ clst :: fat clst :: k, fat c ≠ 0 := fun c hc =>
              hch.ne_zero List.mem_cons_self (hl ▸ List.mem_append_right _ hc)
            have hdone := And.intro (hread.data.trans hcut.data)
              ((tally_same hfat hread.hasFat hread.info).trans (hcut.tally hread.hasFat
                hsuffix.2.nodup (fun c hc => hv c (List.mem_cons_of_mem _ hc))
                (fun c hc => hused c (List.mem_cons_of_mem _ hc)) (hused clst List.mem_cons_self)))
            obtain ⟨fat', hfat', hothers, hok, -⟩ := hcut.hasFat
            have hrest : ∀ k' ∈ rest, ∀ c ∈ k', fat' c = fat c := by
              intro k' hk' c hc
              refine hothers c ?_ fun hin => ?_
              · rintro rfl
                exact hch.forest.disjoint hmem hk' hc
              · refine hch.forest.disjoint (hl ▸ List.mem_append_right _ ?_) hk' hc
                exact List.mem_cons_of_mem _ hin
            rw [ht, Option.map_some]
            refine ⟨_, rfl, ?_⟩
            split
            · rename_i hres
              refine ⟨⟨fat', hfat', ⟨?_, fun k' hk' c hc => ?_⟩⟩, hdone⟩
              · have hforest :
                    Forest (g.next fat) ((l.take j ++ clst :: fat clst :: k) :: rest) :=
                  hl ▸ hch.forest
                rw [take_succ_eq hj]
                refine hforest.cut ?_ fun c hc hin => ?_
                · rw [Geometry.next, if_pos (hok hres).1]
                · exact next_congr (hothers c hc hin)
              · rcases List.mem_cons.1 hk' with rfl | hk'
                · exact hch.valid l List.mem_cons_self c (List.mem_of_mem_take hc)
                · exact hch.valid k' (List.mem_cons_of_mem l hk') c hc
            · exact ⟨⟨fat', hfat', hch.tail.congr hrest⟩, hdone⟩
      · rw [if_neg hlt]
        exact ⟨_, rfl, ⟨fat, hread.hasFat, hch⟩, hread.data,
          tally_same hfat hread.hasFat hread.info⟩

/-- **One operation keeps the chains apart.** -/
theorem step_kept (h : Sound dr g s) (op : Op) : Kept dr g s.fs (step dr g s op) := by
  obtain ⟨fat, hfat, hch⟩ := h
  cases op with
  | create => exact create_kept ⟨fat, hfat, hch⟩
  | stretch i j =>
      rw [step]
      cases hi : s.chains[i]? with
      | none => exact ⟨s, rfl, ⟨fat, hfat, hch⟩, SameData.refl s.fs,
          tally_same hfat hfat (SameInfo.refl s.fs)⟩
      | some l => exact stretch_kept hfat (hch.pick hi) j
  | truncate i j =>
      rw [step]
      cases hi : s.chains[i]? with
      | none => exact ⟨s, rfl, ⟨fat, hfat, hch⟩, SameData.refl s.fs,
          tally_same hfat hfat (SameInfo.refl s.fs)⟩
      | some l => exact truncate_kept hfat (hch.pick hi) j
  | remove i =>
      rw [step]
      cases hi : s.chains[i]? with
      | none => exact ⟨s, rfl, ⟨fat, hfat, hch⟩, SameData.refl s.fs,
          tally_same hfat hfat (SameInfo.refl s.fs)⟩
      | some l => exact remove_kept hfat (hch.pick hi)

/-- What one operation keeps, a run keeps. -/
theorem exec_sound (h : Sound dr g s) (ops : List Op) :
    ∃ s', Runs.exec (step dr g) s ops = some s' ∧ Sound dr g s' ∧ SameData dr g s.fs s'.fs := by
  induction ops generalizing s with
  | nil => exact ⟨s, rfl, h, SameData.refl s.fs⟩
  | cons op ops ih =>
      obtain ⟨t, ht, hsound, hdata, -⟩ := (step_kept h op).exists_sound
      obtain ⟨s', hs', hsound', hdata'⟩ := ih hsound
      refine ⟨s', ?_, hsound', hdata.trans hdata'⟩
      rw [Runs.exec_cons, ht, Option.bind_some, hs']

/-- **Over any run, and whatever the drive answers**, every operation comes to an end, the chains of
the objects do not meet, and nothing but the FAT is changed. -/
theorem run_sound (h : Sound dr g s) (ops : List Op) :
    ∃ s', Runs.exec (step dr g) s ops = some s' ∧ Sound dr g s' ∧ SameData dr g s.fs s'.fs :=
  exec_sound h ops

/-- The chains do not meet, no entry is insane, and the number of free clusters is right. -/
structure Counted (dr : Drive δ) (g : Geometry) (s : Mounted δ) : Prop where
  sound : Sound dr g s
  sane : Sane dr g s.fs
  count : CountOk dr g s.fs

/-- **On a drive that does not fail**, the number of free clusters stays right over any run. -/
theorem run_counted (hrel : dr.Reliable) (h : Counted dr g s) (ops : List Op) :
    ∃ s', Runs.exec (step dr g) s ops = some s' ∧ Counted dr g s' := by
  induction ops generalizing s with
  | nil => exact ⟨s, rfl, h⟩
  | cons op ops ih =>
      obtain ⟨t, ht, hsound, -, htally⟩ := (step_kept h.sound op).exists_sound
      obtain ⟨hsane, hcount⟩ := htally hrel h.sane h.count
      obtain ⟨s', hs', hcounted⟩ := ih ⟨hsound, hsane, hcount⟩
      refine ⟨s', ?_, hcounted⟩
      rw [Runs.exec_cons, ht, Option.bind_some, hs']

/-- The cluster at the end of a chain is followed by none. -/
theorem Chained.last (h : Chained g fat rest) (hl : l ∈ rest) (hlast : l.getLast? = some clst) :
    g.Valid clst ∧ g.nFatent ≤ fat clst := by
  obtain ⟨p, rfl⟩ := List.getLast?_eq_some_iff.1 hlast
  refine ⟨h.valid _ hl clst (List.mem_append_right p (List.mem_singleton_self clst)), ?_⟩
  exact next_eq_none (h.forest.chain _ hl).suffix

/-- **The volume is full exactly if no cluster is free**, for an object that begins and for one that
gets longer at its end. -/
theorem create_full_iff (hrel : dr.Reliable) (h : Counted dr g s)
    (hclst : clst = 0 ∨ ∃ l ∈ s.chains, l.getLast? = some clst) :
    ∃ r, createChain dr g g.nFatent.toNat clst s.fs = some r ∧
      (r.1 = 0 ↔ freeClusters dr g s.fs = ∅) ∧
        (r.1 ≠ 0 → r.1.toNat ∈ freeClusters dr g s.fs ∧
          freeClusters dr g r.2 = (freeClusters dr g s.fs).erase r.1.toNat) := by
  obtain ⟨fat, hfat, hch⟩ := h.sound
  have hend : clst = 0 ∨ g.Valid clst ∧ g.nFatent ≤ fat clst := by
    refine hclst.imp_right ?_
    rintro ⟨l, hl, hlast⟩
    exact hch.last hl hlast
  obtain ⟨r, hr, hcreated, -⟩ :=
    createChain_creates hfat (hend.imp_right And.left) (Nat.le_refl _)
  refine ⟨r, hr, ?_⟩
  rw [hfat.freeClusters_eq]
  have hthree := g.clusters.1
  cases hcreated with
  | followed hstart hnext =>
      -- a cluster at the end of a chain is not followed
      exact absurd (hend.resolve_left hstart).2 (UInt32.not_le.2 hnext.2)
  | failed hfailed => exact absurd hrel hfailed
  | insane hentry =>
      obtain ⟨c, hc, hone | ⟨rfl, hzero⟩⟩ := hentry
      · exact absurd hone (hfat.sane_iff.1 h.sane c hc)
      · rcases hend with rfl | ⟨-, hle⟩
        · exact absurd hc.1 (by decide)
        · rw [hzero, UInt32.le_iff_toNat_le] at hle
          change g.nFatent.toNat ≤ 0 at hle
          omega
  | full hused hvalue =>
      refine ⟨⟨fun _ => ?_, fun _ => hvalue⟩, fun hne => absurd hvalue hne⟩
      rcases hused with hnone | hall
      · have hcount := h.count
        rw [CountOk, hnone, hfat.freeClusters_eq] at hcount
        rcases hcount with hcount | hcount
        · exact Finset.card_eq_zero.1 hcount.symm
        · change g.nFatent.toNat - 2 < 0 at hcount
          omega
      · rw [Finset.eq_empty_iff_forall_notMem]
        intro n hn
        obtain ⟨hlt, htwo, hfree⟩ := mem_free.1 hn
        exact hall _ (valid_ofNat htwo hlt).1 hfree
  | linked hvalid hfree hlast hfat' =>
      have hmem := (mem_free_toNat hvalid).2 hfree
      refine ⟨⟨fun hzero => absurd hzero (not_error hvalid).1, fun hempty => ?_⟩, fun _ =>
        ⟨hmem, ?_⟩⟩
      · rw [hempty] at hmem
        cases hmem
      · rw [hfat'.freeClusters_eq, free_link hvalid hlast]

end

/-! ### An empty volume -/

/-- A volume after it has been mounted, when nothing is on it. -/
def emptyVolume : Mounted (UInt32 → Sector) := ⟨emptyFatfs, []⟩

theorem emptyVolume_sound (g : Geometry) : Sound ramDrive g emptyVolume :=
  ⟨_, emptyFatfs_hasFat g, ⟨forest_nil, nofun⟩⟩

theorem emptyVolume_counted : Counted ramDrive smallGeometry emptyVolume where
  sound := emptyVolume_sound smallGeometry
  sane := (emptyFatfs_hasFat smallGeometry).sane_iff.2 fun _ _ h => by cases h
  count := Or.inr (by decide)

/-- Two objects grow on it, one is cut off and the other one is removed. -/
theorem run_sound_empty : ∃ s', Runs.exec (step ramDrive smallGeometry) emptyVolume
    [.create, .create, .stretch 0 0, .stretch 1 0, .truncate 0 0, .remove 1] = some s' ∧
      Sound ramDrive smallGeometry s' ∧
        SameData ramDrive smallGeometry emptyVolume.fs s'.fs :=
  run_sound (emptyVolume_sound smallGeometry) _

theorem run_counted_empty : ∃ s', Runs.exec (step ramDrive smallGeometry) emptyVolume
    [.create, .create, .stretch 0 0, .stretch 1 0, .truncate 0 0, .remove 1] = some s' ∧
      Counted ramDrive smallGeometry s' :=
  run_counted ramDrive_reliable emptyVolume_counted _

/-- An object of one cluster on it gets a second one. -/
theorem create_full_iff_stretch :
    ∃ s, create ramDrive smallGeometry emptyVolume = some s ∧
      ∃ r, createChain ramDrive smallGeometry 100 2 s.fs = some r ∧
        (r.1 = 0 ↔ freeClusters ramDrive smallGeometry s.fs = ∅) ∧
          (r.1 ≠ 0 → r.1.toNat ∈ freeClusters ramDrive smallGeometry s.fs ∧
            freeClusters ramDrive smallGeometry r.2 =
              (freeClusters ramDrive smallGeometry s.fs).erase r.1.toNat) := by
  obtain ⟨s, hs, hsound, -, htally⟩ := (create_kept (emptyVolume_sound smallGeometry)).exists_sound
  obtain ⟨hsane, hcount⟩ :=
    htally ramDrive_reliable emptyVolume_counted.sane emptyVolume_counted.count
  have hchains : (create ramDrive smallGeometry emptyVolume).map (fun s => s.chains) =
      some [[2]] := by decide +kernel
  rw [hs] at hchains
  have hone : s.chains = [[2]] := Option.some.inj hchains
  refine ⟨s, hs, create_full_iff ramDrive_reliable ⟨hsound, hsane, hcount⟩
    (Or.inr ⟨[2], ?_, rfl⟩)⟩
  rw [hone]
  exact List.mem_singleton_self _

end Pico.Fat
