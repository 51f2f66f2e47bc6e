/-
**Tilings of a range by blocks.**

An allocator divides a range of addresses into blocks, each of which is free or has an owner.  The
blocks tile the range: each begins where the one before it ends.  Taking a block splits or hands
out a free one; releasing a block joins it with the free blocks on either side, so that no two free
blocks ever touch.

* `Block`, `Tiles`, `Coalesced` — blocks in order of their addresses that tile a range, without two
  neighbours that are both free;
* `frees`, `lives` — the spans of the free blocks, and the spans and owners of the others;
* `release`, `insertSpan` — releasing a block, and what that does to the free spans in terms of
  these alone;
* `release_spec`, `split_spec`, `take_spec` — releasing and taking blocks keep a tiling coalesced;
* `frees_pairwise`, `eq_singleton_of_lives_nil` — free spans do not touch, and without owners there
  is one block only.
-/

import Mathlib.Data.List.Chain
import Mathlib.Data.Nat.Notation
import Mathlib.Tactic.Common

set_option relaxedAutoImplicit false
set_option autoImplicit false

/-- A block of addresses, with its owner, if it has one. -/
structure Block (τ : Type*) where
  addr : ℕ
  size : ℕ
  owner : Option τ

namespace Tiling

variable {τ : Type*}

/-! ### Tilings -/

/-- The blocks follow each other from `lo` to `hi`; none of them is empty, and their sizes are
multiples of `g`. -/
def Tiles (g : ℕ) : ℕ → List (Block τ) → ℕ → Prop
  | lo, [], hi => lo = hi
  | lo, b :: bs, hi => b.addr = lo ∧ (0 < b.size ∧ g ∣ b.size) ∧ Tiles g (lo + b.size) bs hi

/-- No two neighbours are both free. -/
def Coalesced (bs : List (Block τ)) : Prop :=
  bs.IsChain fun b c => ¬(b.owner = none ∧ c.owner = none)

theorem Tiles.le {g lo hi : ℕ} {bs : List (Block τ)} (h : Tiles g lo bs hi) : lo ≤ hi := by
  induction bs generalizing lo with
  | nil => exact Nat.le_of_eq h
  | cons b bs ih => exact Nat.le_trans (Nat.le_add_right _ _) (ih h.2.2)

theorem tiles_append {g lo hi : ℕ} {A B : List (Block τ)} :
    Tiles g lo (A ++ B) hi ↔ ∃ mid, Tiles g lo A mid ∧ Tiles g mid B hi := by
  induction A generalizing lo with
  | nil => exact ⟨fun h => ⟨lo, rfl, h⟩, fun ⟨mid, h, h'⟩ => (h : lo = mid) ▸ h'⟩
  | cons b A ih =>
      rw [List.cons_append, Tiles, ih]
      constructor
      · rintro ⟨haddr, hsize, mid, hA, hB⟩
        exact ⟨mid, ⟨haddr, hsize, hA⟩, hB⟩
      · rintro ⟨mid, ⟨haddr, hsize, hA⟩, hB⟩
        exact ⟨haddr, hsize, mid, hA, hB⟩

/-- The blocks on either side of one. -/
theorem tiles_append_cons {g lo hi : ℕ} {A B : List (Block τ)} {b : Block τ} :
    Tiles g lo (A ++ b :: B) hi ↔
      Tiles g lo A b.addr ∧ (0 < b.size ∧ g ∣ b.size) ∧ Tiles g (b.addr + b.size) B hi := by
  rw [tiles_append]
  constructor
  · rintro ⟨mid, hA, rfl, hsize, hB⟩
    exact ⟨hA, hsize, hB⟩
  · rintro ⟨hA, hsize, hB⟩
    exact ⟨b.addr, hA, rfl, hsize, hB⟩

/-- Every block lies in the range. -/
theorem Tiles.bounds {g lo hi : ℕ} {bs : List (Block τ)} (h : Tiles g lo bs hi) {b : Block τ}
    (hb : b ∈ bs) : lo ≤ b.addr ∧ 0 < b.size ∧ b.addr + b.size ≤ hi := by
  obtain ⟨A, B, rfl⟩ := List.append_of_mem hb
  obtain ⟨hA, hsize, hB⟩ := tiles_append_cons.1 h
  exact ⟨hA.le, hsize.1, hB.le⟩

/-- In a range that begins at a multiple of the granularity every block does. -/
theorem Tiles.dvd {g lo hi : ℕ} {bs : List (Block τ)} (h : Tiles g lo bs hi) (hlo : g ∣ lo)
    {b : Block τ} (hb : b ∈ bs) : g ∣ b.addr ∧ g ∣ b.size := by
  induction bs generalizing lo with
  | nil => cases hb
  | cons c bs ih =>
      obtain ⟨rfl, hsize, hbs⟩ := h
      rcases List.mem_cons.1 hb with rfl | hb
      · exact ⟨hlo, hsize.2⟩
      · exact ih hbs (Nat.dvd_add hlo hsize.2) hb

/-- Of two blocks one ends before the other begins. -/
theorem Tiles.pairwise {g lo hi : ℕ} {bs : List (Block τ)} (h : Tiles g lo bs hi) :
    bs.Pairwise fun b c => b.addr + b.size ≤ c.addr := by
  induction bs generalizing lo with
  | nil => exact List.Pairwise.nil
  | cons b bs ih =>
      obtain ⟨rfl, -, hbs⟩ := h
      exact List.pairwise_cons.2 ⟨fun c hc => (hbs.bounds hc).1, ih hbs⟩

/-! ### Free blocks and owners -/

/-- The span of a block, if it is free. -/
def Block.span? (b : Block τ) : Option (ℕ × ℕ) :=
  match b.owner with
  | none => some (b.addr, b.size)
  | some _ => none

/-- The spans of the free blocks. -/
def frees (bs : List (Block τ)) : List (ℕ × ℕ) := bs.filterMap Block.span?

/-- The spans of the other blocks, with their owners. -/
def lives (bs : List (Block τ)) : List (ℕ × ℕ × τ) :=
  bs.filterMap fun b => b.owner.map fun o => (b.addr, b.size, o)

@[simp] theorem frees_nil : frees ([] : List (Block τ)) = [] := rfl

@[simp] theorem frees_cons_free (a s : ℕ) (bs : List (Block τ)) :
    frees (⟨a, s, none⟩ :: bs) = (a, s) :: frees bs := rfl

@[simp] theorem frees_cons_live (a s : ℕ) (o : τ) (bs : List (Block τ)) :
    frees (⟨a, s, some o⟩ :: bs) = frees bs := rfl

@[simp] theorem frees_append (A B : List (Block τ)) : frees (A ++ B) = frees A ++ frees B :=
  List.filterMap_append

@[simp] theorem lives_nil : lives ([] : List (Block τ)) = [] := rfl

@[simp] theorem lives_cons_free (a s : ℕ) (bs : List (Block τ)) :
    lives (⟨a, s, none⟩ :: bs) = lives bs := rfl

@[simp] theorem lives_cons_live (a s : ℕ) (o : τ) (bs : List (Block τ)) :
    lives (⟨a, s, some o⟩ :: bs) = (a, s, o) :: lives bs := rfl

@[simp] theorem lives_append (A B : List (Block τ)) : lives (A ++ B) = lives A ++ lives B :=
  List.filterMap_append

theorem mem_lives {bs : List (Block τ)} {l : ℕ × ℕ × τ} :
    l ∈ lives bs ↔ (⟨l.1, l.2.1, some l.2.2⟩ : Block τ) ∈ bs := by
  rw [lives, List.mem_filterMap]
  constructor
  · rintro ⟨⟨a, s, o'⟩, hb, heq⟩
    obtain ⟨o, rfl, rfl⟩ := Option.map_eq_some_iff.1 heq
    exact hb
  · exact fun hb => ⟨_, hb, rfl⟩

theorem mem_frees {bs : List (Block τ)} {c : ℕ × ℕ} :
    c ∈ frees bs ↔ (⟨c.1, c.2, none⟩ : Block τ) ∈ bs := by
  rw [frees, List.mem_filterMap]
  constructor
  · rintro ⟨⟨a, s, _ | o⟩, hb, heq⟩
    · cases heq
      exact hb
    · cases heq
  · exact fun hb => ⟨_, hb, rfl⟩

/-- The block of an owner. -/
theorem exists_of_mem_lives {bs : List (Block τ)} {a s : ℕ} {o : τ} (h : (a, s, o) ∈ lives bs) :
    ∃ A B, bs = A ++ ⟨a, s, some o⟩ :: B := List.append_of_mem (mem_lives.1 h)

/-- The block of a free span. -/
theorem exists_of_frees_eq {bs : List (Block τ)} {F₁ F₂ : List (ℕ × ℕ)} {a s : ℕ}
    (h : frees bs = F₁ ++ (a, s) :: F₂) :
    ∃ A B, bs = A ++ ⟨a, s, none⟩ :: B ∧ frees A = F₁ ∧ frees B = F₂ := by
  obtain ⟨A, B', rfl, hA, hB'⟩ := List.filterMap_eq_append_iff.1 h
  obtain ⟨C, b, B, rfl, hC, hb, hB⟩ := List.filterMap_eq_cons_iff.1 hB'
  have hfC : frees C = [] := List.filterMap_eq_nil_iff.2 hC
  refine ⟨A ++ C, B, ?_, ?_, hB⟩
  · obtain ⟨a', s', _ | o⟩ := b
    · cases hb
      rw [List.append_assoc]
    · cases hb
  · rw [frees_append, hfC, List.append_nil]
    exact hA

theorem Tiles.frees_bounds {g lo hi : ℕ} {bs : List (Block τ)} (h : Tiles g lo bs hi) {c : ℕ × ℕ}
    (hc : c ∈ frees bs) : lo ≤ c.1 ∧ 0 < c.2 ∧ c.1 + c.2 ≤ hi := h.bounds (mem_frees.1 hc)

/-- A free block and one that has an owner do not overlap. -/
theorem Tiles.frees_lives_disjoint {g lo hi : ℕ} {bs : List (Block τ)} (h : Tiles g lo bs hi)
    {c : ℕ × ℕ} {l : ℕ × ℕ × τ} (hc : c ∈ frees bs) (hl : l ∈ lives bs) :
    c.1 + c.2 ≤ l.1 ∨ l.1 + l.2.1 ≤ c.1 := by
  obtain ⟨A, B, rfl⟩ := List.append_of_mem (mem_frees.1 hc)
  obtain ⟨hA, -, hB⟩ := tiles_append_cons.1 h
  rw [lives_append, lives_cons_free] at hl
  rcases List.mem_append.1 hl with hl | hl
  · exact Or.inr (hA.bounds (mem_lives.1 hl)).2.2
  · exact Or.inl (hB.bounds (mem_lives.1 hl)).1

/-- Blocks that have an owner do not overlap. -/
theorem Tiles.lives_pairwise {g lo hi : ℕ} {bs : List (Block τ)} (h : Tiles g lo bs hi) :
    (lives bs).Pairwise fun l k => l.1 + l.2.1 ≤ k.1 := by
  refine h.pairwise.filterMap _ fun b c hbc l hl k hk => ?_
  obtain ⟨o, -, rfl⟩ := Option.map_eq_some_iff.1 hl
  obtain ⟨o', -, rfl⟩ := Option.map_eq_some_iff.1 hk
  exact hbc

theorem Tiles.lives_disjoint {g lo hi : ℕ} {bs : List (Block τ)} (h : Tiles g lo bs hi)
    {l k : ℕ × ℕ × τ} (hl : l ∈ lives bs) (hk : k ∈ lives bs) :
    l = k ∨ l.1 + l.2.1 ≤ k.1 ∨ k.1 + k.2.1 ≤ l.1 := by
  obtain ⟨A, B, rfl⟩ := List.append_of_mem (mem_lives.1 hl)
  obtain ⟨hA, -, hB⟩ := tiles_append_cons.1 h
  rw [lives_append, lives_cons_live] at hk
  rcases List.mem_append.1 hk with hk | hk
  · exact Or.inr (Or.inr (hA.bounds (mem_lives.1 hk)).2.2)
  · rcases List.mem_cons.1 hk with hk | hk
    · exact Or.inl hk.symm
    · exact Or.inr (Or.inl (hB.bounds (mem_lives.1 hk)).1)

/-- The owner of a block is of no concern for the tiling. -/
theorem Tiles.setOwner {g lo hi a s : ℕ} {o : Option τ} {A B : List (Block τ)}
    (h : Tiles g lo (A ++ ⟨a, s, o⟩ :: B) hi) (o' : Option τ) :
    Tiles g lo (A ++ ⟨a, s, o'⟩ :: B) hi := by
  obtain ⟨hA, hs, hB⟩ := tiles_append_cons.1 h
  exact tiles_append_cons.2 ⟨hA, hs, hB⟩

/-- **Free spans do not touch**, and come in order of their addresses. -/
theorem frees_pairwise {g lo hi : ℕ} {bs : List (Block τ)} (h : Tiles g lo bs hi)
    (hc : Coalesced bs) :
    (frees bs).Pairwise fun c d => c.1 + c.2 < d.1 := by
  induction bs generalizing lo with
  | nil => exact List.Pairwise.nil
  | cons b bs ih =>
      obtain ⟨a, s, _ | o⟩ := b
      · obtain ⟨rfl, -, hbs⟩ := h
        rw [frees_cons_free, List.pairwise_cons]
        refine ⟨fun d hd => ?_, ih hbs hc.tail⟩
        -- the neighbour is not free, so that a free block lies behind it
        cases bs with
        | nil => cases hd
        | cons c bs =>
            obtain ⟨a', s', _ | o⟩ := c
            · exact absurd ⟨rfl, rfl⟩ (List.isChain_cons_cons.1 hc).1
            · obtain ⟨rfl, hs', hbs⟩ := hbs
              have := (hbs.frees_bounds hd).1
              dsimp only at this hs' ⊢
              omega
      · exact ih h.2.2 hc.tail

/-- **Without owners there is one block.** -/
theorem eq_singleton_of_lives_nil {g lo hi : ℕ} {bs : List (Block τ)} (h : Tiles g lo bs hi)
    (hc : Coalesced bs) (hlives : lives bs = []) (hlt : lo < hi) : bs = [⟨lo, hi - lo, none⟩] := by
  cases bs with
  | nil => exact absurd h (Nat.ne_of_lt hlt)
  | cons b bs =>
      obtain ⟨a, s, _ | o⟩ := b
      · obtain ⟨rfl, -, hbs⟩ := h
        cases bs with
        | nil =>
            have : a + s = hi := hbs
            subst this
            rw [Nat.add_sub_cancel_left]
        | cons c bs =>
            obtain ⟨a', s', _ | o⟩ := c
            · exact absurd ⟨rfl, rfl⟩ (List.isChain_cons_cons.1 hc).1
            · cases hlives
      · cases hlives

/-! ### Releasing -/

/-- A free block in front of `B`, joined with the first block of it if that is free. -/
def joinNext (a s : ℕ) : List (Block τ) → List (Block τ)
  | ⟨_, t, none⟩ :: B => ⟨a, s + t, none⟩ :: B
  | B => ⟨a, s, none⟩ :: B

/-- Releasing a block between `A` and `B`: it is joined with the free blocks on either side. -/
def release (A : List (Block τ)) (a s : ℕ) (B : List (Block τ)) : List (Block τ) :=
  match A.getLast? with
  | some ⟨a', s', none⟩ => A.dropLast ++ joinNext a' (s' + s) B
  | _ => A ++ joinNext a s B

/-- A span in front of others, joined with the first of them if it touches it. -/
def joinSpan (b : ℕ × ℕ) : List (ℕ × ℕ) → List (ℕ × ℕ)
  | c :: F => if b.1 + b.2 = c.1 then (b.1, b.2 + c.2) :: F else b :: c :: F
  | [] => [b]

/-- A span between others, joined with those that it touches. -/
def insertSpan (F₁ : List (ℕ × ℕ)) (b : ℕ × ℕ) (F₂ : List (ℕ × ℕ)) : List (ℕ × ℕ) :=
  match F₁.getLast? with
  | some a => if a.1 + a.2 = b.1 then F₁.dropLast ++ joinSpan (a.1, a.2 + b.2) F₂
      else F₁ ++ joinSpan b F₂
  | none => joinSpan b F₂

@[simp] theorem release_nil (a s : ℕ) (B : List (Block τ)) :
    release [] a s B = joinNext a s B := rfl

@[simp] theorem release_snoc_free (A : List (Block τ)) (a' s' a s : ℕ) (B : List (Block τ)) :
    release (A ++ [⟨a', s', none⟩]) a s B = A ++ joinNext a' (s' + s) B := by
  rw [release, List.getLast?_concat, List.dropLast_concat]

@[simp] theorem release_snoc_live (A : List (Block τ)) (a' s' : ℕ) (o : τ) (a s : ℕ)
    (B : List (Block τ)) :
    release (A ++ [⟨a', s', some o⟩]) a s B = A ++ [⟨a', s', some o⟩] ++ joinNext a s B := by
  rw [release, List.getLast?_concat]

@[simp] theorem insertSpan_snoc_eq (F : List (ℕ × ℕ)) (a s t : ℕ) (F₂ : List (ℕ × ℕ)) :
    insertSpan (F ++ [(a, s)]) (a + s, t) F₂ = F ++ joinSpan (a, s + t) F₂ := by
  rw [insertSpan, List.getLast?_concat, List.dropLast_concat]
  exact if_pos rfl

theorem insertSpan_snoc_of_ne {F F₂ : List (ℕ × ℕ)} {b c : ℕ × ℕ} (h : c.1 + c.2 ≠ b.1) :
    insertSpan (F ++ [c]) b F₂ = F ++ c :: joinSpan b F₂ := by
  rw [insertSpan, List.getLast?_concat, ← List.append_cons]
  exact if_neg h

theorem insertSpan_of_ne {F₁ F₂ : List (ℕ × ℕ)} {b : ℕ × ℕ} (h : ∀ c ∈ F₁, c.1 + c.2 ≠ b.1) :
    insertSpan F₁ b F₂ = F₁ ++ joinSpan b F₂ := by
  rcases List.eq_nil_or_concat F₁ with rfl | ⟨F, c, rfl⟩
  · rfl
  · rw [List.concat_eq_append] at h ⊢
    rw [insertSpan_snoc_of_ne (h c (List.mem_append_right _ (List.mem_singleton_self c))),
      ← List.append_cons]

theorem joinSpan_of_ne {F : List (ℕ × ℕ)} {b : ℕ × ℕ} (h : ∀ c ∈ F, b.1 + b.2 ≠ c.1) :
    joinSpan b F = b :: F := by
  cases F with
  | nil => rfl
  | cons c F => exact if_neg (h c List.mem_cons_self)

/-- The first of the spans after joining one in front. -/
theorem exists_joinSpan {F : List (ℕ × ℕ)} {b s e : ℕ} (hbs : b + s ≤ e)
    (hF : ∀ c ∈ F, c.1 + c.2 ≤ e) : ∃ t G, joinSpan (b, s) F = (b, t) :: G ∧ b + t ≤ e := by
  cases F with
  | nil => exact ⟨s, [], rfl, hbs⟩
  | cons c F =>
      have hc := hF c List.mem_cons_self
      rw [joinSpan]
      split_ifs with htouch
      · exact ⟨s + c.2, F, rfl, by dsimp only at htouch; omega⟩
      · exact ⟨s, c :: F, rfl, hbs⟩

theorem mem_joinSpan {F : List (ℕ × ℕ)} {b c : ℕ × ℕ} (h : c ∈ joinSpan b F) :
    c.1 = b.1 ∨ c ∈ F := by
  cases F with
  | nil => exact Or.inl (congrArg Prod.fst (List.mem_singleton.1 h))
  | cons d F =>
      rw [joinSpan] at h
      split_ifs at h
      · rcases List.mem_cons.1 h with rfl | h
        · exact Or.inl rfl
        · exact Or.inr (List.mem_cons_of_mem d h)
      · rcases List.mem_cons.1 h with rfl | h
        · exact Or.inl rfl
        · exact Or.inr h

/-- Inserting a span behind one that does not touch it. -/
theorem insertSpan_cons_of_ne {F₁ F₂ : List (ℕ × ℕ)} {b c : ℕ × ℕ} (h : c.1 + c.2 ≠ b.1) :
    insertSpan (c :: F₁) b F₂ = c :: insertSpan F₁ b F₂ := by
  rcases List.eq_nil_or_concat F₁ with rfl | ⟨F, d, rfl⟩
  · exact if_neg h
  · rw [List.concat_eq_append, ← List.cons_append, insertSpan, insertSpan, List.getLast?_concat,
      List.getLast?_concat, List.dropLast_concat, List.dropLast_concat]
    dsimp only
    split_ifs <;> rfl

/-- A span that touches none of the others. -/
theorem insertSpan_eq_append {F₁ F₂ : List (ℕ × ℕ)} {b : ℕ × ℕ} (h₁ : ∀ c ∈ F₁, c.1 + c.2 ≠ b.1)
    (h₂ : ∀ c ∈ F₂, b.1 + b.2 ≠ c.1) : insertSpan F₁ b F₂ = F₁ ++ b :: F₂ := by
  rw [insertSpan_of_ne h₁, joinSpan_of_ne h₂]

/-! ### Sums of sizes -/

/-- The sum of the sizes of spans. -/
def total : List (ℕ × ℕ) → ℕ
  | [] => 0
  | c :: F => c.2 + total F

@[simp] theorem total_nil : total [] = 0 := rfl

@[simp] theorem total_cons (c : ℕ × ℕ) (F : List (ℕ × ℕ)) : total (c :: F) = c.2 + total F := rfl

@[simp] theorem total_append (F G : List (ℕ × ℕ)) : total (F ++ G) = total F + total G := by
  induction F with
  | nil => exact (Nat.zero_add _).symm
  | cons c F ih => rw [List.cons_append, total_cons, total_cons, ih, Nat.add_assoc]

@[simp] theorem total_joinSpan (b : ℕ × ℕ) (F : List (ℕ × ℕ)) :
    total (joinSpan b F) = b.2 + total F := by
  cases F with
  | nil => rfl
  | cons c F =>
      rw [joinSpan]
      split_ifs
      · rw [total_cons, total_cons, Nat.add_assoc]
      · rfl

/-- Joining spans does not lose anything. -/
theorem total_insertSpan (F₁ : List (ℕ × ℕ)) (b : ℕ × ℕ) (F₂ : List (ℕ × ℕ)) :
    total (insertSpan F₁ b F₂) = total F₁ + b.2 + total F₂ := by
  rcases List.eq_nil_or_concat F₁ with rfl | ⟨F, c, rfl⟩
  · rw [insertSpan_of_ne (by simp)]
    simp
  · rw [List.concat_eq_append, insertSpan, List.getLast?_concat, List.dropLast_concat]
    dsimp only
    split_ifs
    · simp only [total_append, total_joinSpan, total_cons, total_nil]
      omega
    · simp only [total_append, total_joinSpan]
      omega

theorem le_total_of_mem {F : List (ℕ × ℕ)} {c : ℕ × ℕ} (h : c ∈ F) : c.2 ≤ total F := by
  obtain ⟨G, H, rfl⟩ := List.append_of_mem h
  rw [total_append, total_cons]
  omega

/-- The free spans are no longer than the range. -/
theorem Tiles.total_frees_le {g lo hi : ℕ} {bs : List (Block τ)} (h : Tiles g lo bs hi) :
    lo + total (frees bs) ≤ hi ∧ lo + (frees bs).length ≤ hi := by
  induction bs generalizing lo with
  | nil => exact ⟨Nat.le_of_eq h, Nat.le_of_eq h⟩
  | cons b bs ih =>
      obtain ⟨a, s, _ | o⟩ := b
      · obtain ⟨rfl, hs, hbs⟩ := h
        obtain ⟨htotal, hlength⟩ := ih hbs
        rw [frees_cons_free, total_cons, List.length_cons]
        dsimp only at hs htotal hlength ⊢
        omega
      · obtain ⟨rfl, -, hbs⟩ := h
        obtain ⟨htotal, hlength⟩ := ih hbs
        rw [frees_cons_live]
        dsimp only at htotal hlength ⊢
        omega

/-! ### Releasing keeps a tiling -/

/-- A tiling that begins with a free block. -/
structure FreeFirst (g lo hi : ℕ) (bs : List (Block τ)) : Prop where
  tiles : Tiles g lo bs hi
  coalesced : Coalesced bs
  head : ∃ s B, bs = ⟨lo, s, none⟩ :: B

/-- Joining a free block with the one behind it. -/
theorem joinNext_spec {g a s hi : ℕ} {B : List (Block τ)} (hs : 0 < s ∧ g ∣ s)
    (hB : Tiles g (a + s) B hi)
    (hc : Coalesced B) :
    FreeFirst g a hi (joinNext a s B) ∧ lives (joinNext a s B) = lives B ∧
      frees (joinNext a s B) = joinSpan (a, s) (frees B) := by
  rcases B with _ | ⟨⟨c, t, _ | o⟩, B⟩
  · exact ⟨⟨⟨rfl, hs, hB⟩, List.isChain_singleton _, s, [], rfl⟩, rfl, rfl⟩
  · obtain ⟨rfl, ht, hB⟩ := hB
    refine ⟨⟨⟨rfl, ⟨Nat.add_pos_left hs.1 t, Nat.dvd_add hs.2 ht.2⟩, ?_⟩, ?_, s + t, B, rfl⟩,
      rfl, ?_⟩
    · rwa [Nat.add_assoc] at hB
    · refine List.isChain_cons.2 ⟨fun d hd hfree => ?_, hc.tail⟩
      exact (List.isChain_cons.1 hc).1 d hd ⟨rfl, hfree.2⟩
    · exact (if_pos rfl).symm
  · refine ⟨⟨⟨rfl, hs, hB⟩, ?_, s, _, rfl⟩, rfl, ?_⟩
    · exact List.isChain_cons_cons.2 ⟨fun hfree => Option.some_ne_none o hfree.2, hc⟩
    · obtain ⟨rfl, ht, hB⟩ := hB
      rw [joinSpan_of_ne fun d hd => ?_]
      · rfl
      · have := (hB.frees_bounds hd).1
        dsimp only at this ht ⊢
        omega

/-- A tiling that begins with a free block goes behind one that does not end with one. -/
theorem FreeFirst.append {g lo a hi : ℕ} {A bs : List (Block τ)} (h : FreeFirst g a hi bs)
    (hA : Tiles g lo A a) (hc : Coalesced A) (hlast : ∀ b ∈ A.getLast?, b.owner ≠ none) :
    Tiles g lo (A ++ bs) hi ∧ Coalesced (A ++ bs) :=
  ⟨tiles_append.2 ⟨a, hA, h.tiles⟩,
    List.isChain_append.2 ⟨hc, h.coalesced, fun b hb _ _ hfree => hlast b hb hfree.1⟩⟩

/-- **Releasing a block** keeps the tiling coalesced, and its free spans are the ones that inserting
the span of the block gives. -/
theorem release_spec {g lo hi a s : ℕ} {o : τ} {A B : List (Block τ)}
    (h : Tiles g lo (A ++ ⟨a, s, some o⟩ :: B) hi) (hc : Coalesced (A ++ ⟨a, s, some o⟩ :: B)) :
    Tiles g lo (release A a s B) hi ∧ Coalesced (release A a s B) ∧
      lives (release A a s B) = lives A ++ lives B ∧
      frees (release A a s B) = insertSpan (frees A) (a, s) (frees B) := by
  obtain ⟨hA, hs, hB⟩ := tiles_append_cons.1 h
  obtain ⟨hcA, hcB, -⟩ := List.isChain_append.1 hc
  obtain ⟨hfirst, hlives, hfrees⟩ := joinNext_spec hs hB hcB.tail
  rcases List.eq_nil_or_concat A with rfl | ⟨A, ⟨c, t, _ | o'⟩, rfl⟩
  · obtain rfl : lo = a := hA
    exact ⟨hfirst.tiles, hfirst.coalesced, hlives, hfrees⟩
  · -- the block in front is free, and becomes the beginning of the joined one
    rw [List.concat_eq_append] at hA hcA ⊢
    obtain ⟨hA', ht, hca⟩ := tiles_append_cons.1 hA
    obtain rfl : c + t = a := hca
    obtain ⟨hcA', -, hlast⟩ := List.isChain_append.1 hcA
    have hB' : Tiles g (c + (t + s)) B hi := by rwa [← Nat.add_assoc]
    obtain ⟨hfirst', hlives', hfrees'⟩ :=
      joinNext_spec ⟨Nat.add_pos_left ht.1 s, Nat.dvd_add ht.2 hs.2⟩ hB' hcB.tail
    have hlast' : ∀ b ∈ A.getLast?, b.owner ≠ none := fun b hb hfree =>
      hlast b hb ⟨c, t, none⟩ rfl ⟨hfree, rfl⟩
    have happ := hfirst'.append hA' hcA' hlast'
    rw [release_snoc_free]
    refine ⟨happ.1, happ.2, ?_, ?_⟩
    · simp [hlives']
    · simp [hfrees']
  · rw [List.concat_eq_append] at hA hcA ⊢
    have hlast : ∀ b ∈ (A ++ [(⟨c, t, some o'⟩ : Block τ)]).getLast?, b.owner ≠ none := by
      rintro b hb
      rw [List.getLast?_concat, Option.mem_some_iff] at hb
      rw [← hb]
      exact Option.some_ne_none o'
    have happ := hfirst.append hA hcA hlast
    obtain ⟨hA', ht, hca⟩ := tiles_append_cons.1 hA
    obtain rfl : c + t = a := hca
    rw [release_snoc_live]
    refine ⟨happ.1, happ.2, ?_, ?_⟩
    · simp [hlives]
    · have hne : ∀ d ∈ frees A, d.1 + d.2 ≠ c + t := fun d hd => by
        have := (hA'.frees_bounds hd).2.2
        dsimp only at this ht
        omega
      rw [frees_append, frees_append, frees_cons_live, frees_nil, List.append_nil, hfrees,
        insertSpan_of_ne hne]

/-! ### Taking -/

/-- Giving an owner to the front of a free block, and leaving the rest free. -/
theorem split_spec {g lo hi a s w : ℕ} {o : τ} {A B : List (Block τ)}
    (h : Tiles g lo (A ++ ⟨a, s, none⟩ :: B) hi) (hc : Coalesced (A ++ ⟨a, s, none⟩ :: B))
    (hw : 0 < w) (hgw : g ∣ w) (hws : w < s) :
    Tiles g lo (A ++ ⟨a, w, some o⟩ :: ⟨a + w, s - w, none⟩ :: B) hi ∧
      Coalesced (A ++ ⟨a, w, some o⟩ :: ⟨a + w, s - w, none⟩ :: B) := by
  obtain ⟨hA, hs, hB⟩ := tiles_append_cons.1 h
  obtain ⟨hcA, hcB, -⟩ := List.isChain_append.1 hc
  constructor
  · refine tiles_append_cons.2
      ⟨hA, ⟨hw, hgw⟩, rfl, ⟨Nat.sub_pos_of_lt hws, Nat.dvd_sub hs.2 hgw⟩, ?_⟩
    dsimp only at hB ⊢
    rwa [Nat.add_assoc, Nat.add_sub_cancel' (Nat.le_of_lt hws)]
  · refine List.isChain_append.2
      ⟨hcA, List.isChain_cons_cons.2 ⟨fun hfree => Option.some_ne_none o hfree.1, ?_⟩, ?_⟩
    · refine List.isChain_cons.2 ⟨fun d hd hfree => ?_, hcB.tail⟩
      exact (List.isChain_cons.1 hcB).1 d hd ⟨rfl, hfree.2⟩
    · rintro b - c hc hfree
      rw [List.head?_cons, Option.mem_some_iff] at hc
      rw [← hc] at hfree
      cases hfree.2

/-- The rest of a free block whose front has been taken touches no other free block. -/
theorem insertSpan_rest {g lo hi a s w : ℕ} {A B : List (Block τ)}
    (h : Tiles g lo (A ++ ⟨a, s, none⟩ :: B) hi) (hc : Coalesced (A ++ ⟨a, s, none⟩ :: B))
    (hws : w ≤ s) :
    insertSpan (frees A) (a + w, s - w) (frees B) = frees A ++ (a + w, s - w) :: frees B := by
  have hpair := frees_pairwise h hc
  rw [frees_append, frees_cons_free] at hpair
  obtain ⟨-, hB, hA⟩ := List.pairwise_append.1 hpair
  refine insertSpan_eq_append (fun d hd => ?_) fun d hd => ?_
  · have := hA d hd (a, s) List.mem_cons_self
    dsimp only at this ⊢
    omega
  · have := (List.pairwise_cons.1 hB).1 d hd
    dsimp only at this ⊢
    omega

/-- Giving an owner to a whole free block. -/
theorem take_spec {g lo hi a s : ℕ} {o : τ} {A B : List (Block τ)}
    (h : Tiles g lo (A ++ ⟨a, s, none⟩ :: B) hi) (hc : Coalesced (A ++ ⟨a, s, none⟩ :: B)) :
    Tiles g lo (A ++ ⟨a, s, some o⟩ :: B) hi ∧ Coalesced (A ++ ⟨a, s, some o⟩ :: B) := by
  obtain ⟨hA, hs, hB⟩ := tiles_append_cons.1 h
  obtain ⟨hcA, hcB, -⟩ := List.isChain_append.1 hc
  refine ⟨tiles_append_cons.2 ⟨hA, hs, hB⟩, List.isChain_append.2 ⟨hcA, ?_, ?_⟩⟩
  · exact List.isChain_cons.2 ⟨fun d _ hfree => Option.some_ne_none o hfree.1, hcB.tail⟩
  · rintro b - c hc hfree
    rw [List.head?_cons, Option.mem_some_iff] at hc
    rw [← hc] at hfree
    cases hfree.2

end Tiling
