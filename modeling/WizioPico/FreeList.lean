/-
**Lists of spans linked through their headers.**

An allocator without memory of its own keeps its list of free blocks in the free blocks: each
begins with a header of two words, the address of the next free block and the size of this one.
`Nodes m F e` says that the memory `m` holds the headers of the spans `F`, each linked to the one
behind it and the last one to the address `e`.

Every change such a list goes through is a change of a few headers, so there is one frame condition,
`SameExcept`: two memories agree but for the headers at some addresses.

* `next`, `size`, `setNext`, `setSize` — the words of a header;
* `SameExcept`, `Apart` — memories that agree but for some headers, and headers that do not overlap;
* `Nodes`, `nodes_append_cons`, `Nodes.frame` — linked spans, cut at one of them, and under a
  change of other headers;
* `Nodes.unlink` — taking a span out of the list;
* `spans`, `Nodes.spans_eq` — reading the list off the memory.
-/

import WizioPico.ByteMem
import WizioPico.Linked

set_option relaxedAutoImplicit false
set_option autoImplicit false

namespace FreeList

/-! ### Headers -/

/-- The address of the next block in the header at `p`. -/
def next (m : ByteMem) (p : ℕ) : ℕ := m.readWord p

/-- The size in the header at `p`. -/
def size (m : ByteMem) (p : ℕ) : ℕ := m.readWord (p + 4)

def setNext (m : ByteMem) (p v : ℕ) : ByteMem := m.writeWord p v

def setSize (m : ByteMem) (p v : ℕ) : ByteMem := m.writeWord (p + 4) v

theorem next_lt (m : ByteMem) (p : ℕ) : next m p < 2 ^ 32 := m.readWord_lt p

@[simp] theorem next_setNext (m : ByteMem) (p v : ℕ) : next (setNext m p v) p = v % 2 ^ 32 :=
  m.readWord_writeWord p v

@[simp] theorem size_setSize (m : ByteMem) (p v : ℕ) : size (setSize m p v) p = v % 2 ^ 32 :=
  m.readWord_writeWord (p + 4) v

@[simp] theorem next_setSize (m : ByteMem) (p v : ℕ) : next (setSize m p v) p = next m p :=
  ByteMem.readWord_writeWord_of_disjoint (Or.inl (Nat.le_refl _))

@[simp] theorem size_setNext (m : ByteMem) (p v : ℕ) : size (setNext m p v) p = size m p :=
  ByteMem.readWord_writeWord_of_disjoint (Or.inr (Nat.le_refl _))

/-- A header is read off its eight bytes. -/
theorem header_congr {m m' : ByteMem} {p : ℕ} (h : ∀ x, p ≤ x → x < p + 8 → m' x = m x) :
    size m' p = size m p ∧ next m' p = next m p := by
  constructor
  · exact ByteMem.readWord_congr fun i hi => h _ (by omega) (by omega)
  · exact ByteMem.readWord_congr fun i hi => h _ (by omega) (by omega)

/-! ### Changes of headers -/

/-- The headers at `p` and `q` do not overlap. -/
def Apart (p q : ℕ) : Prop := p + 8 ≤ q ∨ q + 8 ≤ p

theorem Apart.symm {p q : ℕ} (h : Apart p q) : Apart q p := Or.symm h

/-- The headers of a list that do not overlap that of one span of it. -/
theorem apart_of_pairwise {F G : List (ℕ × ℕ)} {b : ℕ × ℕ}
    (h : (F ++ b :: G).Pairwise fun c d => Apart c.1 d.1) : ∀ c ∈ F ++ G, Apart c.1 b.1 := by
  obtain ⟨-, hG, hF⟩ := List.pairwise_append.1 h
  intro c hc
  rcases List.mem_append.1 hc with hc | hc
  · exact hF c hc b List.mem_cons_self
  · exact ((List.pairwise_cons.1 hG).1 c hc).symm

/-- The memories agree but for the headers at the addresses `ps`. -/
def SameExcept (ps : List ℕ) (m m' : ByteMem) : Prop :=
  ∀ x, (∀ p ∈ ps, x < p ∨ p + 8 ≤ x) → m' x = m x

theorem SameExcept.refl (ps : List ℕ) (m : ByteMem) : SameExcept ps m m := fun _ _ => rfl

theorem SameExcept.trans {ps : List ℕ} {m m' m'' : ByteMem} (h : SameExcept ps m m')
    (h' : SameExcept ps m' m'') : SameExcept ps m m'' := fun x hx => (h' x hx).trans (h x hx)

theorem SameExcept.mono {ps qs : List ℕ} {m m' : ByteMem} (h : SameExcept ps m m')
    (hsub : ps ⊆ qs) : SameExcept qs m m' := fun x hx => h x fun p hp => hx p (hsub hp)

theorem sameExcept_setNext {ps : List ℕ} {p : ℕ} (h : p ∈ ps) (m : ByteMem) (v : ℕ) :
    SameExcept ps m (setNext m p v) := fun x hx => by
  have := hx p h
  exact ByteMem.writeWord_of_not_mem (by omega)

theorem sameExcept_setSize {ps : List ℕ} {p : ℕ} (h : p ∈ ps) (m : ByteMem) (v : ℕ) :
    SameExcept ps m (setSize m p v) := fun x hx => by
  have := hx p h
  exact ByteMem.writeWord_of_not_mem (by omega)

theorem SameExcept.header {ps : List ℕ} {m m' : ByteMem} {q : ℕ} (h : SameExcept ps m m')
    (hq : ∀ p ∈ ps, Apart q p) : size m' q = size m q ∧ next m' q = next m q :=
  header_congr fun x hx hx' => h x fun p hp => by
    have := hq p hp
    unfold Apart at this
    omega

theorem SameExcept.size_eq {ps : List ℕ} {m m' : ByteMem} {q : ℕ} (h : SameExcept ps m m')
    (hq : ∀ p ∈ ps, Apart q p) : size m' q = size m q := (h.header hq).1

theorem SameExcept.next_eq {ps : List ℕ} {m m' : ByteMem} {q : ℕ} (h : SameExcept ps m m')
    (hq : ∀ p ∈ ps, Apart q p) : next m' q = next m q := (h.header hq).2

/-! ### Linked spans -/

/-- The headers of the spans are in the memory, linked to each other and the last one to `e`. -/
def Nodes (m : ByteMem) : List (ℕ × ℕ) → ℕ → Prop
  | [], _ => True
  | c :: F, e => size m c.1 = c.2 ∧ next m c.1 = headAddr F e ∧ Nodes m F e

theorem nodes_append {m : ByteMem} {F G : List (ℕ × ℕ)} {e : ℕ} :
    Nodes m (F ++ G) e ↔ Nodes m F (headAddr G e) ∧ Nodes m G e := by
  induction F with
  | nil => exact ⟨fun h => ⟨trivial, h⟩, fun h => h.2⟩
  | cons c F ih =>
      rw [List.cons_append, Nodes, Nodes, ih, headAddr_append]
      tauto

/-- **A list cut at one of its spans**: the spans in front of it are linked to it. -/
theorem nodes_append_cons {m : ByteMem} {F G : List (ℕ × ℕ)} {p s e : ℕ} :
    Nodes m (F ++ (p, s) :: G) e ↔
      Nodes m F p ∧ size m p = s ∧ next m p = headAddr G e ∧ Nodes m G e := nodes_append

/-- A list only depends on its own headers. -/
theorem Nodes.congr {m m' : ByteMem} {F : List (ℕ × ℕ)} {e : ℕ} (h : Nodes m F e)
    (hF : ∀ c ∈ F, size m' c.1 = size m c.1 ∧ next m' c.1 = next m c.1) : Nodes m' F e := by
  induction F with
  | nil => trivial
  | cons c F ih =>
      obtain ⟨hsize, hnext, hnodes⟩ := h
      obtain ⟨hsize', hnext'⟩ := hF c List.mem_cons_self
      exact ⟨hsize'.trans hsize, hnext'.trans hnext,
        ih hnodes fun d hd => hF d (List.mem_cons_of_mem _ hd)⟩

theorem Nodes.frame {m m' : ByteMem} {ps : List ℕ} {F : List (ℕ × ℕ)} {e : ℕ}
    (h : Nodes m F e) (hsame : SameExcept ps m m') (hF : ∀ c ∈ F, ∀ p ∈ ps, Apart c.1 p) :
    Nodes m' F e := h.congr fun c hc => hsame.header (hF c hc)

/-- **Taking a span out**: the one in front of it is linked to the one behind it. -/
theorem Nodes.unlink {m : ByteMem} {F G : List (ℕ × ℕ)} {p t e : ℕ} {c : ℕ × ℕ}
    (h : Nodes m (F ++ (p, t) :: c :: G) e) (hF : ∀ d ∈ F, Apart d.1 p)
    (hG : ∀ d ∈ G, Apart d.1 p) :
    Nodes (setNext m p (next m c.1)) (F ++ (p, t) :: G) e := by
  obtain ⟨hnodesF, hsize, -, -, hnextc, hnodesG⟩ := nodes_append_cons.1 h
  have hsame : SameExcept [p] m (setNext m p (next m c.1)) :=
    sameExcept_setNext List.mem_cons_self m _
  refine nodes_append_cons.2 ⟨hnodesF.frame hsame ?_, ?_, ?_, hnodesG.frame hsame ?_⟩
  · simpa using hF
  · rw [size_setNext, hsize]
  · rw [next_setNext, Nat.mod_eq_of_lt (next_lt m c.1), hnextc]
  · simpa using hG

/-- The last of some spans. -/
theorem exists_snoc_lastAddr (c : ℕ × ℕ) (F : List (ℕ × ℕ)) :
    ∃ G t, c :: F = G ++ [(lastAddr c.1 F, t)] := by
  induction F generalizing c with
  | nil => exact ⟨[], c.2, rfl⟩
  | cons d F ih =>
      obtain ⟨G, t, h⟩ := ih d
      exact ⟨c :: G, t, congrArg (c :: ·) h⟩

/-! ### Reading the list -/

/-- The spans of the list that begins at `p` and ends at `e`; there is no outcome if more of them
are visited than `fuel` allows. -/
def spans (m : ByteMem) (e : ℕ) : ℕ → ℕ → Option (List (ℕ × ℕ))
  | 0, _ => none
  | fuel + 1, p =>
      if p = e then some [] else (spans m e fuel (next m p)).map fun F => (p, size m p) :: F

theorem Nodes.spans_eq {m : ByteMem} {F : List (ℕ × ℕ)} {e fuel : ℕ} (h : Nodes m F e)
    (hF : ∀ c ∈ F, c.1 ≠ e) (hfuel : F.length < fuel) :
    spans m e fuel (headAddr F e) = some F := by
  induction F generalizing fuel with
  | nil =>
      obtain ⟨fuel, rfl⟩ := Nat.exists_eq_succ_of_ne_zero (Nat.ne_of_gt hfuel)
      exact if_pos rfl
  | cons c F ih =>
      obtain ⟨fuel, rfl⟩ := Nat.exists_eq_succ_of_ne_zero (Nat.ne_zero_of_lt hfuel)
      obtain ⟨hsize, hnext, hF'⟩ := h
      rw [headAddr, spans, if_neg (hF c List.mem_cons_self), hnext,
        ih hF' (fun d hd => hF d (List.mem_cons_of_mem _ hd)) (Nat.lt_of_succ_lt_succ hfuel),
        hsize]
      rfl

end FreeList
