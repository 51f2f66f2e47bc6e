/-
**Doubly linked lists in a heap of objects.**

The nodes of a doubly linked list are objects with a pointer to the next node and one to the
previous node.  `Linked h p L q` says that the heap `h` holds the nodes `L`, one linked to the
other in both directions, between a node at `p` and a node at `q` (which are null at the two ends
of a list).

* `Linked.append_iff` — a list is linked exactly when its two parts are, each between the ends of
  the other;
* `Linked.frame` — a list only depends on its own nodes;
* `Linked.snoc`, `Linked.unlink` — linking a node in at the end, and taking one out between two
  others;
* `walk`, `Linked.walk_eq` — following the next pointers until a node passes a test finds the
  first such node of the list.
-/

import WizioPico.ObjHeap

set_option relaxedAutoImplicit false
set_option autoImplicit false

variable {α : Type*}

/-! ### Linked nodes -/

/-- The address of the first node, or `q` if there is none. -/
def headAddr : List (ℕ × α) → ℕ → ℕ
  | [], q => q
  | e :: _, _ => e.1

/-- The address of the last node, or `p` if there is none. -/
def lastAddr : ℕ → List (ℕ × α) → ℕ
  | p, [] => p
  | _, e :: L => lastAddr e.1 L

theorem headAddr_append (L₁ L₂ : List (ℕ × α)) (q : ℕ) :
    headAddr (L₁ ++ L₂) q = headAddr L₁ (headAddr L₂ q) := by
  cases L₁ with
  | nil => rfl
  | cons e L₁ => rfl

theorem lastAddr_append (p : ℕ) (L₁ L₂ : List (ℕ × α)) :
    lastAddr p (L₁ ++ L₂) = lastAddr (lastAddr p L₁) L₂ := by
  induction L₁ generalizing p with
  | nil => rfl
  | cons e L₁ ih => exact ih e.1

@[simp] theorem lastAddr_snoc (p : ℕ) (L : List (ℕ × α)) (e : ℕ × α) :
    lastAddr p (L ++ [e]) = e.1 := by
  rw [lastAddr_append]
  rfl

section
variable (next prev : α → ℕ)

/-- The nodes `L` are in the heap, linked to each other between the addresses `p` and `q`. -/
def Linked (h : ObjHeap α) : ℕ → List (ℕ × α) → ℕ → Prop
  | _, [], _ => True
  | p, e :: L, q =>
      h.load e.1 = some e.2 ∧ prev e.2 = p ∧ next e.2 = headAddr L q ∧ Linked h e.1 L q

variable {next prev}

theorem Linked.append_iff {h : ObjHeap α} {p q : ℕ} {L₁ L₂ : List (ℕ × α)} :
    Linked next prev h p (L₁ ++ L₂) q ↔
      Linked next prev h p L₁ (headAddr L₂ q) ∧ Linked next prev h (lastAddr p L₁) L₂ q := by
  induction L₁ generalizing p with
  | nil => exact ⟨fun h => ⟨trivial, h⟩, fun h => h.2⟩
  | cons e L₁ ih =>
      rw [List.cons_append, Linked, Linked, lastAddr, ih, headAddr_append]
      tauto

/-- A list only depends on its own nodes. -/
theorem Linked.frame {h h' : ObjHeap α} {p q : ℕ} {L : List (ℕ × α)}
    (hL : Linked next prev h p L q) (hh : ∀ e ∈ L, h'.load e.1 = h.load e.1) :
    Linked next prev h' p L q := by
  induction L generalizing p with
  | nil => trivial
  | cons e L ih =>
      obtain ⟨hload, hprev, hnext, hrest⟩ := hL
      refine ⟨(hh e List.mem_cons_self).trans hload, hprev, hnext, ih hrest fun f hf => ?_⟩
      exact hh f (List.mem_cons_of_mem _ hf)

theorem Linked.load_of_mem {h : ObjHeap α} {p q : ℕ} {L : List (ℕ × α)}
    (hL : Linked next prev h p L q) {e : ℕ × α} (he : e ∈ L) : h.load e.1 = some e.2 := by
  induction L generalizing p with
  | nil => cases he
  | cons f L ih =>
      rcases List.mem_cons.1 he with rfl | he
      · exact hL.1
      · exact ih hL.2.2.2 he

/-- **Linking a node in at the end**: the last node is made to point to the new one, and the new
one back to it. -/
theorem Linked.snoc {h h' : ObjHeap α} {p a n : ℕ} {L : List (ℕ × α)} {v v' w : α}
    (hL : Linked next prev h p (L ++ [(a, v)]) 0)
    (ha : h'.load a = some v') (hav : prev v' = prev v) (han : next v' = n)
    (hn : h'.load n = some w) (hnp : prev w = a) (hnn : next w = 0)
    (hh : ∀ e ∈ L, h'.load e.1 = h.load e.1) :
    Linked next prev h' p (L ++ [(a, v'), (n, w)]) 0 := by
  rw [Linked.append_iff] at hL ⊢
  obtain ⟨hL₁, -, hprev, -⟩ := hL
  exact ⟨hL₁.frame hh, ha, hav.trans hprev, han, hn, hnp, hnn, trivial⟩

/-- **Taking a node out** from between two others: the node before it is made to point to the
node behind it, and the other way round. -/
theorem Linked.unlink {h h' : ObjHeap α} {p q x y z : ℕ} {L₁ L₂ : List (ℕ × α)}
    {vx vy vz vx' vz' : α}
    (hL : Linked next prev h p (L₁ ++ (x, vx) :: (y, vy) :: (z, vz) :: L₂) q)
    (hx : h'.load x = some vx') (hxp : prev vx' = prev vx) (hxn : next vx' = z)
    (hz : h'.load z = some vz') (hzp : prev vz' = x) (hzn : next vz' = next vz)
    (hh : ∀ e ∈ L₁ ++ L₂, h'.load e.1 = h.load e.1) :
    Linked next prev h' p (L₁ ++ (x, vx') :: (z, vz') :: L₂) q := by
  rw [Linked.append_iff] at hL ⊢
  obtain ⟨hL₁, -, hprev, -, -, -, -, -, -, hznext, hL₂⟩ := hL
  refine ⟨hL₁.frame fun e he => hh e (List.mem_append_left _ he), hx, hxp.trans hprev, hxn, hz, hzp,
    hzn.trans hznext, hL₂.frame fun e he => hh e (List.mem_append_right _ he)⟩

/-! ### Walking a list -/

/-- Following the next pointers from `p` until a node passes the test: the address of that node,
or null at the end of the list.  There is no outcome if a pointer or the test has none, or if
more nodes are visited than `fuel` allows. -/
def walk (next : α → ℕ) (test : α → Option Bool) (h : ObjHeap α) : ℕ → ℕ → Option ℕ
  | 0, _ => none
  | fuel + 1, p =>
      if p = 0 then some 0
      else (h.load p).bind fun v => (test v).bind fun b =>
        if b then some p else walk next test h fuel (next v)

/-- **A walk finds the first node that passes the test.** -/
theorem Linked.walk_eq {h : ObjHeap α} {test : α → Option Bool} {t : α → Bool} :
    ∀ {L : List (ℕ × α)} {p fuel : ℕ}, Linked next prev h p L 0 →
      (∀ e ∈ L, test e.2 = some (t e.2)) → L.length < fuel →
      walk next test h fuel (headAddr L 0) = some (((L.find? fun e => t e.2).map Prod.fst).getD 0)
  | [], _, fuel + 1, _, _, _ => rfl
  | e :: L, _, fuel + 1, hL, ht, hf => by
      obtain ⟨hload, -, hnext, hrest⟩ := hL
      have hne : e.1 ≠ 0 := ObjHeap.ne_zero_of_load hload
      rw [headAddr, walk, if_neg hne, hload, Option.bind_some, ht e List.mem_cons_self,
        Option.bind_some, hnext]
      cases hte : t e.2 with
      | true => simp [List.find?, hte]
      | false =>
          have ih := walk_eq hrest (fun f hf => ht f (List.mem_cons_of_mem _ hf))
            (Nat.lt_of_succ_lt_succ hf)
          simpa [List.find?, hte] using ih

end
