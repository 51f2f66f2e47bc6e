/-
**Chains in a table of links.**

A table says of each of its places which one comes next, or that none does.  A chain is a list of
places, each of which is followed by the next one, up to one that none follows.  Several chains that
do not meet are a forest; it stays one when a place that is not on it becomes a new chain or is put
behind a chain, and when a chain is cut off or given up.

* `Chains.Chain` — the chains;
* `Chains.Chain.unique`, `Chains.Chain.nodup` — from one place on there is one chain, and it comes
  to no place twice;
* `Chains.Chain.congr` — a chain is a matter of its own places;
* `Chains.Forest` — chains that do not meet;
* `Chains.Forest.cons`, `Chains.Forest.snoc`, `Chains.Forest.cut`, `Chains.Forest.erase` — **what
  can be done to one of them**.
-/

import Mathlib.Data.List.Nodup

set_option relaxedAutoImplicit false
set_option autoImplicit false

namespace Chains

variable {α : Type*} {next next' : α → Option α} {a b : α} {l l' p s : List α}

/-! ### One chain -/

/-- The places of a chain, in order. -/
def Chain (next : α → Option α) : List α → Prop
  | [] => False
  | [a] => next a = none
  | a :: b :: l => next a = some b ∧ Chain next (b :: l)

@[simp] theorem chain_singleton : Chain next [a] ↔ next a = none := Iff.rfl

@[simp] theorem chain_cons_cons :
    Chain next (a :: b :: l) ↔ next a = some b ∧ Chain next (b :: l) := Iff.rfl

theorem Chain.ne_nil (h : Chain next l) : l ≠ [] := by
  rintro rfl
  exact h

/-- The end of a chain is one. -/
theorem Chain.suffix (h : Chain next (p ++ a :: s)) : Chain next (a :: s) := by
  induction p with
  | nil => exact h
  | cons b p ih =>
      cases p with
      | nil => exact h.2
      | cons c p => exact ih h.2

/-- **From one place on there is one chain.** -/
theorem Chain.unique (h : Chain next (a :: l)) (h' : Chain next (a :: l')) : l = l' := by
  induction l generalizing a l' with
  | nil =>
      cases l' with
      | nil => rfl
      | cons b l' =>
          have hnone : next a = none := h
          rw [h'.1] at hnone
          cases hnone
  | cons b l ih =>
      cases l' with
      | nil =>
          have hnone : next a = none := h'
          rw [h.1] at hnone
          cases hnone
      | cons c l' =>
          have heq := h.1.symm.trans h'.1
          cases heq
          rw [ih h.2 h'.2]

/-- **A chain comes to no place twice**: behind it would be the same chain again, which is too
long. -/
theorem Chain.nodup (h : Chain next l) : l.Nodup := by
  induction l with
  | nil => exact List.nodup_nil
  | cons a l ih =>
      refine List.nodup_cons.2 ⟨fun hmem => ?_, ?_⟩
      · obtain ⟨p, s, rfl⟩ := List.append_of_mem hmem
        have hagain := Chain.suffix (p := a :: p) h
        have heq := congrArg List.length (h.unique hagain)
        simp at heq
        omega
      · cases l with
        | nil => exact List.nodup_nil
        | cons b l => exact ih h.2

/-- **A chain is a matter of its own places.** -/
theorem Chain.congr (h : Chain next l) (heq : ∀ a ∈ l, next' a = next a) : Chain next' l := by
  induction l with
  | nil => exact h
  | cons a l ih =>
      cases l with
      | nil =>
          exact (heq a List.mem_cons_self).trans h
      | cons b l =>
          exact ⟨(heq a List.mem_cons_self).trans h.1,
            ih h.2 fun c hc => heq c (List.mem_cons_of_mem a hc)⟩

/-- Each place but the last one is followed by one of the chain. -/
theorem Chain.next_mem (h : Chain next l) (ha : a ∈ l) (hb : next a = some b) : b ∈ l := by
  induction l with
  | nil => cases ha
  | cons c l ih =>
      cases l with
      | nil =>
          obtain rfl := List.mem_singleton.1 ha
          have hnone : next a = none := h
          rw [hb] at hnone
          cases hnone
      | cons d l =>
          rcases List.mem_cons.1 ha with rfl | ha
          · have heq := h.1.symm.trans hb
            cases heq
            exact List.mem_cons_of_mem _ List.mem_cons_self
          · exact List.mem_cons_of_mem c (ih h.2 ha)

/-- What follows the element of number `i` is the next one in the list. -/
theorem Chain.next_eq_getElem? (h : Chain next l) {i : ℕ} (ha : l[i]? = some a) :
    next a = l[i + 1]? := by
  induction l generalizing i with
  | nil => cases ha
  | cons c l ih =>
      cases l with
      | nil =>
          cases i with
          | zero =>
              cases ha
              exact h
          | succ i => cases ha
      | cons d l =>
          cases i with
          | zero =>
              cases ha
              exact h.1
          | succ i => exact ih h.2 ha

/-- **A place behind a chain.** -/
theorem Chain.snoc (h : Chain next (p ++ [a])) (ha : next' a = some b) (hb : next' b = none)
    (heq : ∀ c ∈ p, next' c = next c) : Chain next' (p ++ [a, b]) := by
  induction p with
  | nil => exact ⟨ha, hb⟩
  | cons c p ih =>
      have hc := heq c List.mem_cons_self
      cases p with
      | nil => exact ⟨hc.trans h.1, ha, hb⟩
      | cons d p =>
          exact ⟨hc.trans h.1, ih h.2 fun e he => heq e (List.mem_cons_of_mem c he)⟩

/-- **A chain that is cut off.** -/
theorem Chain.cut (h : Chain next (p ++ a :: s)) (ha : next' a = none)
    (heq : ∀ c ∈ p, next' c = next c) : Chain next' (p ++ [a]) := by
  induction p with
  | nil => exact ha
  | cons c p ih =>
      have hc := heq c List.mem_cons_self
      cases p with
      | nil => exact ⟨hc.trans h.1, ha⟩
      | cons d p =>
          exact ⟨hc.trans h.1, ih h.2 fun e he => heq e (List.mem_cons_of_mem c he)⟩

/-! ### Several chains -/

/-- Chains that do not meet. -/
structure Forest (next : α → Option α) (ls : List (List α)) : Prop where
  chain : ∀ l ∈ ls, Chain next l
  nodup : ls.flatten.Nodup

variable {ls ls' : List (List α)}

theorem forest_nil : Forest next [] := ⟨nofun, List.nodup_nil⟩

theorem Forest.perm (h : Forest next ls) (hp : ls.Perm ls') : Forest next ls' :=
  ⟨fun l hl => h.chain l (hp.mem_iff.2 hl), (hp.flatten.nodup_iff).1 h.nodup⟩

/-- **Two chains of a forest have no place in common.** -/
theorem Forest.disjoint (h : Forest next (l :: ls)) (ha : a ∈ l) (hl : l' ∈ ls) : a ∉ l' := by
  intro ha'
  have hnodup := h.nodup
  rw [List.flatten_cons, List.nodup_append] at hnodup
  exact hnodup.2.2 a ha a (List.mem_flatten.2 ⟨l', hl, ha'⟩) rfl

/-- The links of the other chains are as before. -/
theorem Forest.congr (h : Forest next ls) (heq : ∀ l ∈ ls, ∀ a ∈ l, next' a = next a) :
    Forest next' ls :=
  ⟨fun l hl => (h.chain l hl).congr (heq l hl), h.nodup⟩

/-- One of the chains becomes another one, of which the places are its own or new ones. -/
theorem Forest.replace (h : Forest next (l :: ls)) (hchain : Chain next' l')
    (hnew : ∀ a ∈ l', a ∈ l ∨ ∀ k ∈ ls, a ∉ k)
    (heq : ∀ k ∈ ls, ∀ a ∈ k, next' a = next a) : Forest next' (l' :: ls) where
  chain k hk := by
    rcases List.mem_cons.1 hk with rfl | hk
    · exact hchain
    · exact (h.chain k (List.mem_cons_of_mem l hk)).congr (heq k hk)
  nodup := by
    have hnodup := h.nodup
    rw [List.flatten_cons, List.nodup_append] at hnodup ⊢
    refine ⟨hchain.nodup, hnodup.2.1, ?_⟩
    rintro a ha b hb rfl
    obtain ⟨k, hk, hak⟩ := List.mem_flatten.1 hb
    rcases hnew a ha with hal | hout
    · exact hnodup.2.2 a hal a hb rfl
    · exact hout k hk hak

/-- **One of the chains is given up.** -/
theorem Forest.erase (h : Forest next (l :: ls)) (heq : ∀ k ∈ ls, ∀ a ∈ k, next' a = next a) :
    Forest next' ls where
  chain k hk := (h.chain k (List.mem_cons_of_mem l hk)).congr (heq k hk)
  nodup := by
    have hnodup := h.nodup
    rw [List.flatten_cons, List.nodup_append] at hnodup
    exact hnodup.2.1

/-- **A new chain**, of one place that is on none. -/
theorem Forest.cons (h : Forest next ls) (hb : next' b = none) (hnew : ∀ k ∈ ls, b ∉ k)
    (heq : ∀ a, a ≠ b → next' a = next a) : Forest next' ([b] :: ls) where
  chain k hk := by
    rcases List.mem_cons.1 hk with rfl | hk
    · exact hb
    · exact (h.chain k hk).congr fun a ha => heq a fun hab => hnew k hk (hab ▸ ha)
  nodup := by
    rw [List.flatten_cons, List.nodup_append]
    refine ⟨List.nodup_singleton b, h.nodup, ?_⟩
    rintro a ha c hc rfl
    obtain ⟨k, hk, hak⟩ := List.mem_flatten.1 hc
    rw [List.mem_singleton.1 ha] at hak
    exact hnew k hk hak

/-- **One of the chains gets longer**, by a place that is on none. -/
theorem Forest.snoc (h : Forest next ((p ++ [a]) :: ls)) (ha : next' a = some b)
    (hb : next' b = none) (hnew : ∀ k ∈ (p ++ [a]) :: ls, b ∉ k)
    (heq : ∀ c, c ≠ a → c ≠ b → next' c = next c) : Forest next' ((p ++ [a, b]) :: ls) := by
  have hchain := h.chain _ List.mem_cons_self
  have hlast : a ∉ p := by
    have hnodup := hchain.nodup
    rw [List.nodup_append] at hnodup
    exact fun hmem => hnodup.2.2 a hmem a List.mem_cons_self rfl
  refine h.replace (hchain.snoc ha hb fun c hc => heq c ?_ ?_) (fun c hc => ?_) fun k hk c hc =>
    heq c ?_ ?_
  · rintro rfl
    exact hlast hc
  · rintro rfl
    exact hnew _ List.mem_cons_self (List.mem_append_left _ hc)
  · rw [List.mem_append, List.mem_cons, List.mem_singleton] at hc
    rw [List.mem_append, List.mem_singleton]
    rcases hc with hc | rfl | rfl
    · exact Or.inl (Or.inl hc)
    · exact Or.inl (Or.inr rfl)
    · exact Or.inr fun k hk => hnew k (List.mem_cons_of_mem _ hk)
  · rintro rfl
    exact h.disjoint (List.mem_append_right p List.mem_cons_self) hk hc
  · rintro rfl
    exact hnew k (List.mem_cons_of_mem _ hk) hc

/-- **One of the chains is cut off**; what becomes of the rest of it does not matter. -/
theorem Forest.cut (h : Forest next ((p ++ a :: s) :: ls)) (ha : next' a = none)
    (heq : ∀ c, c ≠ a → c ∉ s → next' c = next c) : Forest next' ((p ++ [a]) :: ls) := by
  have hchain := h.chain _ List.mem_cons_self
  have hnodup := hchain.nodup
  rw [List.nodup_append] at hnodup
  refine h.replace (hchain.cut ha fun c hc => heq c ?_ ?_) (fun c hc => Or.inl ?_)
    fun k hk c hc => heq c ?_ ?_
  · rintro rfl
    exact hnodup.2.2 c hc c List.mem_cons_self rfl
  · exact fun hmem => hnodup.2.2 c hc c (List.mem_cons_of_mem a hmem) rfl
  · rw [List.mem_append, List.mem_singleton] at hc
    rcases hc with hc | rfl
    · exact List.mem_append_left _ hc
    · exact List.mem_append_right p List.mem_cons_self
  · rintro rfl
    exact h.disjoint (List.mem_append_right p List.mem_cons_self) hk hc
  · exact fun hmem =>
      h.disjoint (List.mem_append_right p (List.mem_cons_of_mem a hmem)) hk hc

end Chains
