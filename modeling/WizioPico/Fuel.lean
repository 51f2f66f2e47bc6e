/-
**Loops with fuel.**

A loop that is written with fuel has no outcome when it runs out of it.  It returns something if it
does so from some fuel on.

* `Fuel.Returns` — what a computation returns;
* `Fuel.Returns.unique` — it returns one thing;
* `Fuel.Returns.map`, `Fuel.Returns.bind`, and `Fuel.returns_map_iff`, `Fuel.returns_bind_iff` —
  computations after one another;
* `Fuel.whileLoop` — a loop;
* `Fuel.Stops` — going on from a number, one comes to another one and no further;
* `Fuel.returns_whileLoop_iff` — **a loop returns the first state in which it does not go on**.
-/

import Mathlib.Data.Nat.Find
import Mathlib.Data.Nat.Notation
import Mathlib.Data.Option.Basic

set_option relaxedAutoImplicit false
set_option autoImplicit false

namespace Fuel

variable {α β : Type*}

/-- **With enough fuel** the outcome is `a`. -/
def Returns (f : ℕ → Option α) (a : α) : Prop := ∃ n, ∀ m, n ≤ m → f m = some a

/-- A computation that needs no fuel. -/
theorem returns_some (a : α) : Returns (fun _ => some a) a := ⟨0, fun _ _ => rfl⟩

theorem Returns.unique {f : ℕ → Option α} {a b : α} (ha : Returns f a) (hb : Returns f b) :
    a = b := by
  obtain ⟨n, hn⟩ := ha
  obtain ⟨m, hm⟩ := hb
  have heq := (hn (max n m) (Nat.le_max_left n m)).symm.trans (hm _ (Nat.le_max_right n m))
  exact Option.some.inj heq

theorem Returns.map {f : ℕ → Option α} {a : α} (h : Returns f a) (g : α → β) :
    Returns (fun n => (f n).map g) (g a) := by
  obtain ⟨n, hn⟩ := h
  exact ⟨n, fun m hm => congrArg (Option.map g) (hn m hm)⟩

/-- A computation that needs one unit of fuel more. -/
theorem Returns.succ {f g : ℕ → Option α} {a : α} (h : Returns f a) (hg : ∀ n, g (n + 1) = f n) :
    Returns g a := by
  obtain ⟨n, hn⟩ := h
  refine ⟨n + 1, fun m hm => ?_⟩
  obtain ⟨m, rfl⟩ := Nat.exists_eq_add_of_le' (Nat.le_trans (Nat.le_add_left 1 n) hm)
  rw [hg, hn m (Nat.le_of_succ_le_succ hm)]

/-- A computation that does not change its outcome when it gets more fuel. -/
theorem returns_of_mono {f : ℕ → Option α} (hmono : ∀ n a, f n = some a → f (n + 1) = some a)
    {n : ℕ} {a : α} (h : f n = some a) : Returns f a := by
  refine ⟨n, fun m hm => ?_⟩
  induction hm with
  | refl => exact h
  | step _ ih => exact hmono _ a ih

/-- One computation after another. -/
theorem Returns.bind {f : ℕ → Option α} {a : α} {g : ℕ → α → Option β} {b : β}
    (hf : Returns f a) (hg : Returns (fun n => g n a) b) :
    Returns (fun n => (f n).bind (g n)) b := by
  obtain ⟨n, hn⟩ := hf
  obtain ⟨m, hm⟩ := hg
  refine ⟨max n m, fun k hk => ?_⟩
  dsimp only
  rw [hn k (Nat.le_trans (Nat.le_max_left n m) hk), Option.bind_some]
  exact hm k (Nat.le_trans (Nat.le_max_right n m) hk)

/-- One computation after another, where the first one does not change its outcome. -/
theorem returns_bind_iff {f : ℕ → Option α} {g : ℕ → α → Option β} {b : β}
    (hmono : ∀ n a, f n = some a → f (n + 1) = some a) :
    Returns (fun n => (f n).bind (g n)) b ↔ ∃ a, Returns f a ∧ Returns (fun n => g n a) b := by
  constructor
  · rintro ⟨n, hn⟩
    obtain ⟨a, ha, -⟩ := Option.bind_eq_some_iff.1 (hn n (Nat.le_refl n))
    obtain ⟨k, hk⟩ := returns_of_mono hmono ha
    refine ⟨a, ⟨k, hk⟩, max n k, fun m hm => ?_⟩
    have hboth : (f m).bind (g m) = some b := hn m (Nat.le_trans (Nat.le_max_left n k) hm)
    rwa [hk m (Nat.le_trans (Nat.le_max_right n k) hm), Option.bind_some] at hboth
  · rintro ⟨a, hf, hg⟩
    exact hf.bind hg

theorem returns_map_iff {f : ℕ → Option α} {g : α → β} {b : β}
    (hmono : ∀ n a, f n = some a → f (n + 1) = some a) :
    Returns (fun n => (f n).map g) b ↔ ∃ a, Returns f a ∧ b = g a := by
  constructor
  · rintro ⟨n, hn⟩
    obtain ⟨a, ha, hb⟩ := Option.map_eq_some_iff.1 (hn n (Nat.le_refl n))
    exact ⟨a, returns_of_mono hmono ha, hb.symm⟩
  · rintro ⟨a, hf, rfl⟩
    exact hf.map g

/-! ### Going on -/

/-- **Going on from `i`** one comes to `j`, and no further. -/
def Stops (go : ℕ → Prop) (i j : ℕ) : Prop := i ≤ j ∧ (∀ k, i ≤ k → k < j → go k) ∧ ¬go j

variable {go go' : ℕ → Prop} {i j k : ℕ}

theorem Stops.unique (hj : Stops go i j) (hk : Stops go i k) : j = k := by
  obtain ⟨hij, hbefore, hstop⟩ := hj
  obtain ⟨hik, hbefore', hstop'⟩ := hk
  rcases Nat.lt_trichotomy j k with h | h | h
  · exact absurd (hbefore' j hij h) hstop
  · exact h
  · exact absurd (hbefore k hik h) hstop'

/-- Going on ends before anything that it does not pass. -/
theorem exists_stops (hik : i ≤ k) (h : ¬go k) : ∃ j, Stops go i j ∧ j ≤ k := by
  classical
  have hex : ∃ j, i ≤ j ∧ ¬go j := ⟨k, hik, h⟩
  obtain ⟨hij, hstop⟩ := Nat.find_spec hex
  refine ⟨Nat.find hex, ⟨hij, fun m him hm => ?_, hstop⟩, Nat.find_min' hex ⟨hik, h⟩⟩
  by_contra hno
  exact Nat.find_min hex hm ⟨him, hno⟩

/-- Only what is passed counts, and where one comes to. -/
theorem Stops.congr (h : Stops go i j) (heq : ∀ k, i ≤ k → k ≤ j → (go' k ↔ go k)) :
    Stops go' i j := by
  obtain ⟨hij, hbefore, hstop⟩ := h
  refine ⟨hij, fun k hik hkj => (heq k hik (Nat.le_of_lt hkj)).2 (hbefore k hik hkj), ?_⟩
  rwa [heq j hij (Nat.le_refl j)]

/-! ### Loops -/

section

variable {σ : Type*} (cond : σ → Bool) (body : σ → σ)

/-- `while (cond) body`. -/
def whileLoop : ℕ → σ → Option σ
  | 0, _ => none
  | fuel + 1, s => if cond s then whileLoop fuel (body s) else some s

variable {cond body}

theorem whileLoop_succ (fuel : ℕ) (s : σ) :
    whileLoop cond body (fuel + 1) s =
      if cond s then whileLoop cond body fuel (body s) else some s := rfl

/-- A loop that has ended does so with more fuel as well. -/
theorem whileLoop_mono (n : ℕ) {s t : σ} (h : whileLoop cond body n s = some t) :
    whileLoop cond body (n + 1) s = some t := by
  induction n generalizing s with
  | zero => cases h
  | succ n ih =>
      rw [whileLoop_succ] at h ⊢
      split at h
      · rename_i hcond
        rw [if_pos hcond]
        exact ih h
      · rename_i hcond
        rw [if_neg hcond]
        exact h

section

variable {path : ℕ → σ} {t : σ}

/-- What a loop returns is a state that its body leads to. -/
theorem stops_of_whileLoop {n : ℕ} (hpath : ∀ k, i ≤ k → body (path k) = path (k + 1))
    (h : whileLoop cond body n (path i) = some t) :
    ∃ j, Stops (fun k => cond (path k) = true) i j ∧ t = path j := by
  induction n generalizing i with
  | zero => cases h
  | succ n ih =>
      rw [whileLoop_succ] at h
      split at h
      · rename_i hcond
        rw [hpath i (Nat.le_refl i)] at h
        obtain ⟨j, ⟨hij, hbefore, hstop⟩, ht⟩ := ih (fun k hk => hpath k (Nat.le_of_succ_le hk)) h
        refine ⟨j, ⟨Nat.le_of_succ_le hij, fun k hik hkj => ?_, hstop⟩, ht⟩
        rcases Nat.eq_or_lt_of_le hik with rfl | hlt
        · exact hcond
        · exact hbefore k hlt hkj
      · rename_i hcond
        exact ⟨i, ⟨Nat.le_refl i, fun k hik hki => absurd hik (Nat.not_le_of_lt hki), hcond⟩,
          (Option.some.inj h).symm⟩

/-- A loop that goes on `d` times. -/
theorem whileLoop_add {d : ℕ} (hpath : ∀ k, i ≤ k → body (path k) = path (k + 1))
    (hbefore : ∀ k, i ≤ k → k < i + d → cond (path k) = true)
    (hstop : ¬cond (path (i + d)) = true) :
    whileLoop cond body (d + 1) (path i) = some (path (i + d)) := by
  induction d generalizing i with
  | zero => exact if_neg hstop
  | succ d ih =>
      have hsum : i + (d + 1) = i + 1 + d := by omega
      rw [hsum] at hstop hbefore ⊢
      rw [whileLoop_succ, if_pos (hbefore i (Nat.le_refl i) (by omega)), hpath i (Nat.le_refl i)]
      exact ih (fun k hk => hpath k (Nat.le_of_succ_le hk))
        (fun k hik => hbefore k (Nat.le_of_succ_le hik)) hstop

/-- **A loop returns the first state in which it does not go on**, of the states that its body leads
through. -/
theorem returns_whileLoop_iff (cond : σ → Bool) (path : ℕ → σ)
    (hpath : ∀ k, i ≤ k → body (path k) = path (k + 1)) :
    Returns (fun n => whileLoop cond body n (path i)) t ↔
      ∃ j, Stops (fun k => cond (path k) = true) i j ∧ t = path j := by
  constructor
  · rintro ⟨n, hn⟩
    exact stops_of_whileLoop hpath (hn n (Nat.le_refl n))
  · rintro ⟨j, ⟨hij, hbefore, hstop⟩, rfl⟩
    obtain ⟨d, rfl⟩ := Nat.exists_eq_add_of_le hij
    exact returns_of_mono (fun n _ h => whileLoop_mono n h) (whileLoop_add hpath hbefore hstop)

end

end

end Fuel
