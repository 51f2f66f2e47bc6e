/-
**A greedy search for a factor.**

A number is split into a product and what is left of it.  The product grows by one factor after the
other: by the first of some factors that divides what is left, or else by a last one, which may
leave a remainder behind.

* `FactorSearch.Rule` — the factors and the limits;
* `Rule.factor`, `Rule.Grows` — the factor that is next, and one step;
* `Rule.Reaches` — the products that the search comes by;
* `Reaches.le_of_full` — **the search has passed them all when no factor is left**.
-/

import Mathlib.Data.Nat.Basic
import Mathlib.Logic.Relation

set_option relaxedAutoImplicit false
set_option autoImplicit false

namespace FactorSearch

/-- The factors that have to divide, the one that need not, the least number that may be left, and
the largest product. -/
structure Rule where
  divisors : List ℕ
  last : ℕ
  low : ℕ
  bound : ℕ
  two_le_divisors : ∀ p ∈ divisors, 2 ≤ p
  two_le_last : 2 ≤ last

namespace Rule

/-- A factor is within the limits. -/
def Fits (R : Rule) (n t p : ℕ) : Prop := R.low * p ≤ n / t ∧ t * p ≤ R.bound

instance (R : Rule) (n t p : ℕ) : Decidable (R.Fits n t p) :=
  inferInstanceAs (Decidable (_ ∧ _))

/-- The first of some factors that divides what is left, or else the last one. -/
def firstFit (R : Rule) (n t : ℕ) : List ℕ → Option ℕ
  | [] => if R.Fits n t R.last then some R.last else none
  | p :: ps => if p ∣ n / t ∧ R.Fits n t p then some p else R.firstFit n t ps

/-- The factor that is next. -/
def factor (R : Rule) (n t : ℕ) : Option ℕ := R.firstFit n t R.divisors

/-- The product grows by the next factor. -/
def Grows (R : Rule) (n t t' : ℕ) : Prop := ∃ p, R.factor n t = some p ∧ t' = t * p

/-- The products that the search comes by. -/
def Reaches (R : Rule) (n t : ℕ) : Prop := Relation.ReflTransGen (R.Grows n) 1 t

section

variable {R : Rule} {n t t' p : ℕ}

theorem fits_of_firstFit {ps : List ℕ} (h : R.firstFit n t ps = some p) : R.Fits n t p := by
  induction ps with
  | nil =>
      rw [firstFit] at h
      split at h
      · rename_i hfits
        exact Option.some.inj h ▸ hfits
      · cases h
  | cons q ps ih =>
      rw [firstFit] at h
      split at h
      · rename_i hfits
        exact Option.some.inj h ▸ hfits.2
      · exact ih h

theorem two_le_of_firstFit {ps : List ℕ} (hps : ∀ q ∈ ps, 2 ≤ q) (h : R.firstFit n t ps = some p) :
    2 ≤ p := by
  induction ps with
  | nil =>
      rw [firstFit] at h
      split at h
      · exact Option.some.inj h ▸ R.two_le_last
      · cases h
  | cons q ps ih =>
      rw [firstFit] at h
      split at h
      · exact Option.some.inj h ▸ hps q List.mem_cons_self
      · exact ih (fun q' hq' => hps q' (List.mem_cons_of_mem q hq')) h

theorem not_fits_of_firstFit {ps : List ℕ} (h : R.firstFit n t ps = none) :
    ¬R.Fits n t R.last := by
  induction ps with
  | nil =>
      intro hfits
      rw [firstFit, if_pos hfits] at h
      cases h
  | cons q ps ih =>
      rw [firstFit] at h
      split at h
      · cases h
      · exact ih h

/-- The next factor is within the limits. -/
theorem fits_of_factor (h : R.factor n t = some p) : R.Fits n t p := fits_of_firstFit h

theorem two_le_of_factor (h : R.factor n t = some p) : 2 ≤ p :=
  two_le_of_firstFit R.two_le_divisors h

theorem pos_of_factor (h : R.factor n t = some p) : 0 < p :=
  Nat.lt_of_lt_of_le Nat.two_pos (two_le_of_factor h)

/-- If there is no factor left, the last one is out of the limits. -/
theorem not_fits_of_full (h : R.factor n t = none) : ¬R.Fits n t R.last := not_fits_of_firstFit h

theorem Grows.rightUnique (R : Rule) (n : ℕ) : Relator.RightUnique (R.Grows n) := by
  intro t t₁ t₂ h₁ h₂
  obtain ⟨p, hp, rfl⟩ := h₁
  obtain ⟨q, hq, rfl⟩ := h₂
  rw [hp] at hq
  rw [Option.some.inj hq]

/-- A product that has been reached leaves at least what it has to. -/
theorem Reaches.low_le (h : R.Reaches n t) (hn : R.low ≤ n) : R.low ≤ n / t := by
  induction h with
  | refl => rwa [Nat.div_one]
  | tail _ hgrows _ =>
      obtain ⟨p, hp, rfl⟩ := hgrows
      rw [← Nat.div_div_eq_div_mul, Nat.le_div_iff_mul_le (pos_of_factor hp)]
      exact (fits_of_factor hp).1

/-- A search only comes by larger products. -/
theorem le_of_reaches_from (h : Relation.ReflTransGen (R.Grows n) t t') : t ≤ t' := by
  induction h with
  | refl => exact Nat.le_refl t
  | tail _ hgrows ih =>
      obtain ⟨p, hp, rfl⟩ := hgrows
      exact Nat.le_trans ih (Nat.le_mul_of_pos_right _ (pos_of_factor hp))

/-- **The search has passed all its products when no factor is left.** -/
theorem Reaches.le_of_full (hreach : R.Reaches n t) (hfull : R.factor n t = none)
    (h : R.Reaches n t') : t' ≤ t := by
  rcases Relation.ReflTransGen.total_of_right_unique (Grows.rightUnique R n) hreach h with
    hafter | hbefore
  · rcases Relation.ReflTransGen.cases_head hafter with rfl | ⟨s, ⟨p, hp, -⟩, -⟩
    · exact Nat.le_refl _
    · rw [hfull] at hp
      cases hp
  · exact le_of_reaches_from hbefore

end

end Rule

end FactorSearch
