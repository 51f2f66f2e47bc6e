/-
**Machines with results, and bounded queues.**

A machine answers every input with a result: `step : σ → ι → σ × ο`.  Two machines are compared by
the results of their runs, whatever their states are.

* `Transducer.after`, `Transducer.outputs` — the state after a run, and its results;
* `Transducer.simulation` — **the simulation rule**: a map between the states that every step
  respects is respected by the runs;
* `Transducer.outputs_congr` — two step functions that agree as long as a property holds have the
  same runs as long as it does;
* `Fifo.step` — the machine that is a queue of bounded length;
* `Fifo.outputs_eq` — queues of two lengths have the same results as long as the shorter one is long
  enough.
-/

import Mathlib.Data.List.Basic
import Mathlib.Data.Nat.Notation

set_option relaxedAutoImplicit false
set_option autoImplicit false

namespace Transducer

variable {σ τ ι ο ο' : Type*}

/-! ### Runs -/

/-- The state after a run. -/
def after (step : σ → ι → σ × ο) : σ → List ι → σ
  | s, [] => s
  | s, i :: is => after step (step s i).1 is

/-- The results of a run, one for each input. -/
def outputs (step : σ → ι → σ × ο) : σ → List ι → List ο
  | _, [] => []
  | s, i :: is => (step s i).2 :: outputs step (step s i).1 is

@[simp] theorem after_nil (step : σ → ι → σ × ο) (s : σ) : after step s [] = s := rfl

@[simp] theorem after_cons (step : σ → ι → σ × ο) (s : σ) (i : ι) (is : List ι) :
    after step s (i :: is) = after step (step s i).1 is := rfl

@[simp] theorem outputs_nil (step : σ → ι → σ × ο) (s : σ) : outputs step s [] = [] := rfl

@[simp] theorem outputs_cons (step : σ → ι → σ × ο) (s : σ) (i : ι) (is : List ι) :
    outputs step s (i :: is) = (step s i).2 :: outputs step (step s i).1 is := rfl

/-- What every step keeps, a run keeps. -/
theorem after_invariant {step : σ → ι → σ × ο} {P : σ → Prop}
    (hstep : ∀ s i, P s → P (step s i).1) (is : List ι) {s : σ} (h : P s) :
    P (after step s is) := by
  induction is generalizing s with
  | nil => exact h
  | cons i is ih => exact ih (hstep s i h)

/-! ### Comparing two machines -/

/-- **The simulation rule.**  `abs` maps the states of a machine to those of another one, and `f`
the results of that one back. -/
theorem simulation {step : σ → ι → σ × ο} {step' : τ → ι → τ × ο'} {abs : σ → τ} {f : ο' → ο}
    (hstate : ∀ s i, abs (step s i).1 = (step' (abs s) i).1)
    (hresult : ∀ s i, (step s i).2 = f (step' (abs s) i).2) (s : σ) (is : List ι) :
    abs (after step s is) = after step' (abs s) is ∧
      outputs step s is = (outputs step' (abs s) is).map f := by
  induction is generalizing s with
  | nil => simp
  | cons i is ih =>
      obtain ⟨ihstate, ihresults⟩ := ih (step s i).1
      rw [hstate] at ihstate ihresults
      constructor
      · rw [after_cons, after_cons, ihstate]
      · rw [outputs_cons, outputs_cons, List.map_cons, hresult, ihresults]

/-- **Two step functions that agree** whenever the next state has a property. -/
theorem outputs_congr {step step' : σ → ι → σ × ο} {P : σ → Prop}
    (h : ∀ s i, P (step s i).1 → step' s i = step s i) (is : List ι) {s : σ}
    (hP : ∀ pre, pre <+: is → P (after step s pre)) :
    outputs step' s is = outputs step s is := by
  induction is generalizing s with
  | nil => rfl
  | cons i is ih =>
      have hfirst : step' s i = step s i := h s i (hP [i] ⟨is, rfl⟩)
      have hrest : ∀ pre, pre <+: is → P (after step (step s i).1 pre) := by
        intro pre hpre
        exact hP (i :: pre) ((List.prefix_cons_inj i).2 hpre)
      rw [outputs_cons, outputs_cons, hfirst, ih hrest]

end Transducer

namespace Fifo

variable {α : Type*}

/-! ### Bounded queues -/

/-- What can be asked of a queue. -/
inductive Call (α : Type*) where
  | store (a : α)
  | take
  | peek
  | count
  | clear
  deriving DecidableEq

/-- What it answers; there is no element if it is empty. -/
inductive Answer (α : Type*) where
  | done
  | element (a : Option α)
  | number (n : ℕ)
  deriving DecidableEq

/-- **The queue of at most `cap` elements**; what does not fit is dropped. -/
def step (cap : ℕ) (q : List α) : Call α → List α × Answer α
  | .store a => (if q.length < cap then q ++ [a] else q, .done)
  | .take => (q.tail, .element q.head?)
  | .peek => (q, .element q.head?)
  | .count => (q, .number q.length)
  | .clear => ([], .done)

theorem length_step_le {cap : ℕ} {q : List α} (c : Call α) (h : q.length ≤ cap) :
    (step cap q c).1.length ≤ cap := by
  cases c with
  | store a =>
      simp only [step]
      split
      · simp
        omega
      · exact h
  | take =>
      simp [step]
      omega
  | peek => exact h
  | count => exact h
  | clear => simp [step]

/-- It never holds more. -/
theorem length_after_le (cap : ℕ) (calls : List (Call α)) :
    (Transducer.after (step cap) [] calls).length ≤ cap :=
  Transducer.after_invariant (P := fun q : List α => q.length ≤ cap)
    (fun _ c h => length_step_le c h) calls (Nat.zero_le cap)

/-- A shorter queue does the same if it is long enough afterwards. -/
theorem step_eq {cap cap' : ℕ} (hle : cap' ≤ cap) (q : List α) (c : Call α)
    (h : (step cap q c).1.length ≤ cap') : step cap' q c = step cap q c := by
  cases c with
  | store a =>
      simp only [step] at h ⊢
      by_cases hlt : q.length < cap
      · rw [if_pos hlt, List.length_append, List.length_singleton] at h
        rw [if_pos hlt, if_pos (by omega)]
      · rw [if_neg hlt, if_neg (by omega)]
  | take => rfl
  | peek => rfl
  | count => rfl
  | clear => rfl

/-- **Queues of two lengths** have the same results as long as the shorter one is long enough. -/
theorem outputs_eq {cap cap' : ℕ} (hle : cap' ≤ cap) (calls : List (Call α))
    (h : ∀ pre, pre <+: calls → (Transducer.after (step cap) [] pre).length ≤ cap') :
    Transducer.outputs (step cap') [] calls = Transducer.outputs (step cap) [] calls :=
  Transducer.outputs_congr (P := fun q : List α => q.length ≤ cap')
    (fun q c => step_eq hle q c) calls h

end Fifo
