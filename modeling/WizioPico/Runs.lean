/-
**Runs of a partial step function.**

A system is a step function `step : σ → ι → Option σ`: in the state `s` the input `i` is either
answered with a next state, or it has no defined outcome (`none`), because the input is not one
the environment may send or because the program does something its language gives no meaning to.
A run is a list of inputs; it is folded through the step function.

The module packages the two inductions that every statement about runs uses.

* `Runs.Reach` — the states some run leads to, with `Runs.Reach.invariant`: what holds at the start
  and is kept by every step holds in every reachable state;
* `Runs.Every` — a property of every step of a run, with `Runs.every_of_invariant`,
  `Runs.Every.mp`, `Runs.every_append`, and `Runs.every_iff`: two properties that agree in every
  state of an invariant hold along the same runs, even if the invariant is only kept by the steps
  that have the second of them;
* `Runs.every_forall_iff` — a property of the inputs alone holds along a run exactly when it
  holds of every input, as long as the run does not get stuck.
-/

import Mathlib.Data.List.Basic

set_option relaxedAutoImplicit false
set_option autoImplicit false

namespace Runs

variable {σ ι : Type*}

/-! ### Reachable states -/

/-- The state a run ends in, if every step of it has an outcome. -/
def exec (step : σ → ι → Option σ) : σ → List ι → Option σ
  | s, [] => some s
  | s, i :: is => (step s i).bind fun s' => exec step s' is

@[simp] theorem exec_nil (step : σ → ι → Option σ) (s : σ) : exec step s [] = some s := rfl

theorem exec_cons (step : σ → ι → Option σ) (s : σ) (i : ι) (is : List ι) :
    exec step s (i :: is) = (step s i).bind fun s' => exec step s' is := rfl

/-- A run in two parts. -/
theorem exec_append (step : σ → ι → Option σ) (s : σ) (is js : List ι) :
    exec step s (is ++ js) = (exec step s is).bind fun s' => exec step s' js := by
  induction is generalizing s with
  | nil => rfl
  | cons i is ih =>
      rw [List.cons_append, exec_cons, exec_cons, Option.bind_assoc]
      exact congrArg _ (funext fun s' => ih s')

/-- What every step keeps, a whole run keeps. -/
theorem exec_invariant {step : σ → ι → Option σ} {P : σ → Prop}
    (hstep : ∀ s i s', P s → step s i = some s' → P s') :
    ∀ (is : List ι) {s s' : σ}, P s → exec step s is = some s' → P s' := by
  intro is
  induction is with
  | nil =>
      intro s s' hs h
      cases h
      exact hs
  | cons i is ih =>
      intro s s' hs h
      rw [exec_cons, Option.bind_eq_some_iff] at h
      obtain ⟨t, ht, h⟩ := h
      exact ih (hstep s i t hs ht) h

/-- The states that some run from `s₀` leads to. -/
def Reach (step : σ → ι → Option σ) (s₀ s : σ) : Prop := ∃ is, exec step s₀ is = some s

theorem Reach.refl (step : σ → ι → Option σ) (s : σ) : Reach step s s := ⟨[], rfl⟩

theorem Reach.tail {step : σ → ι → Option σ} {s₀ s s' : σ} {i : ι} (h : Reach step s₀ s)
    (hs : step s i = some s') : Reach step s₀ s' := by
  obtain ⟨is, his⟩ := h
  refine ⟨is ++ [i], ?_⟩
  rw [exec_append, his, Option.bind_some, exec_cons, hs]
  rfl

/-- **The invariant rule.** -/
theorem Reach.invariant {step : σ → ι → Option σ} {P : σ → Prop} {s₀ s : σ}
    (h : Reach step s₀ s) (h₀ : P s₀) (hstep : ∀ s i s', P s → step s i = some s' → P s') :
    P s := by
  obtain ⟨is, his⟩ := h
  exact exec_invariant hstep is h₀ his

/-! ### Properties of every step -/

/-- `Every step Q s is`: each step of the run `is` from `s`, up to the first one without an
outcome, is taken in a state and with an input that satisfy `Q`. -/
def Every (step : σ → ι → Option σ) (Q : σ → ι → Prop) : σ → List ι → Prop
  | _, [] => True
  | s, i :: is => Q s i ∧ ∀ s', step s i = some s' → Every step Q s' is

@[simp] theorem every_nil (step : σ → ι → Option σ) (Q : σ → ι → Prop) (s : σ) :
    Every step Q s [] := trivial

theorem every_cons (step : σ → ι → Option σ) (Q : σ → ι → Prop) (s : σ) (i : ι) (is : List ι) :
    Every step Q s (i :: is) ↔ Q s i ∧ ∀ s', step s i = some s' → Every step Q s' is := Iff.rfl

/-- **Equivalent properties hold along the same runs.**  The invariant `P` under which they are
equivalent need only be kept by the steps that satisfy the second one: a run that leaves `P` has
taken a step without it, and then neither property holds along the run. -/
theorem every_iff {step : σ → ι → Option σ} {P : σ → Prop} {Q R : σ → ι → Prop}
    (hQR : ∀ s i, P s → (Q s i ↔ R s i))
    (hP : ∀ s i s', P s → R s i → step s i = some s' → P s') :
    ∀ (is : List ι) {s : σ}, P s → (Every step Q s is ↔ Every step R s is) := by
  intro is
  induction is with
  | nil => intro s _; exact Iff.rfl
  | cons i is ih =>
      intro s hs
      rw [every_cons, every_cons, hQR s i hs]
      refine and_congr_right fun hR => forall_congr' fun s' => ?_
      exact imp_congr_right fun hstep => ih (hP s i s' hs hR hstep)

/-- What follows from an invariant in every state holds of every step. -/
theorem every_of_invariant {step : σ → ι → Option σ} {P : σ → Prop} {Q : σ → ι → Prop}
    (hQ : ∀ s i, P s → Q s i) (hP : ∀ s i s', P s → step s i = some s' → P s') :
    ∀ (is : List ι) {s : σ}, P s → Every step Q s is := by
  intro is
  induction is with
  | nil => intro s _; exact every_nil step Q s
  | cons i is ih => exact fun {s} hs => ⟨hQ s i hs, fun s' h => ih (hP s i s' hs h)⟩

/-- A property of every step of a run in two parts. -/
theorem every_append {step : σ → ι → Option σ} {Q : σ → ι → Prop} (s : σ) (is js : List ι) :
    Every step Q s (is ++ js) ↔
      Every step Q s is ∧ ∀ s', exec step s is = some s' → Every step Q s' js := by
  induction is generalizing s with
  | nil => simp
  | cons i is ih =>
      simp only [List.cons_append, every_cons, exec_cons, ih, Option.bind_eq_some_iff]
      constructor
      · rintro ⟨hi, h⟩
        refine ⟨⟨hi, fun t ht => (h t ht).1⟩, ?_⟩
        rintro s' ⟨t, ht, hs'⟩
        exact (h t ht).2 s' hs'
      · rintro ⟨⟨hi, h⟩, hjs⟩
        exact ⟨hi, fun t ht => ⟨h t ht, fun s' hs' => hjs s' ⟨t, ht, hs'⟩⟩⟩

/-- Modus ponens along a run. -/
theorem Every.mp {step : σ → ι → Option σ} {Q R : σ → ι → Prop} :
    ∀ {is : List ι} {s : σ}, Every step (fun s i => Q s i → R s i) s is → Every step Q s is →
      Every step R s is
  | [], _, _, _ => trivial
  | _ :: _, _, h, hQ => ⟨h.1 hQ.1, fun s' hs' => (h.2 s' hs').mp (hQ.2 s' hs')⟩

/-- Along a run that never gets stuck, a property of the inputs alone is a property of each of
its inputs. -/
theorem every_forall_iff (step : σ → ι → Option σ) {Q : ι → Prop}
    (hstep : ∀ s i, (step s i).isSome) :
    ∀ (is : List ι) (s : σ), Every step (fun _ i => Q i) s is ↔ ∀ i ∈ is, Q i := by
  intro is
  induction is with
  | nil => intro s; simp
  | cons i is ih =>
      intro s
      obtain ⟨t, ht⟩ := Option.isSome_iff_exists.1 (hstep s i)
      simp only [every_cons, ht, Option.some.injEq, forall_eq', ih t, List.mem_cons,
        forall_eq_or_imp]

end Runs
