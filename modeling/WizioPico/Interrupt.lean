/-
**Code that interrupts may strike.**

A program works on a state it shares with an interrupt.  Each of its accesses is one step; between
two accesses the interrupt may run any number of times, and what it does is only known to be of
some kind.

* `Interrupt.Code` — a program: accesses to the shared state, each chosen by what the ones before
  it have read, and a result;
* `Interrupt.Meets` — **what a program guarantees**: under interference of the kind `R` every access
  but the last changes the state by a step of the kind `G`, and the last one leaves a result and
  states that satisfy `Q`;
* `Interrupt.Meets.interfere`, `Interrupt.Meets.access_cases` — the two ways such a program goes
  on.
-/

import Mathlib.Logic.Basic

set_option relaxedAutoImplicit false
set_option autoImplicit false

namespace Interrupt

variable {σ α β : Type}

/-- A program over the shared state.  An access replaces the state, and goes on with what the state
was before it. -/
inductive Code (σ α : Type) where
  | ret (a : α)
  | access (f : σ → σ) (k : σ → Code σ α)

namespace Code

/-- An access that only reads. -/
def load (g : σ → β) (k : β → Code σ α) : Code σ α := .access id fun s => k (g s)

/-- The program has a result, without any further access. -/
def isRet : Code σ α → Bool
  | ret _ => true
  | access _ _ => false

end Code

/-- **What a program guarantees** when it starts in the state `s` and the interrupt keeps to `R`.
The postcondition relates the result to the states before and after the last access. -/
def Meets (R G : σ → σ → Prop) (Q : α → σ → σ → Prop) : Code σ α → σ → Prop
  | .ret _, _ => True
  | .access f k, s => ∀ t, R s t →
    (∀ a, k t = .ret a → Q a t (f t)) ∧ ((k t).isRet = false → G t (f t)) ∧
      Meets R G Q (k t) (f t)

namespace Meets

variable {R G : σ → σ → Prop} {Q : α → σ → σ → Prop}

/-- The interrupt may strike now. -/
theorem interfere (htrans : ∀ s t u, R s t → R t u → R s u) {c : Code σ α} {s t : σ}
    (h : Meets R G Q c s) (hst : R s t) : Meets R G Q c t := by
  cases c with
  | ret a => trivial
  | access f k => exact fun u htu => h u (htrans s t u hst htu)

/-- The program may make its next access now: it was the last one, or it goes on. -/
theorem access_cases (hrefl : ∀ s, R s s) {f : σ → σ} {k : σ → Code σ α} {s : σ}
    (h : Meets R G Q (.access f k) s) :
    (∃ a, k s = .ret a ∧ Q a s (f s)) ∨
      ((k s).isRet = false ∧ G s (f s) ∧ Meets R G Q (k s) (f s)) := by
  obtain ⟨hret, hgo, hrest⟩ := h s (hrefl s)
  cases hk : k s with
  | ret a => exact .inl ⟨a, rfl, hret a hk⟩
  | access f' k' =>
      rw [hk] at hgo hrest
      exact .inr ⟨rfl, hgo rfl, hrest⟩

/-- A load that is followed by more. -/
theorem load {g : σ → β} {k : β → Code σ α} {s : σ} (hG : ∀ t, G t t)
    (h : ∀ t, R s t → (∀ a, k (g t) = .ret a → Q a t t) ∧ Meets R G Q (k (g t)) t) :
    Meets R G Q (Code.load g k) s := fun t hst =>
  ⟨(h t hst).1, fun _ => hG t, (h t hst).2⟩

/-- A load that is the last access. -/
theorem load_ret {g : σ → β} {k : β → α} {s : σ} (hG : ∀ t, G t t)
    (h : ∀ t, R s t → Q (k (g t)) t t) :
    Meets R G Q (Code.load g fun b => .ret (k b)) s :=
  load hG fun t hst => ⟨fun _ ha => Code.ret.inj ha ▸ h t hst, trivial⟩

/-- A load that is not. -/
theorem load_more {g : σ → β} {k : β → Code σ α} {s : σ} (hG : ∀ t, G t t)
    (hk : ∀ b, (k b).isRet = false) (h : ∀ t, R s t → Meets R G Q (k (g t)) t) :
    Meets R G Q (Code.load g k) s := by
  refine load hG fun t hst => ⟨fun a ha => ?_, h t hst⟩
  have := hk (g t)
  rw [ha] at this
  cases this

end Meets

end Interrupt
