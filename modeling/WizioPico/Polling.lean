/-
**Polling under a deadline.**

A program looks at a device again and again until it answers, or until its deadline has passed.
Everything it does takes a step, and each step happens at some time; a device is the sequence of
its answers.  Time goes on, so no such loop runs for ever.

* `Clock` — the times of the steps;
* `Clock.left` — the number of steps before a deadline, which makes such loops terminate;
* `Clock.poll` — **the loop**: look, and unless this is an answer look at the clock;
* `Clock.poll_eq_iff` — it ends with a given answer exactly if that comes first, with time left at
  every look at the clock before.
-/

import Mathlib.Algebra.Order.Monoid.Unbundled.Basic
import Mathlib.Data.Nat.Find
import Mathlib.Data.Nat.Notation

set_option relaxedAutoImplicit false
set_option autoImplicit false

/-- The times at which the steps of a program happen. -/
structure Clock where
  time : ℕ → ℕ
  mono : ∀ {i j : ℕ}, i ≤ j → time i ≤ time j
  unbounded : ∀ t, ∃ n, t ≤ time n

namespace Clock

variable {α : Type*} (c : Clock)

/-- The steps from `n` on that happen before a deadline. -/
def left (deadline n : ℕ) : ℕ := Nat.find (c.unbounded deadline) - n

/-- They get fewer. -/
theorem left_lt {deadline i j k : ℕ} (h : c.time k < deadline) (hik : i ≤ k) (hij : i < j) :
    c.left deadline j < c.left deadline i := by
  have hlt : k < Nat.find (c.unbounded deadline) := by
    by_contra hle
    have hreach := Nat.find_spec (c.unbounded deadline)
    have := c.mono (Nat.le_of_not_lt hle)
    omega
  unfold left
  omega

/-- **Looking until there is an answer**, or until the deadline has passed: the last thing seen, and
the step that comes next. -/
def poll (reply : ℕ → α) (p : α → Bool) (deadline n : ℕ) : α × ℕ :=
  if p (reply n) then (reply n, n + 1)
  else if c.time (n + 1) < deadline then poll reply p deadline (n + 2)
  else (reply n, n + 2)
termination_by c.left deadline n
decreasing_by exact c.left_lt ‹c.time (n + 1) < deadline› (Nat.le_succ n) (by omega)

variable {reply : ℕ → α} {p : α → Bool} {deadline n : ℕ}

/-- An answer at the first look. -/
theorem poll_of_pos (h : p (reply n)) : c.poll reply p deadline n = (reply n, n + 1) := by
  rw [poll, if_pos h]

theorem poll_of_neg (h : ¬p (reply n)) (hlt : c.time (n + 1) < deadline) :
    c.poll reply p deadline n = c.poll reply p deadline (n + 2) := by
  rw [poll, if_neg h, if_pos hlt]

theorem poll_of_late (h : ¬p (reply n)) (hle : ¬c.time (n + 1) < deadline) :
    c.poll reply p deadline n = (reply n, n + 2) := by
  rw [poll, if_neg h, if_neg hle]

/-- Polling takes at least a step. -/
theorem lt_poll (reply : ℕ → α) (p : α → Bool) (deadline n : ℕ) :
    n < (c.poll reply p deadline n).2 := by
  induction n using poll.induct c reply p deadline with
  | case1 n h =>
      rw [c.poll_of_pos h]
      exact Nat.lt_succ_self n
  | case2 n h hlt ih =>
      rw [c.poll_of_neg h hlt]
      omega
  | case3 n h hle =>
      rw [c.poll_of_late h hle]
      show n < n + 2
      omega

/-- What an answer in time is: nothing before it, and time left after each look before it. -/
def Answers (reply : ℕ → α) (p : α → Bool) (deadline n : ℕ) (d : α) (n' : ℕ) : Prop :=
  ∃ k, (∀ i < k, ¬p (reply (n + 2 * i)) ∧ c.time (n + 2 * i + 1) < deadline) ∧
    reply (n + 2 * k) = d ∧ n' = n + 2 * k + 1

theorem answers_step {d : α} {n' : ℕ} (h : ¬p (reply n)) (hlt : c.time (n + 1) < deadline)
    (hd : p d) :
    c.Answers reply p deadline n d n' ↔ c.Answers reply p deadline (n + 2) d n' := by
  constructor
  · rintro ⟨k, hk, rfl, rfl⟩
    cases k with
    | zero => exact absurd hd h
    | succ k =>
        have hsum : ∀ i, n + 2 + 2 * i = n + 2 * (i + 1) := fun i => by omega
        refine ⟨k, fun i hi => ?_, by rw [hsum], by rw [hsum]⟩
        rw [hsum]
        exact hk (i + 1) (by omega)
  · rintro ⟨k, hk, rfl, rfl⟩
    have hsum : ∀ i, n + 2 * (i + 1) = n + 2 + 2 * i := fun i => by omega
    refine ⟨k + 1, fun i hi => ?_, by rw [hsum], by rw [hsum]⟩
    cases i with
    | zero => exact ⟨h, hlt⟩
    | succ i =>
        rw [hsum]
        exact hk i (by omega)

/-- **The loop ends with an answer exactly if it comes in time.** -/
theorem poll_eq_iff {d : α} {n' : ℕ} (hd : p d) :
    c.poll reply p deadline n = (d, n') ↔ c.Answers reply p deadline n d n' := by
  induction n using poll.induct c reply p deadline with
  | case1 n h =>
      rw [c.poll_of_pos h]
      constructor
      · intro heq
        cases heq
        exact ⟨0, fun i hi => absurd hi (Nat.not_lt_zero i), rfl, rfl⟩
      · rintro ⟨k, hk, rfl, rfl⟩
        cases k with
        | zero => rfl
        | succ k => exact absurd h (hk 0 (Nat.succ_pos k)).1
  | case2 n h hlt ih => rw [c.poll_of_neg h hlt, ih, c.answers_step h hlt hd]
  | case3 n h hle =>
      rw [c.poll_of_late h hle]
      constructor
      · intro heq
        cases heq
        exact absurd hd h
      · rintro ⟨k, hk, rfl, rfl⟩
        cases k with
        | zero => exact absurd hd h
        | succ k => exact absurd (hk 0 (Nat.succ_pos k)).2 hle

end Clock
