/-
**Circular buffers.**

A queue in an array of `N` cells: the elements stand in consecutive cells from an index `tail` on,
where cell `0` follows cell `N - 1`.

* `Ring.next` — the cell that follows;
* `Ring.slot` — the cell some steps further on;
* `Ring.contents` — **the queue** that is read off an array from an index on;
* `Ring.count` — the number of cells between two indices, for queues that are never full;
* `Ring.contents_store`, `Ring.contents_of_le` — storing behind the last element appends to the
  queue, and the queue from cell `0` on is a prefix of the array;
* `Ring.contents_add`, `Ring.contents_storeAll` — the same for several elements at a time, taken
  from the front or stored behind the last one, with `Ring.count_slot_tail` and
  `Ring.count_slot_head` for the number of elements afterwards.
-/

import Mathlib.Data.List.Basic
import Mathlib.Data.Nat.Notation
import Mathlib.Logic.Function.Basic

set_option relaxedAutoImplicit false
set_option autoImplicit false

namespace Ring

variable {α : Type*} {N : ℕ}

/-! ### Cells -/

/-- The cell after a cell. -/
def next (N i : ℕ) : ℕ := (i + 1) % N

/-- The cell `k` steps after a cell. -/
def slot (N i k : ℕ) : ℕ := (i + k) % N

theorem next_eq {i : ℕ} (hi : i < N) : next N i = if i + 1 = N then 0 else i + 1 := by
  unfold next
  split
  · rename_i h
    rw [h, Nat.mod_self]
  · exact Nat.mod_eq_of_lt (by omega)

theorem next_lt {i : ℕ} (hi : i < N) : next N i < N := Nat.mod_lt _ (by omega)

@[simp] theorem slot_zero {i : ℕ} (hi : i < N) : slot N i 0 = i := Nat.mod_eq_of_lt hi

/-- Taking the first step first. -/
theorem slot_succ (i k : ℕ) : slot N i (k + 1) = slot N (next N i) k := by
  unfold slot next
  rw [Nat.mod_add_mod, Nat.add_assoc, Nat.add_comm 1 k]

/-- Taking the last step last. -/
theorem next_slot (i k : ℕ) : next N (slot N i k) = slot N i (k + 1) := by
  unfold slot next
  rw [Nat.mod_add_mod, Nat.add_assoc]

/-- A cell comes round again only after all the others. -/
theorem slot_ne {i k : ℕ} (hi : i < N) (h0 : 0 < k) (hk : k < N) : slot N i k ≠ i := by
  unfold slot
  rcases Nat.lt_or_ge (i + k) N with h | h
  · rw [Nat.mod_eq_of_lt h]
    omega
  · rw [Nat.mod_eq_sub_mod h, Nat.mod_eq_of_lt (by omega)]
    omega

theorem slot_lt (hN : 0 < N) (i k : ℕ) : slot N i k < N := Nat.mod_lt _ hN

/-- Before the end of the array the cells just follow each other. -/
theorem slot_of_lt {i k : ℕ} (h : i + k < N) : slot N i k = i + k := Nat.mod_eq_of_lt h

/-- Going on from a cell. -/
theorem slot_slot (i k j : ℕ) : slot N (slot N i k) j = slot N i (k + j) := by
  unfold slot
  rw [Nat.mod_add_mod, Nat.add_assoc]

/-- Behind the end of the array they go on at its start. -/
theorem slot_of_wrap {i k : ℕ} (hi : i < N) (hk : N - i ≤ k) (hlt : k - (N - i) < N) :
    slot N i k = k - (N - i) := by
  rw [slot, Nat.mod_eq_sub_mod (by omega), Nat.mod_eq_of_lt (by omega)]
  omega

/-! ### The queue -/

/-- The `n` elements from a cell on. -/
def contents (buf : ℕ → α) (N : ℕ) : ℕ → ℕ → List α
  | _, 0 => []
  | i, n + 1 => buf i :: contents buf N (next N i) n

@[simp] theorem contents_zero (buf : ℕ → α) (i : ℕ) : contents buf N i 0 = [] := rfl

/-- Reading takes the first element and goes on at the next cell. -/
theorem contents_succ (buf : ℕ → α) (i n : ℕ) :
    contents buf N i (n + 1) = buf i :: contents buf N (next N i) n := rfl

@[simp] theorem length_contents (buf : ℕ → α) (i n : ℕ) : (contents buf N i n).length = n := by
  induction n generalizing i with
  | zero => rfl
  | succ n ih => rw [contents_succ, List.length_cons, ih]

/-- **Storing in the cell behind the last element** appends to the queue. -/
theorem contents_store (buf : ℕ → α) (a : α) {i n : ℕ} (hi : i < N) (hn : n < N) :
    contents (Function.update buf (slot N i n) a) N i (n + 1) = contents buf N i n ++ [a] := by
  induction n generalizing i with
  | zero => simp [contents_succ, slot_zero hi]
  | succ n ih =>
      have hfirst : Function.update buf (slot N i (n + 1)) a i = buf i :=
        Function.update_of_ne (slot_ne hi (by omega) hn).symm _ _
      rw [contents_succ, hfirst, slot_succ, ih (next_lt hi) (by omega), contents_succ]
      rfl

/-- From cell `0` on, the queue is a prefix of the array. -/
theorem contents_of_le (buf : ℕ → α) {i n : ℕ} (h : i + n ≤ N) :
    contents buf N i n = (List.range' i n).map buf := by
  induction n generalizing i with
  | zero => rfl
  | succ n ih =>
      rw [contents_succ, List.range'_succ, List.map_cons]
      cases n with
      | zero => rfl
      | succ n =>
          have hnext : next N i = i + 1 := by
            rw [next_eq (by omega), if_neg (by omega)]
          rw [hnext, ih (by omega)]

/-- The first elements of the queue, and those behind them. -/
theorem contents_add (buf : ℕ → α) {i : ℕ} (m n : ℕ) (hi : i < N) :
    contents buf N i (m + n) = contents buf N i m ++ contents buf N (slot N i m) n := by
  induction m generalizing i with
  | zero => rw [Nat.zero_add, slot_zero hi, contents_zero, List.nil_append]
  | succ m ih =>
      rw [Nat.succ_add_eq_add_succ, Nat.add_succ, contents_succ, ih (next_lt hi), slot_succ,
        contents_succ, List.cons_append]

/-- Taking elements from the front. -/
theorem take_contents (buf : ℕ → α) {i m n : ℕ} (hi : i < N) (h : m ≤ n) :
    (contents buf N i n).take m = contents buf N i m := by
  obtain ⟨k, rfl⟩ := Nat.exists_eq_add_of_le h
  rw [contents_add buf m k hi]
  exact List.take_left' (length_contents buf i m)

/-- What they leave. -/
theorem drop_contents (buf : ℕ → α) {i m n : ℕ} (hi : i < N) (h : m ≤ n) :
    (contents buf N i n).drop m = contents buf N (slot N i m) (n - m) := by
  obtain ⟨k, rfl⟩ := Nat.exists_eq_add_of_le h
  rw [contents_add buf m k hi, Nat.add_sub_cancel_left]
  exact List.drop_left' (length_contents buf i m)

/-- A queue that goes on at the start of the array. -/
theorem contents_wrap (buf : ℕ → α) {i n : ℕ} (hi : i < N) (h : N - i ≤ n) :
    contents buf N i n = contents buf N i (N - i) ++ contents buf N 0 (n - (N - i)) := by
  have hsum : n = N - i + (n - (N - i)) := by omega
  have hslot : slot N i (N - i) = 0 := by
    rw [slot_of_wrap hi (Nat.le_refl _) (by omega)]
    omega
  conv_lhs => rw [hsum, contents_add buf _ _ hi, hslot]

/-- Storing elements one behind the other, from a cell on. -/
def storeAll (buf : ℕ → α) (N : ℕ) : ℕ → List α → ℕ → α
  | _, [] => buf
  | i, a :: as => storeAll (Function.update buf i a) N (next N i) as

@[simp] theorem storeAll_nil (buf : ℕ → α) (i : ℕ) : storeAll buf N i [] = buf := rfl

theorem storeAll_cons (buf : ℕ → α) (i : ℕ) (a : α) (as : List α) :
    storeAll buf N i (a :: as) = storeAll (Function.update buf i a) N (next N i) as := rfl

/-- Storing in two goes. -/
theorem storeAll_append (buf : ℕ → α) {i : ℕ} (as bs : List α) (hi : i < N) :
    storeAll buf N i (as ++ bs) = storeAll (storeAll buf N i as) N (slot N i as.length) bs := by
  induction as generalizing buf i with
  | nil => rw [List.nil_append, storeAll_nil, List.length_nil, slot_zero hi]
  | cons a as ih =>
      rw [List.cons_append, storeAll_cons, ih _ (next_lt hi), storeAll_cons, List.length_cons,
        slot_succ]

/-- **Storing elements behind the last one** appends them to the queue. -/
theorem contents_storeAll (buf : ℕ → α) (as : List α) {i n : ℕ} (hi : i < N)
    (h : n + as.length ≤ N) :
    contents (storeAll buf N (slot N i n) as) N i (n + as.length) = contents buf N i n ++ as := by
  induction as generalizing buf n with
  | nil => simp
  | cons a as ih =>
      rw [List.length_cons] at h
      have hsum : n + (as.length + 1) = n + 1 + as.length := by omega
      rw [storeAll_cons, next_slot, List.length_cons, hsum, ih _ (by omega),
        contents_store buf a hi (by omega), List.append_assoc]
      rfl

/-! ### Counting -/

/-- The cells from `tail` up to `head`. -/
def count (N tail head : ℕ) : ℕ := if tail ≤ head then head - tail else N - tail + head

variable {tail head : ℕ}

theorem count_lt (ht : tail < N) (hh : head < N) : count N tail head < N := by
  unfold count
  split <;> omega

theorem count_eq_zero_iff (ht : tail < N) : count N tail head = 0 ↔ tail = head := by
  unfold count
  split <;> omega

/-- The head is as many steps behind the tail as there are elements. -/
theorem slot_count (ht : tail < N) (hh : head < N) : slot N tail (count N tail head) = head := by
  unfold slot count
  split
  · rw [Nat.mod_eq_of_lt (by omega)]
    omega
  · have hsum : tail + (N - tail + head) = N + head := by omega
    rw [hsum, Nat.add_mod_left, Nat.mod_eq_of_lt hh]

/-- The cell after the head is the tail exactly if only one cell is free. -/
theorem next_head_eq_tail_iff (ht : tail < N) (hh : head < N) :
    next N head = tail ↔ count N tail head + 1 = N := by
  rw [next_eq hh]
  unfold count
  by_cases hw : head + 1 = N <;> by_cases hle : tail ≤ head <;>
    simp only [hw, hle, if_true, if_false]
    <;> omega

/-- Otherwise moving the head on adds an element. -/
theorem count_next_head (ht : tail < N) (hh : head < N) (h : count N tail head + 1 < N) :
    count N tail (next N head) = count N tail head + 1 := by
  rw [next_eq hh]
  unfold count at h ⊢
  by_cases hw : head + 1 = N
  · have hle : tail ≤ head := by omega
    rw [if_pos hw]
    rw [if_pos hle] at h ⊢
    rw [if_neg (by omega)]
    omega
  · rw [if_neg hw]
    by_cases hle : tail ≤ head
    · rw [if_pos hle, if_pos (by omega)]
      omega
    · rw [if_neg hle] at h ⊢
      split <;> omega

/-- Moving the tail on takes one element away. -/
theorem count_next_tail (ht : tail < N) (hh : head < N) (h : tail ≠ head) :
    count N tail head = count N (next N tail) head + 1 := by
  rw [next_eq ht]
  unfold count
  split <;> split <;> split <;> omega

/-- Moving the tail on by several cells. -/
theorem count_slot_tail {k : ℕ} (ht : tail < N) (hh : head < N) (h : k ≤ count N tail head) :
    count N (slot N tail k) head = count N tail head - k := by
  induction k generalizing tail with
  | zero => rw [slot_zero ht, Nat.sub_zero]
  | succ k ih =>
      have hne : tail ≠ head := fun e => by
        have := (count_eq_zero_iff (N := N) ht).2 e
        omega
      have hnext := count_next_tail ht hh hne
      rw [slot_succ, ih (next_lt ht) (by omega), hnext]
      omega

/-- Moving the head on by several cells. -/
theorem count_slot_head {k : ℕ} (ht : tail < N) (hh : head < N) (h : count N tail head + k < N) :
    count N tail (slot N head k) = count N tail head + k := by
  induction k generalizing head with
  | zero => rw [slot_zero hh, Nat.add_zero]
  | succ k ih =>
      have hnext := count_next_head ht hh (by omega)
      rw [slot_succ, ih (next_lt hh) (by omega), hnext]
      omega

end Ring
