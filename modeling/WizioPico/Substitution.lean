/-
**Substitution in a text, from the left and from the right.**

A text is split at the occurrences of a word that are taken from the left, and joined again with
another word.  Replacing from the right in the text that has already been changed comes to the same
only if no occurrence gets in between.

* `split`, `join`, `substitute` — the parts of a text, and substitution;
* `join_split` — the parts with the word itself between them are the text;
* `Clear` — **no occurrence begins within the parts**, with what is put behind them;
* `length_le_countOnto` — from the right there are no fewer replacements than from the left;
* `replaceOnto_join_iff` — **when replacing from the right is substitution**.
-/

import WizioPico.Occurrences

set_option relaxedAutoImplicit false
set_option autoImplicit false

namespace Occurrences

variable {α : Type*} {f r l w acc : List α}

/-! ### Words -/

/-- Words that begin with the same period begin with one another. -/
theorem prefix_of_period {y : List α} (hy : y ≠ []) (hf : f <+: y ++ f) (hr : r <+: y ++ r)
    (hle : f.length ≤ r.length) : f <+: r := by
  induction hn : f.length using Nat.strongRecOn generalizing f r with
  | ind n ih =>
    by_cases hshort : f.length ≤ y.length
    · have hfy : f <+: y := List.prefix_of_prefix_length_le hf (List.prefix_append y f) hshort
      exact List.prefix_of_prefix_length_le (hfy.trans (List.prefix_append y r)) hr hle
    · have hlong := Nat.le_of_lt (Nat.not_le.1 hshort)
      obtain ⟨f', rfl⟩ := List.prefix_of_prefix_length_le (List.prefix_append y f) hf hlong
      obtain ⟨r', rfl⟩ :=
        List.prefix_of_prefix_length_le (List.prefix_append y r) hr (Nat.le_trans hlong hle)
      have hpos := List.length_pos_iff.2 hy
      rw [List.prefix_append_right_inj] at hf hr ⊢
      rw [List.length_append] at hn hle hshort
      rw [List.length_append] at hle
      exact ih f'.length (by omega) hf hr (by omega) rfl

/-- No occurrence begins in a text, with something behind it. -/
def NoneBegins (f w acc : List α) : Prop := ∀ j < w.length, ¬f <+: (w ++ acc).drop j

/-- Whether an occurrence begins in a text does not depend on what is far behind it. -/
theorem noneBegins_append_iff (hle : f.length ≤ r.length) (l : List α) :
    NoneBegins f w (r ++ l) ↔ NoneBegins f w r := by
  refine forall₂_congr fun j hj => not_congr ?_
  have hdrop : (w ++ (r ++ l)).drop j = (w ++ r).drop j ++ l := by
    rw [← List.append_assoc, List.drop_append_of_le_length]
    rw [List.length_append]
    omega
  rw [hdrop]
  constructor
  · intro h
    refine List.prefix_of_prefix_length_le h (List.prefix_append _ l) ?_
    rw [List.length_drop, List.length_append]
    omega
  · intro h
    exact h.trans (List.prefix_append _ l)

/-! ### Parts with a word between them -/

/-- Parts with a word between them. -/
def join (r w : List α) (parts : List (List α)) : List α := w ++ parts.flatMap fun x => r ++ x

@[simp] theorem join_nil (r w : List α) : join r w [] = w := List.append_nil w

theorem join_cons (r w x : List α) (parts : List (List α)) :
    join r w (x :: parts) = w ++ (r ++ join r x parts) := by
  rw [join, List.flatMap_cons, List.append_assoc]
  rfl

theorem append_join (r v w : List α) (parts : List (List α)) :
    v ++ join r w parts = join r (v ++ w) parts := (List.append_assoc v w _).symm

/-- What a longer word between the parts adds. -/
theorem length_join (h : f.length ≤ r.length) (w : List α) (parts : List (List α)) :
    (join r w parts).length =
      (join f w parts).length + parts.length * (r.length - f.length) := by
  induction parts generalizing w with
  | nil => rw [join_nil, join_nil, List.length_nil, Nat.zero_mul, Nat.add_zero]
  | cons x parts ih =>
      rw [join_cons, join_cons, List.length_append, List.length_append, List.length_append,
        List.length_append, ih, List.length_cons, Nat.succ_mul]
      omega

/-! ### The parts of a text -/

section

variable [DecidableEq α]

/-- The parts of a text between the occurrences that are taken from the left, the first one and the
others, when the next characters belong to an occurrence that has been taken. -/
def splitFrom (f : List α) : ℕ → List α → List α × List (List α)
  | _, [] => ([], [])
  | skip + 1, _ :: l => splitFrom f skip l
  | 0, c :: l =>
      if f <+: c :: l then
        ([], (splitFrom f (f.length - 1) l).1 :: (splitFrom f (f.length - 1) l).2)
      else (c :: (splitFrom f 0 l).1, (splitFrom f 0 l).2)

/-- The parts of a text between the occurrences that are taken from the left. -/
def split (f l : List α) : List α × List (List α) := splitFrom f 0 l

/-- **Substitution**: each occurrence that is taken from the left gives way to another word. -/
def substitute (f r l : List α) : List α := join r (split f l).1 (split f l).2

theorem splitFrom_eq (f : List α) (skip : ℕ) (l : List α) :
    splitFrom f skip l = split f (l.drop skip) := by
  induction l generalizing skip with
  | nil => rw [List.drop_nil]; cases skip <;> rfl
  | cons c l ih =>
      cases skip with
      | zero => rfl
      | succ skip => exact ih skip

theorem split_cons (hf : f ≠ []) (c : α) (l : List α) :
    split f (c :: l) =
      if f <+: c :: l then
        ([], (split f ((c :: l).drop f.length)).1 :: (split f ((c :: l).drop f.length)).2)
      else (c :: (split f l).1, (split f l).2) := by
  obtain ⟨n, hn⟩ : ∃ n, f.length = n + 1 :=
    Nat.exists_eq_succ_of_ne_zero fun h => hf (List.length_eq_zero_iff.1 h)
  rw [split, splitFrom, splitFrom_eq, splitFrom_eq, hn, Nat.add_sub_cancel, List.drop_succ_cons]
  rfl

/-- A text in which the word is not found has one part. -/
theorem split_of_search_none (hf : f ≠ []) (h : search f l = none) : split f l = (l, []) := by
  induction l with
  | nil => rfl
  | cons c l ih =>
      rw [search] at h
      split_ifs at h with hoccurs
      rw [split_cons hf, if_neg hoccurs, ih (Option.map_eq_none_iff.1 h)]

/-- **The first part ends where the word is found.** -/
theorem split_of_search {k : ℕ} (hf : f ≠ []) (h : search f l = some k) :
    split f l = (l.take k,
      (split f (l.drop (k + f.length))).1 :: (split f (l.drop (k + f.length))).2) := by
  induction l generalizing k with
  | nil =>
      rw [search, if_neg hf] at h
      cases h
  | cons c l ih =>
      rw [search] at h
      split_ifs at h with hoccurs
      · cases h
        rw [split_cons hf, if_pos hoccurs, Nat.zero_add]
        rfl
      · obtain ⟨k, hk, rfl⟩ := Option.map_eq_some_iff.1 h
        rw [split_cons hf, if_neg hoccurs, ih hk, Nat.add_right_comm, List.drop_succ_cons]
        rfl

theorem substitute_of_search_none (hf : f ≠ []) (h : search f l = none) : substitute f r l = l := by
  rw [substitute, split_of_search_none hf h, join_nil]

theorem substitute_of_search {k : ℕ} (hf : f ≠ []) (h : search f l = some k) :
    substitute f r l = l.take k ++ (r ++ substitute f r (l.drop (k + f.length))) := by
  rw [substitute, split_of_search hf h, join_cons]
  rfl

/-- An induction along the occurrences that are taken. -/
theorem search_induction (hf : f ≠ []) {P : List α → Prop} (hnone : ∀ l, search f l = none → P l)
    (hsome : ∀ l k, search f l = some k → P (l.drop (k + f.length)) → P l) (l : List α) : P l := by
  induction hn : l.length using Nat.strongRecOn generalizing l with
  | ind n ih =>
    cases hsearch : search f l with
    | none => exact hnone l hsearch
    | some k =>
        have hpos := List.length_pos_iff.2 hf
        have hlen := (search_eq_some hsearch).2.1
        refine hsome l k hsearch (ih _ ?_ _ rfl)
        rw [List.length_drop]
        omega

/-- **The parts with the word between them** are the text. -/
theorem join_split (hf : f ≠ []) (l : List α) : join f (split f l).1 (split f l).2 = l := by
  induction l using search_induction hf with
  | hnone l h => rw [split_of_search_none hf h, join_nil]
  | hsome l k h ih =>
      obtain ⟨hoccurs, -, -⟩ := search_eq_some h
      rw [split_of_search hf h, join_cons, ih, ← List.drop_drop,
        List.prefix_iff_eq_append.1 hoccurs, List.take_append_drop]

/-- There is an occurrence in front of each part but the first. -/
theorem length_split (hf : f ≠ []) (l : List α) : (split f l).2.length = count f l := by
  induction l using search_induction hf with
  | hnone l h => rw [split_of_search_none hf h, count_of_search_none h, List.length_nil]
  | hsome l k h ih => rw [split_of_search hf h, List.length_cons, ih, count_of_search hf h]

theorem length_substitute (hf : f ≠ []) (h : f.length ≤ r.length) (l : List α) :
    (substitute f r l).length = l.length + count f l * (r.length - f.length) := by
  rw [substitute, length_join h, join_split hf, length_split hf]

/-! ### Occurrences that get in between -/

instance (f w acc : List α) : Decidable (NoneBegins f w acc) :=
  inferInstanceAs (Decidable (∀ j < w.length, ¬f <+: (w ++ acc).drop j))

/-- **No occurrence begins within the parts**, or within the occurrence in front of a part but at
its beginning, with the new word put behind the part. -/
def Clear (f r : List α) : List α → List (List α) → Prop
  | w, [] => NoneBegins f w []
  | w, x :: parts => NoneBegins f w r ∧ Clear f r (f.tail ++ x) parts

instance decidableClear (f r : List α) : ∀ w parts, Decidable (Clear f r w parts)
  | w, [] => inferInstanceAs (Decidable (NoneBegins f w []))
  | w, x :: parts =>
      have := decidableClear f r (f.tail ++ x) parts
      inferInstanceAs (Decidable (NoneBegins f w r ∧ Clear f r (f.tail ++ x) parts))

theorem countOnto_append (f r p q acc : List α) :
    countOnto f r (p ++ q) acc =
      countOnto f r p (replaceOnto f r q acc) + countOnto f r q acc := by
  induction p with
  | nil => exact (Nat.zero_add _).symm
  | cons c p ih =>
      rw [List.cons_append, countOnto, countOnto, ih, replaceOnto_append]
      split
      · exact Nat.add_right_comm _ _ 1
      · rfl

/-- If nothing is replaced, no occurrence begins. -/
theorem noneBegins_of_countOnto (h : countOnto f r w acc = 0) : NoneBegins f w acc := by
  induction w with
  | nil => exact fun j hj => absurd hj (Nat.not_lt_zero j)
  | cons c w ih =>
      rw [countOnto] at h
      split_ifs at h with hoccurs
      have hrest := ih h
      rw [replaceOnto_of_none hrest] at hoccurs
      intro j hj
      cases j with
      | zero => exact hoccurs
      | succ j => exact hrest j (Nat.lt_of_succ_lt_succ hj)

/-- Something is replaced in the word itself, whatever is behind it. -/
theorem one_le_countOnto (hf : f ≠ []) (r acc : List α) : 1 ≤ countOnto f r f acc := by
  by_contra hzero
  exact noneBegins_of_countOnto (Nat.lt_one_iff.1 (Nat.not_le.1 hzero)) 0
    (List.length_pos_iff.2 hf) (List.prefix_append f acc)

/-- **From the right there are no fewer replacements** than there are parts. -/
theorem length_le_countOnto (hf : f ≠ []) (r w acc : List α) (parts : List (List α)) :
    parts.length ≤ countOnto f r (join f w parts) acc := by
  induction parts generalizing w with
  | nil => exact Nat.zero_le _
  | cons x parts ih =>
      have hrest := ih x
      have hword := one_le_countOnto hf r (replaceOnto f r (join f x parts) acc)
      rw [join_cons, countOnto_append, countOnto_append, List.length_cons]
      omega

/-- What is replaced, if it is one occurrence. -/
theorem exists_of_countOnto_eq_one (h : countOnto f r w acc = 1) :
    ∃ y z x, w = y ++ z ∧ z ≠ [] ∧ f <+: z ++ acc ∧ replaceOnto f r w acc = y ++ (r ++ x) := by
  induction w with
  | nil => cases h
  | cons c w ih =>
      have hcons : replaceOnto f r (c :: w) acc = replaceHead f r c (replaceOnto f r w acc) := rfl
      rw [countOnto] at h
      split_ifs at h with hoccurs
      · have hrest := replaceOnto_of_none (r := r) (noneBegins_of_countOnto (Nat.succ.inj h))
        rw [hcons, replaceHead, if_pos hoccurs]
        rw [hrest] at hoccurs
        exact ⟨[], c :: w, _, rfl, List.cons_ne_nil c w, hoccurs, rfl⟩
      · obtain ⟨y, z, x, rfl, hz, hprefix, hreplace⟩ := ih h
        rw [hcons, replaceHead, if_neg hoccurs, hreplace]
        exact ⟨c :: y, z, x, rfl, hz, hprefix, rfl⟩

/-- **One replacement that leaves the new word in front is made at the beginning**: if it was made
later, the word and the new word would both repeat what is before it, and the word would have been
found at the beginning as well. -/
theorem countOnto_tail_eq_zero {c : α} {rest : List α} (hlt : (c :: f).length < r.length)
    (hone : countOnto (c :: f) r (c :: f) acc = 1)
    (hfront : replaceOnto (c :: f) r (c :: f) acc = r ++ rest) :
    countOnto (c :: f) r f acc = 0 := by
  have hone' := hone
  rw [countOnto] at hone'
  split_ifs at hone' with hoccurs
  · exact Nat.succ.inj hone'
  · obtain ⟨y, z, x, hyz, hz, hprefix, hreplace⟩ := exists_of_countOnto_eq_one hone'
    have hcons : replaceOnto (c :: f) r (c :: f) acc =
        replaceHead (c :: f) r c (replaceOnto (c :: f) r f acc) := rfl
    rw [hcons, replaceHead, if_neg hoccurs, hreplace] at hfront
    rw [hreplace] at hoccurs
    refine absurd ?_ hoccurs
    have hword : c :: f = (c :: y) ++ z := congrArg (c :: ·) hyz
    -- the word, and the new word, repeat what is before the replacement
    have hzf : z <+: c :: f := by
      refine List.prefix_of_prefix_length_le (List.prefix_append z acc) hprefix ?_
      rw [hword, List.length_append]
      exact Nat.le_add_left _ _
    have hf : c :: f <+: (c :: y) ++ (c :: f) := by
      conv_lhs => rw [hword]
      exact (List.prefix_append_right_inj _).2 hzf
    have hr : r <+: (c :: y) ++ r := by
      refine List.prefix_of_prefix_length_le (List.prefix_append r rest) ?_ ?_
      · rw [← hfront, ← List.cons_append, ← List.append_assoc]
        exact List.prefix_append _ _
      · rw [List.length_append]
        exact Nat.le_add_left _ _
    have hfr : c :: f <+: r :=
      prefix_of_period (List.cons_ne_nil c y) hf hr (Nat.le_of_lt hlt)
    rw [hword]
    exact (List.prefix_append_right_inj (c :: y)).2
      ((hzf.trans hfr).trans (List.prefix_append r x))

/-- Replacing in parts whose occurrences do not get in between. -/
theorem replaceOnto_join_of_clear (hf : f ≠ []) (hlt : f.length < r.length)
    {parts : List (List α)} (h : Clear f r w parts) :
    replaceOnto f r (join f w parts) [] = join r w parts := by
  induction parts generalizing w with
  | nil =>
      rw [join_nil, join_nil]
      exact (replaceOnto_of_none h).trans (List.append_nil w)
  | cons x parts ih =>
      obtain ⟨hnone, hclear⟩ := h
      cases f with
      | nil => exact absurd rfl hf
      | cons c f =>
          have hbehind := ih hclear
          rw [List.tail_cons, ← append_join, ← append_join] at hbehind
          have hword : replaceOnto (c :: f) r (c :: f) (replaceOnto (c :: f) r (join (c :: f) x parts) [])
              = r ++ join r x parts := by
            rw [← replaceOnto_append]
            change replaceHead (c :: f) r c
              (replaceOnto (c :: f) r (f ++ join (c :: f) x parts) []) = _
            have hprefix : c :: f <+: c :: (f ++ join r x parts) :=
              List.prefix_append (c :: f) (join r x parts)
            rw [hbehind, replaceHead, if_pos hprefix, ← List.cons_append, List.drop_left]
          rw [join_cons, join_cons, replaceOnto_append, replaceOnto_append, hword]
          exact replaceOnto_of_none ((noneBegins_append_iff (Nat.le_of_lt hlt) _).2 hnone)

/-- Parts in which replacing is substitution have no occurrences that get in between. -/
theorem clear_of_replaceOnto_join (hf : f ≠ []) (hlt : f.length < r.length)
    {parts : List (List α)} (h : replaceOnto f r (join f w parts) [] = join r w parts) :
    Clear f r w parts := by
  have hle := Nat.le_of_lt hlt
  have hpos : 0 < r.length - f.length := Nat.sub_pos_of_lt hlt
  -- there are as many replacements as parts
  have hcount : countOnto f r (join f w parts) [] = parts.length := by
    have hlen := congrArg List.length h
    rw [length_replaceOnto hle, length_join hle, List.length_nil, Nat.add_zero,
      Nat.add_left_cancel_iff] at hlen
    exact Nat.eq_of_mul_eq_mul_right hpos hlen
  induction parts generalizing w with
  | nil =>
      rw [join_nil] at hcount
      exact noneBegins_of_countOnto hcount
  | cons x parts ih =>
      cases f with
      | nil => exact absurd rfl hf
      | cons c f =>
          have hrest := length_le_countOnto hf r x [] parts
          have hword := one_le_countOnto hf r (replaceOnto (c :: f) r (join (c :: f) x parts) [])
          rw [join_cons, join_cons, replaceOnto_append, replaceOnto_append] at h
          rw [join_cons, countOnto_append, countOnto_append, replaceOnto_append,
            List.length_cons] at hcount
          generalize hacc : replaceOnto (c :: f) r (join (c :: f) x parts) [] = acc at *
          have hfirst : countOnto (c :: f) r w (replaceOnto (c :: f) r (c :: f) acc) = 0 := by omega
          have hone : countOnto (c :: f) r (c :: f) acc = 1 := by omega
          have hnone := noneBegins_of_countOnto hfirst
          rw [replaceOnto_of_none hnone, List.append_cancel_left_eq] at h
          have htail := countOnto_tail_eq_zero hlt hone h
          have hunchanged := replaceOnto_of_none (r := r) (noneBegins_of_countOnto htail)
          -- so the word gives way to the new one, and what is behind it is substituted as well
          have hbehind : acc = join r x parts := by
            have hcons : replaceOnto (c :: f) r (c :: f) acc =
                replaceHead (c :: f) r c (replaceOnto (c :: f) r f acc) := rfl
            have hprefix : c :: f <+: c :: (f ++ acc) := List.prefix_append (c :: f) acc
            rw [hcons, hunchanged, replaceHead, if_pos hprefix, ← List.cons_append, List.drop_left,
              List.append_cancel_left_eq] at h
            exact h
          rw [h, noneBegins_append_iff hle] at hnone
          refine ⟨hnone, ih ?_ ?_⟩
          · rw [List.tail_cons, ← append_join, ← append_join, replaceOnto_append, hacc, hunchanged,
              hbehind]
          · rw [List.tail_cons, ← append_join, countOnto_append, hacc, htail]
            omega

/-- **When replacing from the right is substitution.** -/
theorem replaceOnto_join_iff (hf : f ≠ []) (hlt : f.length < r.length) (w : List α)
    (parts : List (List α)) :
    replaceOnto f r (join f w parts) [] = join r w parts ↔ Clear f r w parts :=
  ⟨clear_of_replaceOnto_join hf hlt, replaceOnto_join_of_clear hf hlt⟩

/-- Replacing from the right in a text. -/
theorem replaceRight_eq_substitute_iff (hf : f ≠ []) (hlt : f.length < r.length) (l : List α) :
    replaceRight f r l = substitute f r l ↔ Clear f r (split f l).1 (split f l).2 := by
  rw [← replaceOnto_join_iff hf hlt, join_split hf]
  rfl

end

end Occurrences
