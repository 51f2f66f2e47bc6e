/-
**`replace` as substitution.**

What `String::replace(find, replace)` is for: each occurrence of a text that is taken from the left
gives way to another one, and what has been put in is not looked at again.  The loops for a
replacement that is no longer than what it replaces do that.  The loop for a longer one works from
the right, on the text that it has already changed.

* `Substitutable` — the condition: **no occurrence gets in between**;
* `replace_not_longer`, `replace_longer_iff` — the loops;
* `replace_substitutes_iff` — **when `replace` is substitution**.
-/

import WizioPico.StringReplace

set_option relaxedAutoImplicit false
set_option autoImplicit false

namespace Pico.WString

open CBuffer Occurrences

section

variable {A : Allocator} {s r : Obj} {t f u : List UInt8} {find : Option Obj}

/-- **The texts that `replace` substitutes in.**  If the replacement is longer, the size of the
result fits in a word, and no occurrence begins within the parts between the occurrences that are
taken from the left, when the replacement is put behind each of them. -/
def Substitutable (f u t : List UInt8) : Prop :=
  f.length < u.length → grownSize f u t < 2 ^ 32 ∧ Clear f u (split f t).1 (split f t).2

/-- The size that `replace` asks for. -/
def askedSize (f u t : List UInt8) : ℕ := grownSize f u t % 2 ^ 32

/-- A longer text is larger by what is substituted. -/
theorem length_substitute_eq (hf : f ≠ []) (hlt : f.length < u.length) :
    (substitute f u t).length = grownSize f u t := length_substitute hf (Nat.le_of_lt hlt) t

/-- `replace` by a string of the same length, in the object itself. -/
theorem replaceEqual_self (hs : HasText s t) (ht : t ≠ []) (hr : HasText r u)
    (hlen : u.length = t.length) {fuel : ℕ} (hfuel : 1 < fuel) :
    ∃ s', replaceEqual none (some r) fuel s 0 = some s' ∧ HasText s' u := by
  obtain ⟨fuel, rfl⟩ : ∃ k, fuel = k + 2 := ⟨fuel - 2, by omega⟩
  obtain ⟨s', hcopy, hs'⟩ := overwrite_spec hs hr (i := 0) (by omega)
  have hall : t.take 0 ++ u ++ t.drop (0 + u.length) = u := by simp [hlen]
  rw [hall] at hs'
  have hu : u ≠ [] := List.ne_nil_of_length_pos (hlen ▸ List.length_pos_iff.2 ht)
  have hfirst : strstr s 0 s.buffer = some (some 0) := by
    rw [strstr_spec hs hs.text (Nat.zero_le _), List.drop_zero, search_self ht]
    rfl
  have hsecond : strstr s' u.length s'.buffer = some none := by
    rw [strstr_spec hs' hs'.text (Nat.le_refl _), List.drop_length, search_nil hu]
    rfl
  refine ⟨s', ?_, hs'⟩
  rw [replaceEqual, Option.getD_none, hfirst, Option.bind_some]
  change ((copyOperand s 0 (some r)).bind fun s =>
    replaceEqual none (some r) (fuel + 1) s (0 + r.len)) = some s'
  rw [hcopy, Option.bind_some, hr.len, Nat.zero_add, replaceEqual, Option.getD_none, hsecond]
  rfl

/-- **`replace` by a string that is no longer** is substitution. -/
theorem replace_not_longer (hs : HasText s t) (ht : t ≠ []) (hf : f ≠ [])
    (hfind : Operand find t f) (hr : Holds r u) (hle : u.length ≤ f.length) :
    ∃ s', WString.replace A s find (some r) = some s' ∧ Holds s' (substitute f u t) := by
  have hreplace : Operand (some r) t u := .inr ⟨r, rfl, hr⟩
  have hsteps := hs.lt_steps
  rw [replace_eq hs ht hf hfind hreplace]
  by_cases heq : u.length = f.length
  · have hru := hr.hasText_of_ne_nil
      (List.ne_nil_of_length_pos (heq ▸ List.length_pos_iff.2 hf))
    rw [if_pos heq]
    rcases hfind with ⟨rfl, rfl⟩ | ⟨x, rfl, hx⟩
    · obtain ⟨s', hloop, hs'⟩ := replaceEqual_self hs ht hru heq
        (show 2 ≤ s.steps by omega)
      exact ⟨s', hloop, (substitute_self ht u).symm ▸ hs'.holds⟩
    · obtain ⟨s', hloop, hs'⟩ := replaceEqual_other (hx.hasText_of_ne_nil hf) hf hru heq hs
        (Nat.zero_le _) (show t.length < s.steps + 0 by omega)
      exact ⟨s', hloop, hs'.holds⟩
  · have hlt := Nat.lt_of_le_of_ne hle heq
    rw [if_neg heq, if_pos hlt]
    obtain ⟨s', hloop, hs'⟩ := replace_shorter hs hf hfind hreplace hlt
    exact ⟨s', hloop, hs'.holds⟩

/-! ### A longer replacement -/

/-- A text that it is not found in is left alone. -/
theorem clear_of_count_zero (hf : f ≠ []) (hcount : count f t = 0) :
    substitute f u t = t ∧ Clear f u (split f t).1 (split f t).2 := by
  cases hsearch : search f t with
  | none =>
      rw [split_of_search_none hf hsearch]
      refine ⟨substitute_of_search_none hf hsearch, fun j hj => ?_⟩
      rw [List.append_nil]
      exact search_eq_none hsearch j
  | some k =>
      rw [count_of_search hf hsearch] at hcount
      cases hcount

/-- Nothing gets in between in a text that is the word itself. -/
theorem clear_self (ht : t ≠ []) : Clear t u (split t t).1 (split t t).2 := by
  have hsplit : split t t = ([], [[]]) := by
    rw [split_of_search ht (search_self ht), Nat.zero_add, List.drop_length,
      split_of_search_none ht (search_nil ht), List.take_zero]
  rw [hsplit]
  refine ⟨fun j hj => absurd hj (Nat.not_lt_zero j), fun j hj hoccurs => ?_⟩
  have hlen := hoccurs.length_le
  have hpos := List.length_pos_iff.2 ht
  simp only [List.append_nil, List.length_drop, List.length_tail] at hlen
  omega

/-- The buffer for a longer replacement. -/
theorem buffer_spec (hs : HasText s t) {size : ℕ}
    (hgranted : s.capacity < size → (A.alloc (size + 1)).isSome) :
    ∃ s₁, (if s.capacity < size then changeBuffer A s size else some (s, true)) = some (s₁, true) ∧
      HasText s₁ t ∧ size ≤ s₁.capacity := by
  have hle := hs.length_le.1
  by_cases hsize : s.capacity < size
  · obtain ⟨s₁, hchange, hcapacity, hs₁⟩ := changeBuffer_spec hs (by omega) (hgranted hsize)
    exact ⟨s₁, by rw [if_pos hsize, hchange], hs₁, Nat.le_of_eq hcapacity.symm⟩
  · exact ⟨s, if_neg hsize, hs, Nat.le_of_not_lt hsize⟩

/-- **`replace` by a longer string**: the size is computed in a word, and what is made from the
right either fits in the buffer or is written behind it. -/
theorem replace_longer_iff (hs : HasText s t) (ht : t ≠ []) (hf : f ≠ []) (hfind : Operand find t f)
    (hr : HasText r u) (hlt : f.length < u.length)
    (hgranted : s.capacity < askedSize f u t → (A.alloc (askedSize f u t + 1)).isSome) :
    (∃ s', WString.replace A s find (some r) = some s' ∧ Holds s' (substitute f u t)) ↔
      grownSize f u t < 2 ^ 32 ∧ Clear f u (split f t).1 (split f t).2 := by
  have hsteps := hs.lt_steps
  have hlen := hs.length_le
  have hgrown := length_substitute_eq (t := t) hf hlt
  have hsize : replacedSize s find (u.length - f.length : ℕ) s.steps 0 s.len =
      some (askedSize f u t) := by
    rw [hs.len]
    exact replacedSize_mod hs hfind hf (Nat.zero_le _) (by omega) (by omega)
  rw [replace_eq hs ht hf hfind (.inr ⟨r, rfl, hr.holds⟩), if_neg (by omega), if_neg (by omega),
    hsize, Option.bind_some]
  by_cases hcount : count f t = 0
  · obtain ⟨hsame, hclear⟩ := clear_of_count_zero (u := u) hf hcount
    have hno : grownSize f u t = t.length := by rw [← hgrown, hsame]
    have hasked : askedSize f u t = s.len := by
      rw [askedSize, hno, hs.len, Nat.mod_eq_of_lt (by omega)]
    rw [if_pos hasked, hsame]
    exact iff_of_true ⟨s, rfl, hs.holds⟩ ⟨by omega, hclear⟩
  have hmore : t.length < grownSize f u t := by
    have hpos : 0 < count f t * (u.length - f.length) :=
      Nat.mul_pos (Nat.pos_of_ne_zero hcount) (Nat.sub_pos_of_lt hlt)
    rw [grownSize]
    omega
  by_cases hasked : askedSize f u t = s.len
  · -- the size has come round to that of the text
    rw [if_pos hasked]
    refine iff_of_false ?_ fun hcond => ?_
    · rintro ⟨s', hsame, hs'⟩
      cases hsame
      have htext : t = substitute f u t := hs.holds.chars.symm.trans hs'.chars
      rw [← hgrown, ← htext] at hmore
      exact Nat.lt_irrefl _ hmore
    · rw [askedSize, Nat.mod_eq_of_lt hcond.1, hs.len] at hasked
      omega
  obtain ⟨s₁, hbuffer, hs₁, hcapacity⟩ := buffer_spec hs hgranted
  have hsmall := hs₁.length_le
  rw [if_neg hasked, hbuffer, Option.bind_some, if_pos rfl, hs₁.len]
  rcases hfind with ⟨rfl, rfl⟩ | ⟨x, rfl, hx⟩
  · have hsub := substitute_self ht u
    rw [hsub] at hgrown ⊢
    have husmall := hr.length_le
    have hfit : u.length ≤ s₁.capacity := by
      rw [askedSize, ← hgrown, Nat.mod_eq_of_lt (by omega)] at hcapacity
      exact hcapacity
    obtain ⟨s', hloop, hs'⟩ := replaceLonger_self hs₁ ht hr
      (show u.length = f.length + (u.length - f.length) by omega) hfit
      (show 1 < f.length + 1 by have := List.length_pos_iff.2 hf; omega)
    exact iff_of_true ⟨s', hloop, hs'.holds⟩ ⟨by omega, clear_self ht⟩
  · rw [← replaceRight_eq_substitute_iff hf hlt]
    have hs₁' : HasText s₁ (t ++ []) := by rwa [List.append_nil]
    obtain ⟨hfits, hbehind⟩ := replaceLonger_other (hx.hasText_of_ne_nil hf) hf hr
      (show u.length = f.length + (u.length - f.length) by omega) hs₁'
      (show t.length < t.length + 1 from Nat.lt_succ_self _)
    by_cases hfit : (replaceRight f u t).length ≤ s₁.capacity
    · obtain ⟨s', hloop, hs'⟩ := hfits hfit
      rw [hloop]
      constructor
      · rintro ⟨s'', hsame, hs''⟩
        cases hsame
        have heq : replaceRight f u t = substitute f u t := hs'.holds.chars.symm.trans hs''.chars
        rw [heq, hgrown] at hfit
        exact ⟨by omega, heq⟩
      · rintro ⟨-, heq⟩
        exact ⟨s', rfl, heq ▸ hs'.holds⟩
    · rw [hbehind (Nat.lt_of_not_le hfit)]
      refine iff_of_false (fun h => by obtain ⟨_, h, -⟩ := h; cases h) fun hcond => ?_
      rw [askedSize, Nat.mod_eq_of_lt hcond.1, ← hgrown, ← hcond.2] at hcapacity
      exact hfit hcapacity

/-- **When `replace` is substitution.**  The operands are texts, what is looked for is not empty,
and the buffer that `replace` asks for is provided. -/
theorem replace_substitutes_iff (hs : Holds s t) (hfind : Operand find t f) (hf : f ≠ [])
    (hr : Holds r u)
    (hgranted : f.length < u.length → s.capacity < askedSize f u t →
      (A.alloc (askedSize f u t + 1)).isSome) :
    (∃ s', WString.replace A s find (some r) = some s' ∧ Holds s' (substitute f u t)) ↔
      Substitutable f u t := by
  by_cases ht : t = []
  · subst ht
    have hempty : s.len = 0 := hs.len
    have hnone : count f ([] : List UInt8) = 0 := rfl
    obtain ⟨hsame, hclear⟩ := clear_of_count_zero (u := u) hf hnone
    have hgrown : grownSize f u [] = 0 := by
      rw [grownSize, hnone, Nat.zero_mul]
      rfl
    rw [hsame]
    refine iff_of_true ⟨s, if_pos (.inl hempty), hs⟩ fun _ => ⟨?_, hclear⟩
    rw [hgrown]
    exact Nat.two_pow_pos 32
  · have htext := hs.hasText_of_ne_nil ht
    rcases Nat.lt_or_ge f.length u.length with hlt | hle
    · have hru := hr.hasText_of_ne_nil (List.ne_nil_of_length_pos (by omega))
      rw [replace_longer_iff htext ht hf hfind hru hlt (hgranted hlt)]
      exact ⟨fun h _ => h, fun h => h hlt⟩
    · exact iff_of_true (replace_not_longer htext ht hf hfind hr hle)
        fun hlt => absurd hlt (Nat.not_lt.2 hle)

end

/-- A heap that is used up. -/
def usedUp : Allocator := ⟨fun _ => none, fun _ _ => rfl⟩

/-- `"xax"`, where each `"x"` becomes `"yz"`, with room for it. -/
theorem replace_xax :
    ∃ s', WString.replace usedUp (holding [120, 97, 120] 5) (some (holding [120] 1))
        (some (holding [121, 122] 2)) = some s' ∧
      Holds s' (substitute [120] [121, 122] [120, 97, 120]) := by
  have htext : HasText (holding [120, 97, 120] 5) _ :=
    hasText_holding 5 (by decide) (by decide) (by decide)
  have hfind : HasText (holding [120] 1) _ := hasText_holding 1 (by decide) (by decide) (by decide)
  have hreplace : HasText (holding [121, 122] 2) _ :=
    hasText_holding 2 (by decide) (by decide) (by decide)
  exact (replace_substitutes_iff htext.holds (.inr ⟨_, rfl, hfind.holds⟩)
    (List.cons_ne_nil 120 []) hreplace.holds fun _ h => absurd h (by decide)).2
      fun _ => ⟨by decide, by decide⟩

/-- **`replace` of `"ab"` by `"bbb"` in `"aab"`** with room for the four characters of the result
writes behind the buffer: the `"b"` that has been put in completes another `"ab"`. -/
theorem replace_aab :
    ¬∃ s', WString.replace usedUp (holding [97, 97, 98] 4) (some (holding [97, 98] 2))
        (some (holding [98, 98, 98] 3)) = some s' ∧
      Holds s' (substitute [97, 98] [98, 98, 98] [97, 97, 98]) := by
  have hnone : WString.replace usedUp (holding [97, 97, 98] 4) (some (holding [97, 98] 2))
      (some (holding [98, 98, 98] 3)) = none := by decide +kernel
  rintro ⟨s', hsome, -⟩
  rw [hnone] at hsome
  cases hsome

end Pico.WString
