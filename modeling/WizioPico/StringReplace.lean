/-
**`replace` of a string in a `String`.**

`String::replace(find, replace)` has three loops.  If the two are equally long the occurrences are
overwritten from the left; if the replacement is shorter the text is moved down on the way; if it is
longer the occurrences are counted from the left, a buffer is taken for that many replacements, and
they are made from the right.  The last loop looks at the text that it has already changed: an
occurrence may end in a replacement, and then more is replaced than was counted.

* `strstr`, `lastIndexOf`, `replaceEqual`, `replaceShorter`, `replacedSize`, `replaceLonger`,
  `replace` — the member;
* `replaceEqual_spec`, `replace_shorter` — the first two loops are right;
* `replace_longer` — the third one is right **if what it makes fits in the buffer**;
* `replace_spec` — the rule for the member.
-/

import WizioPico.StringEdit
import WizioPico.Substitution

set_option relaxedAutoImplicit false
set_option autoImplicit false

namespace Pico.WString

open CBuffer Occurrences

/-! ### The member -/

/-- `strstr(buffer + i, needle)`, as an index in the buffer. -/
def strstr (s : Obj) (i : ℕ) (needle : Buffer) : Option (Option ℕ) :=
  (s.buffer.bytes.bind fun b => scan (b.drop i)).bind fun hay =>
    needle.text.map fun f => (search f hay).map (i + ·)

/-- The loop of `lastIndexOf`. -/
def lastIndexFrom (s : Obj) (needle : Buffer) (fromIndex : ℕ) :
    ℕ → ℕ → Option ℕ → Option (Option ℕ)
  | 0, _, _ => none
  | fuel + 1, p, found =>
      if p ≤ fromIndex then
        (strstr s p needle).bind fun answer =>
          match answer with
          | none => some found
          | some q =>
              lastIndexFrom s needle fromIndex fuel (q + 1)
                (if q ≤ fromIndex then some q else found)
      else some found

/-- `lastIndexOf`.  The answer -1 is `none`. -/
def lastIndexOf (s s2 : Obj) (fromIndex : ℕ) : Option (Option ℕ) :=
  if s2.len = 0 ∨ s.len = 0 ∨ s.len < s2.len then some none
  else
    let fromIndex := if s.len ≤ fromIndex then s.len - 1 else fromIndex
    lastIndexFrom s s2.buffer fromIndex (fromIndex + 2) 0 none

/-- `memcpy(buffer + i, o.buffer, o.len)`, where `o` is another object or, without one, the object
itself. -/
def copyOperand (s : Obj) (i : ℕ) : Option Obj → Option Obj
  | none => s.modify fun b => copyForward s.len b i 0
  | some r =>
      if r.len = 0 then some s
      else r.buffer.bytes.bind fun l =>
        if r.len ≤ l.length then s.modify fun b => paste b i (l.take r.len) else none

/-- The loop for a replacement of the same length. -/
def replaceEqual (find replace : Option Obj) : ℕ → Obj → ℕ → Option Obj
  | 0, _, _ => none
  | fuel + 1, s, readFrom =>
      (strstr s readFrom (find.getD s).buffer).bind fun answer =>
        match answer with
        | none => some s
        | some foundAt =>
            (copyOperand s foundAt replace).bind fun s =>
              replaceEqual find replace fuel s (foundAt + (replace.getD s).len)

/-- The loop for a shorter replacement. -/
def replaceShorter (find replace : Option Obj) (diff : ℤ) : ℕ → Obj → ℕ → ℕ → Option Obj
  | 0, _, _, _ => none
  | fuel + 1, s, writeTo, readFrom =>
      (strstr s readFrom (find.getD s).buffer).bind fun answer =>
        match answer with
        | none => s.modify fun b => strcpyForward (b.length + 1) b writeTo readFrom
        | some foundAt =>
            let n := foundAt - readFrom
            (s.modify fun b => copyForward n b writeTo readFrom).bind fun s =>
              (copyOperand s (writeTo + n) replace).bind fun s =>
                replaceShorter find replace diff fuel { s with len := unsigned (s.len + diff) }
                  (writeTo + n + (replace.getD s).len) (foundAt + (find.getD s).len)

/-- The loop that computes the size for a longer replacement. -/
def replacedSize (s : Obj) (find : Option Obj) (diff : ℤ) : ℕ → ℕ → ℕ → Option ℕ
  | 0, _, _ => none
  | fuel + 1, readFrom, size =>
      (strstr s readFrom (find.getD s).buffer).bind fun answer =>
        match answer with
        | none => some size
        | some foundAt =>
            replacedSize s find diff fuel (foundAt + (find.getD s).len) (unsigned (size + diff))

/-- One replacement by a longer string, at an index. -/
def replaceAt (find replace : Option Obj) (diff : ℤ) (s : Obj) (index : ℕ) : Option Obj :=
  let readFrom := index + (find.getD s).len
  (s.modify fun b =>
      memmove b (readFrom + diff).toNat readFrom (unsigned (s.len - readFrom))).bind fun s =>
    let len := unsigned (s.len + diff)
    ({ s with len := len }.modify fun b => store b len 0).bind fun s => copyOperand s index replace

/-- The loop for a longer replacement.  The number is `index + 1`. -/
def replaceLonger (find replace : Option Obj) (diff : ℤ) : ℕ → Obj → ℕ → Option Obj
  | 0, _, _ => none
  | _ + 1, s, 0 => some s
  | fuel + 1, s, index + 1 =>
      (lastIndexOf s (find.getD s) index).bind fun answer =>
        match answer with
        | none => some s
        | some index =>
            (replaceAt find replace diff s index).bind fun s =>
              replaceLonger find replace diff fuel s index

/-- The value of an `int`. -/
def signed (i : ℤ) : ℤ := (i + 2 ^ 31) % 2 ^ 32 - 2 ^ 31

/-- More than the bytes of the buffer: no loop over it takes as many steps. -/
def Obj.steps (s : Obj) : ℕ := (s.buffer.bytes.getD []).length + 1

/-- **`replace`** of a string.  An operand that is not another object is the object itself. -/
def replace (A : Allocator) (s : Obj) (find replace : Option Obj) : Option Obj :=
  if s.len = 0 ∨ (find.getD s).len = 0 then some s
  else
    let diff := signed ((replace.getD s).len - (find.getD s).len)
    if diff = 0 then replaceEqual find replace s.steps s 0
    else if diff < 0 then replaceShorter find replace diff s.steps s 0 0
    else (replacedSize s find diff s.steps 0 s.len).bind fun size =>
      if size = s.len then some s
      else (if s.capacity < size then changeBuffer A s size else some (s, true)).bind fun a =>
        if a.2 then replaceLonger find replace diff (a.1.len + 1) a.1 a.1.len else some a.1

/-! ### Searching -/

section

variable {A : Allocator} {s : Obj} {t f u : List UInt8} {find replace : Option Obj}

/-- **`strstr`** in an object with a text. -/
theorem strstr_spec (hs : HasText s t) {needle : Buffer} (hneedle : needle.text = some f) {i : ℕ}
    (hi : i ≤ t.length) : strstr s i needle = some ((search f (t.drop i)).map (i + ·)) := by
  obtain ⟨rest, hblock⟩ := hs.block
  rw [strstr, hblock.buffer, Buffer.bytes, Option.bind_some, scan_drop hs.noNul rest hi,
    Option.bind_some, hneedle]
  rfl

/-- The last occurrence that begins below an index. -/
def LastBelow (f t : List UInt8) (n : ℕ) : Option ℕ → Prop
  | none => ∀ j < n, ¬f <+: t.drop j
  | some k => k < n ∧ f <+: t.drop k ∧ ∀ j, k < j → j < n → ¬f <+: t.drop j

/-- No occurrence begins between two indices. -/
theorem LastBelow.mono {n m : ℕ} {found : Option ℕ} (h : LastBelow f t n found) (hnm : n ≤ m)
    (hnone : ∀ j, n ≤ j → j < m → ¬f <+: t.drop j) : LastBelow f t m found := by
  cases found with
  | none =>
      intro j hj
      by_cases hjn : j < n
      · exact h j hjn
      · exact hnone j (Nat.le_of_not_lt hjn) hj
  | some k =>
      obtain ⟨hk, hoccurs, hlast⟩ := h
      refine ⟨Nat.lt_of_lt_of_le hk hnm, hoccurs, fun j hkj hj => ?_⟩
      by_cases hjn : j < n
      · exact hlast j hkj hjn
      · exact hnone j (Nat.le_of_not_lt hjn) hj

/-- The loop of `lastIndexOf` finds the last occurrence that begins up to `fromIndex`. -/
theorem lastIndexFrom_spec (hs : HasText s t) {needle : Buffer} (hneedle : needle.text = some f)
    {fromIndex : ℕ} (hfrom : fromIndex < t.length) {fuel p : ℕ} {found : Option ℕ}
    (hpos : 0 < fuel) (hfuel : fromIndex + 1 < fuel + p)
    (hfound : LastBelow f t (min p (fromIndex + 1)) found) :
    ∃ answer, lastIndexFrom s needle fromIndex fuel p found = some answer ∧
      LastBelow f t (fromIndex + 1) answer := by
  induction fuel generalizing p found with
  | zero => exact absurd hpos (Nat.lt_irrefl 0)
  | succ fuel ih =>
      rw [lastIndexFrom]
      by_cases hp : p ≤ fromIndex
      · rw [if_pos hp, strstr_spec hs hneedle (by omega), Option.bind_some]
        rw [Nat.min_eq_left (by omega)] at hfound
        cases hsearch : search f (t.drop p) with
        | none =>
            refine ⟨found, rfl, hfound.mono (by omega) fun j hpj _ => ?_⟩
            have := search_eq_none hsearch (j - p)
            rwa [List.drop_drop, Nat.add_sub_cancel' hpj] at this
        | some k =>
            obtain ⟨hoccurs, hlen, hfirst⟩ := search_eq_some hsearch
            have hbetween : ∀ j, p ≤ j → j < p + k → ¬f <+: t.drop j := fun j hpj hj => by
              have := hfirst (j - p) (by omega)
              rwa [List.drop_drop, Nat.add_sub_cancel' hpj] at this
            rw [List.drop_drop] at hoccurs
            change ∃ answer, lastIndexFrom s needle fromIndex fuel (p + k + 1)
              (if p + k ≤ fromIndex then some (p + k) else found) = some answer ∧ _
            refine ih (by omega) (by omega) ?_
            by_cases hq : p + k ≤ fromIndex
            · rw [if_pos hq, Nat.min_eq_left (by omega)]
              exact ⟨Nat.lt_succ_self _, hoccurs, fun j hkj hj => by omega⟩
            · rw [if_neg hq, Nat.min_eq_right (by omega)]
              exact hfound.mono (by omega) fun j hpj hj => hbetween j hpj (by omega)
      · rw [if_neg hp]
        rw [Nat.min_eq_right (by omega)] at hfound
        exact ⟨found, rfl, hfound⟩

/-- **`lastIndexOf`.** -/
theorem lastIndexOf_spec (hs : HasText s t) {s2 : Obj} (hs2 : HasText s2 f) (hf : f ≠ [])
    {fromIndex : ℕ} (hfrom : fromIndex < t.length) :
    ∃ answer, lastIndexOf s s2 fromIndex = some answer ∧
      LastBelow f t (fromIndex + 1) answer := by
  have hpos : f.length ≠ 0 := fun h => hf (List.length_eq_zero_iff.1 h)
  rw [lastIndexOf, hs.len, hs2.len]
  by_cases hshort : t.length < f.length
  · refine ⟨none, if_pos (Or.inr (Or.inr hshort)), fun j _ hoccurs => ?_⟩
    have := hoccurs.length_le
    rw [List.length_drop] at this
    omega
  · have hcond : ¬(f.length = 0 ∨ t.length = 0 ∨ t.length < f.length) := by omega
    rw [if_neg hcond, if_neg (by omega)]
    exact lastIndexFrom_spec hs hs2.text hfrom (by omega) (by omega)
      (show LastBelow f t (min 0 (fromIndex + 1)) none from
        fun j hj => absurd hj (by rw [Nat.zero_min]; exact Nat.not_lt_zero j))

/-! ### Copying an operand -/

/-- **`memcpy` from another object.** -/
theorem copyOperand_spec {r : Obj} {b : List UInt8} (hs : HasBlock s b) (hr : Holds r u) {i : ℕ}
    (hi : i + u.length ≤ b.length) :
    ∃ b', copyOperand s i (some r) = some { s with buffer := .block b' } ∧
      paste b i u = some b' := by
  by_cases hu : u = []
  · subst hu
    refine ⟨b, ?_, paste_nil (by rwa [List.length_nil, Nat.add_zero] at hi)⟩
    have hlen : r.len = 0 := hr.len
    rw [copyOperand, if_pos hlen, ← hs.buffer]
  · have htext := hr.hasText_of_ne_nil hu
    obtain ⟨rest, hblock⟩ := htext.block
    have hpaste := paste_of_le hi
    have hlen : ¬r.len = 0 := fun h => hu (List.length_eq_zero_iff.1 (hr.len.symm.trans h))
    have hle : r.len ≤ (u ++ 0 :: rest).length := by
      rw [hr.len, List.length_append]
      omega
    have htake : (u ++ 0 :: rest).take r.len = u := by rw [hr.len, List.take_left]
    refine ⟨_, ?_, hpaste⟩
    rw [copyOperand, if_neg hlen, hblock.buffer, Buffer.bytes, Option.bind_some, if_pos hle, htake]
    exact hs.modify (f := fun b => paste b i u) hpaste

theorem length_overwrite {i : ℕ} (hi : i + u.length ≤ t.length) :
    (t.take i ++ u ++ t.drop (i + u.length)).length = t.length := by
  rw [List.length_append, List.length_append, List.length_take, List.length_drop]
  omega

/-- Characters that are overwritten by as many others. -/
theorem overwrite_spec (hs : HasText s t) {r : Obj} (hr : HasText r u) {i : ℕ}
    (hi : i + u.length ≤ t.length) :
    ∃ s', copyOperand s i (some r) = some s' ∧
      HasText s' (t.take i ++ u ++ t.drop (i + u.length)) := by
  obtain ⟨rest, hblock⟩ := hs.block
  obtain ⟨b', hcopy, hpaste⟩ := copyOperand_spec hblock hr.holds
    (show i + u.length ≤ (t ++ 0 :: rest).length by rw [List.length_append]; omega)
  have hlen := length_overwrite hi
  have hno : 0 ∉ t.take i ++ u ++ t.drop (i + u.length) := fun h => by
    rcases List.mem_append.1 h with h | h
    · exact (List.mem_append.1 h).elim (fun h => hs.noNul (List.mem_of_mem_take h)) hr.noNul
    · exact hs.noNul (List.mem_of_mem_drop h)
  have hb' : b' = t.take i ++ u ++ t.drop (i + u.length) ++ 0 :: rest := by
    rw [paste_of_le (by rw [List.length_append]; omega), Option.some.injEq,
      List.take_append_of_le_length (by omega), List.drop_append_of_le_length hi] at hpaste
    rw [← hpaste]
    simp only [List.append_assoc]
  have hblock' := hblock.set b' (length_paste hpaste) s.len
  rw [hb'] at hcopy hblock'
  exact ⟨_, hcopy, .of_block hno hblock' (hs.len.trans hlen.symm)⟩

/-- A text that is copied to where it is. -/
theorem copyOperand_self (hs : HasText s t) : copyOperand s 0 none = some s := by
  obtain ⟨rest, hblock⟩ := hs.block
  have hcopy : copyForward s.len (t ++ 0 :: rest) 0 0 = some (t ++ 0 :: rest) := by
    rw [hs.len, copyForward_eq (l := 0 :: rest) rfl (Nat.le_refl 0) (Nat.zero_le _)]
    exact paste_self (q := 0 :: rest) rfl (Nat.zero_le _)
  rw [copyOperand, hblock.modify hcopy, ← hblock.buffer]

/-! ### A replacement of the same length -/

/-- The operands of `replace`: another object with a text, or the object itself. -/
def Operand (o : Option Obj) (t u : List UInt8) : Prop :=
  (o = none ∧ u = t) ∨ ∃ r, o = some r ∧ Holds r u

theorem Operand.holds {o : Option Obj} (h : Operand o t u) (hs : Holds s t) :
    Holds (o.getD s) u := by
  rcases h with ⟨rfl, rfl⟩ | ⟨r, rfl, hr⟩
  · exact hs
  · exact hr

/-- **The loop for a replacement of the same length.**  An operand that is the object itself has
another text after a step, but not another length. -/
theorem replaceEqual_spec {n k : ℕ} (hk : 0 < k) {fuel i : ℕ} (hs : HasText s t)
    (hn : t.length = n) (hfind : ∃ f, Operand find t f ∧ f.length = k)
    (hreplace : ∃ u, Operand replace t u ∧ u.length = k) (hi : i ≤ n) (hfuel : n < fuel + i) :
    ∃ s' t', replaceEqual find replace fuel s i = some s' ∧ HasText s' t' := by
  induction fuel generalizing s t i with
  | zero => omega
  | succ fuel ih =>
      obtain ⟨f, hf, hfk⟩ := hfind
      obtain ⟨u, hu, huk⟩ := hreplace
      have hfind' := (hf.holds hs.holds).hasText_of_ne_nil
        (List.ne_nil_of_length_pos (by omega))
      rw [replaceEqual, strstr_spec hs hfind'.text (by omega), Option.bind_some]
      cases hsearch : search f (t.drop i) with
      | none => exact ⟨s, t, rfl, hs⟩
      | some j =>
          obtain ⟨-, hlen, -⟩ := search_eq_some hsearch
          rw [List.length_drop] at hlen
          -- what is there afterwards is as long as before
          obtain ⟨s', t', hcopy, hs', hlen'⟩ : ∃ s' t', copyOperand s (i + j) replace = some s' ∧
              HasText s' t' ∧ t'.length = t.length := by
            rcases hu with ⟨rfl, rfl⟩ | ⟨r, rfl, hr⟩
            · have hzero : i + j = 0 := by omega
              rw [hzero]
              exact ⟨s, u, copyOperand_self hs, hs, rfl⟩
            · obtain ⟨s', hcopy, hs'⟩ := overwrite_spec hs (hr.hasText_of_ne_nil
                (List.ne_nil_of_length_pos (by omega))) (i := i + j) (by omega)
              exact ⟨s', _, hcopy, hs', length_overwrite (by omega)⟩
          have hagain : ∀ {o : Option Obj} {v : List UInt8}, Operand o t v → v.length = k →
              ∃ v', Operand o t' v' ∧ v'.length = k := fun ho hv => by
            rcases ho with ⟨rfl, rfl⟩ | ho
            · exact ⟨t', Or.inl ⟨rfl, rfl⟩, hlen'.trans hv⟩
            · exact ⟨_, Or.inr ho, hv⟩
          obtain ⟨v, hv, hvk⟩ := hagain hu huk
          have hreplaceLen : (replace.getD s').len = k := (hv.holds hs'.holds).len.trans hvk
          change ∃ s' t', ((copyOperand s (i + j) replace).bind fun s =>
            replaceEqual find replace fuel s (i + j + (replace.getD s).len)) = some s' ∧ _
          rw [hcopy, Option.bind_some, hreplaceLen]
          exact ih hs' (hlen'.trans hn) (hagain hf hfk) ⟨v, hv, hvk⟩ (by omega) (by omega)

/-- **What the loop makes of the text**, with two other objects. -/
theorem replaceEqual_other {x r : Obj} (hx : HasText x f) (hf : f ≠ []) (hr : HasText r u)
    (hlen : u.length = f.length) {fuel i : ℕ} (hs : HasText s t) (hi : i ≤ t.length)
    (hfuel : t.length < fuel + i) :
    ∃ s', replaceEqual (some x) (some r) fuel s i = some s' ∧
      HasText s' (t.take i ++ substitute f u (t.drop i)) := by
  induction fuel generalizing s t i with
  | zero => omega
  | succ fuel ih =>
      have hpos := List.length_pos_iff.2 hf
      rw [replaceEqual, Option.getD_some, strstr_spec hs hx.text hi, Option.bind_some]
      cases hsearch : search f (t.drop i) with
      | none =>
          refine ⟨s, rfl, ?_⟩
          rwa [substitute_of_search_none hf hsearch, List.take_append_drop]
      | some j =>
          have hj := (search_eq_some hsearch).2.1
          rw [List.length_drop] at hj
          obtain ⟨s₁, hcopy, hs₁⟩ := overwrite_spec hs hr (i := i + j) (by omega)
          have hlen₁ := length_overwrite (t := t) (u := u) (i := i + j) (by omega)
          have hfront : (t.take (i + j) ++ u).length = i + j + u.length := by
            rw [List.length_append, List.length_take_of_le (by omega)]
          obtain ⟨s', hloop, hs'⟩ := ih hs₁ (i := i + j + u.length) (by omega) (by omega)
          refine ⟨s', ?_, ?_⟩
          · change ((copyOperand s (i + j) (some r)).bind fun s =>
              replaceEqual (some x) (some r) fuel s (i + j + r.len)) = some s'
            rw [hcopy, Option.bind_some, hr.len]
            exact hloop
          · rw [← hfront, List.take_left, List.drop_left, hfront] at hs'
            rw [substitute_of_search hf hsearch, List.drop_drop, ← hlen]
            have htake : t.take (i + j) = t.take i ++ (t.drop i).take j := by
              rw [List.take_add]
            rw [htake, List.append_assoc, List.append_assoc, Nat.add_assoc] at hs'
            exact hs'

/-! ### A shorter replacement -/

/-- Between two steps of the loop for a shorter replacement: `w` has been written to the front of
the buffer, and `l` is what is left to be read. -/
structure Moving (s : Obj) (w l : List UInt8) (readFrom : ℕ) : Prop where
  block : ∃ b rest, HasBlock s b ∧ b.take w.length = w ∧ b.drop readFrom = l ++ 0 :: rest
  le : w.length ≤ readFrom
  len : s.len = w.length + l.length
  written : 0 ∉ w
  left : 0 ∉ l

/-- The bytes that are left are in the block. -/
theorem length_of_drop {b l rest : List UInt8} {i : ℕ} (h : b.drop i = l ++ 0 :: rest) :
    i + l.length < b.length := by
  have := congrArg List.length h
  rw [List.length_drop, List.length_append, List.length_cons] at this
  omega

/-- **The end of the loop**: the rest of the text is moved. -/
theorem Moving.finish {w l : List UInt8} {i : ℕ} (h : Moving s w l i) :
    ∃ s', (s.modify fun b => strcpyForward (b.length + 1) b w.length i) = some s' ∧
      HasText s' (w ++ l) := by
  obtain ⟨b, rest, hblock, hw, hl⟩ := h.block
  have hlt := length_of_drop hl
  have hle := h.le
  have hfit : w.length + (l ++ [0]).length ≤ b.length := by
    rw [List.length_append, List.length_singleton]
    omega
  have hpaste := paste_of_le hfit
  rw [hw, List.append_assoc, ← List.append_assoc] at hpaste
  have hcopy : strcpyForward (b.length + 1) b w.length i = _ :=
    (strcpyForward_eq h.left hl h.le (by omega)).trans hpaste
  have hno : 0 ∉ w ++ l := fun h0 => (List.mem_append.1 h0).elim h.written h.left
  exact ⟨_, hblock.modify (f := fun b => strcpyForward (b.length + 1) b w.length i) hcopy,
    .of_block hno (hblock.set _ (length_paste hpaste) s.len)
      (h.len.trans List.length_append.symm)⟩

/-- **A step of the loop**: the characters before the occurrence are moved, and the replacement is
put behind them. -/
theorem Moving.next {w l : List UInt8} {i j k : ℕ} (h : Moving s w l i) {r : Obj}
    (hr : Holds r u) (hj : j + k ≤ l.length) (hle : u.length ≤ k) :
    ∃ s₁ s₂, (s.modify fun b => copyForward j b w.length i) = some s₁ ∧
      copyOperand s₁ (w.length + j) (some r) = some s₂ ∧
      Moving { s₂ with len := unsigned (s₂.len + (u.length - k)) }
        (w ++ l.take j ++ u) (l.drop (j + k)) (i + j + k) := by
  obtain ⟨b, rest, hblock, hw, hl⟩ := h.block
  have hlt := length_of_drop hl
  have hwi := h.le
  have htake : (l.take j).length = j := List.length_take_of_le (by omega)
  -- the characters before the occurrence
  have hsrc : b.drop i = l.take j ++ (l.drop j ++ 0 :: rest) := by
    rw [hl, ← List.append_assoc, List.take_append_drop]
  obtain ⟨b₁, hpaste₁⟩ : ∃ b₁, paste b w.length (l.take j) = some b₁ :=
    ⟨_, paste_of_le (by omega)⟩
  have hcopy : copyForward j b w.length i = some b₁ := by
    rw [← hpaste₁, ← copyForward_eq hsrc hwi (by omega), htake]
  have htake₁ := take_paste hpaste₁
  have hdrop₁ : b₁.drop (i + j) = l.drop j ++ 0 :: rest := by
    rw [drop_paste hpaste₁ (by omega), ← List.drop_drop, hl,
      List.drop_append_of_le_length (by omega)]
  rw [hw, htake] at htake₁
  have hblock₁ := hblock.set b₁ (length_paste hpaste₁) s.len
  -- the replacement
  have hlen₁ := length_paste hpaste₁
  obtain ⟨b₂, hoperand, hpaste₂⟩ := copyOperand_spec hblock₁ hr
    (show w.length + j + u.length ≤ b₁.length by omega)
  have htake₂ := take_paste hpaste₂
  rw [htake₁] at htake₂
  have hdrop₂ : b₂.drop (i + j + k) = l.drop (j + k) ++ 0 :: rest := by
    rw [drop_paste hpaste₂ (by omega), ← List.drop_drop, hdrop₁,
      List.drop_append_of_le_length (by rw [List.length_drop]; omega), List.drop_drop]
  have hnew : (w ++ l.take j ++ u).length = w.length + j + u.length := by
    rw [List.length_append, List.length_append, htake]
  refine ⟨_, _, hblock.modify (f := fun b => copyForward j b w.length i) hcopy, hoperand,
    ⟨b₂, rest, hblock₁.set b₂ (length_paste hpaste₂) _, by rw [hnew]; exact htake₂, hdrop₂⟩,
    ?_, ?_, ?_, fun h0 => h.left (List.mem_of_mem_drop h0)⟩
  · omega
  · have hslen := h.len
    have hsmall := hblock.small
    have hblen := hblock.length
    rw [hnew, List.length_drop]
    dsimp only
    rw [hslen]
    unfold unsigned
    omega
  · intro h0
    rcases List.mem_append.1 h0 with h0 | h0
    · exact (List.mem_append.1 h0).elim h.written fun h0 => h.left (List.mem_of_mem_take h0)
    · exact hr.noNul h0

/-- `strstr` in what is left to be read. -/
theorem Moving.strstr_eq {w l : List UInt8} {i : ℕ} (h : Moving s w l i) {needle : Buffer}
    (hneedle : needle.text = some f) :
    strstr s i needle = some ((search f l).map (i + ·)) := by
  obtain ⟨b, rest, hblock, -, hl⟩ := h.block
  rw [strstr, hblock.buffer, Buffer.bytes, Option.bind_some, hl, scan_append h.left,
    Option.bind_some, hneedle]
  rfl

/-- The loop begins with nothing written. -/
theorem HasText.moving (hs : HasText s t) : Moving s [] t 0 := by
  obtain ⟨rest, hblock⟩ := hs.block
  exact ⟨⟨_, rest, hblock, rfl, rfl⟩, Nat.le_refl 0, by rw [hs.len, List.length_nil, Nat.zero_add],
    List.not_mem_nil, hs.noNul⟩

/-- **The loop for a shorter replacement**, with two other objects. -/
theorem replaceShorter_other {x r : Obj} (hx : HasText x f) (hf : f ≠ []) (hr : Holds r u)
    (hle : u.length ≤ f.length) {fuel i : ℕ} {w l : List UInt8} (h : Moving s w l i)
    (hfuel : l.length < fuel) :
    ∃ s', replaceShorter (some x) (some r) (u.length - f.length) fuel s w.length i = some s' ∧
      HasText s' (w ++ substitute f u l) := by
  induction fuel generalizing s i w l with
  | zero => exact absurd hfuel (Nat.not_lt_zero _)
  | succ fuel ih =>
      rw [replaceShorter, Option.getD_some, h.strstr_eq hx.text, Option.bind_some]
      cases hsearch : search f l with
      | none =>
          rw [substitute_of_search_none hf hsearch]
          exact h.finish
      | some j =>
          have hj := (search_eq_some hsearch).2.1
          have hpos : 0 < f.length := List.length_pos_iff.2 hf
          obtain ⟨s₁, s₂, hcopy, hoperand, hnext⟩ := h.next hr hj hle
          have hwritten : w.length + j + r.len = (w ++ l.take j ++ u).length := by
            rw [List.length_append, List.length_append, List.length_take_of_le (by omega), hr.len]
          change ∃ s', ((s.modify fun b => copyForward (i + j - i) b w.length i).bind fun s =>
            (copyOperand s (w.length + (i + j - i)) (some r)).bind fun s =>
              replaceShorter (some x) (some r) (u.length - f.length) fuel
                { s with len := unsigned (s.len + (u.length - f.length)) }
                (w.length + (i + j - i) + r.len) (i + j + x.len)) = some s' ∧ _
          rw [Nat.add_sub_cancel_left, hcopy, Option.bind_some, hoperand, Option.bind_some,
            hwritten, hx.len, substitute_of_search hf hsearch, ← List.append_assoc,
            ← List.append_assoc]
          exact ih hnext (by rw [List.length_drop]; omega)

/-- The loop for a shorter replacement of the object itself: its text occurs in it once. -/
theorem replaceShorter_self {r : Obj} (hs : HasText s t) (hr : Holds r u)
    (hlt : u.length < t.length) {fuel : ℕ} (hfuel : 1 < fuel) :
    ∃ s', replaceShorter none (some r) (u.length - t.length) fuel s 0 0 = some s' ∧
      HasText s' u := by
  obtain ⟨fuel, rfl⟩ : ∃ k, fuel = k + 2 := ⟨fuel - 2, by omega⟩
  have ht : t ≠ [] := List.ne_nil_of_length_pos (Nat.zero_lt_of_lt hlt)
  obtain ⟨rest, hblock⟩ := hs.block
  obtain ⟨s₁, s₂, hcopy, hoperand, hnext⟩ := hs.moving.next (j := 0) (k := t.length) hr
    (Nat.le_of_eq (Nat.zero_add _)) (Nat.le_of_lt hlt)
  have hoperand : copyOperand s₁ 0 (some r) = some s₂ := hoperand
  -- nothing is moved
  have hkeep : (s.modify fun b => copyForward 0 b 0 0) = some s := by
    rw [hblock.modify (f := fun b => copyForward 0 b 0 0) rfl, ← hblock.buffer]
  cases hkeep.symm.trans hcopy
  obtain ⟨t', hs₂, hlen⟩ : ∃ t', HasText s₂ t' ∧ t'.length = t.length := by
    by_cases hu : u = []
    · have hempty : copyOperand s 0 (some r) = some s :=
        if_pos (hr.len.trans (hu ▸ List.length_nil))
      cases hempty.symm.trans hoperand
      exact ⟨t, hs, rfl⟩
    · obtain ⟨s', hover, hs'⟩ := overwrite_spec hs (hr.hasText_of_ne_nil hu) (i := 0) (by omega)
      cases hover.symm.trans hoperand
      exact ⟨_, hs', length_overwrite (by omega)⟩
  have ht' : t' ≠ [] := List.ne_nil_of_length_pos (by omega)
  have hfirst : strstr s 0 s.buffer = some (some 0) := by
    rw [strstr_spec hs hs.text (Nat.zero_le _), List.drop_zero, search_self ht]
    rfl
  have hsecond : strstr s₂ t.length s₂.buffer = some none := by
    rw [strstr_spec hs₂ hs₂.text (Nat.le_of_eq hlen.symm), List.drop_of_length_le
      (Nat.le_of_eq hlen), search_nil ht']
    rfl
  obtain ⟨s', hfinish, hs'⟩ := hnext.finish
  have hall : [] ++ t.take 0 ++ u ++ t.drop (0 + t.length) = u := by simp
  rw [hall] at hs'
  refine ⟨s', ?_, hs'⟩
  have hlen₂ : s₂.len = t.length := hs₂.len.trans hlen
  rw [replaceShorter, Option.getD_none, hfirst, Option.bind_some]
  change ((s.modify fun b => copyForward 0 b 0 0).bind fun s =>
    (copyOperand s 0 (some r)).bind fun s =>
      replaceShorter none (some r) (u.length - t.length) (fuel + 1)
        { s with len := unsigned (s.len + (u.length - t.length)) }
        (0 + r.len) (0 + s.len)) = some s'
  rw [hkeep, Option.bind_some, hoperand, Option.bind_some, replaceShorter, Option.getD_none,
    Nat.zero_add, Nat.zero_add, hlen₂, hr.len]
  change ((strstr s₂ t.length s₂.buffer).bind fun answer => _) = some s'
  rw [hsecond, Option.bind_some]
  simpa [hlen₂] using hfinish

/-! ### A longer replacement -/

/-- **The size for a longer replacement** counts the occurrences from the left, in a word. -/
theorem replacedSize_mod (hs : HasText s t) (hfind : Operand find t f) (hf : f ≠ []) {d : ℕ}
    {fuel i size : ℕ} (hi : i ≤ t.length) (hfuel : t.length < fuel + i) (hsize : size < 2 ^ 32) :
    replacedSize s find d fuel i size = some ((size + count f (t.drop i) * d) % 2 ^ 32) := by
  have htext := (hfind.holds hs.holds).hasText_of_ne_nil hf
  have hpos : 0 < f.length := List.length_pos_iff.2 hf
  induction fuel generalizing i size with
  | zero => omega
  | succ fuel ih =>
      rw [replacedSize, strstr_spec hs htext.text hi, Option.bind_some]
      cases hsearch : search f (t.drop i) with
      | none =>
          rw [count_of_search_none hsearch, Nat.zero_mul, Nat.add_zero, Nat.mod_eq_of_lt hsize]
          rfl
      | some j =>
          have hlen := (search_eq_some hsearch).2.1
          rw [List.length_drop] at hlen
          have hcount := count_of_search hf hsearch
          rw [List.drop_drop, ← Nat.add_assoc] at hcount
          have hunsigned : unsigned (size + d) = (size + d) % 2 ^ 32 := by
            unfold unsigned
            omega
          change replacedSize s find d fuel (i + j + (find.getD s).len) (unsigned (size + d)) = _
          rw [htext.len, hunsigned, ih (by omega) (by omega) (Nat.mod_lt _ (Nat.two_pow_pos 32)),
            Nat.mod_add_mod, hcount, Nat.succ_mul]
          congr 2
          omega

/-- The size for a longer replacement, if it is not too large for a word. -/
theorem replacedSize_spec (hs : HasText s t) (hfind : Operand find t f) (hf : f ≠ []) {d : ℕ}
    {fuel i size : ℕ} (hi : i ≤ t.length) (hfuel : t.length < fuel + i)
    (hsize : size + count f (t.drop i) * d < 2 ^ 32) :
    replacedSize s find d fuel i size = some (size + count f (t.drop i) * d) := by
  rw [replacedSize_mod hs hfind hf hi hfuel (Nat.lt_of_le_of_lt (Nat.le_add_right _ _) hsize),
    Nat.mod_eq_of_lt hsize]

/-- The bytes of the buffer when the rest of the text is moved up, a NUL is put behind it, and the
gap is filled. -/
theorem insert_bytes (rest : List UInt8) {k m d : ℕ} (hk : k + m ≤ t.length)
    (hd : u.length = m + d) (hroom : t.length + d < (t ++ 0 :: rest).length) :
    ∃ b₁ b₂ q, memmove (t ++ 0 :: rest) (k + m + d) (k + m) (t.length - (k + m)) = some b₁ ∧
      store b₁ (t.length + d) 0 = some b₂ ∧
      paste b₂ k u = some (t.take k ++ (u ++ t.drop (k + m)) ++ 0 :: q) := by
  have hx : (t.drop (k + m)).length = t.length - (k + m) := List.length_drop
  have htake : ((t ++ 0 :: rest).take (k + m + d)).length = k + m + d :=
    List.length_take_of_le (by omega)
  obtain ⟨c, q, hq⟩ : ∃ c q, (t ++ 0 :: rest).drop (t.length + d) = c :: q := by
    refine List.exists_cons_of_length_pos ?_
    rw [List.length_drop]
    omega
  refine ⟨(t ++ 0 :: rest).take (k + m + d) ++ t.drop (k + m) ++ c :: q,
    (t ++ 0 :: rest).take (k + m + d) ++ t.drop (k + m) ++ 0 :: q, q, ?_, ?_, ?_⟩
  · have hsrc : ((t ++ 0 :: rest).drop (k + m)).take (t.length - (k + m)) = t.drop (k + m) := by
      rw [List.drop_append_of_le_length hk, ← hx, List.take_left]
    rw [memmove, if_pos (by omega), hsrc, paste_of_le (by omega), List.append_assoc, hx, ← hq]
    congr 4
    omega
  · have hlen : ((t ++ 0 :: rest).take (k + m + d) ++ t.drop (k + m)).length = t.length + d := by
      rw [List.length_append, hx, htake]
      omega
    rw [← hlen]
    exact store_append _ c 0 q
  · -- the gap is between the two parts of the text
    have hgap : (t ++ 0 :: rest).take (k + m + d) =
        t.take k ++ ((t ++ 0 :: rest).take (k + m + d)).drop k := by
      have hfront : t.take k = ((t ++ 0 :: rest).take (k + m + d)).take k := by
        rw [List.take_take, Nat.min_eq_left (by omega), List.take_append_of_le_length (by omega)]
      rw [hfront, List.take_append_drop]
    have hlen : (((t ++ 0 :: rest).take (k + m + d)).drop k).length = u.length := by
      rw [List.length_drop, htake, hd]
      omega
    have hpaste := paste_append (p := t.take k) (t.drop (k + m) ++ 0 :: q) hlen
    rw [← List.append_assoc, ← hgap, ← List.append_assoc, List.length_take_of_le (by omega),
      ← List.append_assoc u, ← List.append_assoc (t.take k)] at hpaste
    exact hpaste

/-- **One replacement by a longer string**, which fits in the buffer. -/
theorem replaceAt_spec (hs : HasText s t) (hfind : Operand find t f) {r : Obj} (hr : HasText r u)
    {k d : ℕ} (hk : k + f.length ≤ t.length) (hd : u.length = f.length + d)
    (hcapacity : t.length + d ≤ s.capacity) :
    ∃ s', replaceAt find (some r) d s k = some s' ∧
      HasText s' (t.take k ++ (u ++ t.drop (k + f.length))) ∧ s'.capacity = s.capacity := by
  obtain ⟨rest, hblock⟩ := hs.block
  have hblen := hblock.length
  have hsmall := hblock.small
  have hfindlen : (find.getD s).len = f.length := (hfind.holds hs.holds).len
  have hn : unsigned (s.len - (k + f.length : ℕ)) = t.length - (k + f.length) := by
    rw [hs.len]
    unfold unsigned
    omega
  have hdst : ((k + f.length : ℕ) + (d : ℤ)).toNat = k + f.length + d := by omega
  have hlen : unsigned (s.len + d) = t.length + d := by
    rw [hs.len]
    exact unsigned_of_lt (n := t.length + d) (by omega)
  obtain ⟨b₁, b₂, q, hmove, hstore, hpaste⟩ := insert_bytes rest hk hd (by omega)
  have hlen₁ : b₁.length = (t ++ 0 :: rest).length := by
    rw [memmove, if_pos (by omega)] at hmove
    exact length_paste hmove
  have hblock₁ := hblock.set b₁ hlen₁ (t.length + d)
  have hblock₂ := hblock₁.set b₂ (length_store hstore) (t.length + d)
  obtain ⟨b₃, hcopy, hpaste₃⟩ := copyOperand_spec hblock₂ hr.holds (i := k) (by
    rw [length_store hstore]
    omega)
  cases hpaste.symm.trans hpaste₃
  have hno : 0 ∉ t.take k ++ (u ++ t.drop (k + f.length)) := fun h => by
    rcases List.mem_append.1 h with h | h
    · exact hs.noNul (List.mem_of_mem_take h)
    · exact (List.mem_append.1 h).elim hr.noNul fun h => hs.noNul (List.mem_of_mem_drop h)
  have hnewlen : (t.take k ++ (u ++ t.drop (k + f.length))).length = t.length + d := by
    rw [List.length_append, List.length_append, List.length_drop,
      List.length_take_of_le (by omega)]
    omega
  have hblock₃ := hblock₂.set _ (length_paste hpaste) (t.length + d)
  refine ⟨_, ?_, .of_block hno hblock₃ hnewlen.symm, rfl⟩
  rw [replaceAt, hfindlen]
  dsimp only
  rw [hdst, hn, hblock.modify (f := fun b => memmove b _ _ _) hmove, Option.bind_some]
  dsimp only
  rw [hlen, hblock₁.modify (f := fun b => store b _ 0) hstore, Option.bind_some]
  exact hcopy

/-- One replacement by a longer string, which does not fit: the NUL would be put behind the
buffer. -/
theorem replaceAt_of_lt (hs : HasText s t) (find : Option Obj) (r : Obj) {d : ℕ} (k : ℕ)
    (hd : d < 2 ^ 31) (hcapacity : s.capacity < t.length + d) :
    replaceAt find (some r) d s k = none := by
  obtain ⟨rest, hblock⟩ := hs.block
  have hblen := hblock.length
  have hsmall := hblock.small
  have hle := hs.length_le.1
  have hlen : unsigned (s.len + d) = t.length + d := by
    rw [hs.len]
    exact unsigned_of_lt (n := t.length + d) (by omega)
  rw [replaceAt, Option.bind_eq_none_iff]
  intro s₁ hmove
  rw [Obj.modify, hblock.buffer, Buffer.bytes, Option.bind_some] at hmove
  obtain ⟨b₁, hb₁, rfl⟩ := Option.map_eq_some_iff.1 hmove
  have hlen₁ : b₁.length = (t ++ 0 :: rest).length := by
    rw [memmove] at hb₁
    split_ifs at hb₁
    exact length_paste hb₁
  have hstore : store b₁ (t.length + d) 0 = none := if_neg (by omega)
  dsimp only
  rw [hlen, Obj.modify, Buffer.bytes, Option.bind_some, hstore]
  rfl

/-- **The loop for a longer replacement**, with two other objects: it replaces the occurrences from
the right, as long as what it makes fits in the buffer, and writes behind it otherwise. -/
theorem replaceLonger_other {x r : Obj} (hx : HasText x f) (hf : f ≠ []) (hr : HasText r u)
    {d : ℕ} (hd : u.length = f.length + d) {fuel : ℕ} {pre acc : List UInt8}
    (hs : HasText s (pre ++ acc)) (hfuel : pre.length < fuel) :
    ((replaceOnto f u pre acc).length ≤ s.capacity →
      ∃ s', replaceLonger (some x) (some r) d fuel s pre.length = some s' ∧
        HasText s' (replaceOnto f u pre acc)) ∧
    (s.capacity < (replaceOnto f u pre acc).length →
      replaceLonger (some x) (some r) d fuel s pre.length = none) := by
  induction fuel generalizing s pre acc with
  | zero => exact absurd hfuel (Nat.not_lt_zero _)
  | succ fuel ih =>
      have hin := hs.length_le.1
      cases hpre : pre.length with
      | zero =>
          have hnil : pre = [] := List.length_eq_zero_iff.1 hpre
          subst hnil
          exact ⟨fun _ => ⟨s, rfl, hs⟩, fun hlt => absurd hin (Nat.not_le.2 hlt)⟩
      | succ index =>
          obtain ⟨answer, hlast, hbelow⟩ := lastIndexOf_spec hs hx hf
            (show index < (pre ++ acc).length by rw [List.length_append]; omega)
          rw [replaceLonger, Option.getD_some, hlast, Option.bind_some]
          cases answer with
          | none =>
              have hnone : replaceOnto f u pre acc = pre ++ acc :=
                replaceOnto_of_none fun j hj => hbelow j (by omega)
              rw [hnone]
              exact ⟨fun _ => ⟨s, rfl, hs⟩, fun hlt => absurd hin (Nat.not_le.2 hlt)⟩
          | some k =>
              obtain ⟨hk, hoccurs, hbehind⟩ := hbelow
              have hstep := replaceOnto_of_last (r := u) (show k < pre.length by omega) hoccurs
                fun j hkj hj => hbehind j hkj (by omega)
              have htake : (pre ++ acc).take k = pre.take k :=
                List.take_append_of_le_length (by omega)
              have hlen := hoccurs.length_le
              rw [List.length_drop] at hlen
              have hkf : k + f.length ≤ (pre ++ acc).length := by
                have := List.length_pos_iff.2 hf
                omega
              -- the text after this replacement is not longer than it will be at the end
              have hle := le_length_replaceOnto (show f.length ≤ u.length by omega)
                (pre.take k) (u ++ (pre ++ acc).drop (k + f.length))
              rw [← hstep, List.length_append, List.length_drop,
                List.length_take_of_le (by omega)] at hle
              have hother : Operand (some x) (pre ++ acc) f := Or.inr ⟨x, rfl, hx.holds⟩
              change (_ → ∃ s'', ((replaceAt (some x) (some r) d s k).bind fun s =>
                replaceLonger (some x) (some r) d fuel s k) = some s'' ∧ _) ∧
                (_ → ((replaceAt (some x) (some r) d s k).bind fun s =>
                  replaceLonger (some x) (some r) d fuel s k) = none)
              by_cases hfit : (pre ++ acc).length + d ≤ s.capacity
              · obtain ⟨s', hreplace, hs', hcap⟩ := replaceAt_spec hs hother hr hkf hd hfit
                rw [htake] at hs'
                have hlenk : (pre.take k).length = k := List.length_take_of_le (by omega)
                have hloop := ih hs' (by omega)
                rw [hlenk, hcap] at hloop
                rw [hreplace, Option.bind_some, hstep]
                exact hloop
              · have hsmall := hr.holds.length_lt
                rw [replaceAt_of_lt hs (some x) r k (by omega) (by omega)]
                exact ⟨fun h => by omega, fun _ => rfl⟩

/-- The loop for a longer replacement of the object itself: its text occurs in it once. -/
theorem replaceLonger_self (hs : HasText s t) (ht : t ≠ []) {r : Obj} (hr : HasText r u) {d : ℕ}
    (hd : u.length = t.length + d) (hcapacity : u.length ≤ s.capacity) {fuel : ℕ}
    (hfuel : 1 < fuel) :
    ∃ s', replaceLonger none (some r) d fuel s t.length = some s' ∧ HasText s' u := by
  obtain ⟨fuel, rfl⟩ : ∃ k, fuel = k + 2 := ⟨fuel - 2, by omega⟩
  obtain ⟨index, hindex⟩ : ∃ k, t.length = k + 1 :=
    Nat.exists_eq_succ_of_ne_zero fun h => ht (List.length_eq_zero_iff.1 h)
  obtain ⟨answer, hlast, hbelow⟩ := lastIndexOf_spec hs hs ht
    (show index < t.length by omega)
  have hanswer : answer = some 0 := by
    cases answer with
    | none => exact absurd List.prefix_rfl (hbelow 0 (Nat.succ_pos _))
    | some k =>
        have hlen := hbelow.2.1.length_le
        rw [List.length_drop] at hlen
        congr 1
        omega
  subst hanswer
  have hself : Operand none t t := Or.inl ⟨rfl, rfl⟩
  obtain ⟨s', hreplace, hs', -⟩ := replaceAt_spec hs hself hr (k := 0)
    (Nat.le_of_eq (Nat.zero_add _)) hd (by omega)
  rw [Nat.zero_add, List.drop_length, List.append_nil, List.take_zero, List.nil_append] at hs'
  refine ⟨s', ?_, hs'⟩
  rw [hindex, replaceLonger, Option.getD_none, hlast, Option.bind_some]
  change ((replaceAt none (some r) d s 0).bind fun s =>
    replaceLonger none (some r) d (fuel + 1) s 0) = some s'
  rw [hreplace]
  rfl

/-! ### The member -/

/-- The characters of an object. -/
def Obj.chars (s : Obj) : List UInt8 := s.buffer.text.getD []

theorem Holds.chars (h : Holds s t) : s.chars = t := by
  rcases h with ⟨rfl, rfl⟩ | h
  · rfl
  · rw [Obj.chars, h.text]
    rfl

/-- The size of the text when each of the occurrences that are counted is replaced. -/
def grownSize (f u t : List UInt8) : ℕ := t.length + count f t * (u.length - f.length)

/-- **The arguments that `replace` is right for.**  A longer replacement of something that occurs is
not the object itself; and from the right there are no more replacements to be made than occurrences
are counted from the left, or the buffer that the object has is large enough for them. -/
def Replaceable (s : Obj) (find replace : Option Obj) : Prop :=
  let f := (find.getD s).chars
  let u := (replace.getD s).chars
  f ≠ [] → f.length < u.length → (search f s.chars).isSome →
    replace.isSome ∧ (countRight f u s.chars ≤ count f s.chars ∨
      s.len + countRight f u s.chars * (u.length - f.length) ≤ s.capacity)

/-- The allocator provides the buffer that a replacement needs. -/
def ReplaceGranted (A : Allocator) (s : Obj) (find replace : Option Obj) : Prop :=
  let f := (find.getD s).chars
  let u := (replace.getD s).chars
  f ≠ [] → f.length < u.length → s.capacity < grownSize f u s.chars →
    (A.alloc (grownSize f u s.chars + 1)).isSome

/-- The buffer is large enough for what the last loop makes. -/
theorem length_replaceRight_le {n : ℕ} (hlt : f.length < u.length)
    (h : countRight f u t ≤ count f t ∨
      t.length + countRight f u t * (u.length - f.length) ≤ n) :
    (replaceRight f u t).length ≤ max n (grownSize f u t) := by
  have hlen : (replaceRight f u t).length =
      t.length + countRight f u t * (u.length - f.length) :=
    length_replaceOnto (Nat.le_of_lt hlt) t []
  rw [hlen, grownSize]
  rcases h with h | h
  · have := Nat.mul_le_mul_right (u.length - f.length) h
    omega
  · omega

theorem signed_of_lt {i : ℤ} (h : -2 ^ 31 ≤ i) (h' : i < 2 ^ 31) : signed i = i := by
  unfold signed
  omega

/-- No loop takes more steps than the text has characters. -/
theorem HasText.lt_steps (hs : HasText s t) : t.length + 1 < s.steps := by
  obtain ⟨rest, hblock⟩ := hs.block
  rw [Obj.steps, hblock.buffer, Buffer.bytes, Option.getD_some, List.length_append,
    List.length_cons]
  omega

/-- The text is what it is searched for. -/
theorem substitute_self (ht : t ≠ []) (u : List UInt8) : substitute t u t = u := by
  have hsearch := search_self ht
  rw [substitute_of_search ht hsearch, Nat.zero_add, List.drop_length,
    substitute_of_search_none ht (search_nil ht), List.take_zero, List.nil_append, List.append_nil]

/-- `replace` by a shorter string. -/
theorem replace_shorter (hs : HasText s t) (hf : f ≠ []) (hfind : Operand find t f)
    (hreplace : Operand replace t u) (hlt : u.length < f.length) :
    ∃ s', replaceShorter find replace (u.length - f.length) s.steps s 0 0 = some s' ∧
      HasText s' (substitute f u t) := by
  have hsteps := hs.lt_steps
  rcases hreplace with ⟨rfl, rfl⟩ | ⟨r, rfl, hr⟩
  · -- the object is shorter than what it is searched for
    obtain ⟨k, hk⟩ : ∃ k, s.steps = k + 1 := ⟨s.steps - 1, by omega⟩
    have hfind' := (hfind.holds hs.holds).hasText_of_ne_nil hf
    have hnone : search f u = none := by
      cases hsearch : search f u with
      | none => rfl
      | some j =>
          have := (search_eq_some hsearch).2.1
          omega
    rw [substitute_of_search_none hf hnone]
    obtain ⟨s', hfinish, hs'⟩ := hs.moving.finish
    refine ⟨s', ?_, hs'⟩
    rw [hk, replaceShorter, hs.moving.strstr_eq hfind'.text, hnone]
    exact hfinish
  · rcases hfind with ⟨rfl, rfl⟩ | ⟨x, rfl, hx⟩
    · rw [substitute_self hf]
      exact replaceShorter_self hs hr hlt (by omega)
    · exact replaceShorter_other (hx.hasText_of_ne_nil hf) hf hr (Nat.le_of_lt hlt) hs.moving
        (by omega)

/-- The counting for a longer string, and the larger buffer. -/
theorem grown_spec (hs : HasText s t) (hf : f ≠ []) (hfind : Operand find t f)
    (hgranted : s.capacity < grownSize f u t → (A.alloc (grownSize f u t + 1)).isSome) :
    replacedSize s find (u.length - f.length : ℕ) s.steps 0 s.len = some (grownSize f u t) ∧
      ∃ s', (if s.capacity < grownSize f u t then changeBuffer A s (grownSize f u t)
        else some (s, true)) = some (s', true) ∧ HasText s' t ∧
          max s.capacity (grownSize f u t) ≤ s'.capacity := by
  have hsteps := hs.lt_steps
  have hcapacity := hs.length_le
  have hsmall : grownSize f u t < 2 ^ 32 := by
    by_cases h : s.capacity < grownSize f u t
    · have := Allocator.lt_of_isSome (hgranted h)
      omega
    · omega
  constructor
  · rw [hs.len]
    exact replacedSize_spec hs hfind hf (Nat.zero_le _) (by omega) hsmall
  · by_cases h : s.capacity < grownSize f u t
    · obtain ⟨s', hchange, hcap, hs'⟩ := changeBuffer_spec hs (by omega) (hgranted h)
      exact ⟨s', by rw [if_pos h, hchange], hs', by omega⟩
    · exact ⟨s, if_neg h, hs, by omega⟩

/-- `replace` by a longer string, if what the last loop makes fits in the buffer. -/
theorem replace_longer (hs : HasText s t) (hf : f ≠ []) (hfind : Operand find t f) {r : Obj}
    (hr : HasText r u) {d : ℕ} (hd : u.length = f.length + d) (hcount : count f t ≠ 0)
    (hgrown : grownSize f u t ≤ s.capacity) (hfit : (replaceRight f u t).length ≤ s.capacity) :
    ∃ s' t', replaceLonger find (some r) d (s.len + 1) s s.len = some s' ∧ HasText s' t' := by
  rw [hs.len]
  rcases hfind with ⟨rfl, rfl⟩ | ⟨x, rfl, hx⟩
  · have hpos : 0 < f.length := List.length_pos_iff.2 hf
    have hone : f.length + d ≤ grownSize f u f := by
      rw [grownSize, hd, Nat.add_sub_cancel_left]
      exact Nat.add_le_add_left (Nat.le_mul_of_pos_left d (Nat.pos_of_ne_zero hcount)) _
    obtain ⟨s', hloop, hs'⟩ := replaceLonger_self hs hf hr hd (by omega)
      (show 1 < f.length + 1 by omega)
    exact ⟨s', u, hloop, hs'⟩
  · have hall : HasText s (t ++ []) := by rwa [List.append_nil]
    obtain ⟨s', hloop, hs'⟩ := (replaceLonger_other (hx.hasText_of_ne_nil hf) hf hr hd hall
      (Nat.lt_succ_self _)).1 hfit
    exact ⟨s', _, hloop, hs'⟩

/-- **`replace`** of a string, with the texts of the operands. -/
theorem replace_eq (hs : HasText s t) (ht : t ≠ []) (hf : f ≠ []) (hfind : Operand find t f)
    (hreplace : Operand replace t u) :
    WString.replace A s find replace =
      if u.length = f.length then replaceEqual find replace s.steps s 0
      else if u.length < f.length then
        replaceShorter find replace (u.length - f.length) s.steps s 0 0
      else (replacedSize s find (u.length - f.length : ℕ) s.steps 0 s.len).bind fun size =>
        if size = s.len then some s
        else (if s.capacity < size then changeBuffer A s size else some (s, true)).bind fun a =>
          if a.2 then
            replaceLonger find replace (u.length - f.length : ℕ) (a.1.len + 1) a.1 a.1.len
          else some a.1 := by
  have hholds := hfind.holds hs.holds
  have hu := hreplace.holds hs.holds
  have hfs := hholds.length_lt
  have hus := hu.length_lt
  have hslen : ¬s.len = 0 := fun h => ht (List.length_eq_zero_iff.1 (hs.len.symm.trans h))
  have hflen : ¬(find.getD s).len = 0 := fun h =>
    hf (List.length_eq_zero_iff.1 (hholds.len.symm.trans h))
  have hdiff : signed ((replace.getD s).len - (find.getD s).len) = u.length - f.length := by
    rw [hu.len, hholds.len]
    exact signed_of_lt (by omega) (by omega)
  rw [WString.replace, if_neg (not_or.2 ⟨hslen, hflen⟩), hdiff]
  dsimp only
  by_cases heq : u.length = f.length
  · rw [if_pos (by omega), if_pos heq]
  rw [if_neg (by omega), if_neg heq]
  by_cases hlt : u.length < f.length
  · rw [if_pos (by omega), if_pos hlt]
  have hcast : (u.length : ℤ) - f.length = (u.length - f.length : ℕ) := by omega
  rw [if_neg (by omega), if_neg hlt, hcast]

/-- **`replace`** of a string, if it is right for the arguments. -/
theorem replace_spec (hs : Holds s t) (hfind : Operand find t f) (hreplace : Operand replace t u)
    (hlawful : Replaceable s find replace) (hgranted : ReplaceGranted A s find replace) :
    ∃ s' t', WString.replace A s find replace = some s' ∧ Holds s' t' := by
  by_cases hempty : s.len = 0 ∨ (find.getD s).len = 0
  · exact ⟨s, t, if_pos hempty, hs⟩
  obtain ⟨hslen, hflen⟩ := not_or.1 hempty
  have hholds := hfind.holds hs
  have hf : f ≠ [] := fun h => hflen (hholds.len.trans (h ▸ List.length_nil))
  have ht : t ≠ [] := fun h => hslen (hs.len.trans (h ▸ List.length_nil))
  have htext := hs.hasText_of_ne_nil ht
  have hu := hreplace.holds hs
  rw [replace_eq htext ht hf hfind hreplace]
  by_cases heq : u.length = f.length
  · have hsteps := htext.lt_steps
    obtain ⟨s', t', hloop, hs'⟩ := replaceEqual_spec (List.length_pos_iff.2 hf) htext rfl
      ⟨f, hfind, rfl⟩ ⟨u, hreplace, heq⟩ (Nat.zero_le _) (show t.length < s.steps + 0 by omega)
    exact ⟨s', t', by rw [if_pos heq, hloop], hs'.holds⟩
  rw [if_neg heq]
  by_cases hlt : u.length < f.length
  · obtain ⟨s', hloop, hs'⟩ := replace_shorter htext hf hfind hreplace hlt
    exact ⟨s', _, by rw [if_pos hlt, hloop], hs'.holds⟩
  rw [if_neg hlt]
  obtain ⟨d, hd⟩ := Nat.exists_eq_add_of_le (Nat.le_of_not_lt hlt)
  rw [Replaceable, hs.chars, hholds.chars, hu.chars] at hlawful
  rw [ReplaceGranted, hs.chars, hholds.chars, hu.chars] at hgranted
  obtain ⟨hsize, s₁, hbuffer, hs₁, hcap⟩ := grown_spec htext hf hfind (hgranted hf (by omega))
  rw [hsize, Option.bind_some, hs.len]
  by_cases hnone : grownSize f u t = t.length
  · exact ⟨s, t, if_pos hnone, hs⟩
  have hcount : count f t ≠ 0 := fun h => hnone (by rw [grownSize, h, Nat.zero_mul, Nat.add_zero])
  have hfound : (search f t).isSome := by
    rw [Option.isSome_iff_ne_none]
    exact fun h => hcount (count_of_search_none h)
  obtain ⟨hother, hroom⟩ := hlawful hf (by omega) hfound
  rw [hs.len] at hroom
  have hfit := length_replaceRight_le (by omega) hroom
  obtain ⟨r, rfl⟩ := Option.isSome_iff_exists.1 hother
  have hru : HasText r u := hu.hasText_of_ne_nil (List.ne_nil_of_length_pos (by omega))
  have hd' : u.length - f.length = d := by omega
  obtain ⟨s', t', hloop, hs'⟩ := replace_longer hs₁ hf hfind hru hd hcount (by omega) (by omega)
  refine ⟨s', t', ?_, hs'.holds⟩
  rw [if_neg hnone, hbuffer, Option.bind_some, if_pos rfl, hd']
  exact hloop

end

end Pico.WString
