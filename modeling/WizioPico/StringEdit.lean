/-
**Appending to a `String` and editing it.**

The rules of `StringText.lean` for `concat`, `operator +`, the characters, `substring`, `remove`,
`trim` and the changes of case.  Three arguments are left out, with which the length and the
terminator would not agree afterwards: a NUL that is put into the text, a NUL that is appended, and
the object itself as what is appended to it.

* `Piece.Lawful`, `Piece.Granted`, `Piece.added` — what is asked of a piece, and what it adds;
* `concat_spec`, `plus_spec` — appending;
* `setCharAt_spec`, `mapChars_spec`, `remove_spec`, `trim_spec`, `substring_spec` — editing.
-/

import WizioPico.StringText

set_option relaxedAutoImplicit false
set_option autoImplicit false

namespace Pico.WString

open CBuffer

section

variable {A : Allocator} {s : Obj} {b t u : List UInt8} {p : Buffer}

/-! ### Appending -/

/-- The size that a larger text needs is not cut off. -/
theorem Grants.lt {n : ℕ} (hs : Holds s t) (h : Grants A s n) : n < 2 ^ 32 := by
  rcases h with ⟨hbuffer, hle⟩ | h
  · have := (hs.hasText hbuffer).length_le
    omega
  · have := Allocator.lt_of_isSome h
    omega

/-- The copying of a text behind the text of the object. -/
theorem append_spec (hs : HasText s t) (hp : p.text = some u)
    (hcapacity : t.length + u.length ≤ s.capacity) :
    ∃ s', strcpy s s.len p = some s' ∧
      HasText { s' with len := t.length + u.length } (t ++ u) := by
  obtain ⟨rest₁, hblock⟩ := hs.block
  obtain ⟨rest, hstrcpy, hlen⟩ := strcpy_spec hblock hp hcapacity
  rw [List.take_left, ← List.append_assoc] at hstrcpy hlen
  have hno : 0 ∉ t ++ u := fun h =>
    (List.mem_append.1 h).elim hs.noNul (noNul_of_text hp)
  rw [hs.len]
  exact ⟨_, hstrcpy, .of_block hno (hblock.set _ hlen _) List.length_append.symm⟩

/-- A larger buffer, and the text behind the one of the object. -/
theorem reserve_append (hs : Holds s t) (hp : p.text = some u)
    (hgrants : Grants A s (t.length + u.length)) :
    ∃ s₁ s' newlen, unsigned (s.len + u.length) = newlen ∧
      reserve A s newlen = some (s₁, true) ∧ strcpy s₁ s₁.len p = some s' ∧
      Holds { s' with len := newlen } (t ++ u) := by
  have hnewlen : unsigned (↑s.len + ↑u.length) = t.length + u.length := by
    rw [hs.len]
    exact unsigned_of_lt (n := t.length + u.length) (hgrants.lt hs)
  obtain ⟨s₁, hreserve, hcapacity, hs₁⟩ := reserve_spec hs hgrants
  obtain ⟨s', hstrcpy, hs'⟩ := append_spec hs₁ hp hcapacity
  exact ⟨s₁, s', _, hnewlen, hreserve, hstrcpy, hs'.holds⟩

/-- **`concat` of characters** from another block. -/
theorem concatChars_spec (hs : Holds s t) (hp : p.text = some u)
    (hgrants : u ≠ [] → Grants A s (t.length + u.length)) :
    ∃ s', concatChars A s (.other p) u.length = some (s', true) ∧ Holds s' (t ++ u) := by
  have hnull : ¬Source.isNull s (.other p) = true := fun h =>
    ne_null_of_text hp (beq_iff_eq.1 h)
  rw [concatChars, if_neg hnull]
  by_cases hu : u = []
  · subst hu
    exact ⟨s, if_pos rfl, by rwa [List.append_nil]⟩
  · have hlength : u.length ≠ 0 := fun h => hu (List.length_eq_zero_iff.1 h)
    obtain ⟨s₁, s', newlen, hnewlen, hreserve, hstrcpy, hs'⟩ := reserve_append hs hp (hgrants hu)
    refine ⟨{ s' with len := newlen }, ?_, hs'⟩
    rw [if_neg hlength, hnewlen, hreserve, Option.bind_some, if_pos rfl, Source.strcpy, hstrcpy]
    rfl

/-- **`concat` of characters in flash.** -/
theorem concatFlash_spec (hs : Holds s t) (hp : p.text = some u)
    (hgrants : u ≠ [] → Grants A s (t.length + u.length)) :
    ∃ s', concatFlash A s p = some (s', true) ∧ Holds s' (t ++ u) := by
  rw [concatFlash, if_neg (ne_null_of_text hp), strlen_of_text hp, Option.bind_some]
  by_cases hu : u = []
  · subst hu
    exact ⟨s, if_pos rfl, by rwa [List.append_nil]⟩
  · have hlength : u.length ≠ 0 := fun h => hu (List.length_eq_zero_iff.1 h)
    obtain ⟨s₁, s', newlen, hnewlen, hreserve, hstrcpy, hs'⟩ := reserve_append hs hp (hgrants hu)
    refine ⟨{ s' with len := newlen }, ?_, hs'⟩
    rw [if_neg hlength, hnewlen]
    dsimp only
    rw [hreserve, Option.bind_some, if_pos rfl, hstrcpy]
    rfl

/-- `concat` of an object without a buffer. -/
theorem concatChars_null (A : Allocator) (s : Obj) (n : ℕ) :
    concatChars A s (.other .null) n = some (s, false) := by
  have hnull : Source.isNull s (.other .null) = true := rfl
  rw [concatChars, if_pos hnull]

/-- What a piece adds to the text. -/
def Piece.added : Piece → List UInt8
  | .self => []
  | .string t => t.buffer.text.getD []
  | .chars cstr | .flash cstr => (cstr.map CString.bytes).getD []
  | .char c => [c]
  | .number text => text.bytes

/-- **The pieces that a `concat` is right for**: not the object itself, unless it is empty, and not
the character NUL. -/
def Piece.Lawful (s : Obj) : Piece → Prop
  | .self => s.len = 0
  | .char c => c ≠ 0
  | .string _ | .chars _ | .number _ | .flash _ => True

/-- The allocator provides the buffer that appending a piece needs. -/
def Piece.Granted (A : Allocator) (s : Obj) (piece : Piece) : Prop :=
  piece.added ≠ [] → Grants A s (s.len + piece.added.length)

/-- A piece that is another object is in order. -/
def Piece.InOrder : Piece → Prop
  | .string t => ∃ u, Holds t u
  | .self | .chars _ | .char _ | .number _ | .flash _ => True

/-- **`concat`** adds what the piece has. -/
theorem concat_spec (hs : Holds s t) {piece : Piece} (horder : piece.InOrder)
    (hlawful : piece.Lawful s) (hgranted : piece.Granted A s) :
    ∃ s' ok, concat A s piece = some (s', ok) ∧ Holds s' (t ++ piece.added) := by
  rw [Piece.Granted, hs.len] at hgranted
  cases piece with
  | self =>
      have hlen : s.len = 0 := hlawful
      rw [Piece.added, List.append_nil, concat, concatChars]
      by_cases hnull : Source.isNull s .own = true
      · exact ⟨s, false, if_pos hnull, hs⟩
      · exact ⟨s, true, by rw [if_neg hnull, if_pos hlen], hs⟩
  | string v =>
      obtain ⟨u, hv⟩ := horder
      rcases hv with ⟨rfl, -⟩ | hv
      · have hadded : Piece.added (.string init) = [] := rfl
        rw [hadded, List.append_nil]
        exact ⟨s, false, concatChars_null A s init.len, hs⟩
      · have hadded : Piece.added (.string v) = u := by rw [Piece.added, hv.text]; rfl
        rw [hadded] at hgranted ⊢
        obtain ⟨s', hconcat, hs'⟩ := concatChars_spec hs hv.text hgranted
        exact ⟨s', true, by rw [concat, hv.len]; exact hconcat, hs'⟩
  | chars cstr =>
      cases cstr with
      | none =>
          have hadded : Piece.added (.chars none) = [] := rfl
          have hnull : Buffer.ofChars none = .null := rfl
          rw [hadded, List.append_nil, concat, if_pos hnull]
          exact ⟨s, false, rfl, hs⟩
      | some c =>
          have hp := text_ofChars c
          obtain ⟨s', hconcat, hs'⟩ := concatChars_spec hs hp hgranted
          refine ⟨s', true, ?_, hs'⟩
          rw [concat, if_neg (ne_null_of_text hp), strlen_of_text hp]
          exact hconcat
  | char c =>
      obtain ⟨s', hconcat, hs'⟩ := concatChars_spec hs (text_ofChar hlawful) hgranted
      exact ⟨s', true, hconcat, hs'⟩
  | number text =>
      have hp := text_ofChars text
      obtain ⟨s', hconcat, hs'⟩ := concatChars_spec hs hp hgranted
      refine ⟨s', true, ?_, hs'⟩
      rw [concat, strlen_of_text hp]
      exact hconcat
  | flash str =>
      cases str with
      | none =>
          have hadded : Piece.added (.flash none) = [] := rfl
          have hnull : Buffer.ofChars none = .null := rfl
          rw [hadded, List.append_nil, concat, concatFlash, if_pos hnull]
          exact ⟨s, false, rfl, hs⟩
      | some c =>
          obtain ⟨s', hconcat, hs'⟩ := concatFlash_spec hs (text_ofChars c) hgranted
          exact ⟨s', true, hconcat, hs'⟩

/-- **`operator +`.** -/
theorem plus_spec (hs : Holds s t) {piece : Piece} (horder : piece.InOrder)
    (hlawful : piece.Lawful s) (hgranted : piece.Granted A s) :
    ∃ s' t', plus A s piece = some s' ∧ Holds s' t' := by
  obtain ⟨s₁, ok, hconcat, hs₁⟩ := concat_spec hs horder hlawful hgranted
  rw [plus, hconcat, Option.bind_some]
  cases ok with
  | true => exact ⟨s₁, _, if_pos rfl, hs₁⟩
  | false => exact ⟨init, [], invalidate_spec hs₁, holds_init⟩

/-! ### Characters -/

/-- A character of the text is changed. -/
theorem store_spec (hs : HasText s t) {i : ℕ} {c : UInt8} (hi : i < t.length) (hc : c ≠ 0) :
    ∃ s', (s.modify fun b => store b i c) = some s' ∧ HasText s' (t.set i c) := by
  obtain ⟨rest, hblock⟩ := hs.block
  have hstore : store (t ++ 0 :: rest) i c = some (t.set i c ++ 0 :: rest) := by
    rw [store_of_lt (by rw [List.length_append]; omega), List.set_append_left _ _ hi]
  have hno : 0 ∉ t.set i c := fun h =>
    (List.mem_or_eq_of_mem_set h).elim hs.noNul fun h => hc h.symm
  refine ⟨_, hblock.modify (f := fun b => store b i c) hstore, .of_block hno
    (hblock.set _ ?_ s.len) ?_⟩
  · rw [List.length_append, List.length_append, List.length_set]
  · rw [List.length_set]
    exact hs.len

/-- **`setCharAt`.** -/
theorem setCharAt_spec (hs : Holds s t) {loc : ℕ} {c : UInt8} (hc : loc < s.len → c ≠ 0) :
    ∃ s', setCharAt s loc c = some s' ∧ Holds s' (t.set loc c) := by
  rw [setCharAt]
  by_cases hloc : loc < s.len
  · have hlt : loc < t.length := hs.len ▸ hloc
    have htext := hs.hasText_of_ne_nil (List.ne_nil_of_length_pos (Nat.zero_lt_of_lt hlt))
    obtain ⟨s', hstore, hs'⟩ := store_spec htext hlt (hc hloc)
    exact ⟨s', by rw [if_pos hloc, hstore], hs'.holds⟩
  · refine ⟨s, if_neg hloc, ?_⟩
    rwa [List.set_eq_of_length_le (hs.len ▸ Nat.le_of_not_lt hloc)]

/-- **A write through `operator []`.** -/
theorem setIndex_spec (hs : Holds s t) {index : ℕ} {c : UInt8} (hc : index < s.len → c ≠ 0) :
    ∃ s', setIndex s index c = some s' ∧ Holds s' (t.set index c) := by
  have heq : setIndex s index c = setCharAt s index c := by
    rw [setIndex, setCharAt]
    by_cases hindex : index < s.len
    · have hbuffer : s.buffer ≠ .null := fun h => by
        have := (hs.eq_init h).1
        rw [this] at hindex
        exact Nat.not_lt_zero _ hindex
      rw [if_neg (not_or.2 ⟨Nat.not_le.2 hindex, hbuffer⟩), if_pos hindex]
    · rw [if_pos (Or.inl (Nat.le_of_not_lt hindex)), if_neg hindex]
  rw [heq]
  exact setCharAt_spec hs hc

/-- **A loop that changes each character**, to one that is not NUL. -/
theorem mapChars_spec (hs : Holds s t) {f : UInt8 → UInt8} (hf : ∀ c ∈ t, f c ≠ 0) :
    ∃ s', (if s.buffer = .null then some s else s.modify (mapText f)) = some s' ∧
      Holds s' (t.map f) := by
  rcases hs with ⟨rfl, rfl⟩ | hs
  · exact ⟨init, rfl, holds_init⟩
  · obtain ⟨rest, hblock⟩ := hs.block
    have hno : 0 ∉ t.map f := fun h => by
      obtain ⟨c, hc, h0⟩ := List.mem_map.1 h
      exact hf c hc h0
    refine ⟨{ s with buffer := .block (t.map f ++ 0 :: rest) }, ?_,
      (HasText.of_block hno (hblock.set _ ?_ s.len) ?_).holds⟩
    · rw [if_neg hs.not_null, hblock.modify (mapText_append f hs.noNul rest)]
    · rw [List.length_append, List.length_append, List.length_map]
    · rw [List.length_map]
      exact hs.len

/-- **`replace`** of a character, by one that is not NUL or when there is none to replace. -/
theorem replaceChar_spec (hs : Holds s t) {find replace : UInt8}
    (hreplace : find ∈ t → replace ≠ 0) :
    ∃ s' t', replaceChar s find replace = some s' ∧ Holds s' t' := by
  obtain ⟨s', hmap, hs'⟩ := mapChars_spec hs (f := fun c => if c = find then replace else c)
    fun c hc h => by
      split at h
      · next heq => exact hreplace (heq ▸ hc) h
      · exact hs.noNul (h ▸ hc)
  exact ⟨s', _, hmap, hs'⟩

theorem tolower_ne_zero {c : UInt8} (h : c ≠ 0) : tolower c ≠ 0 := by
  rw [tolower]
  split
  · intro h0
    grind
  · exact h

theorem toupper_ne_zero {c : UInt8} (h : c ≠ 0) : toupper c ≠ 0 := by
  rw [toupper]
  split
  · intro h0
    grind
  · exact h

/-- **The changes of case.** -/
theorem toLowerCase_spec (hs : Holds s t) :
    ∃ s', toLowerCase s = some s' ∧ Holds s' (t.map tolower) :=
  mapChars_spec hs fun _ hc => tolower_ne_zero fun h => hs.noNul (h ▸ hc)

theorem toUpperCase_spec (hs : Holds s t) :
    ∃ s', toUpperCase s = some s' ∧ Holds s' (t.map toupper) :=
  mapChars_spec hs fun _ hc => toupper_ne_zero fun h => hs.noNul (h ▸ hc)

/-! ### Parts of the text -/

/-- **A NUL behind a text** that is at the front of the buffer. -/
theorem terminate_spec {q : List UInt8} (hs : HasBlock s (t ++ q)) (hno : 0 ∉ t)
    (hle : t.length ≤ s.capacity) :
    ∃ rest, store (t ++ q) t.length 0 = some (t ++ 0 :: rest) ∧
      HasText { s with buffer := .block (t ++ 0 :: rest), len := t.length } t := by
  cases q with
  | nil =>
      have := hs.length
      rw [List.append_nil] at this
      omega
  | cons c q =>
      refine ⟨q, store_append t c 0 q, .of_block hno (hs.set _ ?_ _) rfl⟩
      rw [List.length_append, List.length_append]
      rfl

/-- A part of the text is copied to a lower place, where the text up to it ends. -/
theorem paste_text (rest : List UInt8) {i k : ℕ} {x : List UInt8} (hx : x <+: t.drop k)
    (hi : i ≤ k) (hk : k ≤ t.length) :
    ∃ q, paste (t ++ 0 :: rest) i x = some (t.take i ++ x ++ q) := by
  have hlen := hx.length_le
  rw [List.length_drop] at hlen
  have hle : i + x.length ≤ (t ++ 0 :: rest).length := by
    rw [List.length_append]
    omega
  refine ⟨(t ++ 0 :: rest).drop (i + x.length), ?_⟩
  rw [paste_of_le hle, List.take_append_of_le_length (Nat.le_trans hi hk), List.append_assoc]

/-- **`remove`.** -/
theorem remove_spec (hs : Holds s t) (index count : ℕ) :
    ∃ s', remove s index count = some s' ∧ Holds s' (t.take index ++ t.drop (index + count)) := by
  by_cases hindex : s.len ≤ index
  · refine ⟨s, if_pos hindex, ?_⟩
    have hle : t.length ≤ index := hs.len ▸ hindex
    rwa [List.take_of_length_le hle, List.drop_eq_nil_of_le (by omega), List.append_nil]
  by_cases hcount : count = 0
  · refine ⟨s, by rw [remove, if_neg hindex, if_pos hcount], ?_⟩
    rwa [hcount, Nat.add_zero, List.take_append_drop]
  rw [hs.len] at hindex
  have htext := hs.hasText_of_ne_nil (List.ne_nil_of_length_pos (by omega))
  obtain ⟨rest, hblock⟩ := htext.block
  -- no more is removed than there is
  obtain ⟨k, hk, hmin, hdrop⟩ : ∃ k, k ≤ t.length - index ∧
      (if t.length - index < count then t.length - index else count) = k ∧
      t.drop (index + count) = t.drop (index + k) := by
    by_cases hlt : t.length - index < count
    · refine ⟨_, Nat.le_refl _, if_pos hlt, ?_⟩
      rw [List.drop_eq_nil_of_le (by omega), List.drop_eq_nil_of_le (by omega)]
    · exact ⟨count, Nat.le_of_not_lt hlt, if_neg hlt, rfl⟩
  have hlength : (t.drop (index + k)).length = t.length - k - index := by
    rw [List.length_drop]
    omega
  obtain ⟨q, hpaste⟩ := paste_text rest (List.prefix_rfl (l := t.drop (index + k)))
    (Nat.le_add_right index k) (by omega)
  have hcopy : strncpyForward (t.length - k - index) (t ++ 0 :: rest) index (index + k) =
      some (t.take index ++ t.drop (index + k) ++ q) := by
    rw [← hpaste, ← hlength]
    refine strncpyForward_eq (l := 0 :: rest) (fun h => hs.noNul (List.mem_of_mem_drop h)) ?_
      (Nat.le_add_right index k) ?_
    · exact List.drop_append_of_le_length (by omega)
    · rw [List.length_append]
      omega
  have hnew : (t.take index ++ t.drop (index + k)).length = t.length - k := by
    rw [List.length_append, hlength, List.length_take]
    omega
  have hno : 0 ∉ t.take index ++ t.drop (index + k) := fun h =>
    (List.mem_append.1 h).elim (fun h => hs.noNul (List.mem_of_mem_take h))
      fun h => hs.noNul (List.mem_of_mem_drop h)
  have hblock' := hblock.set _ (length_paste hpaste) (t.length - k)
  have hcapacity := htext.length_le
  obtain ⟨rest', hstore, hs'⟩ := terminate_spec hblock' hno (by dsimp only; omega)
  rw [hnew] at hstore
  refine ⟨_, ?_, by rw [hdrop]; exact hs'.holds⟩
  rw [remove, hs.len, if_neg hindex, if_neg hcount, hmin]
  dsimp only
  rw [hblock.modify hcopy, Option.bind_some, hblock'.modify (f := fun b => store b _ 0) hstore,
    hnew]

/-- `remove` to the end. -/
theorem removeFrom_spec (hs : Holds s t) (index : ℕ) :
    ∃ s', removeFrom s index = some s' ∧ Holds s' (t.take index) := by
  obtain ⟨s', hremove, hs'⟩ := remove_spec hs index (2 ^ 32 - 1)
  refine ⟨s', hremove, ?_⟩
  have := hs.length_lt
  rwa [List.drop_eq_nil_of_le (by omega), List.append_nil] at hs'

/-- The white space at the front of a text. -/
theorem trimBegin_spec (t rest : List UInt8) :
    ∃ n, trimBegin (t ++ 0 :: rest) = some n ∧ n ≤ t.length ∧
      ∀ c l, t.drop n = c :: l → isspace c = false := by
  induction t with
  | nil => exact ⟨0, rfl, Nat.le_refl 0, fun c l h => by cases h⟩
  | cons c t ih =>
      rw [List.cons_append, trimBegin]
      by_cases hc : isspace c = true
      · obtain ⟨n, hn, hle, hnext⟩ := ih
        exact ⟨n + 1, by rw [if_pos hc, hn]; rfl, Nat.succ_le_succ hle, hnext⟩
      · refine ⟨0, if_neg hc, Nat.zero_le _, fun d l h => ?_⟩
        cases h
        exact Bool.eq_false_iff.2 hc

/-- The white space at the end of a text.  The loop does not go below the first character that is
kept. -/
theorem trimEnd_spec (b : List UInt8) {n e : ℕ} (he : e ≤ b.length) (hn : n ≤ e)
    (hfirst : n = 0 → ∃ c, b[0]? = some c ∧ isspace c = false) :
    (e = 0 → n ≠ 0) → ∃ e', trimEnd b n e = some e' ∧ n ≤ e' ∧ e' ≤ e := by
  induction e with
  | zero => exact fun hpos => absurd (Nat.le_zero.1 hn) (hpos rfl)
  | succ e ih =>
      intro _
      have hget := List.getElem?_eq_getElem (Nat.lt_of_succ_le he)
      rw [trimEnd, hget, Option.bind_some]
      by_cases hspace : isspace b[e] ∧ n ≤ e
      · rw [if_pos hspace]
        obtain ⟨e', hend, hle, hle'⟩ := ih (Nat.le_of_succ_le he) hspace.2 fun h0 hn0 => by
          -- the first character is not white space
          obtain ⟨c, hc, hno⟩ := hfirst hn0
          subst h0
          rw [hget, Option.some.injEq] at hc
          rw [hc, hno] at hspace
          cases hspace.1
        exact ⟨e', hend, hle, Nat.le_succ_of_le hle'⟩
      · exact ⟨e + 1, if_neg hspace, hn, Nat.le_refl _⟩

/-- The part of the text that is kept is moved to the front, if it is not there. -/
theorem trim_bytes (rest : List UInt8) {n e : ℕ} (hne : n ≤ e) (he : e ≤ t.length) :
    ∃ q, paste (t ++ 0 :: rest) 0 ((t.drop n).take (e - n)) =
        some ((t.drop n).take (e - n) ++ q) ∧
      (if 0 < n then copyForward (e - n) (t ++ 0 :: rest) 0 n else some (t ++ 0 :: rest)) =
        some ((t.drop n).take (e - n) ++ q) := by
  have hn : n ≤ t.length := Nat.le_trans hne he
  have hx : ((t.drop n).take (e - n)).length = e - n := by
    rw [List.length_take, List.length_drop]
    omega
  obtain ⟨q, hpaste⟩ := paste_text rest (List.take_prefix (e - n) (t.drop n)) (Nat.zero_le n) hn
  rw [List.take_zero, List.nil_append] at hpaste
  have hsrc : (t ++ 0 :: rest).drop n =
      (t.drop n).take (e - n) ++ ((t.drop n).drop (e - n) ++ 0 :: rest) := by
    rw [List.drop_append_of_le_length hn, ← List.append_assoc, List.take_append_drop]
  refine ⟨q, hpaste, ?_⟩
  rw [← hpaste]
  split
  · have hcopy := copyForward_eq hsrc (Nat.zero_le n) (by rw [List.length_append]; omega)
    rwa [hx] at hcopy
  · next hzero =>
      have hn0 : n = 0 := Nat.eq_zero_of_not_pos hzero
      rw [hn0] at hsrc
      rw [hn0, paste_self hsrc (Nat.zero_le _)]

/-- **`trim`.** -/
theorem trim_spec (hs : Holds s t) : ∃ s' t', trim s = some s' ∧ Holds s' t' := by
  by_cases hempty : s.buffer = .null ∨ s.len = 0
  · exact ⟨s, t, if_pos hempty, hs⟩
  rw [trim, if_neg hempty]
  obtain ⟨hbuffer, hlen⟩ := not_or.1 hempty
  have htext := hs.hasText hbuffer
  obtain ⟨rest, hblock⟩ := htext.block
  obtain ⟨n, hbegin, hn, hnext⟩ := trimBegin_spec t rest
  have hlength : s.len ≤ (t ++ 0 :: rest).length := by
    rw [hs.len, List.length_append]
    omega
  obtain ⟨e, hend, hne, he⟩ := trimEnd_spec (t ++ 0 :: rest) hlength (hs.len ▸ hn) (fun h0 => by
    subst h0
    cases t with
    | nil => exact absurd hs.len hlen
    | cons c l => exact ⟨c, rfl, hnext c l rfl⟩) fun h => absurd h hlen
  have het : e ≤ t.length := hs.len ▸ he
  have hsmall := htext.length_le
  have hunsigned : unsigned (↑e - ↑n) = e - n := by
    unfold unsigned
    omega
  have hx : ((t.drop n).take (e - n)).length = e - n := by
    rw [List.length_take, List.length_drop]
    omega
  have hno : 0 ∉ (t.drop n).take (e - n) := fun h =>
    hs.noNul (List.mem_of_mem_drop (List.mem_of_mem_take h))
  obtain ⟨q, hpaste, hcopy⟩ := trim_bytes rest hne het
  have hblock' := hblock.set _ (length_paste hpaste) (e - n)
  obtain ⟨rest', hstore, hs'⟩ := terminate_spec hblock' hno (by dsimp only; omega)
  rw [hx] at hstore hs'
  refine ⟨_, _, ?_, hs'.holds⟩
  rw [hblock.buffer, Buffer.bytes, Option.bind_some, hbegin, Option.bind_some, hend,
    Option.bind_some, hunsigned]
  dsimp only
  rw [hcopy, Option.bind_some, hstore]
  rfl

/-- The number of characters between two indices, in a text of a given length. -/
def partLength (len left right : ℕ) : ℕ := min (max left right) len - min left right

/-- The allocator provides the buffers that a `substring` needs: the one of an empty text, which the
new object has first, and the one of the part. -/
def GrantsPart (A : Allocator) (s : Obj) (left right : ℕ) : Prop :=
  (A.alloc 1).isSome ∧
    (0 < partLength s.len left right → (A.alloc (partLength s.len left right + 1)).isSome)

/-- The text from an index on, when a NUL is put into it. -/
theorem text_cut (hno : 0 ∉ t) (rest : List UInt8) {l k : ℕ} (hl : l ≤ k) (hk : k ≤ t.length) :
    (Buffer.block (((t ++ 0 :: rest).set k 0).drop l)).text = some ((t.take k).drop l) ∧
      ((t.take k).drop l).length = k - l := by
  have hlt : k < (t ++ 0 :: rest).length := by
    rw [List.length_append, List.length_cons]
    omega
  have hlen : (t.take k).length = k := List.length_take_of_le hk
  have hcut : (t ++ 0 :: rest).set k 0 = t.take k ++ 0 :: (t ++ 0 :: rest).drop (k + 1) := by
    rw [List.set_eq_take_append_cons_drop, if_pos hlt, List.take_append_of_le_length hk]
  constructor
  · rw [Buffer.text, Buffer.bytes, Option.bind_some, hcut]
    exact scan_drop (fun h => hno (List.mem_of_mem_take h)) _ (hlen.symm ▸ hl)
  · rw [List.length_drop, hlen]

/-- **`substring`** gives a new object, and leaves the object as it was. -/
theorem substring_spec (hs : Holds s t) (left right : ℕ) (hgranted : GrantsPart A s left right) :
    ∃ out u, substring A s left right = some (out, s) ∧ Holds out u := by
  obtain ⟨hfirst, halloc⟩ := hgranted
  rw [hs.len, partLength] at halloc
  obtain ⟨l, r, hlr, hmin, hmax, hsort⟩ : ∃ l r, l ≤ r ∧ min left right = l ∧
      max left right = r ∧ (if right < left then (right, left) else (left, right)) = (l, r) := by
    by_cases h : right < left
    · exact ⟨right, left, Nat.le_of_lt h, by omega, by omega, if_pos h⟩
    · exact ⟨left, right, Nat.le_of_not_lt h, by omega, by omega, if_neg h⟩
  rw [hmin, hmax] at halloc
  have hnil := text_ofChars ⟨[], List.not_mem_nil⟩
  obtain ⟨out, hout, htext⟩ := ofChars_spec hnil (Or.inr hfirst)
  rw [substring, hsort]
  dsimp only
  rw [hout, Option.bind_some]
  by_cases hl : s.len ≤ l
  · exact ⟨out, [], if_pos hl, htext.holds⟩
  have hs' := hs.hasText_of_ne_nil (List.ne_nil_of_length_pos (by rw [← hs.len]; omega))
  obtain ⟨rest, hblock⟩ := hs'.block
  rw [if_neg hl, hs.len]
  rw [hs.len] at hl
  obtain ⟨k, hlk, hk, hrk, hif⟩ : ∃ k, l ≤ k ∧ k ≤ t.length ∧ min r t.length = k ∧
      (if t.length < r then t.length else r) = k := by
    by_cases h : t.length < r
    · exact ⟨t.length, by omega, Nat.le_refl _, by omega, if_pos h⟩
    · exact ⟨r, hlr, Nat.le_of_not_lt h, by omega, if_neg h⟩
  rw [hrk] at halloc
  obtain ⟨hpart, hlen⟩ := text_cut hs.noNul rest hlk hk
  have hgrants : Grants A out ((t.take k).drop l).length := by
    rw [hlen]
    by_cases hzero : k - l = 0
    · exact Or.inl ⟨htext.not_null, hzero ▸ Nat.zero_le _⟩
    · exact Or.inr (halloc (Nat.pos_of_ne_zero hzero))
  obtain ⟨out', hassign, htext'⟩ := assignChars_spec htext.holds hpart hgrants
  -- the character is put back
  have hlt : k < (t ++ 0 :: rest).length := by
    rw [List.length_append, List.length_cons]
    omega
  have hback : store ((t ++ 0 :: rest).set k 0) k (t ++ 0 :: rest)[k] = some (t ++ 0 :: rest) := by
    rw [store_of_lt (by rwa [List.length_set]), List.set_set, List.set_getElem_self]
  refine ⟨out', _, ?_, htext'.holds⟩
  rw [hif, hblock.buffer, Buffer.bytes, Option.bind_some, List.getElem?_eq_getElem hlt,
    Option.bind_some, store_of_lt hlt, Option.bind_some, hassign, Option.bind_some, hback,
    Option.map_some, ← hblock.buffer, ← hs.len]

end

end Pico.WString
