/-
**What the members of `String` do to the text.**

A `String` that is in order has no buffer, or a buffer with a text, a NUL and other bytes in it, and
the length of the text in `len`.  Each member is followed from such an object to the next one, for
the arguments and the allocator for which there is one.

* `HasText`, `Holds` — the object holds a text, in its buffer or without one;
* `Holds.represented` — its length and its terminator agree;
* `reserve_spec`, `copy_spec`, `assign_spec`, `move_spec`, … — a rule for each member.
-/

import WizioPico.WString

set_option relaxedAutoImplicit false
set_option autoImplicit false

namespace Pico.WString

open CBuffer

/-! ### Objects in order -/

/-- The buffer of the object is a block of `capacity + 1` bytes. -/
structure HasBlock (s : Obj) (b : List UInt8) : Prop where
  buffer : s.buffer = .block b
  length : b.length = s.capacity + 1
  small : s.capacity + 1 < 2 ^ 31

/-- **The object holds a text in its buffer.** -/
structure HasText (s : Obj) (t : List UInt8) : Prop where
  noNul : 0 ∉ t
  len : s.len = t.length
  block : ∃ rest, HasBlock s (t ++ 0 :: rest)

/-- The object holds a text.  Without a buffer the text is empty. -/
def Holds (s : Obj) (t : List UInt8) : Prop := (s = init ∧ t = []) ∨ HasText s t

/-- The allocator provides the buffer that the object needs for a number of characters. -/
def Grants (A : Allocator) (s : Obj) (size : ℕ) : Prop :=
  (s.buffer ≠ .null ∧ size ≤ s.capacity) ∨ (A.alloc (size + 1)).isSome

theorem unsigned_of_lt {n : ℕ} (h : n < 2 ^ 32) : unsigned n = n := by
  unfold unsigned
  omega

/-- A block that is provided is small. -/
theorem Allocator.lt_of_isSome {A : Allocator} {n : ℕ} (h : (A.alloc n).isSome) :
    0 < n ∧ n < 2 ^ 31 := by
  by_contra hn
  rw [A.refuses n (by omega)] at h
  cases h

section

variable {A : Allocator} {s : Obj} {b t u : List UInt8} {p : Buffer}

theorem HasBlock.not_null (h : HasBlock s b) : s.buffer ≠ .null := by
  rw [h.buffer]
  intro hnull
  cases hnull

/-- A change of the bytes of the buffer. -/
theorem HasBlock.modify (h : HasBlock s b) {f : List UInt8 → Option (List UInt8)} {b' : List UInt8}
    (hf : f b = some b') : s.modify f = some { s with buffer := .block b' } := by
  rw [Obj.modify, h.buffer, Buffer.bytes, Option.bind_some, hf]
  rfl

/-- Other bytes, as many as before. -/
theorem HasBlock.set (h : HasBlock s b) (b' : List UInt8) (hlen : b'.length = b.length) (n : ℕ) :
    HasBlock { s with buffer := .block b', len := n } b' :=
  ⟨rfl, hlen.trans h.length, h.small⟩

/-- The parts of an object with a text. -/
theorem HasText.of_block (hno : 0 ∉ t) {rest : List UInt8} (h : HasBlock s (t ++ 0 :: rest))
    (hlen : s.len = t.length) : HasText s t := ⟨hno, hlen, rest, h⟩

theorem HasText.not_null (h : HasText s t) : s.buffer ≠ .null := by
  obtain ⟨rest, hblock⟩ := h.block
  exact hblock.not_null

theorem HasText.length_le (h : HasText s t) : t.length ≤ s.capacity ∧ s.capacity + 1 < 2 ^ 31 := by
  obtain ⟨rest, hblock⟩ := h.block
  have := hblock.length
  rw [List.length_append, List.length_cons] at this
  exact ⟨by omega, hblock.small⟩

/-- What a function of the C library reads in the buffer. -/
theorem HasText.text (h : HasText s t) : s.buffer.text = some t := by
  obtain ⟨rest, hblock⟩ := h.block
  rw [Buffer.text, hblock.buffer]
  exact scan_append h.noNul rest

theorem HasText.holds (h : HasText s t) : Holds s t := Or.inr h

theorem holds_init : Holds init [] := Or.inl ⟨rfl, rfl⟩

theorem Holds.len (h : Holds s t) : s.len = t.length := by
  rcases h with ⟨rfl, rfl⟩ | h
  · rfl
  · exact h.len

theorem Holds.noNul (h : Holds s t) : 0 ∉ t := by
  rcases h with ⟨-, rfl⟩ | h
  · exact List.not_mem_nil
  · exact h.noNul

theorem Holds.length_lt (h : Holds s t) : t.length < 2 ^ 31 := by
  rcases h with ⟨-, rfl⟩ | h
  · exact Nat.two_pow_pos 31
  · have := h.length_le
    omega

/-- An object with a buffer holds its text there. -/
theorem Holds.hasText (h : Holds s t) (hbuffer : s.buffer ≠ .null) : HasText s t := by
  rcases h with ⟨rfl, -⟩ | h
  · exact absurd rfl hbuffer
  · exact h

/-- An object with a text that is not empty has a buffer. -/
theorem Holds.hasText_of_ne_nil (h : Holds s t) (ht : t ≠ []) : HasText s t :=
  h.resolve_left fun h => ht h.2

theorem Holds.eq_init (h : Holds s t) (hbuffer : s.buffer = .null) : s = init ∧ t = [] := by
  rcases h with h | h
  · exact h
  · exact absurd hbuffer h.not_null

/-- **An object that holds a text is in order.** -/
theorem Holds.represented (h : Holds s t) : Represented s := by
  rcases h with ⟨rfl, -⟩ | h
  · exact Or.inl ⟨rfl, rfl, rfl⟩
  · obtain ⟨rest, hblock⟩ := h.block
    refine Or.inr ⟨_, hblock.buffer, hblock.length, h.len ▸ h.length_le.1, ?_, ?_⟩
    · rw [h.len, List.getElem?_append_right (Nat.le_refl _), Nat.sub_self]
      rfl
    · rw [Buffer.strlen, h.text, h.len]
      rfl

/-- The text that a pointer leads to has no NUL in it. -/
theorem noNul_of_text (h : p.text = some t) : 0 ∉ t := by
  obtain ⟨b, -, hscan⟩ := Option.bind_eq_some_iff.1 h
  exact (scan_eq_some hscan).1

theorem ne_null_of_text (h : p.text = some t) : p ≠ .null := by
  rintro rfl
  cases h

theorem strlen_of_text (h : p.text = some t) : p.strlen = some t.length := by
  rw [Buffer.strlen, h]
  rfl

/-- The characters of an argument. -/
@[simp] theorem text_ofChars (c : CString) : (Buffer.ofChars (some c)).text = some c.bytes :=
  scan_append c.noNul []

theorem text_ofChar {c : UInt8} (hc : c ≠ 0) : (Buffer.ofChar c).text = some [c] :=
  scan_append (t := [c]) (fun h => hc (List.mem_singleton.1 h).symm) []

/-! ### Memory -/

theorem length_resize (b : List UInt8) (n : ℕ) (fresh : ℕ → UInt8) :
    (resize b n fresh).length = n := by
  rw [resize, List.length_map, List.length_range]

/-- The bytes that a new block takes from the old one. -/
theorem take_resize {b : List UInt8} {k n : ℕ} (fresh : ℕ → UInt8) (hk : k ≤ b.length)
    (hn : k ≤ n) : (resize b n fresh).take k = b.take k := by
  refine List.ext_getElem ?_ fun i hi hi' => ?_
  · rw [List.length_take, List.length_take, length_resize]
    omega
  · have hib : i < b.length := Nat.lt_of_lt_of_le (List.length_take ▸ hi') (Nat.min_le_right _ _)
    rw [List.getElem_take, List.getElem_take]
    simp only [resize, List.getElem_map, List.getElem_range]
    rw [List.getD_eq_getElem?_getD, List.getElem?_eq_getElem hib]
    rfl

/-- A text goes to the new block with its NUL. -/
theorem resize_text (t rest : List UInt8) {m : ℕ} (fresh : ℕ → UInt8) (h : t.length ≤ m) :
    ∃ rest', resize (t ++ 0 :: rest) (m + 1) fresh = t ++ 0 :: rest' := by
  refine ⟨(resize (t ++ 0 :: rest) (m + 1) fresh).drop (t.length + 1), ?_⟩
  have htake : (t ++ 0 :: rest).take (t.length + 1) = t ++ [0] := by
    rw [List.take_append, List.take_of_length_le (Nat.le_succ _), Nat.add_sub_cancel_left]
    rfl
  calc resize (t ++ 0 :: rest) (m + 1) fresh
      = (resize (t ++ 0 :: rest) (m + 1) fresh).take (t.length + 1) ++
          (resize (t ++ 0 :: rest) (m + 1) fresh).drop (t.length + 1) :=
        (List.take_append_drop _ _).symm
    _ = (t ++ [0]) ++ (resize (t ++ 0 :: rest) (m + 1) fresh).drop (t.length + 1) := by
        rw [take_resize fresh (by simp) (Nat.succ_le_succ h), htake]
    _ = t ++ 0 :: (resize (t ++ 0 :: rest) (m + 1) fresh).drop (t.length + 1) := by
        rw [List.append_assoc]
        rfl

/-- **A larger buffer.** -/
theorem changeBuffer_spec (hs : HasText s t) {m : ℕ} (hm : t.length ≤ m)
    (halloc : (A.alloc (m + 1)).isSome) :
    ∃ s', changeBuffer A s m = some (s', true) ∧ s'.capacity = m ∧ HasText s' t := by
  obtain ⟨rest, hblock⟩ := hs.block
  obtain ⟨fresh, hfresh⟩ := Option.isSome_iff_exists.1 halloc
  have hlt := (Allocator.lt_of_isSome halloc).2
  obtain ⟨rest', hresize⟩ := resize_text t rest fresh hm
  have hlen := length_resize (t ++ 0 :: rest) (m + 1) fresh
  have hunsigned : unsigned (↑m + 1) = m + 1 := unsigned_of_lt (n := m + 1) (by omega)
  refine ⟨⟨.block (t ++ 0 :: rest'), m, s.len⟩, ?_, rfl, hs.noNul, hs.len, rest', rfl, ?_, hlt⟩
  · rw [changeBuffer, hunsigned, hfresh, hblock.buffer, ← hresize]
    rfl
  · rw [← hresize, hlen]

/-- The first buffer of an object. -/
theorem changeBuffer_init {m : ℕ} (halloc : (A.alloc (m + 1)).isSome) :
    ∃ b, changeBuffer A init m = some (⟨.block b, m, 0⟩, true) ∧ HasBlock ⟨.block b, m, 0⟩ b := by
  obtain ⟨fresh, hfresh⟩ := Option.isSome_iff_exists.1 halloc
  have hlt := (Allocator.lt_of_isSome halloc).2
  have hunsigned : unsigned (↑m + 1) = m + 1 := unsigned_of_lt (n := m + 1) (by omega)
  refine ⟨resize [] (m + 1) fresh, ?_, rfl, length_resize _ _ _, hlt⟩
  rw [changeBuffer, hunsigned, hfresh]
  rfl

/-- **`reserve`** keeps the text. -/
theorem reserve_spec (hs : Holds s t) {size : ℕ} (hgrants : Grants A s size) :
    ∃ s', reserve A s size = some (s', true) ∧ size ≤ s'.capacity ∧ HasText s' t := by
  by_cases hroom : s.buffer ≠ .null ∧ size ≤ s.capacity
  · exact ⟨s, if_pos hroom, hroom.2, hs.hasText hroom.1⟩
  · have halloc := hgrants.resolve_left hroom
    rw [reserve, if_neg hroom]
    rcases hs with ⟨rfl, rfl⟩ | hs
    · obtain ⟨b, hchange, hblock⟩ := changeBuffer_init halloc
      have hpos : 0 < b.length := by
        rw [hblock.length]
        exact Nat.succ_pos _
      obtain ⟨c, b, rfl⟩ := List.exists_cons_of_length_pos hpos
      have hstore : store (c :: b) 0 0 = some (0 :: b) := store_of_lt hpos 0
      have hblock' : HasBlock ⟨.block (0 :: b), size, 0⟩ ([] ++ 0 :: b) :=
        hblock.set (0 :: b) rfl 0
      refine ⟨⟨.block (0 :: b), size, 0⟩, ?_, Nat.le_refl size,
        .of_block List.not_mem_nil hblock' rfl⟩
      rw [hchange, Option.bind_some, if_pos rfl, if_pos rfl,
        hblock.modify (f := fun b => store b 0 0) hstore]
      rfl
    · have hsize : t.length ≤ size := by
        have := hs.length_le
        have := hs.not_null
        by_contra hlt
        exact hroom ⟨this, by omega⟩
      obtain ⟨s', hchange, hcapacity, hs'⟩ := changeBuffer_spec hs hsize halloc
      rw [hchange, Option.bind_some, if_pos rfl]
      by_cases hlen : s'.len = 0
      · -- the NUL is written where it is
        obtain ⟨rest, hblock⟩ := hs'.block
        have ht : t = [] := List.length_eq_zero_iff.1 (hs'.len.symm.trans hlen)
        subst ht
        have hstore : store ([] ++ 0 :: rest) 0 0 = some ([] ++ 0 :: rest) :=
          store_of_lt (Nat.succ_pos _) 0
        refine ⟨{ s' with buffer := .block ([] ++ 0 :: rest) }, ?_, Nat.le_of_eq hcapacity.symm,
          .of_block List.not_mem_nil (hblock.set _ rfl s'.len) hlen⟩
        rw [if_pos hlen, hblock.modify (f := fun b => store b 0 0) hstore]
        rfl
      · refine ⟨s', ?_, Nat.le_of_eq hcapacity.symm, hs'⟩
        rw [if_neg hlen]
        rfl

/-- `strcpy` to the buffer. -/
theorem strcpy_spec (hs : HasBlock s b) (hp : p.text = some u) {i : ℕ}
    (hi : i + u.length ≤ s.capacity) :
    ∃ rest, strcpy s i p = some { s with buffer := .block (b.take i ++ (u ++ 0 :: rest)) } ∧
      (b.take i ++ (u ++ 0 :: rest)).length = b.length := by
  have hle : i + (u ++ [0]).length ≤ b.length := by
    rw [List.length_append, hs.length]
    exact Nat.succ_le_succ hi
  have hpaste := paste_of_le hle
  rw [List.append_assoc] at hpaste
  refine ⟨_, ?_, length_paste hpaste⟩
  rw [strcpy, hp, Option.bind_some, hs.modify hpaste]
  rfl

/-! ### Copying and moving -/

/-- **`copy`.** -/
theorem copy_spec (hs : Holds s t) (hp : p.text = some u) (hgrants : Grants A s u.length) :
    ∃ s', copy A s p u.length = some s' ∧ HasText s' u := by
  obtain ⟨s₁, hreserve, hcapacity, hs₁⟩ := reserve_spec hs hgrants
  obtain ⟨rest₁, hblock⟩ := hs₁.block
  have hblock' : HasBlock { s₁ with len := u.length } (t ++ 0 :: rest₁) :=
    ⟨hblock.buffer, hblock.length, hblock.small⟩
  obtain ⟨rest, hstrcpy, hlen⟩ :=
    strcpy_spec hblock' hp (i := 0) (by rw [Nat.zero_add]; exact hcapacity)
  refine ⟨{ s₁ with buffer := .block (u ++ 0 :: rest), len := u.length }, ?_,
    .of_block (noNul_of_text hp) (hblock.set _ hlen _) rfl⟩
  rw [copy, hreserve, Option.bind_some, if_pos rfl, hstrcpy]
  rfl

/-- The buffer of an object can be given back. -/
theorem Holds.free (hs : Holds s t) : ∃ p, s.buffer.free = some p := by
  rcases hs with ⟨rfl, -⟩ | hs
  · exact ⟨_, rfl⟩
  · obtain ⟨rest, hblock⟩ := hs.block
    exact ⟨.freed, by rw [hblock.buffer]; rfl⟩

/-- `invalidate`. -/
theorem invalidate_spec (hs : Holds s t) : invalidate s = some init := by
  obtain ⟨p, hp⟩ := hs.free
  rw [invalidate, hp]
  rfl

/-- **Assignment of characters**, if there are any. -/
theorem assignChars_spec (hs : Holds s t) (hp : p.text = some u)
    (hgrants : Grants A s u.length) : ∃ s', assignChars A s p = some s' ∧ HasText s' u := by
  rw [assignChars, if_pos (ne_null_of_text hp), strlen_of_text hp]
  exact copy_spec hs hp hgrants

theorem ofChars_spec (hp : p.text = some u) (hgrants : Grants A init u.length) :
    ∃ s', ofChars A p = some s' ∧ HasText s' u := by
  rw [ofChars, if_pos (ne_null_of_text hp), strlen_of_text hp]
  exact copy_spec holds_init hp hgrants

/-- **Assignment of another object.** -/
theorem assign_spec {rhs : Obj} (hs : Holds s t) (hrhs : Holds rhs u)
    (hgrants : rhs.buffer ≠ .null → Grants A s rhs.len) :
    ∃ s', assign A s rhs = some s' ∧ Holds s' u := by
  rcases hrhs with ⟨rfl, rfl⟩ | hrhs
  · refine ⟨init, ?_, holds_init⟩
    rw [assign, if_neg fun h => h rfl, invalidate_spec hs]
  · have hlen := hrhs.len
    rw [hlen] at hgrants
    obtain ⟨s', hcopy, hs'⟩ := copy_spec hs hrhs.text (hgrants hrhs.not_null)
    refine ⟨s', ?_, hs'.holds⟩
    rw [assign, if_pos hrhs.not_null, hlen, hcopy]

/-- **`move`**, unless the object has room for a text that is not empty: then the text is copied,
and the other object is left with a length that is not that of its text. -/
theorem move_spec {rhs : Obj} (hs : Holds s t) (hrhs : Holds rhs u)
    (hempty : s.buffer ≠ .null → rhs.buffer ≠ .null → rhs.len ≤ s.capacity → rhs.len = 0) :
    ∃ s' rhs', move s rhs = some (s', rhs') ∧ Holds s' u ∧ Holds rhs' [] := by
  by_cases hcopy : s.buffer ≠ .null ∧ rhs.buffer ≠ .null ∧ rhs.len ≤ s.capacity
  · obtain ⟨hbuffer, hbuffer', hcapacity⟩ := hcopy
    have hlen := hempty hbuffer hbuffer' hcapacity
    have hu : u = [] := List.length_eq_zero_iff.1 (hrhs.len.symm.trans hlen)
    subst hu
    obtain ⟨rest₁, hblock⟩ := (hs.hasText hbuffer).block
    have htext := hrhs.hasText hbuffer'
    obtain ⟨rest, hstrcpy, hlength⟩ := strcpy_spec hblock htext.text (i := 0) (Nat.zero_le _)
    refine ⟨{ s with buffer := .block ([] ++ 0 :: rest), len := 0 }, { rhs with len := 0 }, ?_,
      (HasText.of_block List.not_mem_nil (hblock.set _ hlength 0) rfl).holds, ?_⟩
    · rw [move, if_pos ⟨hbuffer, hbuffer', hcapacity⟩, hstrcpy, hlen]
      rfl
    · rw [← hlen]
      exact hrhs
  · refine ⟨rhs, init, ?_, hrhs, holds_init⟩
    obtain ⟨p, hp⟩ := hs.free
    rw [move, if_neg hcopy, hp]
    rfl

end

/-! ### Objects for a text -/

/-- An object with a text and room for more. -/
def holding (t : List UInt8) (capacity : ℕ) : Obj :=
  ⟨.block (t ++ 0 :: List.replicate (capacity - t.length) 0), capacity, t.length⟩

theorem hasText_holding {t : List UInt8} (capacity : ℕ) (hno : 0 ∉ t) (hle : t.length ≤ capacity)
    (hsmall : capacity + 1 < 2 ^ 31) : HasText (holding t capacity) t := by
  refine ⟨hno, rfl, List.replicate (capacity - t.length) 0, rfl, ?_, hsmall⟩
  rw [List.length_append, List.length_cons, List.length_replicate]
  dsimp only [holding]
  omega

end Pico.WString
