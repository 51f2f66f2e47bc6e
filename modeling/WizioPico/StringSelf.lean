/-
**A `String` appended to itself.**

`s += s`, `s.concat(s)` and `s.concat(s.c_str())` of `arduino/WString.cpp` pass the buffer of the
string to the `concat` that appends characters.  It makes room with `reserve`, and then copies with
`strcpy` from the pointer that it was given, so that the source is the destination, or a block that
`realloc` has just freed.

* `selfAppends` — the three calls;
* `Doubled` — the string is its text twice, and nothing else of the application has changed;
* `ReadsBuffer` — what is read is the buffer, while the application has it;
* `strcpyFrom_onto` — **a copy behind its own source does not end**: it overwrites the NUL that it
  looks for;
* `concat_self_grown` — from a block that is freed the text is copied as it was;
* `doubles_iff` — **an empty string is doubled** as it should be, and no other.
-/

import WizioPico.StringAlloc

set_option relaxedAutoImplicit false
set_option autoImplicit false

namespace Pico.StringAlloc

open Runs Heap4 Tiling

/-! ### Doubling -/

/-- The calls that append a string to itself. -/
def selfAppends (s : Fields) : List Op :=
  [.append (.string s), .concat (.string s), .concat (.chars (.pointer s.buffer))]

/-- A string twice. -/
def twice (w : CString) : CString := ⟨w.bytes ++ w.bytes, by simp [w.noNul]⟩

/-- The text of a `String`: it is in the buffer, if there is one, with a NUL behind it. -/
structure Text (m : ByteMem) (s : Fields) (w : CString) : Prop where
  len : s.len.toNat = w.strlen
  chars : s.buffer ≠ 0 → ∀ i ≤ w.strlen, m (s.buffer + i) = w.char i

/-- **The string is its text twice**, in a buffer of the application.  The blocks of the application
other than the buffer that the string had are as they were. -/
structure Doubled (r : Region) (st : Session) (s : Fields) (w : CString) (a : Answer) : Prop where
  text : Text a.heap.mem a.str (twice w)
  owned : ∃ live bs, Represents r ⟨a.heap, live⟩ bs ∧ Holds ⟨a.heap, live⟩ a.str ∧
    ∀ f ∈ st.live, f.1 ≠ s.buffer → f ∈ live
  others : ∀ f ∈ st.live, f.1 ≠ s.buffer →
    ∀ i < f.2, a.heap.mem (f.1 + i) = st.heap.mem (f.1 + i)

/-- What is read is the buffer of the string.  If `realloc` is called, it reads no more than the
`capacity + 1` bytes of the buffer, and the buffer is still a block of the application when the
characters are copied. -/
def ReadsBuffer (r : Region) (h : Heap) (s : Fields) (op : Op) : Prop :=
  ∀ n out, request h.mem s op = some n → realloc r h s.buffer (n + 1).toNat = some out →
    out.read ≤ s.capacity.toNat + 1 ∧ belongs out.heap s.buffer = true

/-! ### The functions of the C library -/

/-- `strlen` finds the first NUL. -/
theorem strlenFrom_eq {m : ByteMem} {c : Chars} :
    ∀ (k : ℕ) {i fuel : ℕ}, (∀ j < k, c.get m (i + j) ≠ 0) → c.get m (i + k) = 0 → k < fuel →
      strlenFrom m c i fuel = some (i + k) := by
  intro k
  induction k with
  | zero =>
      intro i fuel _ hnul hfuel
      obtain ⟨fuel, rfl⟩ := Nat.exists_eq_succ_of_ne_zero (by omega : fuel ≠ 0)
      exact if_pos hnul
  | succ k ih =>
      intro i fuel hchars hnul hfuel
      obtain ⟨fuel, rfl⟩ := Nat.exists_eq_succ_of_ne_zero (by omega : fuel ≠ 0)
      have hne : c.get m i ≠ 0 := hchars 0 (Nat.succ_pos k)
      have hchars' : ∀ j < k, c.get m (i + 1 + j) ≠ 0 := fun j hj => by
        rw [Nat.add_assoc, Nat.add_comm 1]
        exact hchars (j + 1) (by omega)
      have hnul' : c.get m (i + 1 + k) = 0 := by
        rw [Nat.add_assoc, Nat.add_comm 1]
        exact hnul
      rw [strlenFrom, if_neg hne, ih hchars' hnul' (by omega), Nat.add_assoc, Nat.add_comm 1]

/-- A step of a copy from memory. -/
theorem strcpyFrom_pointer (m : ByteMem) (d b i fuel : ℕ) :
    strcpyFrom m d (.pointer b) i (fuel + 1) =
      if m (b + i) = 0 then some (m.blit (d + i) 1 fun _ => m (b + i))
      else strcpyFrom (m.blit (d + i) 1 fun _ => m (b + i)) d (.pointer b) (i + 1) fuel := rfl

/-- **A copy behind its own source does not end.**  Every character between the source and the
destination is other than NUL, and each step writes one more. -/
theorem strcpyFrom_onto {b d : ℕ} (hbd : b < d) :
    ∀ (fuel : ℕ) {m : ByteMem} {i : ℕ}, (∀ x, b ≤ x → x < d + i → m x ≠ 0) →
      strcpyFrom m d (.pointer b) i fuel = none := by
  intro fuel
  induction fuel with
  | zero => intro m i _; rfl
  | succ fuel ih =>
      intro m i hchars
      have hne : m (b + i) ≠ 0 := hchars _ (Nat.le_add_right b i) (by omega)
      rw [strcpyFrom_pointer, if_neg hne]
      refine ih fun x hx hx' => ?_
      by_cases hlast : x = d + i
      · subst hlast
        rwa [ByteMem.blit_of_mem (Nat.le_refl _) (Nat.lt_succ_self _)]
      · rw [ByteMem.blit_of_not_mem (by omega)]
        exact hchars x hx (by omega)

/-- A copy to a place apart from its source. -/
theorem strcpyFrom_apart {b d : ℕ} :
    ∀ (l : List UInt8) {m : ByteMem} {i fuel : ℕ}, 0 ∉ l →
      (∀ j ≤ l.length, m (b + i + j) = l.getD j 0) →
      b + l.length < d ∨ d + l.length < b → l.length < fuel →
      strcpyFrom m d (.pointer b) i fuel =
        some (m.blit (d + i) (l.length + 1) fun j => l.getD j 0) := by
  intro l
  induction l with
  | nil =>
      intro m i fuel _ hsrc _ hfuel
      obtain ⟨fuel, rfl⟩ := Nat.exists_eq_succ_of_ne_zero (by omega : fuel ≠ 0)
      have hnul : m (b + i) = 0 := hsrc 0 (Nat.le_refl 0)
      rw [strcpyFrom_pointer, if_pos hnul, hnul]
      rfl
  | cons c l ih =>
      intro m i fuel hnul hsrc hapart hfuel
      obtain ⟨fuel, rfl⟩ := Nat.exists_eq_succ_of_ne_zero (by omega : fuel ≠ 0)
      rw [List.length_cons] at hsrc hapart hfuel
      have hfirst : m (b + i) = c := hsrc 0 (Nat.zero_le _)
      have hne : c ≠ 0 := fun hc => hnul (hc ▸ List.mem_cons_self)
      rw [strcpyFrom_pointer, hfirst, if_neg hne,
        ih (fun h => hnul (List.mem_cons_of_mem _ h)) (fun j hj => ?_) (by omega) (by omega)]
      · exact congrArg some (ByteMem.blit_cons m (d + i) (l.length + 1) c l)
      · rw [ByteMem.blit_of_not_mem (by omega), Nat.add_assoc b, Nat.add_assoc i, Nat.add_comm 1,
          ← Nat.add_assoc b]
        exact hsrc (j + 1) (by omega)

/-! ### The three calls -/

section

variable {r : Region} {st : Session} {bs : List (Block ℕ)} {s : Fields} {w : CString} {op : Op}

/-- The characters of a string are not NUL. -/
theorem char_ne_zero {i : ℕ} (hi : i < w.strlen) : w.char i ≠ 0 := by
  rw [CString.char, List.getD_eq_getElem?_getD, List.getElem?_eq_getElem hi]
  exact fun hzero => w.noNul (hzero ▸ List.getElem_mem hi)

/-- A string ends with a NUL. -/
theorem char_strlen : w.char w.strlen = 0 := by
  rw [CString.char, CString.strlen, List.getD_eq_getElem?_getD,
    List.getElem?_eq_none (Nat.le_refl _)]
  rfl

theorem strlen_twice : (twice w).strlen = 2 * w.strlen := by
  unfold twice CString.strlen
  rw [List.length_append, Nat.two_mul]

/-- The characters of a string that is there twice. -/
theorem twice_char {i : ℕ} :
    (twice w).char i = if i < w.strlen then w.char i else w.char (i - w.strlen) := by
  unfold twice CString.char CString.strlen
  dsimp only
  split_ifs with hi
  · rw [List.getD_append _ _ _ _ hi]
  · rw [List.getD_append_right _ _ _ _ (by omega)]

theorem pointer_not_null {buffer : ℕ} (hbuffer : buffer ≠ 0) :
    ¬((Chars.pointer buffer).isNull = true) := by
  simpa [Chars.isNull] using hbuffer

/-- `strlen` of the buffer. -/
theorem Text.strlen_eq {m : ByteMem} (hw : Text m s w) (hbuffer : s.buffer ≠ 0) :
    strlen m (.pointer s.buffer) = some s.len.toNat := by
  have hlt := s.len.toNat_lt
  have hlen := hw.len
  have hchars : ∀ j < w.strlen, (Chars.pointer s.buffer).get m (0 + j) ≠ 0 := fun j hj => by
    rw [Nat.zero_add]
    exact (hw.chars hbuffer j (by omega)).trans_ne (char_ne_zero hj)
  have hnul : (Chars.pointer s.buffer).get m (0 + w.strlen) = 0 := by
    rw [Nat.zero_add]
    exact (hw.chars hbuffer _ (Nat.le_refl _)).trans char_strlen
  have hfuel : w.strlen < addresses := by
    unfold addresses
    omega
  rw [strlen, strlenFrom_eq _ hchars hnul hfuel, Nat.zero_add, hlen]

/-- Without a buffer nothing happens. -/
theorem perform_self_null (r : Region) (h : Heap) (hop : op ∈ selfAppends s)
    (hbuffer : s.buffer = 0) :
    perform r h s op = some ⟨h, s, 0⟩ ∧ request h.mem s op = none := by
  have hnull : (Chars.pointer s.buffer).isNull = true := by
    rw [hbuffer]
    rfl
  have hchars : concatChars r h s (.pointer s.buffer) s.len = some ⟨h, s, 0⟩ := by
    rw [concatChars]
    exact if_pos hnull
  simp only [selfAppends, List.mem_cons, List.not_mem_nil, or_false] at hop
  rcases hop with rfl | rfl | rfl
  · exact ⟨hchars, by simp [request, Piece.length, hbuffer]⟩
  · exact ⟨hchars, by simp [request, Piece.length, hbuffer]⟩
  · exact ⟨if_pos hnull, by simp [request, Piece.length, hnull]⟩

/-- **The three calls append as many characters as the string has**, from its own buffer. -/
theorem perform_self (r : Region) {h : Heap} (hw : Text h.mem s w) (hop : op ∈ selfAppends s)
    (hbuffer : s.buffer ≠ 0) :
    perform r h s op = concatChars r h s (.pointer s.buffer) s.len ∧
      request h.mem s op = concatRequest s s.len := by
  have hnull := pointer_not_null hbuffer
  have hstrlen := hw.strlen_eq hbuffer
  simp only [selfAppends, List.mem_cons, List.not_mem_nil, or_false] at hop
  rcases hop with rfl | rfl | rfl
  · exact ⟨rfl, by simp [request, Piece.length, hbuffer]⟩
  · exact ⟨rfl, by simp [request, Piece.length, hbuffer]⟩
  · refine ⟨?_, by simp [request, Piece.length, hnull, hstrlen]⟩
    rw [perform, concat, if_neg hnull, hstrlen, Option.bind_some, UInt32.ofNat_toNat]

/-- A block of the application is smaller than half of the addresses. -/
theorem live_lt (hst : Represents r st bs) {e : ℕ × ℕ} (he : e ∈ st.live) : e.2 < 2 ^ 31 := by
  have hinside := hst.safe.inside e he
  have hbelow := hst.safe.below
  have hsmall := r.small
  omega

/-- Twice the characters of a `String` of the application can be counted. -/
theorem Holds.double_len (hst : Represents r st bs) (hs : Holds st s) :
    (s.len + s.len).toNat = 2 * s.len.toNat ∧ s.len.toNat ≤ s.capacity.toNat ∧
      s.capacity.toNat + 1 < 2 ^ 31 := by
  rcases hs with ⟨-, hcapacity, hlen⟩ | ⟨hlive, hle⟩
  · rw [hlen, hcapacity]
    decide
  · have hlt := live_lt hst hlive
    have hle := UInt32.le_iff_toNat_le.1 hle
    dsimp only at hlt
    rw [UInt32.toNat_add]
    omega

/-- An empty string is left as it is. -/
theorem concat_self_empty (r : Region) (h : Heap) (hbuffer : s.buffer ≠ 0) (hlen : s.len = 0) :
    concatChars r h s (.pointer s.buffer) s.len = some ⟨h, s, 1⟩ ∧
      concatRequest s s.len = none := by
  have hnull := pointer_not_null hbuffer
  constructor
  · rw [concatChars, if_neg hnull, if_pos hlen]
  · rw [concatRequest, if_pos hlen]

/-- **A buffer with room for the text twice** is written without an end. -/
theorem concat_self_endless (r : Region) {h : Heap} (hw : Text h.mem s w) (hbuffer : s.buffer ≠ 0)
    (hlen : s.len ≠ 0) (hroom : s.len + s.len ≤ s.capacity) :
    concatChars r h s (.pointer s.buffer) s.len = none := by
  have hnull := pointer_not_null hbuffer
  have hpos : 0 < s.len.toNat := Nat.pos_of_ne_zero fun h => hlen (UInt32.toNat_inj.1 h)
  have hendless := strcpyFrom_onto (b := s.buffer) (d := s.buffer + s.len.toNat)
    (Nat.lt_add_of_pos_right hpos) addresses (m := h.mem) (i := 0) fun x hx hx' => by
      obtain ⟨i, rfl⟩ := Nat.exists_eq_add_of_le hx
      have hlen := hw.len
      exact (hw.chars hbuffer i (by omega)).trans_ne (char_ne_zero (by omega))
  rw [concatChars, if_neg hnull, if_neg hlen, reserve, if_pos ⟨hbuffer, hroom⟩, Option.bind_some]
  exact Option.map_eq_none_iff.2 hendless

/-- The buffer that a call asks for is there, if the call is not refused. -/
theorem realloc_granted (hst : Represents r st bs) {n : UInt32} {out : Realloc}
    (hrequest : request st.heap.mem s op = some n) (hgranted : ¬Refused r st.heap s op)
    (hfits : out.new ≠ 0 ↔ Fits bs (n + 1).toNat) : out.new ≠ 0 := by
  obtain ⟨h₁, p, -, hmalloc, -, -, hfits₁⟩ := hst.malloc (n + 1).toNat_lt
  refine hfits.2 (hfits₁.1 fun hp => hgranted ⟨n, h₁, hrequest, ?_⟩)
  rw [malloc, hmalloc, hp]

/-- A buffer without room for the text twice gives way to a new one. -/
theorem concat_self_realloc {h : Heap} {out : Realloc} {mem : ByteMem} (hbuffer : s.buffer ≠ 0)
    (hlen : s.len ≠ 0) (hroom : ¬s.len + s.len ≤ s.capacity)
    (hrealloc : realloc r h s.buffer (s.len + s.len + 1).toNat = some out) (hnew : out.new ≠ 0)
    (hcopied : strcpy out.heap.mem (out.new + s.len.toNat) (.pointer s.buffer) = some mem) :
    concatChars r h s (.pointer s.buffer) s.len =
      some ⟨{ out.heap with mem := mem }, ⟨out.new, s.len + s.len, s.len + s.len⟩, 1⟩ := by
  have hnull := pointer_not_null hbuffer
  have hreserve : reserve r h s (s.len + s.len) =
      some ⟨out.heap, ⟨out.new, s.len + s.len, s.len⟩, 1⟩ := by
    rw [reserve, if_neg fun h => hroom h.2, changeBuffer, hrealloc, Option.map_some]
    simp [hnew, hlen]
  rw [concatChars, if_neg hnull, if_neg hlen, hreserve, Option.bind_some]
  dsimp only
  rw [if_neg (by decide), appendChars, hcopied]
  rfl

/-- The text is there twice after it has been copied behind itself. -/
theorem text_twice {m : ByteMem} {new : ℕ} {capacity len : UInt32}
    (hlen : len.toNat = 2 * w.strlen) (hfirst : ∀ i < w.strlen, m (new + i) = w.char i) :
    Text (m.blit (new + w.strlen) (w.strlen + 1) w.char) ⟨new, capacity, len⟩ (twice w) := by
  refine ⟨hlen.trans strlen_twice.symm, fun _ i hi => ?_⟩
  rw [strlen_twice] at hi
  dsimp only
  rw [twice_char]
  split_ifs with hfront
  · rw [ByteMem.blit_of_not_mem (by omega)]
    exact hfirst i hfront
  · obtain ⟨j, rfl⟩ := Nat.exists_eq_add_of_le (Nat.le_of_not_lt hfront)
    rw [← Nat.add_assoc, ByteMem.blit_add (by omega), Nat.add_sub_cancel_left]

/-- **A buffer without room for the text twice** is freed, and the text is copied from it into the
new one as it was. -/
theorem concat_self_grown (hst : Represents r st bs) (hs : Holds st s) (hw : Text st.heap.mem s w)
    (hbuffer : s.buffer ≠ 0) (hroom : ¬s.len + s.len ≤ s.capacity)
    (hrequest : request st.heap.mem s op = some (s.len + s.len))
    (hgranted : ¬Refused r st.heap s op) :
    (∃ a, concatChars r st.heap s (.pointer s.buffer) s.len = some a ∧ Doubled r st s w a) ∧
      ∃ out, realloc r st.heap s.buffer (s.len + s.len + 1).toNat = some out ∧
        belongs out.heap s.buffer = false := by
  obtain ⟨hdouble, hle, hsmall⟩ := hs.double_len hst
  have hlive := (hs.resolve_left fun h => hbuffer h.1).1
  have hlen := hw.len
  have hroom' : s.capacity.toNat < 2 * s.len.toNat := by
    rw [UInt32.le_iff_toNat_le, hdouble] at hroom
    omega
  have hne : s.len ≠ 0 := fun hzero => by
    rw [hzero, UInt32.toNat_zero] at hroom'
    omega
  have hm : (s.len + s.len + 1).toNat = 2 * s.len.toNat + 1 := by
    rw [UInt32.toNat_add, hdouble]
    exact Nat.mod_eq_of_lt (show 2 * s.len.toNat + 1 < 2 ^ 32 by omega)
  obtain ⟨out, bs', hrealloc, hrep, hbelongs, hfits, hcopy, hkept⟩ :=
    hst.realloc hlive (s.len + s.len + 1)
  have hnew : out.new ≠ 0 := realloc_granted hst hrequest hgranted hfits
  have hbytes := (hcopy hnew).2
  obtain ⟨hold, hapart⟩ := hkept _ hlive
  have hapart := hapart hnew
  dsimp only at hrealloc hbelongs hrep hbytes hold hapart
  rw [hm] at hbytes hapart hrep
  rw [if_neg hnew] at hrep
  refine ⟨?_, out, hrealloc, hbelongs⟩
  -- the copy, from the block that has been freed
  have hlength : w.bytes.length = w.strlen := rfl
  have hsource : ∀ j ≤ w.bytes.length,
      out.heap.mem (s.buffer + 0 + j) = w.bytes.getD j 0 := fun j hj => by
    rw [Nat.add_zero, hold j (by omega)]
    exact hw.chars hbuffer j hj
  have hfuel : w.bytes.length < addresses := by
    unfold addresses
    omega
  obtain ⟨mem, hmem⟩ : ∃ mem, mem = out.heap.mem.blit (out.new + w.strlen) (w.strlen + 1) w.char :=
    ⟨_, rfl⟩
  have hcopied : strcpy out.heap.mem (out.new + s.len.toNat) (.pointer s.buffer) = some mem := by
    rw [hmem, hlen]
    exact strcpyFrom_apart w.bytes w.noNul hsource (by omega) hfuel
  have houtside : ∀ x, x < out.new ∨ out.new + (2 * s.len.toNat + 1) ≤ x →
      mem x = out.heap.mem x := fun x hx => by
    rw [hmem, ByteMem.blit_of_not_mem (by omega)]
  have hmine : (out.new, 2 * s.len.toNat + 1) ∈ ((out.new, 2 * s.len.toNat + 1) :: st.live).filter
      fun f => f.1 ≠ s.buffer :=
    List.mem_filter.2 ⟨List.mem_cons_self, by dsimp only; exact decide_eq_true (by omega)⟩
  refine ⟨_, concat_self_realloc hbuffer hne hroom hrealloc hnew hcopied, ?_,
    ⟨_, _, hrep.setMem hmine houtside, Or.inr ⟨?_, UInt32.le_refl _⟩, fun f hf hfs => ?_⟩,
    fun f hf _ i hi => ?_⟩
  · rw [hmem]
    refine text_twice (hdouble.trans (by rw [hlen])) fun i hi => ?_
    rw [hbytes i (by omega)]
    exact hw.chars hbuffer i (by omega)
  · dsimp only
    rw [hdouble]
    exact hmine
  · exact List.mem_filter.2 ⟨List.mem_cons_of_mem _ hf, decide_eq_true hfs⟩
  · obtain ⟨hsame, hfapart⟩ := hkept f hf
    have hfapart := hfapart hnew
    rw [hm] at hfapart
    dsimp only
    rw [houtside _ (by omega), hsame i hi]

/-- A string that is left as it is, and is empty, is its text twice. -/
theorem doubled_empty (hst : Represents r st bs) (hs : Holds st s) (hw : Text st.heap.mem s w)
    (hempty : w.strlen = 0) (k : UInt8) : Doubled r st s w ⟨st.heap, s, k⟩ := by
  have hbytes : w.bytes = [] := List.length_eq_zero_iff.1 hempty
  have htwice : twice w = w := by
    refine CString.ext ?_
    change w.bytes ++ w.bytes = w.bytes
    rw [hbytes]
    rfl
  exact ⟨htwice.symm ▸ hw, ⟨st.live, bs, hst, hs, fun _ hf _ => hf⟩, fun _ _ _ _ _ => rfl⟩

/-- **When a `String` appended to itself is doubled.**  In every state of every session, for every
`String` of the application and each of the three calls, if the allocator provides the buffer that
the call asks for: the string comes to be its text twice exactly if it is empty, or its buffer has
no room for that; and nothing but its buffer is read besides, exactly if it is empty. -/
theorem doubles_iff (r : Region) (mem : ByteMem) (st : Session)
    (hreach : Reach (memStep r) (start r mem) st) (s : Fields) (hs : Holds st s) (w : CString)
    (hw : Text st.heap.mem s w) (op : Op) (hop : op ∈ selfAppends s)
    (hgranted : ¬Refused r st.heap s op) :
    ((∃ a, perform r st.heap s op = some a ∧ Doubled r st s w a ∧ ReadsBuffer r st.heap s op) ↔
      w.strlen = 0) ∧
    ((∃ a, perform r st.heap s op = some a ∧ Doubled r st s w a) ↔
      w.strlen = 0 ∨ s.capacity.toNat < 2 * w.strlen) := by
  obtain ⟨bs, hst⟩ := reach_represents_realloc hreach
  have hlen := hw.len
  -- a call that leaves the heap and the fields alone
  have hidle : ∀ k, perform r st.heap s op = some ⟨st.heap, s, k⟩ →
      request st.heap.mem s op = none → w.strlen = 0 →
      ((∃ a, perform r st.heap s op = some a ∧ Doubled r st s w a ∧
        ReadsBuffer r st.heap s op) ↔ w.strlen = 0) ∧
      ((∃ a, perform r st.heap s op = some a ∧ Doubled r st s w a) ↔
        w.strlen = 0 ∨ s.capacity.toNat < 2 * w.strlen) := by
    intro k hperform hrequest hempty
    have hdoubled := doubled_empty hst hs hw hempty k
    have hreads : ReadsBuffer r st.heap s op := fun n out hn => by
      rw [hrequest] at hn
      cases hn
    exact ⟨iff_of_true ⟨_, hperform, hdoubled, hreads⟩ hempty,
      iff_of_true ⟨_, hperform, hdoubled⟩ (Or.inl hempty)⟩
  by_cases hbuffer : s.buffer = 0
  · have hzero : s.len = 0 := by
      rcases hs with ⟨-, -, hzero⟩ | ⟨hlive, -⟩
      · exact hzero
      · exact absurd hbuffer (hst.ne_zero hlive)
    obtain ⟨hperform, hrequest⟩ := perform_self_null r st.heap hop hbuffer
    exact hidle 0 hperform hrequest (by rw [← hlen, hzero, UInt32.toNat_zero])
  obtain ⟨hperform, hrequest⟩ := perform_self r hw hop hbuffer
  by_cases hzero : s.len = 0
  · obtain ⟨hconcat, hnone⟩ := concat_self_empty r st.heap hbuffer hzero
    exact hidle 1 (hperform.trans hconcat) (hrequest.trans hnone)
      (by rw [← hlen, hzero, UInt32.toNat_zero])
  have hpos : 0 < s.len.toNat := Nat.pos_of_ne_zero fun h => hzero (UInt32.toNat_inj.1 h)
  obtain ⟨hdouble, -, -⟩ := hs.double_len hst
  by_cases hroom : s.len + s.len ≤ s.capacity
  · -- the copy does not end
    have hnone := hperform.trans (concat_self_endless r hw hbuffer hzero hroom)
    have hle := UInt32.le_iff_toNat_le.1 hroom
    rw [hnone]
    constructor
    · exact iff_of_false (fun ⟨a, ha, _⟩ => Option.some_ne_none a ha.symm) (by omega)
    · exact iff_of_false (fun ⟨a, ha, _⟩ => Option.some_ne_none a ha.symm) (by omega)
  · -- the text is copied from the block that has been freed
    have hsome : request st.heap.mem s op = some (s.len + s.len) := by
      rw [hrequest, concatRequest, if_neg hzero, reserveRequest, if_neg fun h => hroom h.2]
    obtain ⟨⟨a, ha, hdoubled⟩, out, hrealloc, hfreed⟩ :=
      concat_self_grown hst hs hw hbuffer hroom hsome hgranted
    rw [UInt32.le_iff_toNat_le, hdouble] at hroom
    refine ⟨iff_of_false ?_ (by omega), iff_of_true ⟨a, hperform.trans ha, hdoubled⟩
      (Or.inr (by omega))⟩
    rintro ⟨-, -, -, hreads⟩
    have hbelongs := (hreads _ _ hsome hrealloc).2
    rw [hfreed] at hbelongs
    cases hbelongs

end

/-- The text of one character. -/
def letterX : CString := ⟨[0x78], by decide⟩

theorem text_letterX {m : ByteMem} {buffer : ℕ} {capacity : UInt32} (hfirst : m buffer = 0x78)
    (hsecond : m (buffer + 1) = 0) : Text m ⟨buffer, capacity, 1⟩ letterX := by
  refine ⟨rfl, fun _ i hi => ?_⟩
  obtain rfl | rfl : i = 0 ∨ i = 1 := by
    change i ≤ 1 at hi
    omega
  · exact hfirst
  · exact hsecond

/-- A string `"x"` whose buffer has room for one character is `"xx"` afterwards. -/
theorem doubles_one : ∃ st : Session, (0x20008010, 2) ∈ st.live ∧
    ∃ a, perform smallRegion st.heap ⟨0x20008010, 1, 1⟩ (.append (.string ⟨0x20008010, 1, 1⟩)) =
      some a ∧ Doubled smallRegion st ⟨0x20008010, 1, 1⟩ letterX a := by
  have hrun : (exec (memStep smallRegion) (start smallRegion fun _ => 0xff)
      [.call (.malloc 2), .call (.write 0x20008010 0x78), .call (.write 0x20008011 0)]).map
        (fun st => (st.live, st.heap.mem 0x20008010, st.heap.mem 0x20008011,
          (malloc smallRegion st.heap 3).map Prod.snd)) =
      some ([(0x20008010, 2)], 0x78, 0, some 0x20008020) := by decide +kernel
  obtain ⟨st, hst, heval⟩ := Option.map_eq_some_iff.1 hrun
  obtain ⟨hlive, hfirst, hsecond, hmalloc⟩ : _ ∧ _ ∧ _ ∧ _ := by
    simpa only [Prod.mk.injEq] using heval
  have hmem : (0x20008010, 2) ∈ st.live := hlive ▸ List.mem_singleton_self _
  have htext : Text st.heap.mem ⟨0x20008010, 1, 1⟩ letterX := text_letterX hfirst hsecond
  refine ⟨st, hmem, (doubles_iff smallRegion _ st ⟨_, hst⟩ ⟨0x20008010, 1, 1⟩
    (Or.inr ⟨hmem, by decide⟩) letterX htext _ List.mem_cons_self ?_).2.2 (Or.inr (by decide))⟩
  rintro ⟨n, h', hrequest, hrefused⟩
  have hn : n = 2 := by
    have hsome : request st.heap.mem ⟨0x20008010, 1, 1⟩ (.append (.string ⟨0x20008010, 1, 1⟩)) =
        some 2 := rfl
    exact Option.some.inj (hrequest.symm.trans hsome)
  subst hn
  have hnull : (malloc smallRegion st.heap 3).map Prod.snd = some 0 := congrArg _ hrefused
  rw [hmalloc] at hnull
  cases hnull

/-- **A `String` appended to itself overruns its buffer.**  The string is `"x"`, and its buffer has
room for ten characters. -/
theorem doubles_endless : ∃ st : Session,
    Reach (memStep smallRegion) (start smallRegion fun _ => 0xff) st ∧
      Holds st ⟨0x20008010, 10, 1⟩ ∧ Text st.heap.mem ⟨0x20008010, 10, 1⟩ letterX ∧
      ∀ op ∈ selfAppends ⟨0x20008010, 10, 1⟩, ¬Refused smallRegion st.heap ⟨0x20008010, 10, 1⟩ op ∧
        ¬∃ a, perform smallRegion st.heap ⟨0x20008010, 10, 1⟩ op = some a ∧
          Doubled smallRegion st ⟨0x20008010, 10, 1⟩ letterX a := by
  have hrun : (exec (memStep smallRegion) (start smallRegion fun _ => 0xff)
      [.call (.malloc 11), .call (.write 0x20008010 0x78), .call (.write 0x20008011 0)]).map
        (fun st => (st.live, st.heap.mem 0x20008010, st.heap.mem 0x20008011)) =
      some ([(0x20008010, 11)], 0x78, 0) := by decide +kernel
  obtain ⟨st, hst, heval⟩ := Option.map_eq_some_iff.1 hrun
  obtain ⟨hlive, hfirst, hsecond⟩ : _ ∧ _ ∧ _ := by simpa only [Prod.mk.injEq] using heval
  have hmem : (0x20008010, 11) ∈ st.live := hlive ▸ List.mem_singleton_self _
  have htext : Text st.heap.mem ⟨0x20008010, 10, 1⟩ letterX := text_letterX hfirst hsecond
  have hbuffer : (0x20008010 : ℕ) ≠ 0 := by decide
  refine ⟨st, ⟨_, hst⟩, Or.inr ⟨hmem, by decide⟩, htext, fun op hop => ?_⟩
  obtain ⟨hperform, hrequest⟩ := perform_self smallRegion htext hop hbuffer
  constructor
  · rintro ⟨n, h', hn, -⟩
    rw [hrequest] at hn
    cases hn
  · rintro ⟨a, ha, -⟩
    rw [hperform, concat_self_endless smallRegion htext hbuffer (by decide) (by decide)] at ha
    cases ha

end Pico.StringAlloc
