/-
**A `String` without memory.**

`String::reserve` and `String::concat` of `arduino/WString.cpp` get a larger buffer from
`changeBuffer`, which calls the `realloc` of the framework.  When that returns a null pointer they
keep the buffer that they have and return 0; the header promises that the string is left unchanged.

* `changeBuffer`, `reserve`, `concat` — the members, over the core heap;
* `request` — the size for which a call goes to `changeBuffer`, if it does;
* `Unharmed` — what the header promises of a call that fails;
* `refused_spec` — such a call returns 0, changes none of the fields, and frees the buffer;
* `unharmed_iff` — **the promise is kept exactly if** there is no buffer yet;
* `changeBuffer_view` — what `changeBuffer` does over the core heap is what `WString.lean` has it do
  to the bytes of the object.
-/

import WizioPico.CTypes
import WizioPico.Realloc
import WizioPico.WString

set_option relaxedAutoImplicit false
set_option autoImplicit false

namespace Pico.StringAlloc

open Runs Heap4 Tiling

/-! ### The class -/

/-- The fields of a `String`. -/
structure Fields where
  buffer : ℕ
  capacity : UInt32
  len : UInt32

/-- What a member leaves: the heap, the fields, and the byte that it returns. -/
structure Answer where
  heap : Heap
  str : Fields
  result : UInt8

/-- What a `const char *` leads to: the memory from an address on, or an array of the caller. -/
inductive Chars
  | pointer (address : ℕ)
  | array (bytes : List UInt8)

/-- The pointer is null. -/
def Chars.isNull : Chars → Bool
  | .pointer address => address == 0
  | .array _ => false

/-- The character at an index. -/
def Chars.get (c : Chars) (m : ByteMem) (i : ℕ) : UInt8 :=
  match c with
  | .pointer address => m (address + i)
  | .array bytes => bytes.getD i 0

/-- The number of addresses. -/
def addresses : ℕ := 2 ^ 32

/-- `strlen`, from an index on.  It has no outcome if there is no NUL. -/
def strlenFrom (m : ByteMem) (c : Chars) (i : ℕ) : ℕ → Option ℕ
  | 0 => none
  | fuel + 1 => if c.get m i = 0 then some i else strlenFrom m c (i + 1) fuel

/-- `strlen`. -/
def strlen (m : ByteMem) (c : Chars) : Option ℕ := strlenFrom m c 0 addresses

/-- `strcpy`, from an index on. -/
def strcpyFrom (m : ByteMem) (dst : ℕ) (src : Chars) (i : ℕ) : ℕ → Option ByteMem
  | 0 => none
  | fuel + 1 =>
      let c := src.get m i
      let m := m.blit (dst + i) 1 fun _ => c
      if c = 0 then some m else strcpyFrom m dst src (i + 1) fuel

/-- `strcpy`. -/
def strcpy (m : ByteMem) (dst : ℕ) (src : Chars) : Option ByteMem :=
  strcpyFrom m dst src 0 addresses

/-- `changeBuffer`. -/
def changeBuffer (r : Region) (h : Heap) (s : Fields) (maxStrLen : UInt32) : Option Answer :=
  (realloc r h s.buffer (maxStrLen + 1).toNat).map fun out =>
    if out.new ≠ 0 then ⟨out.heap, { s with buffer := out.new, capacity := maxStrLen }, 1⟩
    else ⟨out.heap, s, 0⟩

/-- `reserve`. -/
def reserve (r : Region) (h : Heap) (s : Fields) (size : UInt32) : Option Answer :=
  if s.buffer ≠ 0 ∧ size ≤ s.capacity then some ⟨h, s, 1⟩
  else (changeBuffer r h s size).map fun a =>
    if a.result ≠ 0 then
      if a.str.len = 0 then { a with heap := a.heap.write a.str.buffer 0, result := 1 }
      else { a with result := 1 }
    else { a with result := 0 }

/-- The copying of a `concat` that has the buffer which it needs. -/
def appendChars (a : Answer) (cstr : Chars) (newlen : UInt32) : Option Answer :=
  (strcpy a.heap.mem (a.str.buffer + a.str.len.toNat) cstr).map fun mem =>
    ⟨{ a.heap with mem := mem }, { a.str with len := newlen }, 1⟩

/-- `concat` of characters with their number. -/
def concatChars (r : Region) (h : Heap) (s : Fields) (cstr : Chars) (length : UInt32) :
    Option Answer :=
  let newlen := s.len + length
  if cstr.isNull then some ⟨h, s, 0⟩
  else if length = 0 then some ⟨h, s, 1⟩
  else (reserve r h s newlen).bind fun a =>
    if a.result = 0 then some { a with result := 0 } else appendChars a cstr newlen

/-- `concat` of a string in flash. -/
def concatFlash (r : Region) (h : Heap) (s : Fields) (str : Chars) : Option Answer :=
  if str.isNull then some ⟨h, s, 0⟩
  else (strlen h.mem str).bind fun n =>
    let length := UInt32.ofNat n
    if length = 0 then some ⟨h, s, 1⟩
    else
      let newlen := s.len + length
      (reserve r h s newlen).bind fun a =>
        if a.result = 0 then some { a with result := 0 } else appendChars a str newlen

/-- What can be appended.  A number comes with the text that its conversion leaves in `buf`. -/
inductive Piece
  | string (s : Fields)
  | chars (cstr : Chars)
  | char (c : UInt8)
  | number (text : CString)
  | flash (str : Chars)

/-- The array `buf` of the `concat` of a character. -/
def charBuf (c : UInt8) : Chars := .array [c, 0]

/-- The array `buf` of the `concat` of a number. -/
def numberBuf (text : CString) : Chars := .array (text.bytes ++ [0])

/-- **`concat`**. -/
def concat (r : Region) (h : Heap) (s : Fields) : Piece → Option Answer
  | .string t => concatChars r h s (.pointer t.buffer) t.len
  | .chars cstr =>
      if cstr.isNull then some ⟨h, s, 0⟩
      else (strlen h.mem cstr).bind fun n => concatChars r h s cstr (UInt32.ofNat n)
  | .char c => concatChars r h s (charBuf c) 1
  | .number text =>
      (strlen h.mem (numberBuf text)).bind fun n =>
        concatChars r h s (numberBuf text) (UInt32.ofNat n)
  | .flash str => concatFlash r h s str

/-- The calls that can ask for a larger buffer.  `operator +=` is `concat`; it gives its caller the
string in the place of the result. -/
inductive Op
  | reserve (size : UInt32)
  | concat (piece : Piece)
  | append (piece : Piece)

/-- **A call.** -/
def perform (r : Region) (h : Heap) (s : Fields) : Op → Option Answer
  | .reserve size => reserve r h s size
  | .concat piece => concat r h s piece
  | .append piece => concat r h s piece

/-! ### When a call asks for memory -/

/-- The size for which `reserve` goes to `changeBuffer`. -/
def reserveRequest (s : Fields) (size : UInt32) : Option UInt32 :=
  if s.buffer ≠ 0 ∧ size ≤ s.capacity then none else some size

/-- The size for which a `concat` of that many characters goes to `changeBuffer`. -/
def concatRequest (s : Fields) (length : UInt32) : Option UInt32 :=
  if length = 0 then none else reserveRequest s (s.len + length)

/-- The number of characters of a piece, if it has any. -/
def Piece.length (m : ByteMem) : Piece → Option UInt32
  | .string t => if t.buffer = 0 then none else some t.len
  | .chars cstr | .flash cstr => if cstr.isNull then none else (strlen m cstr).map UInt32.ofNat
  | .char _ => some 1
  | .number text => (strlen m (numberBuf text)).map UInt32.ofNat

/-- The size for which a call goes to `changeBuffer`. -/
def request (m : ByteMem) (s : Fields) : Op → Option UInt32
  | .reserve size => reserveRequest s size
  | .concat piece | .append piece => (piece.length m).bind (concatRequest s)

/-- The allocator cannot provide the buffer that the call asks for. -/
def Refused (r : Region) (h : Heap) (s : Fields) (op : Op) : Prop :=
  ∃ maxStrLen h', request h.mem s op = some maxStrLen ∧
    malloc r h (maxStrLen + 1).toNat = some (h', 0)

/-- The fields of a `String` of the application: there is no buffer, or it is a block of
`capacity + 1` bytes that the application holds. -/
def Holds (st : Session) (s : Fields) : Prop :=
  (s.buffer = 0 ∧ s.capacity = 0 ∧ s.len = 0) ∨
    (s.buffer, s.capacity.toNat + 1) ∈ st.live ∧ s.len ≤ s.capacity

/-- **What the header promises of a call that fails.** -/
structure Unharmed (h : Heap) (s : Fields) (a : Answer) : Prop where
  reported : a.result = 0
  len : a.str.len = s.len
  capacity : a.str.capacity = s.capacity
  buffer : a.str.buffer = s.buffer
  live : s.buffer ≠ 0 → belongs a.heap a.str.buffer = true
  chars : s.buffer ≠ 0 → ∀ i ≤ s.len.toNat, a.heap.mem (s.buffer + i) = h.mem (s.buffer + i)

/-! ### Calls that are refused -/

section

variable {r : Region} {h : Heap} {s : Fields}

/-- A `reserve` that gets no memory. -/
theorem reserve_of_refused {h' : Heap} {size n : UInt32} (hrequest : reserveRequest s size = some n)
    (hchange : changeBuffer r h s n = some ⟨h', s, 0⟩) : reserve r h s size = some ⟨h', s, 0⟩ := by
  rw [reserveRequest] at hrequest
  split_ifs at hrequest with hroom
  cases hrequest
  rw [reserve, if_neg hroom, hchange]
  rfl

/-- A `concat` that gets no memory. -/
theorem concatChars_of_refused {h' : Heap} {cstr : Chars} {length n : UInt32}
    (hnull : cstr.isNull = false) (hrequest : concatRequest s length = some n)
    (hchange : changeBuffer r h s n = some ⟨h', s, 0⟩) :
    concatChars r h s cstr length = some ⟨h', s, 0⟩ := by
  rw [concatRequest] at hrequest
  split_ifs at hrequest with hlength
  rw [concatChars, hnull]
  simp only [Bool.false_eq_true, if_false, if_neg hlength]
  rw [reserve_of_refused hrequest hchange]
  rfl

/-- A `concat` from flash that gets no memory. -/
theorem concatFlash_of_refused {h' : Heap} {str : Chars} {k : ℕ} {n : UInt32}
    (hnull : str.isNull = false) (hlen : strlen h.mem str = some k)
    (hrequest : concatRequest s (UInt32.ofNat k) = some n)
    (hchange : changeBuffer r h s n = some ⟨h', s, 0⟩) :
    concatFlash r h s str = some ⟨h', s, 0⟩ := by
  rw [concatRequest] at hrequest
  split_ifs at hrequest with hlength
  rw [concatFlash, hnull, hlen]
  simp only [Bool.false_eq_true, if_false, Option.bind_some, if_neg hlength]
  rw [reserve_of_refused hrequest hchange]
  rfl

/-- A `concat` of any piece that gets no memory. -/
theorem concat_of_refused {h' : Heap} {piece : Piece} {length n : UInt32}
    (hpiece : piece.length h.mem = some length) (hrequest : concatRequest s length = some n)
    (hchange : changeBuffer r h s n = some ⟨h', s, 0⟩) :
    concat r h s piece = some ⟨h', s, 0⟩ := by
  cases piece with
  | string t =>
      rw [Piece.length] at hpiece
      split_ifs at hpiece with hbuffer
      cases hpiece
      exact concatChars_of_refused (beq_false_of_ne hbuffer) hrequest hchange
  | chars cstr =>
      rw [Piece.length] at hpiece
      split_ifs at hpiece with hnull
      obtain ⟨k, hk, rfl⟩ := Option.map_eq_some_iff.1 hpiece
      rw [concat, if_neg hnull, hk]
      exact concatChars_of_refused (Bool.eq_false_iff.2 hnull) hrequest hchange
  | char c =>
      have hnull : (charBuf c).isNull = false := rfl
      cases hpiece
      exact concatChars_of_refused hnull hrequest hchange
  | number text =>
      have hnull : (numberBuf text).isNull = false := rfl
      obtain ⟨k, hk, rfl⟩ := Option.map_eq_some_iff.1 hpiece
      rw [concat, hk]
      exact concatChars_of_refused hnull hrequest hchange
  | flash str =>
      rw [Piece.length] at hpiece
      split_ifs at hpiece with hnull
      obtain ⟨k, hk, rfl⟩ := Option.map_eq_some_iff.1 hpiece
      exact concatFlash_of_refused (Bool.eq_false_iff.2 hnull) hk hrequest hchange

/-- **A call that gets no memory** returns 0 and changes none of the fields. -/
theorem perform_of_refused {h' : Heap} {op : Op} {n : UInt32}
    (hrequest : request h.mem s op = some n) (hchange : changeBuffer r h s n = some ⟨h', s, 0⟩) :
    perform r h s op = some ⟨h', s, 0⟩ := by
  cases op with
  | reserve size => exact reserve_of_refused hrequest hchange
  | concat piece | append piece =>
      obtain ⟨length, hpiece, hlength⟩ := Option.bind_eq_some_iff.1 hrequest
      exact concat_of_refused hpiece hlength hchange

end

/-! ### The buffer -/

section

variable {r : Region} {st : Session} {s : Fields} {op : Op}

/-- `changeBuffer` without memory: the buffer, if there is one, is freed. -/
theorem changeBuffer_of_refused {bs : List (Block ℕ)} {h' : Heap} {n : UInt32}
    (hst : Represents r st bs) (hs : Holds st s)
    (hmalloc : malloc r st.heap (n + 1).toNat = some (h', 0)) :
    ∃ h'', changeBuffer r st.heap s n = some ⟨h'', s, 0⟩ ∧
      (s.buffer ≠ 0 → belongs h'' s.buffer = false) := by
  rcases hs with ⟨hnull, -, -⟩ | ⟨hlive, -⟩
  · refine ⟨h', ?_, fun hbuffer => absurd hnull hbuffer⟩
    rw [changeBuffer, hnull, realloc_null, hmalloc]
    rfl
  · obtain ⟨out, bs', hrealloc, -, hbelongs, hfits, -⟩ := hst.realloc hlive (n + 1)
    -- `realloc` asks the same `malloc` before it frees the block
    have hnew : out.new = 0 := by
      obtain ⟨h₁, p, -, hmalloc₁, -, -, hfits₁⟩ := hst.malloc (n + 1).toNat_lt
      have hp : p = 0 := congrArg Prod.snd (Option.some.inj (hmalloc₁.symm.trans hmalloc))
      exact not_not.1 fun hnew => (hfits₁.2 (hfits.1 hnew)) hp
    refine ⟨out.heap, ?_, fun _ => hbelongs⟩
    rw [changeBuffer, hrealloc]
    simp [hnew]

/-- **A call that is refused** returns 0 and leaves the fields alone, and the buffer is free. -/
theorem refused_spec {bs : List (Block ℕ)} (hst : Represents r st bs) (hs : Holds st s)
    (hrefused : Refused r st.heap s op) :
    ∃ h', perform r st.heap s op = some ⟨h', s, 0⟩ ∧
      (s.buffer ≠ 0 → belongs h' s.buffer = false) := by
  obtain ⟨n, h', hrequest, hmalloc⟩ := hrefused
  obtain ⟨h'', hchange, hfree⟩ := changeBuffer_of_refused hst hs hmalloc
  exact ⟨h'', perform_of_refused hrequest hchange, hfree⟩

end

/-! ### The bytes of the object -/

/-- The bytes of a range. -/
def bytes (m : ByteMem) (p n : ℕ) : List UInt8 := (List.range n).map fun i => m (p + i)

/-- The object, as a block of bytes and its fields. -/
def view (h : Heap) (s : Fields) : WString.Obj where
  buffer := if s.buffer = 0 then .null else .block (bytes h.mem s.buffer (s.capacity.toNat + 1))
  capacity := s.capacity.toNat
  len := s.len.toNat

/-- The object, when its buffer has been given back. -/
def lost (h : Heap) (s : Fields) : WString.Obj :=
  { view h s with buffer := if s.buffer = 0 then .null else .freed }

/-- The heap that answers one request. -/
def answering (m : ℕ) (fresh : Option (ℕ → UInt8)) (h : m = 0 ∨ 2 ^ 31 ≤ m → fresh = none) :
    WString.Allocator where
  alloc n := if n = m then fresh else none
  refuses n hn := by
    split
    · next heq => exact h (heq ▸ hn)
    · rfl

/-- The bytes of the old block that `realloc` takes to the new one. -/
theorem realloc_bytes {r : Region} {st : Session} {s : Fields} {bs : List (Block ℕ)}
    (hst : Represents r st bs) (hs : Holds st s) (m : UInt32) :
    ∃ out, realloc r st.heap s.buffer m.toNat = some out ∧
      (out.new ≠ 0 → 0 < m.toNat ∧ m.toNat < 2 ^ 31 ∧
        ∀ i < m.toNat, s.buffer ≠ 0 → i < s.capacity.toNat + 1 →
          out.heap.mem (out.new + i) = st.heap.mem (s.buffer + i)) := by
  rcases hs with ⟨hnull, -, -⟩ | ⟨hlive, -⟩
  · obtain ⟨h₁, p, -, hmalloc, -, -, hfits⟩ := hst.malloc m.toNat_lt
    refine ⟨⟨h₁, p, 0⟩, ?_, fun hp => ?_⟩
    · rw [hnull, realloc_null, malloc, hmalloc]
      rfl
    · obtain ⟨hpos, hlt, -⟩ := hfits.1 hp
      exact ⟨hpos, hlt, fun i _ hbuffer => absurd hnull hbuffer⟩
  · obtain ⟨out, -, hrealloc, -, -, hfits, hcopy, -⟩ := hst.realloc hlive m
    refine ⟨out, hrealloc, fun hnew => ?_⟩
    obtain ⟨hpos, hlt, -⟩ := hfits.1 hnew
    exact ⟨hpos, hlt, fun i hi _ hi' => (hcopy hnew).2 i (by dsimp only; omega)⟩

/-- **`changeBuffer` over the core heap** does to the bytes of the object what it does to the object
as `WString.lean` has it, with the answer that the heap gives. -/
theorem changeBuffer_view {r : Region} {st : Session} {s : Fields} {bs : List (Block ℕ)}
    (hst : Represents r st bs) (hs : Holds st s) (n : UInt32) :
    ∃ a A, changeBuffer r st.heap s n = some a ∧
      WString.changeBuffer A (view st.heap s) n.toNat =
        some (if a.result ≠ 0 then (view a.heap a.str, true) else (lost st.heap s, false)) := by
  obtain ⟨out, hrealloc, hgranted⟩ := realloc_bytes hst hs (n + 1)
  have hunsigned : WString.unsigned (n.toNat + 1) = (n + 1).toNat := by
    rw [UInt32.toNat_add]
    unfold WString.unsigned
    simp
    omega
  have hfree : (view st.heap s).buffer.free = some (lost st.heap s).buffer := by
    by_cases hbuffer : s.buffer = 0 <;> simp [view, lost, hbuffer, WString.Buffer.free]
  by_cases hnew : out.new = 0
  · refine ⟨⟨out.heap, s, 0⟩, answering (n + 1).toNat none fun _ => rfl, ?_, ?_⟩
    · rw [changeBuffer, hrealloc]
      simp [hnew]
    · rw [WString.changeBuffer, hunsigned, hfree]
      simp [answering, lost]
  · obtain ⟨hpos, hlt, hbytes⟩ := hgranted hnew
    refine ⟨⟨out.heap, ⟨out.new, n, s.len⟩, 1⟩,
      answering (n + 1).toNat (some fun i => out.heap.mem (out.new + i)) (by omega), ?_, ?_⟩
    · rw [changeBuffer, hrealloc]
      simp [hnew]
    · have hsize : (n + 1).toNat = n.toNat + 1 := by
        rw [← hunsigned] at hpos ⊢
        have := n.toNat_lt
        unfold WString.unsigned at hpos ⊢
        omega
      -- the bytes of the old block are in the new one, and the others are what the heap has there
      have hresize : WString.resize ((view st.heap s).buffer.bytes.getD []) (n + 1).toNat
          (fun i => out.heap.mem (out.new + i)) = bytes out.heap.mem out.new (n.toNat + 1) := by
        rw [WString.resize, bytes, hsize]
        refine List.map_congr_left fun i hi => ?_
        have hi := List.mem_range.1 hi
        by_cases hbuffer : s.buffer = 0
        · simp [view, hbuffer, WString.Buffer.bytes]
        · by_cases hold : i < s.capacity.toNat + 1
          · have hbyte := hbytes i (by omega) hbuffer hold
            simp [view, hbuffer, WString.Buffer.bytes, bytes, hold, hbyte]
          · simp [view, hbuffer, WString.Buffer.bytes, bytes, hold]
      have halloc : (answering (n + 1).toNat (some fun i => out.heap.mem (out.new + i))
          (by omega)).alloc (n + 1).toNat = some fun i => out.heap.mem (out.new + i) := if_pos rfl
      rw [WString.changeBuffer, hunsigned, hfree, halloc]
      dsimp only
      rw [Option.map_some, hresize, if_pos (by decide)]
      simp [view, hnew]

/-- **When a `String` survives a refused allocation.**  In every state of every session, for every
`String` of the application and every call whose buffer the allocator cannot provide, exactly if the
string has no buffer yet. -/
theorem unharmed_iff (r : Region) (mem : ByteMem) (st : Session)
    (hreach : Reach (memStep r) (start r mem) st) (s : Fields) (hs : Holds st s) (op : Op)
    (hrefused : Refused r st.heap s op) :
    (∃ a, perform r st.heap s op = some a ∧ Unharmed st.heap s a) ↔ s.buffer = 0 := by
  obtain ⟨bs, hst⟩ := reach_represents_realloc hreach
  obtain ⟨h', hperform, hfree⟩ := refused_spec hst hs hrefused
  constructor
  · rintro ⟨a, ha, hkept⟩
    cases hperform.symm.trans ha
    by_contra hbuffer
    have hlive := hkept.live hbuffer
    rw [hfree hbuffer] at hlive
    cases hlive
  · intro hbuffer
    exact ⟨_, hperform, rfl, rfl, rfl, rfl, fun h => absurd hbuffer h, fun h => absurd hbuffer h⟩

/-- A `String` without a buffer asks for 300 characters in a heap of 256 bytes. -/
theorem unharmed_invalid :
    ∃ a, perform smallRegion (start smallRegion fun _ => 0xff).heap ⟨0, 0, 0⟩ (.reserve 300) =
      some a ∧ Unharmed (start smallRegion fun _ => 0xff).heap ⟨0, 0, 0⟩ a := by
  have hmalloc : (malloc smallRegion (start smallRegion fun _ => 0xff).heap 301).map Prod.snd =
      some 0 := by decide +kernel
  obtain ⟨⟨h', p⟩, hh, hp⟩ := Option.map_eq_some_iff.1 hmalloc
  cases hp
  exact (unharmed_iff smallRegion (fun _ => 0xff) _ (Reach.refl _ _) ⟨0, 0, 0⟩
    (Or.inl ⟨rfl, rfl, rfl⟩) (.reserve 300) ⟨300, h', rfl, hh⟩).2 rfl

/-- **The promise is broken.**  A string whose buffer is a block of 20 bytes asks for 300
characters. -/
theorem unharmed_violated : ∃ st : Session,
    Reach (memStep smallRegion) (start smallRegion fun _ => 0xff) st ∧
      Holds st ⟨0x20008010, 19, 5⟩ ∧
      Refused smallRegion st.heap ⟨0x20008010, 19, 5⟩ (.reserve 300) ∧
      ¬∃ a, perform smallRegion st.heap ⟨0x20008010, 19, 5⟩ (.reserve 300) = some a ∧
        Unharmed st.heap ⟨0x20008010, 19, 5⟩ a := by
  have hrun : (exec (memStep smallRegion) (start smallRegion fun _ => 0xff)
      [.call (.malloc 20)]).map (fun st => (st.live,
        (malloc smallRegion st.heap 301).map Prod.snd,
        (perform smallRegion st.heap ⟨0x20008010, 19, 5⟩ (.reserve 300)).map fun a =>
          (a.result, belongs a.heap a.str.buffer))) =
      some ([(0x20008010, 20)], some 0, some (0, false)) := by decide +kernel
  obtain ⟨st, hst, heval⟩ := Option.map_eq_some_iff.1 hrun
  obtain ⟨hlive, hmalloc, hcall⟩ : _ ∧ _ ∧ _ := by simpa only [Prod.mk.injEq] using heval
  obtain ⟨⟨h', p⟩, hh, hp⟩ := Option.map_eq_some_iff.1 hmalloc
  cases hp
  refine ⟨st, ⟨_, hst⟩, Or.inr ⟨hlive ▸ List.mem_singleton_self _, by decide⟩,
    ⟨300, h', rfl, hh⟩, ?_⟩
  rintro ⟨a, ha, hkept⟩
  obtain ⟨-, hfree⟩ : a.result = 0 ∧ belongs a.heap a.str.buffer = false := by
    simpa [ha] using hcall
  have := hkept.live (by decide)
  rw [hfree] at this
  cases this

end Pico.StringAlloc
