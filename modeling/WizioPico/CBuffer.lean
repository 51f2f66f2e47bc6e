/-
**Blocks of characters.**

The functions of the C library that work on characters, over one block of memory: a list of bytes,
of which only the bytes of the list can be read or written.  `none` stands for an access outside the
block.  The functions that copy inside a block go from low addresses to high ones, a byte at a time;
where the source is not below the destination they copy what the source was.

* `scan` — the characters up to the first NUL, which is what `strlen` and `strcpy` see;
* `store`, `paste` — a byte, and a run of bytes;
* `copyForward`, `strcpyForward`, `strncpyForward` — `memcpy`, `strcpy` and `strncpy` inside the
  block, each a `paste` by `copyForward_eq`, `strcpyForward_eq` and `strncpyForward_eq`;
* `mapText` — a loop that changes each character up to the first NUL.
-/

import Mathlib.Data.List.Basic
import Mathlib.Data.Nat.Notation
import Mathlib.Tactic.Common

set_option relaxedAutoImplicit false
set_option autoImplicit false

namespace CBuffer

/-! ### Text -/

/-- The characters up to the first NUL. -/
def scan : List UInt8 → Option (List UInt8)
  | [] => none
  | c :: l => if c = 0 then some [] else (scan l).map fun t => c :: t

/-- A text with its NUL. -/
theorem scan_append {t : List UInt8} (ht : 0 ∉ t) (l : List UInt8) :
    scan (t ++ 0 :: l) = some t := by
  induction t with
  | nil => rfl
  | cons c t ih =>
      have hc : c ≠ 0 := fun h => ht (h ▸ List.mem_cons_self)
      rw [List.cons_append, scan, if_neg hc, ih fun h => ht (List.mem_cons_of_mem c h)]
      rfl

/-- The part of a text from an index on. -/
theorem scan_drop {t : List UInt8} (ht : 0 ∉ t) (l : List UInt8) {k : ℕ} (hk : k ≤ t.length) :
    scan ((t ++ 0 :: l).drop k) = some (t.drop k) := by
  rw [List.drop_append_of_le_length hk]
  exact scan_append (fun h => ht (List.mem_of_mem_drop h)) l

/-- **What `scan` finds** is a text, and a NUL is behind it. -/
theorem scan_eq_some {b t : List UInt8} (h : scan b = some t) :
    0 ∉ t ∧ ∃ l, b = t ++ 0 :: l := by
  induction b generalizing t with
  | nil => cases h
  | cons c b ih =>
      rw [scan] at h
      split_ifs at h with hc
      · cases h
        exact ⟨List.not_mem_nil, b, by rw [hc]; rfl⟩
      · obtain ⟨t', ht', rfl⟩ := Option.map_eq_some_iff.1 h
        obtain ⟨hno, l, rfl⟩ := ih ht'
        refine ⟨fun h0 => ?_, l, rfl⟩
        rcases List.mem_cons.1 h0 with h0 | h0
        · exact hc h0.symm
        · exact hno h0

/-! ### Writing -/

/-- A byte is written. -/
def store (b : List UInt8) (i : ℕ) (c : UInt8) : Option (List UInt8) :=
  if i < b.length then some (b.set i c) else none

/-- A run of bytes is written. -/
def paste (b : List UInt8) (i : ℕ) (l : List UInt8) : Option (List UInt8) :=
  if i + l.length ≤ b.length then some (b.take i ++ (l ++ b.drop (i + l.length))) else none

theorem store_of_lt {b : List UInt8} {i : ℕ} (h : i < b.length) (c : UInt8) :
    store b i c = some (b.set i c) := if_pos h

theorem paste_of_le {b : List UInt8} {i : ℕ} {l : List UInt8} (h : i + l.length ≤ b.length) :
    paste b i l = some (b.take i ++ (l ++ b.drop (i + l.length))) := if_pos h

/-- A run that has been written had room, and the other bytes have stayed. -/
theorem paste_eq_some {b b' l : List UInt8} {i : ℕ} (h : paste b i l = some b') :
    i + l.length ≤ b.length ∧ b' = b.take i ++ (l ++ b.drop (i + l.length)) := by
  rw [paste] at h
  split_ifs at h with hle
  exact ⟨hle, (Option.some.inj h).symm⟩

/-- As many bytes as before. -/
theorem length_paste {b b' l : List UInt8} {i : ℕ} (h : paste b i l = some b') :
    b'.length = b.length := by
  obtain ⟨hle, rfl⟩ := paste_eq_some h
  rw [List.length_append, List.length_append, List.length_take, List.length_drop]
  omega

/-- As many bytes as before. -/
theorem length_store {b b' : List UInt8} {i : ℕ} {c : UInt8} (h : store b i c = some b') :
    b'.length = b.length := by
  rw [store] at h
  split_ifs at h
  cases h
  exact List.length_set

/-- A byte over another one. -/
theorem store_append (p : List UInt8) (c d : UInt8) (q : List UInt8) :
    store (p ++ c :: q) p.length d = some (p ++ d :: q) := by
  rw [store_of_lt (by rw [List.length_append, List.length_cons]; omega),
    List.set_append_right _ _ (Nat.le_refl _), Nat.sub_self]
  rfl

/-- A run of bytes over one of the same length. -/
theorem paste_append {p x l : List UInt8} (q : List UInt8) (h : x.length = l.length) :
    paste (p ++ (x ++ q)) p.length l = some (p ++ (l ++ q)) := by
  have hle : p.length + l.length ≤ (p ++ (x ++ q)).length := by
    simp only [List.length_append]
    omega
  have hdrop : (p ++ (x ++ q)).drop (p.length + l.length) = q := by
    rw [← List.drop_drop, List.drop_left, ← h, List.drop_left]
  rw [paste, if_pos hle, List.take_left, hdrop]

@[simp] theorem paste_nil {b : List UInt8} {i : ℕ} (h : i ≤ b.length) : paste b i [] = some b := by
  rw [paste, List.length_nil, Nat.add_zero, if_pos h, List.nil_append, List.take_append_drop]

/-- The bytes up to the end of a run that has been written. -/
theorem take_paste {b b' l : List UInt8} {i : ℕ} (h : paste b i l = some b') :
    b'.take (i + l.length) = b.take i ++ l := by
  obtain ⟨hle, rfl⟩ := paste_eq_some h
  have hlen : (b.take i ++ l).length = i + l.length := by
    rw [List.length_append, List.length_take]
    omega
  rw [← List.append_assoc, ← hlen, List.take_left]

/-- The bytes behind a run that has been written. -/
theorem drop_paste {b b' l : List UInt8} {i k : ℕ} (h : paste b i l = some b')
    (hk : i + l.length ≤ k) : b'.drop k = b.drop k := by
  obtain ⟨hle, rfl⟩ := paste_eq_some h
  have hlen : (b.take i ++ l).length = i + l.length := by
    rw [List.length_append, List.length_take]
    omega
  obtain ⟨j, rfl⟩ := Nat.exists_eq_add_of_le hk
  rw [← List.append_assoc, ← List.drop_drop, ← hlen, List.drop_left, List.drop_drop]

/-- A run that is written where it is. -/
theorem paste_self {b l q : List UInt8} {i : ℕ} (h : b.drop i = l ++ q) (hi : i ≤ b.length) :
    paste b i l = some b := by
  have hp : (b.take i).length = i := by
    rw [List.length_take]
    omega
  have hb : b = b.take i ++ (l ++ q) := by rw [← h, List.take_append_drop]
  have hpaste : paste (b.take i ++ (l ++ q)) (b.take i).length l = _ := paste_append q rfl
  rwa [← hb, hp] at hpaste

/-- A run is written byte by byte. -/
theorem paste_cons (b : List UInt8) (i : ℕ) (c : UInt8) (l : List UInt8) :
    paste b i (c :: l) = (store b i c).bind fun b => paste b (i + 1) l := by
  by_cases h : i < b.length
  · have htake : (b.set i c).take (i + 1) = b.take i ++ [c] := by
      rw [List.set_eq_take_append_cons_drop, if_pos h, List.take_append, List.take_take,
        List.length_take, Nat.min_eq_left (Nat.le_of_lt h), Nat.min_eq_right (by omega),
        Nat.add_sub_cancel_left]
      rfl
    have hdrop : (b.set i c).drop (i + 1 + l.length) = b.drop (i + (l.length + 1)) := by
      rw [List.drop_set_of_lt (by omega)]
      congr 1
      omega
    have hlen : i + 1 + l.length ≤ (b.set i c).length ↔ i + (c :: l).length ≤ b.length := by
      rw [List.length_set, List.length_cons]
      omega
    rw [store_of_lt h, Option.bind_some, paste, paste, htake, hdrop]
    simp only [hlen, List.append_assoc, List.cons_append, List.nil_append, List.length_cons]
  · have hlen : ¬i + (c :: l).length ≤ b.length := by
      rw [List.length_cons]
      omega
    rw [paste, if_neg hlen, store, if_neg h]
    rfl

/-! ### Copying inside a block -/

/-- `memcpy`. -/
def copyForward : ℕ → List UInt8 → ℕ → ℕ → Option (List UInt8)
  | 0, b, _, _ => some b
  | n + 1, b, dst, src => (b[src]?).bind fun c => (store b dst c).bind fun b =>
      copyForward n b (dst + 1) (src + 1)

/-- `strcpy`.  The fuel is the number of bytes that it may copy. -/
def strcpyForward : ℕ → List UInt8 → ℕ → ℕ → Option (List UInt8)
  | 0, _, _, _ => none
  | fuel + 1, b, dst, src => (b[src]?).bind fun c => (store b dst c).bind fun b =>
      if c = 0 then some b else strcpyForward fuel b (dst + 1) (src + 1)

/-- `strncpy`, which fills up with NULs. -/
def strncpyForward : ℕ → List UInt8 → ℕ → ℕ → Option (List UInt8)
  | 0, b, _, _ => some b
  | n + 1, b, dst, src => (b[src]?).bind fun c =>
      if c = 0 then paste b dst (List.replicate (n + 1) 0)
      else (store b dst c).bind fun b => strncpyForward n b (dst + 1) (src + 1)

/-- `memmove`. -/
def memmove (b : List UInt8) (dst src n : ℕ) : Option (List UInt8) :=
  if src + n ≤ b.length then paste b dst ((b.drop src).take n) else none

/-- A byte that is stored below an index is not among the bytes from there on. -/
theorem drop_of_store {b b' : List UInt8} {i k : ℕ} {c : UInt8} (h : store b i c = some b')
    (hk : i < k) : b'.drop k = b.drop k := by
  rw [store] at h
  split_ifs at h
  cases h
  exact List.drop_set_of_lt hk

/-- The bytes from an index on, if one of them is known. -/
theorem getElem?_of_drop {b l : List UInt8} {i : ℕ} {c : UInt8} (h : b.drop i = c :: l) :
    b[i]? = some c ∧ b.drop (i + 1) = l := by
  have hhead : (b.drop i)[0]? = b[i + 0]? := List.getElem?_drop
  rw [h, Nat.add_zero] at hhead
  exact ⟨hhead.symm, by rw [← List.drop_drop, h]; rfl⟩

theorem lt_of_drop {b l : List UInt8} {i : ℕ} {c : UInt8} (h : b.drop i = c :: l) :
    i < b.length := by
  by_contra hle
  rw [List.drop_eq_nil_of_le (by omega)] at h
  cases h

/-- **`memcpy` from a place that is not below the destination.** -/
theorem copyForward_eq {b x l : List UInt8} {dst src : ℕ} (hsrc : b.drop src = x ++ l)
    (hle : dst ≤ src) (hb : src ≤ b.length) :
    copyForward x.length b dst src = paste b dst x := by
  induction x generalizing b dst src with
  | nil => exact (paste_nil (Nat.le_trans hle hb)).symm
  | cons c x ih =>
      obtain ⟨hget, hrest⟩ := getElem?_of_drop hsrc
      have hlt := lt_of_drop hsrc
      have hstore := store_of_lt (Nat.lt_of_le_of_lt hle hlt) c
      rw [List.length_cons, copyForward, hget, Option.bind_some, paste_cons, hstore,
        Option.bind_some, Option.bind_some]
      refine ih ((drop_of_store hstore (by omega)).trans hrest) (by omega) ?_
      rw [List.length_set]
      exact hlt

/-- **`strcpy` from a place that is not below the destination.** -/
theorem strcpyForward_eq {b t l : List UInt8} {dst src fuel : ℕ} (ht : 0 ∉ t)
    (hsrc : b.drop src = t ++ 0 :: l) (hle : dst ≤ src) (hfuel : t.length < fuel) :
    strcpyForward fuel b dst src = paste b dst (t ++ [0]) := by
  induction t generalizing b dst src fuel with
  | nil =>
      obtain ⟨fuel, rfl⟩ := Nat.exists_eq_succ_of_ne_zero (Nat.ne_of_gt hfuel)
      obtain ⟨hget, -⟩ := getElem?_of_drop hsrc
      have hlt := Nat.lt_of_le_of_lt hle (lt_of_drop hsrc)
      rw [strcpyForward, hget, Option.bind_some, List.nil_append, paste_cons, store_of_lt hlt,
        Option.bind_some, Option.bind_some, if_pos rfl,
        paste_nil (by rw [List.length_set]; exact hlt)]
  | cons c t ih =>
      obtain ⟨fuel, rfl⟩ := Nat.exists_eq_succ_of_ne_zero (Nat.ne_of_gt (Nat.zero_lt_of_lt hfuel))
      obtain ⟨hget, hrest⟩ := getElem?_of_drop hsrc
      have hc : c ≠ 0 := fun h => ht (h ▸ List.mem_cons_self)
      have hstore := store_of_lt (Nat.lt_of_le_of_lt hle (lt_of_drop hsrc)) c
      rw [strcpyForward, hget, Option.bind_some, List.cons_append, paste_cons, hstore,
        Option.bind_some, Option.bind_some, if_neg hc]
      exact ih (fun h => ht (List.mem_cons_of_mem c h))
        ((drop_of_store hstore (by omega)).trans hrest) (by omega) (Nat.lt_of_succ_lt_succ hfuel)

/-- **`strncpy` of characters from a place that is not below the destination.** -/
theorem strncpyForward_eq {b t l : List UInt8} {dst src : ℕ} (ht : 0 ∉ t)
    (hsrc : b.drop src = t ++ l) (hle : dst ≤ src) (hb : src ≤ b.length) :
    strncpyForward t.length b dst src = paste b dst t := by
  induction t generalizing b dst src with
  | nil => exact (paste_nil (Nat.le_trans hle hb)).symm
  | cons c t ih =>
      obtain ⟨hget, hrest⟩ := getElem?_of_drop hsrc
      have hc : c ≠ 0 := fun h => ht (h ▸ List.mem_cons_self)
      have hlt := lt_of_drop hsrc
      have hstore := store_of_lt (Nat.lt_of_le_of_lt hle hlt) c
      rw [List.length_cons, strncpyForward, hget, Option.bind_some, if_neg hc, paste_cons, hstore,
        Option.bind_some, Option.bind_some]
      refine ih (fun h => ht (List.mem_cons_of_mem c h))
        ((drop_of_store hstore (by omega)).trans hrest) (by omega) ?_
      rw [List.length_set]
      exact hlt

/-! ### Changing each character -/

/-- `for (p = buffer; *p; p++) *p = f(*p);` -/
def mapText (f : UInt8 → UInt8) : List UInt8 → Option (List UInt8)
  | [] => none
  | c :: l => if c = 0 then some (c :: l) else (mapText f l).map fun l => f c :: l

theorem mapText_append (f : UInt8 → UInt8) {t : List UInt8} (ht : 0 ∉ t) (l : List UInt8) :
    mapText f (t ++ 0 :: l) = some (t.map f ++ 0 :: l) := by
  induction t with
  | nil => rfl
  | cons c t ih =>
      have hc : c ≠ 0 := fun h => ht (h ▸ List.mem_cons_self)
      rw [List.cons_append, mapText, if_neg hc, ih fun h => ht (List.mem_cons_of_mem c h)]
      rfl

end CBuffer
