/-
**A `String` of a number.**

The constructors, `concat` and `operator +` of `arduino/WString.cpp` that take an integer convert it
in a local buffer and go on with the characters.  An `int` is converted by `itoa` and an
`unsigned int` by `utoa`, which newlib has; `ltoa` and `ultoa` are those of `interface.h`, and both
call `utoa`.

* `Newlib` — the conversions of newlib, with what they leave to base 10;
* `ofInt`, `ofLong`, `concatInt`, … — the members, each with the size of its buffer;
* `atol`, `toInt` — reading the number back, with `atol_numeral`;
* `Shows` — an object holds a text with the numeral behind it;
* `long_renders_iff` — **a `long` is rendered as an `int` is exactly if** it is not negative.
-/

import Mathlib.Data.List.TakeWhile
import WizioPico.Decimal
import WizioPico.StringEdit

set_option relaxedAutoImplicit false
set_option autoImplicit false

namespace Pico.WString

open Decimal

/-! ### Conversion -/

/-- `utoa` and `itoa` of newlib: the text that is in the buffer afterwards, for a value and a
base. -/
structure Newlib where
  utoa : BitVec 32 → ℤ → CString
  itoa : BitVec 32 → ℤ → CString
  utoa_ten : ∀ v, (utoa v 10).bytes = digits v.toNat
  itoa_ten : ∀ v, (itoa v 10).bytes = numeral v.toInt

/-- `ltoa`.  The value becomes an `unsigned int`. -/
def ltoa (lib : Newlib) (value : BitVec 32) (base : ℤ) : CString := lib.utoa value base

/-- `ultoa`. -/
def ultoa (lib : Newlib) (value : BitVec 32) (base : ℤ) : CString := lib.utoa value base

/-- A conversion to a local buffer, which has to have room for the text and its NUL. -/
def convert (size : ℕ) (text : CString) : Option CString :=
  if text.strlen + 1 ≤ size then some text else none

/-- A constructor with a number. -/
def construct (A : Allocator) (size : ℕ) (text : CString) : Option Obj :=
  (convert size text).bind (ofNumber A)

/-- `concat` of a number. -/
def concatNumber (A : Allocator) (s : Obj) (size : ℕ) (text : CString) : Option (Obj × Bool) :=
  (convert size text).bind fun text => concat A s (.number text)

/-- `operator +` of a number. -/
def plusNumber (A : Allocator) (s : Obj) (size : ℕ) (text : CString) : Option Obj :=
  (convert size text).bind fun text => plus A s (.number text)

/-- `String(int, unsigned char)`. -/
def ofInt (A : Allocator) (lib : Newlib) (value : BitVec 32) (base : UInt8) : Option Obj :=
  construct A (2 + 8 * 4) (lib.itoa value base.toNat)

/-- `String(unsigned int, unsigned char)`. -/
def ofUnsignedInt (A : Allocator) (lib : Newlib) (value : BitVec 32) (base : UInt8) : Option Obj :=
  construct A (1 + 8 * 4) (lib.utoa value base.toNat)

/-- `String(long, unsigned char)`. -/
def ofLong (A : Allocator) (lib : Newlib) (value : BitVec 32) (base : UInt8) : Option Obj :=
  construct A (2 + 8 * 4) (ltoa lib value base.toNat)

/-- `String(unsigned long, unsigned char)`. -/
def ofUnsignedLong (A : Allocator) (lib : Newlib) (value : BitVec 32) (base : UInt8) : Option Obj :=
  construct A (1 + 8 * 4) (ultoa lib value base.toNat)

/-- `concat(int)`. -/
def concatInt (A : Allocator) (lib : Newlib) (s : Obj) (num : BitVec 32) : Option (Obj × Bool) :=
  concatNumber A s (2 + 3 * 4) (lib.itoa num 10)

/-- `concat(unsigned int)`. -/
def concatUnsignedInt (A : Allocator) (lib : Newlib) (s : Obj) (num : BitVec 32) :
    Option (Obj × Bool) :=
  concatNumber A s (1 + 3 * 4) (lib.utoa num 10)

/-- `concat(long)`. -/
def concatLong (A : Allocator) (lib : Newlib) (s : Obj) (num : BitVec 32) : Option (Obj × Bool) :=
  concatNumber A s (2 + 3 * 4) (ltoa lib num 10)

/-- `concat(unsigned long)`. -/
def concatUnsignedLong (A : Allocator) (lib : Newlib) (s : Obj) (num : BitVec 32) :
    Option (Obj × Bool) :=
  concatNumber A s (1 + 3 * 4) (ultoa lib num 10)

/-- `operator +` of an `int`. -/
def plusInt (A : Allocator) (lib : Newlib) (s : Obj) (num : BitVec 32) : Option Obj :=
  plusNumber A s (2 + 3 * 4) (lib.itoa num 10)

/-- `operator +` of a `long`. -/
def plusLong (A : Allocator) (lib : Newlib) (s : Obj) (num : BitVec 32) : Option Obj :=
  plusNumber A s (2 + 3 * 4) (ltoa lib num 10)

/-! ### Reading the number back -/

/-- A value that is no `long` becomes the nearest one. -/
def saturate (i : ℤ) : BitVec 32 := BitVec.ofInt 32 (max (-2 ^ 31) (min i (2 ^ 31 - 1)))

/-- `atol`: white space, a sign, digits. -/
def atol (t : List UInt8) : BitVec 32 :=
  let t := t.dropWhile isspace
  if t.head? = some 45 then saturate (-value (t.tail.takeWhile isDigit)) -- '-'
  else if t.head? = some 43 then saturate (value (t.tail.takeWhile isDigit)) -- '+'
  else saturate (value (t.takeWhile isDigit))

/-- `toInt`. -/
def toInt (s : Obj) : Option (BitVec 32) :=
  if s.buffer ≠ .null then s.buffer.text.map atol else some 0

/-- A `long` is not changed. -/
theorem saturate_toInt (v : BitVec 32) : saturate v.toInt = v := by
  have hlt := v.toInt_lt
  have hle := v.le_toInt
  rw [saturate, Int.min_eq_left (by omega), Int.max_eq_right (by omega), BitVec.ofInt_toInt]

/-- A text of digits is read to its end. -/
theorem takeWhile_digits (n : ℕ) : (digits n).takeWhile isDigit = digits n :=
  List.takeWhile_eq_self_iff.2 fun _ => isDigit_of_mem_digits

/-- A digit is no white space, and no sign. -/
theorem not_space_of_isDigit {c : UInt8} (hc : isDigit c) :
    isspace c = false ∧ c ≠ 45 ∧ c ≠ 43 := by
  have hbounds := isDigit_iff.1 hc
  refine ⟨?_, fun h => ?_, fun h => ?_⟩
  · rw [isspace, Bool.or_eq_false_iff, Bool.and_eq_false_iff, beq_eq_false_iff_ne,
      decide_eq_false_iff_not, decide_eq_false_iff_not, UInt8.le_iff_toNat_le,
      UInt8.le_iff_toNat_le]
    refine ⟨fun h => ?_, Or.inr fun h => ?_⟩
    · rw [h] at hbounds
      exact absurd hbounds.1 (by decide)
    · have hlast : (13 : UInt8).toNat = 13 := rfl
      omega
  · subst h
    cases hc
  · subst h
    cases hc

/-- **`atol` reads the numeral of a `long`.** -/
theorem atol_numeral (v : BitVec 32) : atol (numeral v.toInt) = v := by
  rw [atol]
  by_cases hneg : v.toInt < 0
  · have habs : -((v.toInt.natAbs : ℕ) : ℤ) = v.toInt := by omega
    have hspace : (numeral v.toInt).dropWhile isspace = 45 :: digits v.toInt.natAbs := by
      rw [numeral_of_neg hneg]
      exact List.dropWhile_cons_of_neg (by decide)
    rw [hspace, List.head?_cons, if_pos rfl, List.tail_cons, takeWhile_digits, value_digits, habs]
    exact saturate_toInt v
  · have habs : ((v.toInt.natAbs : ℕ) : ℤ) = v.toInt := by omega
    obtain ⟨c, cs, hcons⟩ := List.exists_cons_of_ne_nil (digits_ne_nil v.toInt.natAbs)
    have hdigit : isDigit c := isDigit_of_mem_digits (hcons ▸ List.mem_cons_self)
    obtain ⟨hspace, hminus, hplus⟩ := not_space_of_isDigit hdigit
    have hdrop : (numeral v.toInt).dropWhile isspace = digits v.toInt.natAbs := by
      rw [numeral_of_nonneg (by omega), hcons]
      exact List.dropWhile_cons_of_neg (by rw [hspace]; decide)
    have hhead : (digits v.toInt.natAbs).head? = some c := by rw [hcons, List.head?_cons]
    have hminus' : ¬some c = some 45 := fun h => hminus (Option.some.inj h)
    have hplus' : ¬some c = some 43 := fun h => hplus (Option.some.inj h)
    rw [hdrop, hhead, if_neg hminus', if_neg hplus', takeWhile_digits, value_digits, habs]
    exact saturate_toInt v

/-! ### The members -/

section

variable {A : Allocator} {lib : Newlib} {s : Obj} {t : List UInt8} {text : CString} {size : ℕ}
  {v : BitVec 32}

/-- A text that fits into the local buffer. -/
theorem convert_eq (h : text.bytes.length < size) : convert size text = some text := if_pos h

/-- **A constructor** leaves the text of the number. -/
theorem construct_spec (hsize : text.bytes.length < size)
    (hA : Grants A init text.bytes.length) :
    ∃ s', construct A size text = some s' ∧ HasText s' text.bytes := by
  rw [construct, convert_eq hsize, Option.bind_some, ofNumber]
  exact assignChars_spec holds_init (text_ofChars text) hA

/-- **`concat` of a number** puts its text behind the one of the object. -/
theorem concatNumber_spec (hs : Holds s t) (hsize : text.bytes.length < size)
    (hA : Grants A s (t.length + text.bytes.length)) :
    ∃ s', concatNumber A s size text = some (s', true) ∧ Holds s' (t ++ text.bytes) := by
  rw [concatNumber, convert_eq hsize, Option.bind_some, concat,
    strlen_of_text (text_ofChars text), Option.bind_some]
  exact concatChars_spec hs (text_ofChars text) fun _ => hA

/-- **`operator +` of a number** does what `concat` does. -/
theorem plusNumber_spec (hs : Holds s t) (hsize : text.bytes.length < size)
    (hA : Grants A s (t.length + text.bytes.length)) :
    ∃ s', plusNumber A s size text = some s' ∧ Holds s' (t ++ text.bytes) := by
  obtain ⟨s', hconcat, hs'⟩ := concatNumber_spec hs hsize hA
  rw [concatNumber, convert_eq hsize, Option.bind_some] at hconcat
  refine ⟨s', ?_, hs'⟩
  rw [plusNumber, convert_eq hsize, Option.bind_some, plus, hconcat, Option.bind_some, if_pos rfl]

/-- The text that an object holds is the only one. -/
theorem Holds.unique {u : List UInt8} (h : Holds s t) (h' : Holds s u) : t = u := by
  by_cases hbuffer : s.buffer = .null
  · rw [(h.eq_init hbuffer).2, (h'.eq_init hbuffer).2]
  · have htext := (h.hasText hbuffer).text
    rw [(h'.hasText hbuffer).text] at htext
    exact (Option.some.inj htext).symm

/-! ### Signed decimals -/

/-- **An object shows a number** behind a text: it holds the text and the decimal numeral, and if
there is nothing else in it `toInt` gives the number back. -/
def Shows (s : Obj) (t : List UInt8) (v : BitVec 32) : Prop :=
  Holds s (t ++ numeral v.toInt) ∧ (t = [] → toInt s = some v)

/-- The constructors for a `long` and for an `int` show it. -/
def Constructs (A : Allocator) (lib : Newlib) (v : BitVec 32) : Prop :=
  (∃ s', ofLong A lib v 10 = some s' ∧ Shows s' [] v) ∧
    ∃ s', ofInt A lib v 10 = some s' ∧ Shows s' [] v

/-- `concat` of a `long` and of an `int` shows it. -/
def Appends (A : Allocator) (lib : Newlib) (s : Obj) (t : List UInt8) (v : BitVec 32) : Prop :=
  (∃ s', concatLong A lib s v = some (s', true) ∧ Shows s' t v) ∧
    ∃ s', concatInt A lib s v = some (s', true) ∧ Shows s' t v

/-- `operator +` of a `long` and of an `int` shows it. -/
def Adds (A : Allocator) (lib : Newlib) (s : Obj) (t : List UInt8) (v : BitVec 32) : Prop :=
  (∃ s', plusLong A lib s v = some s' ∧ Shows s' t v) ∧
    ∃ s', plusInt A lib s v = some s' ∧ Shows s' t v

/-- An object with the numeral shows the number. -/
theorem Holds.shows {u : List UInt8} (h : Holds s (t ++ u)) (hu : u = numeral v.toInt) :
    Shows s t v := by
  subst hu
  refine ⟨h, fun ht => ?_⟩
  rw [ht, List.nil_append] at h
  have htext := h.hasText_of_ne_nil (numeral_ne_nil _)
  rw [toInt, if_pos htext.not_null, htext.text, Option.map_some, atol_numeral]

/-- An object with other characters behind the text does not. -/
theorem Holds.not_shows {u : List UInt8} (h : Holds s (t ++ u)) (hu : u ≠ numeral v.toInt) :
    ¬Shows s t v :=
  fun hshows => hu (List.append_cancel_left (h.unique hshows.1))

/-- What the conversions leave is short. -/
theorem length_conversion_le (lib : Newlib) (v : BitVec 32) :
    (lib.itoa v 10).bytes.length ≤ 11 ∧ (lib.utoa v 10).bytes.length ≤ 11 := by
  have hlt := v.toInt_lt
  have hle := v.le_toInt
  have hunsigned := v.isLt
  rw [lib.itoa_ten, lib.utoa_ten]
  constructor
  · exact length_numeral_le (k := 10) (by decide) (by omega)
  · exact (length_digits_le_iff (by decide)).2 (by omega)

/-- **What `ltoa` leaves** is the numeral exactly if the number is not negative. -/
theorem ltoa_eq_numeral_iff (lib : Newlib) (v : BitVec 32) :
    (ltoa lib v 10).bytes = numeral v.toInt ↔ 0 ≤ v.toInt := by
  rw [ltoa, lib.utoa_ten]
  constructor
  · intro heq
    by_contra hneg
    exact digits_ne_numeral (Int.not_le.1 hneg) _ heq
  · intro hpos
    have hvalue : v.toInt = v.toNat := by
      rw [BitVec.toInt_eq_toNat_cond] at hpos ⊢
      split_ifs at hpos ⊢ with hlt
      · rfl
      · have := v.isLt
        omega
    rw [hvalue, numeral_ofNat]

/-- One way to the text, for a `long` and for an `int`: the outcomes show the number exactly if it
is not negative. -/
theorem shows_iff {P Q : Obj → Prop} (hunique : ∀ a b, P a → P b → a = b)
    (hP : ∃ s', P s' ∧ Holds s' (t ++ (ltoa lib v 10).bytes))
    (hQ : ∃ s', Q s' ∧ Holds s' (t ++ (lib.itoa v 10).bytes)) :
    ((∃ s', P s' ∧ Shows s' t v) ∧ ∃ s', Q s' ∧ Shows s' t v) ↔ 0 ≤ v.toInt := by
  obtain ⟨a, ha, hlong⟩ := hP
  obtain ⟨b, hb, hint⟩ := hQ
  rw [← ltoa_eq_numeral_iff lib v]
  constructor
  · rintro ⟨⟨a', ha', hshows⟩, -⟩
    rw [hunique a' a ha' ha] at hshows
    by_contra hne
    exact hlong.not_shows hne hshows
  · intro heq
    exact ⟨⟨a, ha, hlong.shows heq⟩, b, hb, hint.shows (lib.itoa_ten v)⟩

theorem constructs_iff (hA : ∀ n ≤ 11, Grants A init n) : Constructs A lib v ↔ 0 ≤ v.toInt := by
  obtain ⟨hint, hlong⟩ := length_conversion_le lib v
  have hconstruct : ∀ {text : CString}, text.bytes.length ≤ 11 →
      ∃ s', construct A (2 + 8 * 4) text = some s' ∧ Holds s' ([] ++ text.bytes) := fun hle => by
    obtain ⟨s', hs', htext⟩ :=
      construct_spec (Nat.lt_of_le_of_lt hle (by decide : 11 < 2 + 8 * 4)) (hA _ hle)
    exact ⟨s', hs', htext.holds⟩
  exact shows_iff (fun a b ha hb => Option.some.inj (ha.symm.trans hb)) (hconstruct hlong)
    (hconstruct hint)

theorem appends_iff (hs : Holds s t) (hA : ∀ n ≤ 11, Grants A s (t.length + n)) :
    Appends A lib s t v ↔ 0 ≤ v.toInt := by
  obtain ⟨hint, hlong⟩ := length_conversion_le lib v
  have hroom : 11 < 2 + 3 * 4 := by decide
  exact shows_iff (fun a b ha hb => congrArg Prod.fst (Option.some.inj (ha.symm.trans hb)))
    (concatNumber_spec hs (Nat.lt_of_le_of_lt hlong hroom) (hA _ hlong))
    (concatNumber_spec hs (Nat.lt_of_le_of_lt hint hroom) (hA _ hint))

theorem adds_iff (hs : Holds s t) (hA : ∀ n ≤ 11, Grants A s (t.length + n)) :
    Adds A lib s t v ↔ 0 ≤ v.toInt := by
  obtain ⟨hint, hlong⟩ := length_conversion_le lib v
  have hroom : 11 < 2 + 3 * 4 := by decide
  exact shows_iff (fun a b ha hb => Option.some.inj (ha.symm.trans hb))
    (plusNumber_spec hs (Nat.lt_of_le_of_lt hlong hroom) (hA _ hlong))
    (plusNumber_spec hs (Nat.lt_of_le_of_lt hint hroom) (hA _ hint))

/-- **When a `long` is rendered as a signed decimal.**  For every `long`, every `String` to which it
is appended, and an allocator that provides room for 11 characters more: the constructor, `concat`
and `operator +` show it, as they show the `int` of the same value, exactly if it is not
negative. -/
theorem long_renders_iff (lib : Newlib) (A : Allocator) (v : BitVec 32) (s : Obj) (t : List UInt8)
    (hs : Holds s t) (hA : ∀ n ≤ 11, Grants A init n)
    (hAs : ∀ n ≤ 11, Grants A s (t.length + n)) :
    (Constructs A lib v ↔ 0 ≤ v.toInt) ∧ (Appends A lib s t v ↔ 0 ≤ v.toInt) ∧
      (Adds A lib s t v ↔ 0 ≤ v.toInt) :=
  ⟨constructs_iff hA, appends_iff hs hAs, adds_iff hs hAs⟩

/-- **An `unsigned long` is rendered as an `unsigned int` is**, by its digits. -/
theorem unsigned_renders (lib : Newlib) (v : BitVec 32) (hs : Holds s t)
    (hA : ∀ n ≤ 11, Grants A init n) (hAs : ∀ n ≤ 11, Grants A s (t.length + n)) :
    (∃ s', ofUnsignedLong A lib v 10 = some s' ∧ ofUnsignedInt A lib v 10 = some s' ∧
      Holds s' (digits v.toNat)) ∧
    ∃ s', concatUnsignedLong A lib s v = some (s', true) ∧
      concatUnsignedInt A lib s v = some (s', true) ∧ Holds s' (t ++ digits v.toNat) := by
  obtain ⟨-, hle⟩ := length_conversion_le lib v
  obtain ⟨a, ha, hdigits⟩ :=
    construct_spec (Nat.lt_of_le_of_lt hle (by decide : 11 < 1 + 8 * 4)) (hA _ hle)
  obtain ⟨b, hb, happend⟩ :=
    concatNumber_spec hs (Nat.lt_of_le_of_lt hle (by decide : 11 < 1 + 3 * 4)) (hAs _ hle)
  rw [lib.utoa_ten] at hdigits happend
  exact ⟨⟨a, ha, ha, hdigits.holds⟩, b, hb, hb, happend⟩

end

/-- The conversions to base 10, whatever base is asked for. -/
def decimalOnly : Newlib where
  utoa v _ := ⟨digits v.toNat, numeral_ofNat v.toNat ▸ zero_notMem_numeral _⟩
  itoa v _ := ⟨numeral v.toInt, zero_notMem_numeral _⟩
  utoa_ten _ := rfl
  itoa_ten _ := rfl

theorem grants_generous {s : Obj} {n : ℕ} (hn : n + 1 < 2 ^ 31) : Grants generous s n :=
  Or.inr (Option.isSome_iff_exists.2 ⟨_, if_pos ⟨Nat.succ_pos n, hn⟩⟩)

/-- The largest `long`, and behind no text. -/
theorem long_renders_max :
    Constructs generous decimalOnly 2147483647 ∧
      Appends generous decimalOnly init [] 2147483647 ∧
      Adds generous decimalOnly init [] 2147483647 := by
  have hgrants : ∀ n ≤ 11, Grants generous init (0 + n) := fun n hn =>
    grants_generous (by omega)
  have hall := long_renders_iff decimalOnly generous 2147483647 init [] holds_init
    (fun n hn => grants_generous (by omega)) hgrants
  exact ⟨hall.1.2 (by decide), hall.2.1.2 (by decide), hall.2.2.2 (by decide)⟩

/-- **A negative `long` is rendered without its sign**: minus five becomes 4294967291. -/
theorem long_minus_five :
    (∃ s', ofLong generous decimalOnly (-5) 10 = some s' ∧
        Holds s' [52, 50, 57, 52, 57, 54, 55, 50, 57, 49]) ∧
      ¬Constructs generous decimalOnly (-5) ∧
      ¬Appends generous decimalOnly init [] (-5) ∧
      ¬Adds generous decimalOnly init [] (-5) := by
  have hneg : ¬0 ≤ (-5 : BitVec 32).toInt := by decide
  have hgrants : ∀ n ≤ 11, Grants generous init (0 + n) := fun n hn =>
    grants_generous (by omega)
  refine ⟨?_, fun h => hneg ((constructs_iff fun n hn => grants_generous (by omega)).1 h),
    fun h => hneg ((appends_iff holds_init hgrants).1 h),
    fun h => hneg ((adds_iff holds_init hgrants).1 h)⟩
  have hdigits : (ltoa decimalOnly (-5) 10).bytes =
      [52, 50, 57, 52, 57, 54, 55, 50, 57, 49] := by decide +kernel
  have hlength : (ltoa decimalOnly (-5) 10).bytes.length = 10 := by rw [hdigits]; rfl
  have hgrant : Grants generous init (ltoa decimalOnly (-5) 10).bytes.length :=
    grants_generous (by omega)
  obtain ⟨s', hs', htext⟩ := construct_spec (show _ < 2 + 8 * 4 by omega) hgrant
  rw [hdigits] at htext
  exact ⟨s', hs', htext.holds⟩

end Pico.WString
