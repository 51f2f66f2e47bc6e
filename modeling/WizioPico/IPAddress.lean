/-
**Addresses and their text.**

`IPAddress::fromString` of `arduino/IPAddress.cpp` reads the groups of digits between dots.  It
stores the value of a group in the address as soon as it comes to the dot behind it, and never asks
whether there was a digit in the group.

* `IPAddress`, `fromString`, `toString` — the class;
* `Octet`, `Numeral` — a group that the code takes for a byte, and one that is a numeral;
* `Reads`, `fromStringLoop_of_reads` — what the loop stores, and whether it accepts, group by group;
* `reads_true_iff` — **what is accepted**: four groups, any of which may be empty;
* `reads_false` — a text that is not accepted leaves the values of the groups that were read up to
  their dots;
* `fromString_clean_iff` — when the function accepts what it should, and leaves nothing else behind.
-/

import WizioPico.StringNumber
import WizioPico.Substitution

set_option relaxedAutoImplicit false
set_option autoImplicit false

namespace Pico

open Decimal Occurrences

/-- `class IPAddress`: the bytes of the address. -/
@[ext] structure IPAddress where
  bytes : List UInt8
  size : bytes.length = 4

namespace IPAddress

/-! ### The class -/

/-- `_address.bytes[i] = value`. -/
def setByte (a : IPAddress) (i : ℕ) (value : UInt8) : IPAddress :=
  ⟨a.bytes.set i value, List.length_set.trans a.size⟩

/-- The loop of `fromString`, and what follows it: the characters to come, the accumulator and the
dots so far. -/
def fromStringLoop : List UInt8 → UInt16 → ℕ → IPAddress → Bool × IPAddress
  | [], acc, dots, a => if dots ≠ 3 then (false, a) else (true, a.setByte 3 acc.toUInt8)
  | c :: address, acc, dots, a =>
    if isDigit c then
      let acc := acc * 10 + (c.toUInt16 - 48)
      if acc > 255 then (false, a) else fromStringLoop address acc dots a
    else if c = 46 then -- '.'
      if dots = 3 then (false, a)
      else fromStringLoop address 0 (dots + 1) (a.setByte dots acc.toUInt8)
    else (false, a)

/-- **`fromString`**: the result, and the address that it leaves. -/
def fromString (a : IPAddress) (address : CString) : Bool × IPAddress :=
  fromStringLoop address.bytes 0 0 a

/-- The digits of a byte of an address. -/
def group (a : IPAddress) (i : ℕ) : List UInt8 := digits (a.bytes.getD i 0).toNat

/-- The characters of a group are digits, and none of them is NUL. -/
theorem zero_notMem_group (a : IPAddress) (i : ℕ) : 0 ∉ a.group i := fun h => by
  have hdigit := isDigit_of_mem_digits h
  cases hdigit

/-- What `sprintf` makes of an address, by the format `%u.%u.%u.%u`. -/
def text (a : IPAddress) : CString where
  bytes := join [46] (a.group 0) [a.group 1, a.group 2, a.group 3]
  noNul := by simp [join, zero_notMem_group]

/-- `toString`, with the buffer `szRet` for the text. -/
def toString (A : WString.Allocator) (a : IPAddress) : Option WString.Obj :=
  (WString.convert 16 a.text).bind fun szRet => WString.ofChars A (.ofChars (some szRet))

/-! ### Groups -/

/-- A group that the code takes for a byte: digits, if any, with a value of at most 255. -/
def Octet (g : List UInt8) : Prop := (∀ c ∈ g, isDigit c) ∧ value g ≤ 255

/-- A group that is a numeral of a byte. -/
def Numeral (g : List UInt8) : Prop := g ≠ [] ∧ Octet g

/-- The value of a group, as a byte. -/
def octet (g : List UInt8) : UInt8 := UInt8.ofNat (value g)

/-- The dot is no digit. -/
theorem stops_dot (s : List UInt8) : Stops (46 :: s) := fun c hc => by
  cases hc
  rfl

/-! ### The loop -/

section

variable {a b : IPAddress} {s g rest : List UInt8} {dots n : ℕ} {c : UInt8}

/-- One more digit. -/
theorem push_word (hn : n ≤ 255) (hc : isDigit c) :
    UInt16.ofNat n * 10 + (c.toUInt16 - 48) = UInt16.ofNat (push n c) ∧ push n c < 2 ^ 16 := by
  have hbounds := isDigit_iff.1 hc
  have hlt : push n c < 2 ^ 16 := by
    unfold push
    omega
  refine ⟨UInt16.toNat_inj.1 ?_, hlt⟩
  have hword : (48 : UInt16) ≤ c.toUInt16 := UInt16.le_iff_toNat_le.2 (by
    rw [UInt8.toNat_toUInt16]
    exact hbounds.1)
  have hten : (10 : UInt16).toNat = 10 := rfl
  have hzero : (48 : UInt16).toNat = 48 := rfl
  rw [UInt16.toNat_add, UInt16.toNat_mul, UInt16.toNat_sub_of_le _ _ hword, UInt8.toNat_toUInt16,
    UInt16.toNat_ofNat', UInt16.toNat_ofNat', hten, hzero]
  unfold push at hlt ⊢
  omega

/-- **The digits of a group.**  A group with a larger value than 255 is rejected at once. -/
theorem fromStringLoop_digits (hg : ∀ c ∈ g, isDigit c) (hn : n ≤ 255) :
    fromStringLoop (g ++ rest) (UInt16.ofNat n) dots a =
      if valueFrom n g ≤ 255 then fromStringLoop rest (UInt16.ofNat (valueFrom n g)) dots a
      else (false, a) := by
  induction g generalizing n with
  | nil => rw [valueFrom_nil, if_pos hn, List.nil_append]
  | cons c g ih =>
      have hc := hg c List.mem_cons_self
      obtain ⟨hword, hlt⟩ := push_word hn hc
      have htoNat : (UInt16.ofNat (push n c)).toNat = push n c := UInt16.toNat_ofNat_of_lt' hlt
      have hmore : UInt16.ofNat (push n c) > 255 ↔ 255 < push n c := by
        rw [gt_iff_lt, UInt16.lt_iff_toNat_lt, htoNat]
        rfl
      rw [List.cons_append, fromStringLoop, if_pos hc, valueFrom_cons]
      dsimp only
      rw [hword]
      by_cases hle : push n c ≤ 255
      · rw [if_neg fun h => by have := hmore.1 h; omega]
        exact ih (fun d hd => hg d (List.mem_cons_of_mem c hd)) hle
      · have hgrow := le_valueFrom (push n c) g
        rw [if_pos (hmore.2 (by omega)), if_neg (by omega)]

/-- A group from its beginning on. -/
theorem fromStringLoop_group (hg : ∀ c ∈ g, isDigit c) :
    fromStringLoop (g ++ rest) 0 dots a =
      if value g ≤ 255 then fromStringLoop rest (UInt16.ofNat (value g)) dots a else (false, a) :=
  fromStringLoop_digits (n := 0) hg (Nat.zero_le _)

/-- A group behind which the text ends. -/
theorem fromStringLoop_end (hg : Octet g) (dots : ℕ) (a : IPAddress) :
    fromStringLoop g 0 dots a =
      if dots ≠ 3 then (false, a) else (true, a.setByte 3 (octet g)) := by
  have hbyte : (UInt16.ofNat (value g)).toUInt8 = octet g := UInt16.toUInt8_ofNat' _
  have hend : fromStringLoop (g ++ []) 0 dots a = _ := fromStringLoop_group hg.1
  rw [List.append_nil, if_pos hg.2] at hend
  rw [hend, fromStringLoop, hbyte]

/-- `_address.bytes[dots++] = value`, for several values. -/
def storeFrom (a : IPAddress) (dots : ℕ) : List UInt8 → IPAddress
  | [] => a
  | v :: vs => storeFrom (a.setByte dots v) (dots + 1) vs

/-- **What the loop reads**, with a number of dots still to come: the values that it stores, and
whether it accepts the text. -/
inductive Reads : ℕ → List UInt8 → List UInt8 → Bool → Prop
  | last {g : List UInt8} : Octet g → Reads 0 g [octet g] true
  | short {n : ℕ} {g : List UInt8} : Octet g → Reads (n + 1) g [] false
  | dot {n : ℕ} {g s vs : List UInt8} {r : Bool} : Octet g → Reads n s vs r →
      Reads (n + 1) (g ++ 46 :: s) (octet g :: vs) r
  | tooMany {g s : List UInt8} : Octet g → Reads 0 (g ++ 46 :: s) [] false
  | large {n : ℕ} {g rest : List UInt8} : (∀ c ∈ g, isDigit c) → 255 < value g → Stops rest →
      Reads n (g ++ rest) [] false
  | invalid {n : ℕ} {g s : List UInt8} {c : UInt8} : Octet g → isDigit c = false → c ≠ 46 →
      Reads n (g ++ c :: s) [] false

/-- Every text is read to some end. -/
theorem exists_reads (n : ℕ) (s : List UInt8) : ∃ vs r, Reads n s vs r := by
  induction n generalizing s with
  | zero =>
      obtain ⟨g, rest, rfl, hg, hrest⟩ := exists_split s
      by_cases hle : value g ≤ 255
      · cases rest with
        | nil => exact ⟨_, _, (List.append_nil g).symm ▸ Reads.last ⟨hg, hle⟩⟩
        | cons c s =>
            by_cases hc : c = 46
            · subst hc
              exact ⟨_, _, Reads.tooMany ⟨hg, hle⟩⟩
            · exact ⟨_, _, Reads.invalid ⟨hg, hle⟩ (hrest c rfl) hc⟩
      · exact ⟨_, _, Reads.large hg (Nat.lt_of_not_le hle) hrest⟩
  | succ n ih =>
      obtain ⟨g, rest, rfl, hg, hrest⟩ := exists_split s
      by_cases hle : value g ≤ 255
      · cases rest with
        | nil => exact ⟨_, _, (List.append_nil g).symm ▸ Reads.short ⟨hg, hle⟩⟩
        | cons c s =>
            by_cases hc : c = 46
            · subst hc
              obtain ⟨vs, r, hreads⟩ := ih s
              exact ⟨_, _, Reads.dot ⟨hg, hle⟩ hreads⟩
            · exact ⟨_, _, Reads.invalid ⟨hg, hle⟩ (hrest c rfl) hc⟩
      · exact ⟨_, _, Reads.large hg (Nat.lt_of_not_le hle) hrest⟩

/-- **The loop reads as `Reads` says.** -/
theorem fromStringLoop_of_reads {vs : List UInt8} {r : Bool} (h : Reads n s vs r)
    (hdots : dots + n = 3) : fromStringLoop s 0 dots a = (r, a.storeFrom dots vs) := by
  have hbyte : ∀ g, (UInt16.ofNat (value g)).toUInt8 = octet g := fun g => UInt16.toUInt8_ofNat' _
  induction h generalizing dots a with
  | @last g hg =>
      obtain rfl : dots = 3 := hdots
      rw [fromStringLoop_end hg, if_neg (not_not.2 rfl)]
      rfl
  | @short n g hg =>
      have hne : dots ≠ 3 := by omega
      rw [fromStringLoop_end hg, if_pos hne]
      rfl
  | @dot n g s vs r hg _ ih =>
      have hne : dots ≠ 3 := by omega
      rw [fromStringLoop_group hg.1, if_pos hg.2, fromStringLoop, if_neg (by decide), if_pos rfl,
        if_neg hne, hbyte]
      exact ih (by omega)
  | tooMany hg =>
      obtain rfl : dots = 3 := hdots
      rw [fromStringLoop_group hg.1, if_pos hg.2, fromStringLoop, if_neg (by decide), if_pos rfl,
        if_pos rfl]
      rfl
  | large hg hlarge _ =>
      rw [fromStringLoop_group hg, if_neg (by omega)]
      rfl
  | invalid hg hdigit hdot =>
      rw [fromStringLoop_group hg.1, if_pos hg.2, fromStringLoop, hdigit,
        if_neg Bool.false_ne_true, if_neg hdot]
      rfl

/-! ### What is accepted -/

/-- **Groups with dots between them**, with a number of dots. -/
def Groups (P : List UInt8 → Prop) (n : ℕ) (s : List UInt8) (vs : List UInt8) : Prop :=
  ∃ g gs, gs.length = n ∧ (∀ x ∈ g :: gs, P x) ∧ s = join [46] g gs ∧ vs = (g :: gs).map octet

/-- **A text is accepted** exactly if it has as many groups as there are bytes left, and each is
taken for a byte. -/
theorem reads_true_iff {vs : List UInt8} : Reads n s vs true ↔ Groups Octet n s vs := by
  constructor
  · intro h
    generalize hr : true = r at h
    induction h with
    | @last g hg =>
        exact ⟨g, [], rfl, fun x hx => List.mem_singleton.1 hx ▸ hg, (join_nil ..).symm, rfl⟩
    | @dot n g s vs r hg _ ih =>
        obtain ⟨g', gs, hlength, hall, rfl, rfl⟩ := ih hr
        refine ⟨g, g' :: gs, congrArg Nat.succ hlength, fun x hx => ?_,
          (join_cons [46] g g' gs).symm, rfl⟩
        rcases List.mem_cons.1 hx with rfl | hx
        · exact hg
        · exact hall x hx
    | short _ => cases hr
    | tooMany _ => cases hr
    | large _ _ _ => cases hr
    | invalid _ _ _ => cases hr
  · rintro ⟨g, gs, hlength, hall, rfl, rfl⟩
    induction gs generalizing g n with
    | nil =>
        cases hlength
        rw [join_nil]
        exact Reads.last (hall g List.mem_cons_self)
    | cons g' gs ih =>
        cases hlength
        rw [join_cons]
        exact Reads.dot (hall g List.mem_cons_self)
          (ih g' rfl fun x hx => hall x (List.mem_cons_of_mem g hx))

/-! ### What is left behind -/

/-- **The text begins with the groups**, each with a dot behind it, and each is taken for a byte. -/
def ReadUpTo (s : List UInt8) (gs : List (List UInt8)) : Prop :=
  (∀ g ∈ gs, Octet g) ∧ (gs.flatMap fun g => g ++ [46]) <+: s

theorem readUpTo_nil (s : List UInt8) : ReadUpTo s [] :=
  ⟨fun _ hg => absurd hg List.not_mem_nil, List.nil_prefix⟩

/-- The first of the groups is the digits with which the text begins. -/
theorem ReadUpTo.cons_inv {g' : List UInt8} {gs : List (List UInt8)}
    (h : ReadUpTo (g ++ rest) (g' :: gs)) (hg : ∀ c ∈ g, isDigit c) (hrest : Stops rest) :
    g' = g ∧ ∃ s, rest = 46 :: s ∧ ReadUpTo s gs := by
  obtain ⟨hall, back, hback⟩ := h
  rw [List.flatMap_cons, List.append_assoc, List.append_assoc] at hback
  obtain ⟨rfl, rfl⟩ := split_unique hback (hall g' List.mem_cons_self).1 hg (stops_dot _) hrest
  exact ⟨rfl, _, rfl, fun x hx => hall x (List.mem_cons_of_mem _ hx), _, rfl⟩

theorem ReadUpTo.cons {gs : List (List UInt8)} (h : ReadUpTo s gs) (hg : Octet g) :
    ReadUpTo (g ++ 46 :: s) (g :: gs) := by
  obtain ⟨hall, back, rfl⟩ := h
  refine ⟨fun x hx => ?_, back, ?_⟩
  · rcases List.mem_cons.1 hx with rfl | hx
    · exact hg
    · exact hall x hx
  · rw [List.flatMap_cons, List.append_assoc, List.append_assoc, List.singleton_append]

/-- **A text that is rejected** leaves the values of the groups that were read up to their dots, and
of no others. -/
theorem reads_false {vs : List UInt8} (h : Reads n s vs false) :
    (∃ gs, gs.length ≤ n ∧ ReadUpTo s gs ∧ gs.map octet = vs) ∧
      ∀ gs, gs.length ≤ n → ReadUpTo s gs → gs.map octet <+: vs := by
  -- where nothing is stored, the first group has no dot behind it or there is no byte for it
  have hempty : ∀ {n : ℕ} {g rest : List UInt8}, (∀ c ∈ g, isDigit c) → Stops rest →
      (∀ s, rest = 46 :: s → Octet g → n = 0) →
      (∃ gs, gs.length ≤ n ∧ ReadUpTo (g ++ rest) gs ∧ gs.map octet = []) ∧
        ∀ gs, gs.length ≤ n → ReadUpTo (g ++ rest) gs → gs.map octet <+: [] := by
    intro n g rest hg hrest hnone
    refine ⟨⟨[], Nat.zero_le n, readUpTo_nil _, rfl⟩, fun gs hle hgs => ?_⟩
    cases gs with
    | nil => exact List.prefix_rfl
    | cons g' gs =>
        have hoctet := hgs.1 g' List.mem_cons_self
        obtain ⟨rfl, s, rfl, -⟩ := hgs.cons_inv hg hrest
        rw [hnone s rfl hoctet] at hle
        exact absurd hle (Nat.not_succ_le_zero _)
  generalize hr : false = r at h
  induction h with
  | last _ => cases hr
  | @short n g hg =>
      have hstops : Stops [] := fun c hc => by cases hc
      have hend := hempty (n := n + 1) hg.1 hstops fun s hs => by cases hs
      rwa [List.append_nil] at hend
  | @dot n g s vs r hg _ ih =>
      obtain ⟨⟨gs, hle, hgs, rfl⟩, hall⟩ := ih hr
      refine ⟨⟨g :: gs, Nat.succ_le_succ hle, hgs.cons hg, rfl⟩, fun fs hfs hread => ?_⟩
      cases fs with
      | nil => exact List.nil_prefix
      | cons f fs =>
          obtain ⟨rfl, s', hs', hread'⟩ := hread.cons_inv hg.1 (stops_dot s)
          cases hs'
          exact List.cons_prefix_cons.2 ⟨rfl, hall fs (Nat.le_of_succ_le_succ hfs) hread'⟩
  | tooMany hg => exact hempty hg.1 (stops_dot _) fun _ _ _ => rfl
  | large hg hlarge hrest =>
      exact hempty hg hrest fun _ _ hoctet => absurd hoctet.2 (Nat.not_le_of_lt hlarge)
  | @invalid n g s c hg hdigit hdot =>
      refine hempty hg.1 (fun d hd => ?_) fun s' hs' _ => absurd (List.cons.inj hs').1 hdot
      cases hd
      exact hdigit

/-- The bytes after several have been stored. -/
theorem storeFrom_bytes (vs : List UInt8) (a : IPAddress) (h : dots + vs.length ≤ 4) :
    (a.storeFrom dots vs).bytes =
      a.bytes.take dots ++ (vs ++ a.bytes.drop (dots + vs.length)) := by
  induction vs generalizing a dots with
  | nil => rw [storeFrom, List.nil_append, List.length_nil, Nat.add_zero, List.take_append_drop]
  | cons v vs ih =>
      rw [List.length_cons] at h
      have hdots : dots < a.bytes.length := by
        rw [a.size]
        omega
      rw [storeFrom, ih (a.setByte dots v) (by omega)]
      change (a.bytes.set dots v).take (dots + 1) ++
        (vs ++ (a.bytes.set dots v).drop (dots + 1 + vs.length)) = _
      rw [List.take_add_one, List.take_set_of_le (Nat.le_refl dots), List.getElem?_set_self hdots,
        Option.toList_some, List.drop_set_of_lt (by omega), List.append_assoc, List.length_cons,
        Nat.add_right_comm, Nat.add_assoc dots]
      rfl

/-- An address is what it was exactly if what was stored are the bytes that it begins with. -/
theorem storeFrom_eq_iff {vs : List UInt8} (h : vs.length ≤ 4) :
    a.storeFrom 0 vs = a ↔ vs <+: a.bytes := by
  have hbytes := storeFrom_bytes vs a (show 0 + vs.length ≤ 4 by omega)
  rw [List.take_zero, List.nil_append, Nat.zero_add] at hbytes
  rw [IPAddress.ext_iff, hbytes, List.prefix_iff_eq_append]

/-- As many values as there are bytes are the address. -/
theorem storeFrom_all {vs : List UInt8} (h : vs = b.bytes) : a.storeFrom 0 vs = b := by
  have hlength : vs.length = 4 := h ▸ b.size
  have hbytes := storeFrom_bytes vs a (show 0 + vs.length ≤ 4 by omega)
  rw [List.take_zero, List.nil_append, Nat.zero_add,
    List.drop_eq_nil_of_le (by rw [a.size, hlength]), List.append_nil] at hbytes
  exact IPAddress.ext (hbytes.trans h)

end

/-! ### Reading an address -/

/-- A dotted quad: four numerals of bytes, which are those of the address. -/
def Quad (s : List UInt8) (a : IPAddress) : Prop := Groups Numeral 3 s a.bytes

/-- **What is asked of `fromString`**: a dotted quad is read, and nothing else changes the
address. -/
def Clean (a : IPAddress) (s : CString) : Prop :=
  (∀ b, Quad s.bytes b → a.fromString s = (true, b)) ∧
    ((¬∃ b, Quad s.bytes b) → a.fromString s = (false, a))

/-- Groups that are taken for bytes, and as many as there are bytes, are accepted. -/
theorem fromString_of_groups (a : IPAddress) {b : IPAddress} {s : CString}
    (h : Groups Octet 3 s.bytes b.bytes) : a.fromString s = (true, b) := by
  rw [fromString, fromStringLoop_of_reads (reads_true_iff.2 h) rfl, storeFrom_all rfl]

/-- **A dotted quad** is read. -/
theorem fromString_of_quad (a : IPAddress) {b : IPAddress} {s : CString} (h : Quad s.bytes b) :
    a.fromString s = (true, b) := by
  obtain ⟨g, gs, hlength, hall, hs, hb⟩ := h
  exact a.fromString_of_groups ⟨g, gs, hlength, fun x hx => (hall x hx).2, hs, hb⟩

/-- Four groups are the groups of some address. -/
theorem exists_address {P : List UInt8 → Prop} {s vs : List UInt8} (h : Groups P 3 s vs) :
    ∃ b : IPAddress, Groups P 3 s b.bytes := by
  obtain ⟨g, gs, hlength, hall, hs, -⟩ := h
  refine ⟨⟨(g :: gs).map octet, ?_⟩, g, gs, hlength, hall, hs, rfl⟩
  rw [List.length_map, List.length_cons, hlength]

/-- The digits of a byte are a numeral of it. -/
theorem numeral_digits (v : UInt8) : Numeral (digits v.toNat) ∧ octet (digits v.toNat) = v := by
  have hlt := v.toNat_lt
  refine ⟨⟨digits_ne_nil _, fun c => isDigit_of_mem_digits, ?_⟩, ?_⟩
  · rw [value_digits]
    omega
  · rw [octet, value_digits, UInt8.ofNat_toNat]

/-- **The text of an address** is a dotted quad. -/
theorem quad_text (a : IPAddress) : Quad a.text.bytes a := by
  refine ⟨a.group 0, [a.group 1, a.group 2, a.group 3], rfl, fun x hx => ?_, rfl, ?_⟩
  · simp only [List.mem_cons, List.not_mem_nil, or_false] at hx
    rcases hx with rfl | rfl | rfl | rfl <;> exact (numeral_digits _).1
  · obtain ⟨bytes, hsize⟩ := a
    obtain ⟨v₀, v₁, v₂, v₃, rfl⟩ := List.length_eq_four.1 hsize
    simp [group, numeral_digits]

/-- The text of an address fits into the local buffer. -/
theorem length_text_lt (a : IPAddress) : a.text.bytes.length < 16 := by
  have hgroup : ∀ i, (a.group i).length ≤ 3 := fun i => by
    have hlt := (a.bytes.getD i 0).toNat_lt
    exact (length_digits_le_iff (by decide)).2 (by omega)
  have h₀ := hgroup 0
  have h₁ := hgroup 1
  have h₂ := hgroup 2
  have h₃ := hgroup 3
  simp only [text, join, List.length_append, List.flatMap_cons, List.flatMap_nil, List.length_cons,
    List.length_nil]
  omega

/-- `toString` leaves the text in the string. -/
theorem toString_spec {A : WString.Allocator} (a : IPAddress)
    (hA : WString.Grants A WString.init a.text.bytes.length) :
    ∃ s, a.toString A = some s ∧ WString.HasText s a.text.bytes := by
  rw [toString, WString.convert_eq a.length_text_lt, Option.bind_some]
  exact WString.ofChars_spec (WString.text_ofChars a.text) hA

/-- **When `fromString` is right.**  For every string and every address: it reads exactly the dotted
quads, and leaves the address alone if it does not, exactly if the string is a dotted quad, or else
is not four groups of digits either, one of which is empty, and begins, up to some dot, with no
values other than those that the address has.  What `toString` makes of an address is read back. -/
theorem fromString_clean_iff (a : IPAddress) (s : CString) :
    (Clean a s ↔ (∃ b, Quad s.bytes b) ∨
      (¬∃ vs, Groups Octet 3 s.bytes vs) ∧
        ∀ gs, gs.length ≤ 3 → ReadUpTo s.bytes gs → gs.map octet <+: a.bytes) ∧
    ∀ (A : WString.Allocator) (b : IPAddress),
      WString.Grants A WString.init b.text.bytes.length →
      ∃ str, b.toString A = some str ∧ WString.HasText str b.text.bytes ∧
        a.fromString b.text = (true, b) := by
  refine ⟨?_, fun A b hA => ?_⟩
  · by_cases hquad : ∃ b, Quad s.bytes b
    · exact iff_of_true ⟨fun b hb => a.fromString_of_quad hb, fun h => absurd hquad h⟩
        (Or.inl hquad)
    · have hnone : ∀ b, Quad s.bytes b → a.fromString s = (true, b) := fun b hb =>
        absurd ⟨b, hb⟩ hquad
      obtain ⟨vs, r, hreads⟩ := exists_reads 3 s.bytes
      cases r with
      | true =>
          -- a group is empty, and the text is accepted all the same
          have hgroups := reads_true_iff.1 hreads
          obtain ⟨b, hb⟩ := exists_address hgroups
          refine iff_of_false (fun h => ?_) ?_
          · have hfalse := h.2 hquad
            rw [a.fromString_of_groups hb] at hfalse
            exact Bool.noConfusion (congrArg Prod.fst hfalse)
          · rintro (h | h)
            · exact hquad h
            · exact h.1 ⟨vs, hgroups⟩
      | false =>
          have hresult : a.fromString s = (false, a.storeFrom 0 vs) :=
            fromStringLoop_of_reads hreads rfl
          obtain ⟨⟨gs, hle, hgs, rfl⟩, hall⟩ := reads_false hreads
          have hlength : (gs.map octet).length ≤ 4 := by
            rw [List.length_map]
            omega
          have hgroups : ¬∃ vs, Groups Octet 3 s.bytes vs := by
            rintro ⟨vs, hvs⟩
            obtain ⟨b, hb⟩ := exists_address hvs
            rw [a.fromString_of_groups hb] at hresult
            exact Bool.noConfusion (congrArg Prod.fst hresult)
          constructor
          · intro h
            have hsame := congrArg Prod.snd (hresult.symm.trans (h.2 hquad))
            have hprefix := (storeFrom_eq_iff hlength).1 hsame
            exact Or.inr ⟨hgroups, fun fs hfs hread => (hall fs hfs hread).trans hprefix⟩
          · rintro (h | ⟨-, hkept⟩)
            · exact absurd h hquad
            · have hsame := (storeFrom_eq_iff (a := a) hlength).2 (hkept gs hle hgs)
              exact ⟨hnone, fun _ => by rw [hresult, hsame]⟩
  · obtain ⟨str, hstr, htext⟩ := b.toString_spec hA
    exact ⟨str, hstr, htext, a.fromString_of_quad b.quad_text⟩

/-- The address 1.2.3.4. -/
def oneToFour : IPAddress := ⟨[1, 2, 3, 4], rfl⟩

/-- The address 192.168.0.1. -/
def router : IPAddress := ⟨[192, 168, 0, 1], rfl⟩

/-- An address is read, and comes back as text. -/
theorem fromString_clean_router : Clean oneToFour router.text ∧
    ∃ str, router.toString WString.generous = some str ∧
      WString.HasText str router.text.bytes ∧ oneToFour.fromString router.text = (true, router) := by
  have hall := fromString_clean_iff oneToFour router.text
  have hlt := router.length_text_lt
  exact ⟨hall.1.2 (Or.inl ⟨router, router.quad_text⟩),
    hall.2 _ router (WString.grants_generous (by omega))⟩

/-- **Three dots are accepted**, and `"9.x"` is not, but its first byte stays in the address. -/
theorem fromString_dots :
    (oneToFour.fromString ⟨[46, 46, 46], by decide⟩ = (true, ⟨[0, 0, 0, 0], rfl⟩) ∧
      ¬Clean oneToFour ⟨[46, 46, 46], by decide⟩) ∧
    oneToFour.fromString ⟨[57, 46, 120], by decide⟩ = (false, ⟨[9, 2, 3, 4], rfl⟩) ∧
      ¬Clean oneToFour ⟨[57, 46, 120], by decide⟩ := by
  have hdots : oneToFour.fromString ⟨[46, 46, 46], by decide⟩ = (true, ⟨[0, 0, 0, 0], rfl⟩) := rfl
  have hnine : oneToFour.fromString ⟨[57, 46, 120], by decide⟩ = (false, ⟨[9, 2, 3, 4], rfl⟩) := rfl
  refine ⟨⟨hdots, fun h => ?_⟩, hnine, fun h => ?_⟩
  · have hquad : ¬∃ b, Quad [46, 46, 46] b := by
      rintro ⟨b, g, gs, -, hall, hs, -⟩
      obtain ⟨hne, hdigits, -⟩ := hall g List.mem_cons_self
      obtain ⟨c, g, rfl⟩ := List.exists_cons_of_ne_nil hne
      obtain ⟨rfl, -⟩ := List.cons.inj hs
      have hdigit := hdigits 46 List.mem_cons_self
      cases hdigit
    have hfalse := hdots.symm.trans (h.2 hquad)
    cases congrArg Prod.fst hfalse
  · have hquad : ¬∃ b, Quad [57, 46, 120] b := by
      rintro ⟨b, hb⟩
      have htrue := oneToFour.fromString_of_quad (s := ⟨[57, 46, 120], by decide⟩) hb
      cases congrArg Prod.fst (hnine.symm.trans htrue)
    have hsame := hnine.symm.trans (h.2 hquad)
    have hbytes := congrArg (fun r => r.2.bytes) hsame
    cases hbytes

end IPAddress

end Pico
