/-
**The serial number of the debug probe.**

`dap_main` of `library/cmsis-dap/usb_descriptors.c` writes the unique id of the board, byte by byte,
as hexadecimal text to the string that the host gets as the serial number of the device.  Each byte
is given two characters of room, but the conversion leaves out leading zeros: a byte below 16 takes
one, and the NUL behind it stays.

* `convertLoop`, `dapMain` — the conversion;
* `tudDescriptorStringCb` — the string descriptors;
* `hexadecimal` — the text that is meant;
* `Identifies` — what a serial number is for: it is that text, the descriptor carries all of it, and
  no other board has the same one;
* `identifies_iff` — **when the serial number identifies the board**.
-/

import WizioPico.CBuffer
import WizioPico.Numeral

set_option relaxedAutoImplicit false
set_option autoImplicit false

namespace Pico.Dap

open CBuffer

/-! ### The conversion -/

/-- `pico_unique_board_id_t`. -/
structure BoardId where
  id : List UInt8
  length : id.length = 8

/-- `unique_id`, before `dap_main`. -/
def uniqueId : List UInt8 := List.replicate 16 48 ++ [0] -- "0000000000000000"

/-- `snprintf(p, size, "%X", value)`, for `p` at an index of a block. -/
def snprintfX (b : List UInt8) (p size value : ℕ) : Option (List UInt8) :=
  if size = 0 then some b else paste b p ((Numeral.text 16 value).take (size - 1) ++ [0])

/-- The loop of `dap_main`, for the bytes that are left. -/
def convertLoop (b : List UInt8) (p : ℕ) : List UInt8 → Option (List UInt8)
  | [] => some b
  | v :: id => (snprintfX b p 3 v.toNat).bind fun b => convertLoop b (p + 2) id

/-- `unique_id`, after the loop of `dap_main`. -/
def dapMain (pico : BoardId) : Option (List UInt8) := convertLoop uniqueId 0 pico.id

/-! ### String descriptors -/

def TUSB_DESC_STRING : UInt16 := 3
def STRID_SERIAL : UInt8 := 3

/-- The bytes of an ASCII literal, with its NUL. -/
def literal (s : String) : List UInt8 := s.toList.map (fun c => UInt8.ofNat c.toNat) ++ [0]

/-- `string_desc_arr`. -/
def stringDescArr (uniqueId : List UInt8) : List (List UInt8) :=
  [[0x09, 0x04], literal "CMSIS-DAP", literal "pico-debug", uniqueId]

/-- The loop that converts ASCII into UTF-16, from a word of `_desc_str` on. -/
def convertText (descStr : List UInt16) (i : ℕ) : List UInt8 → List UInt16
  | [] => descStr
  | c :: str => convertText (descStr.set i c.toUInt16) (i + 1) str

/-- The first word: the type, and the length in bytes with this word. -/
def header (chrCount : ℕ) : UInt16 := TUSB_DESC_STRING <<< 8 ||| UInt16.ofNat (2 * chrCount + 2)

/-- `tud_descriptor_string_cb`, with `_desc_str` before and, if the answer is not null, afterwards.
-/
def tudDescriptorStringCb (uniqueId : List UInt8) (descStr : List UInt16) (index : UInt8) :
    Option (Option (List UInt16)) :=
  if index = 0 then some (some ((descStr.set 1 0x0409).set 0 (header 1)))
  else
    match (stringDescArr uniqueId)[index.toNat]? with
    | none => some none
    | some str => (scan str).map fun text =>
        let chrCount := if text.length % 256 > 31 then 31 else text.length % 256
        some ((convertText descStr 1 (text.take chrCount)).set 0 (header chrCount))

/-- What the host reads in a descriptor. -/
def received (descStr : List UInt16) : List UInt16 :=
  (descStr.drop 1).take (((descStr.headD 0).toNat % 256 - 2) / 2)

/-- **The serial number that a board presents**, whatever `_desc_str` was used for before. -/
def serial (pico : BoardId) (descStr : List UInt16) : Option (List UInt16) :=
  (dapMain pico).bind fun uniqueId =>
    (tudDescriptorStringCb uniqueId descStr STRID_SERIAL).bind fun answer => answer.map received

/-! ### What is meant -/

/-- Two hexadecimal digits for each byte. -/
def hexadecimal (id : List UInt8) : List UInt8 :=
  id.flatMap fun v => [Numeral.symbol (v.toNat / 16), Numeral.symbol (v.toNat % 16)]

/-- **What a serial number is for.** -/
structure Identifies (pico : BoardId) : Prop where
  converted : dapMain pico = some (hexadecimal pico.id ++ [0])
  carried : ∀ descStr : List UInt16, descStr.length = 32 →
    serial pico descStr = some ((hexadecimal pico.id).map UInt8.toUInt16)
  unique : ∀ other : BoardId, other.id ≠ pico.id → ∀ descStr descStr' : List UInt16,
    descStr.length = 32 → descStr'.length = 32 → serial other descStr' ≠ serial pico descStr

theorem length_hexadecimal (id : List UInt8) : (hexadecimal id).length = 2 * id.length := by
  induction id with
  | nil => rfl
  | cons v id ih =>
      rw [hexadecimal, List.flatMap_cons, List.length_append, ← hexadecimal, ih, List.length_cons]
      simp only [List.length_cons, List.length_nil]
      omega

theorem zero_notMem_hexadecimal (id : List UInt8) : 0 ∉ hexadecimal id := by
  intro h
  obtain ⟨v, -, hv⟩ := List.mem_flatMap.1 h
  have hlt := v.toNat_lt
  rcases List.mem_cons.1 hv with hv | hv
  · exact Numeral.symbol_ne_zero _ (by omega) hv.symm
  · exact Numeral.symbol_ne_zero _ (by omega) (List.mem_singleton.1 hv).symm

/-- The digits give the bytes back. -/
theorem hexadecimal_injective : Function.Injective hexadecimal := by
  intro id id' h
  induction id generalizing id' with
  | nil =>
      have hlen := congrArg List.length h
      rw [length_hexadecimal, length_hexadecimal, List.length_nil] at hlen
      exact (List.length_eq_zero_iff.1 (by omega)).symm
  | cons v id ih =>
      cases id' with
      | nil =>
          have hlen := congrArg List.length h
          rw [length_hexadecimal, length_hexadecimal, List.length_nil, List.length_cons] at hlen
          omega
      | cons w id' =>
          rw [hexadecimal, hexadecimal, List.flatMap_cons, List.flatMap_cons] at h
          obtain ⟨hhigh, h⟩ := List.cons.inj h
          obtain ⟨hlow, htail⟩ := List.cons.inj h
          have hv := v.toNat_lt
          have hw := w.toNat_lt
          have hhigh' := Numeral.symbol_inj _ (by omega) _ (by omega) hhigh
          have hlow' := Numeral.symbol_inj _ (by omega) _ (by omega) hlow
          have hvw : v = w := UInt8.toNat_inj.1 (by omega)
          rw [hvw, ih htail]

/-! ### The text of a byte -/

/-- A byte from 16 on has two digits. -/
theorem text_of_ge {n : ℕ} (hge : 16 ≤ n) (hlt : n < 256) :
    Numeral.text 16 n = [Numeral.symbol (n / 16), Numeral.symbol (n % 16)] := by
  have hdiv : n / 16 ≠ 0 := by omega
  have hhigh : Numeral.digits 16 (n / 16) = [n / 16] :=
    Numeral.digits_of_lt (by omega) (by decide)
  rw [Numeral.text, Numeral.digits_eq (by decide), if_neg hdiv, hhigh]
  rfl

/-- A byte below 16 has one. -/
theorem text_of_lt {n : ℕ} (hlt : n < 16) : Numeral.text 16 n = [Numeral.symbol n] := by
  rw [Numeral.text, Numeral.digits_of_lt hlt (by decide)]
  rfl

/-! ### The loop -/

section

variable {b b' id : List UInt8} {p : ℕ}

/-- A step of the loop. -/
theorem snprintfX_eq (b : List UInt8) (p value : ℕ) :
    snprintfX b p 3 value = paste b p ((Numeral.text 16 value).take 2 ++ [0]) :=
  if_neg (by decide)

/-- What is in front of the place where it writes stays. -/
theorem take_convertLoop (h : convertLoop b p id = some b') {k : ℕ} (hk : k ≤ p) :
    b'.take k = b.take k := by
  induction id generalizing b p with
  | nil =>
      cases h
      rfl
  | cons v id ih =>
      rw [convertLoop, snprintfX_eq] at h
      obtain ⟨b₁, hpaste, hloop⟩ := Option.bind_eq_some_iff.1 h
      have htake := congrArg (List.take k) (take_paste hpaste)
      rw [List.take_take, Nat.min_eq_left (by omega)] at htake
      have hlen : p ≤ b.length := Nat.le_of_add_right_le (paste_eq_some hpaste).1
      have hfront : (b.take p).length = p := List.length_take_of_le hlen
      rw [ih hloop (by omega), htake, List.take_append_of_le_length (by omega), List.take_take,
        Nat.min_eq_left hk]

/-- **Bytes of two digits** fill their room, and the NUL behind the last one is the last byte. -/
theorem convertLoop_of_ge (pre : List UInt8) {junk : List UInt8} (hid : ∀ v ∈ id, 16 ≤ v)
    (hjunk : junk.length = 2 * id.length) :
    convertLoop (pre ++ (junk ++ [0])) pre.length id = some (pre ++ (hexadecimal id ++ [0])) := by
  induction id generalizing pre junk with
  | nil =>
      obtain rfl := List.length_eq_zero_iff.1 hjunk
      rfl
  | cons v id ih =>
      rw [List.length_cons] at hjunk
      obtain ⟨a, c, junk, rfl⟩ : ∃ a c l, junk = a :: c :: l := by
        match junk, hjunk with
        | a :: c :: l, _ => exact ⟨a, c, l, rfl⟩
      simp only [List.length_cons] at hjunk
      -- the NUL is written over the first byte of the room of the next one, or over the last byte
      obtain ⟨e, q, junk', hnext, hlast, hlen⟩ : ∃ e q junk', junk ++ [0] = e :: q ∧
          0 :: q = junk' ++ [(0 : UInt8)] ∧ junk'.length = junk.length := by
        cases junk with
        | nil => exact ⟨0, [], [], rfl, rfl, rfl⟩
        | cons e junk => exact ⟨e, junk ++ [0], 0 :: junk, rfl, rfl, rfl⟩
      have hv : 16 ≤ v.toNat := hid v List.mem_cons_self
      have htext := text_of_ge hv v.toNat_lt
      have hstep : snprintfX (pre ++ (a :: c :: junk ++ [0])) pre.length 3 v.toNat =
          some (pre ++ [Numeral.symbol (v.toNat / 16), Numeral.symbol (v.toNat % 16)] ++
            (junk' ++ [0])) := by
        have hmid : a :: c :: junk ++ [0] = [a, c, e] ++ q := by
          rw [List.cons_append, List.cons_append, hnext]
          rfl
        rw [snprintfX_eq, htext, hmid, ← hlast, List.append_assoc]
        exact paste_append q rfl
      have hroom : junk'.length = 2 * id.length := by omega
      have hrest := ih (pre ++ [Numeral.symbol (v.toNat / 16), Numeral.symbol (v.toNat % 16)])
        (fun w hw => hid w (List.mem_cons_of_mem v hw)) hroom
      rw [List.length_append] at hrest
      rw [convertLoop, hstep, Option.bind_some, hexadecimal, List.flatMap_cons, ← hexadecimal]
      refine hrest.trans ?_
      simp only [List.append_assoc]

/-- **A byte of one digit** leaves a NUL in its room. -/
theorem convertLoop_of_lt {xs ys : List UInt8} {v : UInt8} (hv : v < 16)
    (h : convertLoop b p (xs ++ v :: ys) = some b') : b'[p + 2 * xs.length + 1]? = some 0 := by
  induction xs generalizing b p with
  | nil =>
      have hlt : v.toNat < 16 := UInt8.lt_iff_toNat_lt.1 hv
      rw [List.nil_append, convertLoop, snprintfX_eq, text_of_lt hlt] at h
      obtain ⟨b₁, hpaste, hloop⟩ := Option.bind_eq_some_iff.1 h
      have hkeep := (take_convertLoop hloop (Nat.le_refl (p + 2))).trans (take_paste hpaste)
      have hlen : p ≤ b.length := Nat.le_of_add_right_le (paste_eq_some hpaste).1
      have hget : (b'.take (p + 2))[p + 1]? = some 0 := by
        rw [hkeep, List.getElem?_append_right (by rw [List.length_take]; omega), List.length_take,
          Nat.min_eq_left hlen, Nat.add_sub_cancel_left]
        rfl
      rw [List.getElem?_take_of_lt (by omega)] at hget
      exact hget
  | cons w xs ih =>
      rw [List.cons_append, convertLoop] at h
      obtain ⟨b₁, -, hloop⟩ := Option.bind_eq_some_iff.1 h
      have hzero := ih hloop
      rw [List.length_cons]
      have hsum : p + 2 * (xs.length + 1) + 1 = p + 2 + 2 * xs.length + 1 := by omega
      rw [hsum]
      exact hzero

/-- A text ends with the first NUL. -/
theorem length_le_of_scan {t : List UInt8} {j : ℕ} (hscan : scan b = some t)
    (hzero : b[j]? = some 0) : t.length ≤ j := by
  obtain ⟨hno, l, rfl⟩ := scan_eq_some hscan
  by_contra hlt
  rw [List.getElem?_append_left (by omega)] at hzero
  exact hno (List.mem_of_getElem? hzero)

end

/-! ### The descriptor -/

section

variable {descStr : List UInt16}

/-- The loop writes the characters over as many words. -/
theorem convertText_eq (pre : List UInt16) {mid : List UInt16} (post : List UInt16)
    {str : List UInt8} (hlen : mid.length = str.length) :
    convertText (pre ++ (mid ++ post)) pre.length str =
      pre ++ (str.map UInt8.toUInt16 ++ post) := by
  induction str generalizing pre mid with
  | nil =>
      obtain rfl := List.length_eq_zero_iff.1 hlen
      rfl
  | cons c str ih =>
      obtain ⟨w, mid, rfl⟩ : ∃ w l, mid = w :: l :=
        List.exists_cons_of_length_pos (hlen ▸ Nat.succ_pos _)
      have hset : (pre ++ (w :: mid ++ post)).set pre.length c.toUInt16 =
          pre ++ [c.toUInt16] ++ (mid ++ post) := by
        rw [List.set_append_right _ _ (Nat.le_refl _), Nat.sub_self, List.append_assoc]
        rfl
      have hrest := ih (pre ++ [c.toUInt16]) (Nat.succ.inj hlen)
      rw [List.length_append] at hrest
      rw [convertText, hset]
      refine hrest.trans ?_
      rw [List.append_assoc]
      rfl

theorem header_length : ∀ n ≤ 31, ((header n).toNat % 256 - 2) / 2 = n := by decide

/-- **A text of at most 31 characters is carried** by the descriptor. -/
theorem serial_eq {uniqueId text : List UInt8} (hscan : scan uniqueId = some text)
    (hle : text.length ≤ 31) (hdesc : descStr.length = 32) :
    ∃ d, tudDescriptorStringCb uniqueId descStr STRID_SERIAL = some (some d) ∧
      received d = text.map UInt8.toUInt16 := by
  have hmod : text.length % 256 = text.length := Nat.mod_eq_of_lt (by omega)
  have hcap : ¬text.length % 256 > 31 := by omega
  have hpos : 0 < descStr.length := by omega
  obtain ⟨w, rest, rfl⟩ := List.exists_cons_of_length_pos hpos
  rw [List.length_cons] at hdesc
  have hconvert : convertText (w :: rest) 1 text =
      w :: (text.map UInt8.toUInt16 ++ rest.drop text.length) := by
    have hmid : (rest.take text.length).length = text.length := List.length_take_of_le (by omega)
    have := convertText_eq [w] (rest.drop text.length) hmid
    rwa [List.take_append_drop] at this
  refine ⟨header text.length :: (text.map UInt8.toUInt16 ++ rest.drop text.length), ?_, ?_⟩
  · have hanswer : tudDescriptorStringCb uniqueId (w :: rest) STRID_SERIAL =
        (scan uniqueId).map fun text =>
          let chrCount := if text.length % 256 > 31 then 31 else text.length % 256
          some ((convertText (w :: rest) 1 (text.take chrCount)).set 0 (header chrCount)) := rfl
    rw [hanswer, hscan, Option.map_some, if_neg hcap, hmod]
    dsimp only
    rw [List.take_length, hconvert]
    rfl
  · rw [received, List.headD_cons, header_length _ hle, List.drop_one, List.tail_cons]
    exact List.take_left' (List.length_map _)

end

/-! ### Identification -/

variable {pico : BoardId}

/-- **The conversion of an id** whose bytes all have two digits. -/
theorem dapMain_of_ge (h : ∀ v ∈ pico.id, 16 ≤ v) :
    dapMain pico = some (hexadecimal pico.id ++ [0]) := by
  have hroom : (List.replicate 16 (48 : UInt8)).length = 2 * pico.id.length := by
    rw [pico.length]
    rfl
  exact convertLoop_of_ge [] h hroom

/-- Such an id is carried. -/
theorem serial_of_ge (h : ∀ v ∈ pico.id, 16 ≤ v) {descStr : List UInt16}
    (hdesc : descStr.length = 32) :
    serial pico descStr = some ((hexadecimal pico.id).map UInt8.toUInt16) := by
  have hlen := length_hexadecimal pico.id
  rw [pico.length] at hlen
  obtain ⟨d, hanswer, hreceived⟩ :=
    serial_eq (scan_append (zero_notMem_hexadecimal pico.id) []) (by omega) hdesc
  rw [serial, dapMain_of_ge h, Option.bind_some, hanswer, Option.bind_some, Option.map_some,
    hreceived]

/-- **A byte of one digit** leaves a NUL among the sixteen characters. -/
theorem exists_nul_of_lt {v : UInt8} (hv : v ∈ pico.id) (hlt : v < 16) {b : List UInt8}
    (h : dapMain pico = some b) : ∃ j < 16, b[j]? = some 0 := by
  obtain ⟨xs, ys, hsplit⟩ := List.append_of_mem hv
  have hlen := pico.length
  rw [dapMain, hsplit] at h
  rw [hsplit, List.length_append, List.length_cons] at hlen
  exact ⟨0 + 2 * xs.length + 1, by omega, convertLoop_of_lt hlt h⟩

/-- Its board presents a serial number that is shorter. -/
theorem length_serial_lt {v : UInt8} (hv : v ∈ pico.id) (hlt : v < 16) {descStr : List UInt16}
    (hdesc : descStr.length = 32) {text : List UInt16} (h : serial pico descStr = some text) :
    text.length < 16 := by
  obtain ⟨b, hb, h⟩ := Option.bind_eq_some_iff.1 h
  obtain ⟨j, hj, hzero⟩ := exists_nul_of_lt hv hlt hb
  obtain ⟨t, hscan⟩ : ∃ t, scan b = some t := by
    by_contra hnone
    have hscan : scan b = none := by
      cases hb' : scan b with
      | none => rfl
      | some t => exact absurd ⟨t, hb'⟩ hnone
    have hanswer : tudDescriptorStringCb b descStr STRID_SERIAL = (scan b).map _ := rfl
    rw [hanswer, hscan] at h
    cases h
  have hle := length_le_of_scan hscan hzero
  obtain ⟨d, hanswer, hreceived⟩ := serial_eq hscan (by omega) hdesc
  rw [hanswer, Option.bind_some, Option.map_some] at h
  cases h
  rw [hreceived, List.length_map]
  omega

/-- **When the serial number identifies the board**: every byte of the id has two hexadecimal
digits. -/
theorem identifies_iff (pico : BoardId) : Identifies pico ↔ ∀ v ∈ pico.id, 16 ≤ v := by
  constructor
  · intro h v hv
    by_contra hlt
    obtain ⟨j, hj, hzero⟩ := exists_nul_of_lt hv (UInt8.not_le.1 hlt) h.converted
    have hlen := length_hexadecimal pico.id
    rw [pico.length] at hlen
    rw [List.getElem?_append_left (by omega)] at hzero
    exact zero_notMem_hexadecimal pico.id (List.mem_of_getElem? hzero)
  · intro h
    refine ⟨dapMain_of_ge h, fun descStr hdesc => serial_of_ge h hdesc, ?_⟩
    intro other hne descStr descStr' hdesc hdesc' heq
    rw [serial_of_ge h hdesc] at heq
    by_cases hother : ∃ v ∈ other.id, v < 16
    · obtain ⟨v, hv, hlt⟩ := hother
      have hshort := length_serial_lt hv hlt hdesc' heq
      have hlen := length_hexadecimal pico.id
      rw [pico.length] at hlen
      rw [List.length_map] at hshort
      omega
    · have hall : ∀ v ∈ other.id, 16 ≤ v := by
        intro v hv
        by_contra hlt
        exact hother ⟨v, hv, UInt8.not_le.1 hlt⟩
      rw [serial_of_ge hall hdesc', Option.some.injEq] at heq
      have htext := List.map_injective_iff.2 (fun c d => UInt8.toUInt16_inj.1) heq
      exact hne (hexadecimal_injective htext)

/-- The boards `01 00 00 00 00 00 00 00` and `01 FF FF FF FF FF FF FF` both present the serial
number `1`. -/
theorem serial_not_unique :
    ¬Identifies ⟨[1, 0, 0, 0, 0, 0, 0, 0], rfl⟩ := by
  intro h
  refine h.unique ⟨[1, 255, 255, 255, 255, 255, 255, 255], rfl⟩ (by decide)
    (List.replicate 32 0) (List.replicate 32 0) rfl rfl ?_
  have hone : serial ⟨[1, 0, 0, 0, 0, 0, 0, 0], rfl⟩ (List.replicate 32 0) = some [49] := by
    decide +kernel
  have hother : serial ⟨[1, 255, 255, 255, 255, 255, 255, 255], rfl⟩ (List.replicate 32 0) =
      some [49] := by decide +kernel
  rw [hone, hother]

end Pico.Dap
