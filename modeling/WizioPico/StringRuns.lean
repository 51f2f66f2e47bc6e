/-
**Programs with `String`s.**

A program makes objects, calls their members with each other as arguments, and destroys them.  With
every call comes the heap as the call finds it.

* `Op`, `step` — the calls, and what each does to the objects;
* `Named`, `Granted` — the objects of a call are there, and the allocator provides what it needs;
* `Lawful` — **the calls after which length and terminator agree**: they put no NUL in a text, move
  no text to where it is copied, append no object to itself, and replace with a longer string only
  when what that makes fits in the buffer;
* `InOrder.step` — such a call succeeds and leaves every object in order;
* `represented_of_lawful` — so does every run of such calls, and `represented_violated` shows what
  the others do.
-/

import Mathlib.Logic.Function.Basic
import WizioPico.Runs
import WizioPico.StringReplace

set_option relaxedAutoImplicit false
set_option autoImplicit false

namespace Pico.WString

open Runs Occurrences

/-! ### Programs -/

/-- The objects that there are, by name. -/
abbrev World := ℕ → Option Obj

/-- No objects. -/
def start : World := fun _ => none

/-- What is appended in a call. -/
inductive Arg
  | string (j : ℕ)
  | chars (cstr : Option CString)
  | char (c : UInt8)
  | number (text : CString)
  | flash (str : Option CString)

/-- The calls.  The object that is made or changed comes first.  The helper object of a sum is made
by one of the constructors, and `plus` is an `operator +` with it on the left. -/
inductive Op
  | ofChars (i : ℕ) (cstr : Option CString)
  | ofFlash (i : ℕ) (pstr : Option CString)
  | ofString (i j : ℕ)
  | ofMoved (i j : ℕ)
  | ofChar (i : ℕ) (c : UInt8)
  | ofNumber (i : ℕ) (text : CString)
  | destroy (i : ℕ)
  | reserve (i : ℕ) (size : UInt32)
  | assign (i j : ℕ)
  | assignMoved (i j : ℕ)
  | assignChars (i : ℕ) (cstr : Option CString)
  | concat (i : ℕ) (arg : Arg)
  | plus (i : ℕ) (arg : Arg)
  | setCharAt (i : ℕ) (loc : UInt32) (c : UInt8)
  | setIndex (i : ℕ) (index : UInt32) (c : UInt8)
  | replaceChar (i : ℕ) (find replace : UInt8)
  | replace (i j k : ℕ)
  | remove (i : ℕ) (index count : UInt32)
  | removeFrom (i : ℕ) (index : UInt32)
  | substring (i j : ℕ) (left right : UInt32)
  | substringFrom (i j : ℕ) (left : UInt32)
  | toLowerCase (i : ℕ)
  | toUpperCase (i : ℕ)
  | trim (i : ℕ)

/-- A call, with the heap as it finds it. -/
structure Call where
  op : Op
  heap : Allocator

/-- An object is made. -/
def World.make (w : World) (i : ℕ) (s : Option Obj) : Option World :=
  if (w i).isNone then s.map fun s => Function.update w i (some s) else none

/-- An object is changed. -/
def World.change (w : World) (i : ℕ) (f : Obj → Option Obj) : Option World :=
  (w i).bind fun s => (f s).map fun s => Function.update w i (some s)

/-- What is appended to the object `i`. -/
def Arg.piece (w : World) (i : ℕ) : Arg → Option Piece
  | .string j => if j = i then some .self else (w j).map .string
  | .chars cstr => some (.chars cstr)
  | .char c => some (.char c)
  | .number text => some (.number text)
  | .flash str => some (.flash str)

/-- An object as an argument of `replace`, called for the object `i`. -/
def operand (w : World) (i j : ℕ) : Option Obj := if j = i then none else w j

/-- `substring` of the object `j`, which makes the object `i`. -/
def makeSubstring (A : Allocator) (w : World) (i j left right : ℕ) : Option World :=
  if (w i).isNone then
    (w j).bind fun s => (substring A s left right).map fun r =>
      Function.update (Function.update w j (some r.2)) i (some r.1)
  else none

/-- **A call.** -/
def step (w : World) (c : Call) : Option World :=
  match c.op with
  | .ofChars i cstr => w.make i (ofChars c.heap (.ofChars cstr))
  | .ofFlash i pstr => w.make i (ofFlash c.heap (.ofChars pstr))
  | .ofString i j => (w j).bind fun value => w.make i (ofString c.heap value)
  | .ofMoved i j =>
      if (w i).isNone then
        (w j).bind fun rval => (ofMoved rval).map fun r =>
          Function.update (Function.update w j (some r.2)) i (some r.1)
      else none
  | .ofChar i ch => w.make i (ofChar c.heap ch)
  | .ofNumber i text => w.make i (ofNumber c.heap text)
  | .destroy i => (w i).bind fun s => s.buffer.free.map fun _ => Function.update w i none
  | .reserve i size => w.change i fun s => (reserve c.heap s size.toNat).map Prod.fst
  | .assign i j =>
      if i = j then w.change i some
      else (w j).bind fun rhs => w.change i fun s => assign c.heap s rhs
  | .assignMoved i j =>
      if i = j then w.change i some
      else (w j).bind fun rval => (w i).bind fun s => (move s rval).map fun r =>
        Function.update (Function.update w j (some r.2)) i (some r.1)
  | .assignChars i cstr => w.change i fun s => assignChars c.heap s (.ofChars cstr)
  | .concat i arg =>
      (arg.piece w i).bind fun piece => w.change i fun s => (concat c.heap s piece).map Prod.fst
  | .plus i arg => (arg.piece w i).bind fun piece => w.change i fun s => plus c.heap s piece
  | .setCharAt i loc ch => w.change i fun s => setCharAt s loc.toNat ch
  | .setIndex i index ch => w.change i fun s => setIndex s index.toNat ch
  | .replaceChar i find rep => w.change i fun s => replaceChar s find rep
  | .replace i j k =>
      if (w j).isSome ∧ (w k).isSome then
        w.change i fun s => replace c.heap s (operand w i j) (operand w i k)
      else none
  | .remove i index count => w.change i fun s => remove s index.toNat count.toNat
  | .removeFrom i index => w.change i fun s => removeFrom s index.toNat
  | .substring i j left right => makeSubstring c.heap w i j left.toNat right.toNat
  | .substringFrom i j left =>
      (w j).bind fun s => makeSubstring c.heap w i j left.toNat s.len
  | .toLowerCase i => w.change i toLowerCase
  | .toUpperCase i => w.change i toUpperCase
  | .trim i => w.change i trim

/-! ### What is asked of a call -/

/-- The objects of a call are there, and the one that it makes is not. -/
def Named (w : World) : Op → Prop
  | .ofChars i _ | .ofFlash i _ | .ofChar i _ | .ofNumber i _ => w i = none
  | .ofString i j | .ofMoved i j | .substring i j _ _ | .substringFrom i j _ =>
      w i = none ∧ ∃ s, w j = some s
  | .assign i j | .assignMoved i j => (∃ s, w i = some s) ∧ ∃ s, w j = some s
  | .concat i arg | .plus i arg => (∃ s, w i = some s) ∧ ∃ piece, arg.piece w i = some piece
  | .replace i j k => (∃ s, w i = some s) ∧ (∃ s, w j = some s) ∧ ∃ s, w k = some s
  | .destroy i | .reserve i _ | .assignChars i _ | .setCharAt i _ _ | .setIndex i _ _
  | .replaceChar i _ _ | .remove i _ _ | .removeFrom i _ | .toLowerCase i | .toUpperCase i
  | .trim i => ∃ s, w i = some s

/-- The buffer for the characters of an argument. -/
def GrantsChars (A : Allocator) (s : Obj) (cstr : Option CString) : Prop :=
  ∀ t, cstr = some t → Grants A s t.strlen

/-- **Allocation succeeds**: the allocator provides the buffers that a call needs. -/
def Granted (A : Allocator) (w : World) : Op → Prop
  | .ofChars _ cstr | .ofFlash _ cstr => GrantsChars A init cstr
  | .ofString _ j => ∀ v, w j = some v → v.buffer ≠ .null → Grants A init v.len
  | .ofChar _ c => Grants A init (if c = 0 then 0 else 1)
  | .ofNumber _ text => Grants A init text.strlen
  | .reserve i size => ∀ s, w i = some s → Grants A s size.toNat
  | .assign i j => i ≠ j → ∀ s v, w i = some s → w j = some v → v.buffer ≠ .null →
      Grants A s v.len
  | .assignChars i cstr => ∀ s, w i = some s → GrantsChars A s cstr
  | .concat i arg | .plus i arg => ∀ s piece, w i = some s → arg.piece w i = some piece →
      piece.Granted A s
  | .replace i j k => ∀ s, w i = some s → ReplaceGranted A s (operand w i j) (operand w i k)
  | .substring _ j left right =>
      ∀ s, w j = some s → GrantsPart A s left.toNat right.toNat
  | .substringFrom _ j left => ∀ s, w j = some s → GrantsPart A s left.toNat s.len
  | .ofMoved _ _ | .destroy _ | .assignMoved _ _ | .setCharAt _ _ _ | .setIndex _ _ _
  | .replaceChar _ _ _ | .remove _ _ _ | .removeFrom _ _ | .toLowerCase _ | .toUpperCase _
  | .trim _ => True

/-- **The calls after which length and terminator agree.** -/
def Lawful (w : World) : Op → Prop
  | .assignMoved i j => i ≠ j → ∀ s v, w i = some s → w j = some v → s.buffer ≠ .null →
      v.buffer ≠ .null → v.len ≤ s.capacity → v.len = 0
  | .concat i arg | .plus i arg => ∀ s piece, w i = some s → arg.piece w i = some piece →
      piece.Lawful s
  | .setCharAt i loc c => ∀ s, w i = some s → loc.toNat < s.len → c ≠ 0
  | .setIndex i index c => ∀ s, w i = some s → index.toNat < s.len → c ≠ 0
  | .replaceChar i find rep => ∀ s, w i = some s → find ∈ s.chars → rep ≠ 0
  | .replace i j k => ∀ s, w i = some s → Replaceable s (operand w i j) (operand w i k)
  | .ofChars _ _ | .ofFlash _ _ | .ofString _ _ | .ofMoved _ _ | .ofChar _ _ | .ofNumber _ _
  | .destroy _ | .reserve _ _ | .assign _ _ | .assignChars _ _ | .remove _ _ _
  | .removeFrom _ _ | .substring _ _ _ _ | .substringFrom _ _ _ | .toLowerCase _
  | .toUpperCase _ | .trim _ => True

/-- A call that is made of objects that are there, gets its memory, and is lawful. -/
structure Good (w : World) (c : Call) : Prop where
  named : Named w c.op
  granted : Granted c.heap w c.op
  lawful : Lawful w c.op

/-! ### A call -/

/-- Every object is in order. -/
def InOrder (w : World) : Prop := ∀ i s, w i = some s → ∃ t, Holds s t

section

variable {A : Allocator} {w : World} {i j : ℕ} {s : Obj} {t : List UInt8}

theorem InOrder.update (hw : InOrder w) (i : ℕ) (hs : Holds s t) :
    InOrder (Function.update w i (some s)) := by
  intro k v hv
  by_cases hk : k = i
  · subst hk
    rw [Function.update_self, Option.some.injEq] at hv
    exact ⟨t, hv ▸ hs⟩
  · rw [Function.update_of_ne hk] at hv
    exact hw k v hv

theorem InOrder.remove (hw : InOrder w) (i : ℕ) : InOrder (Function.update w i none) := by
  intro k v hv
  by_cases hk : k = i
  · subst hk
    rw [Function.update_self] at hv
    cases hv
  · rw [Function.update_of_ne hk] at hv
    exact hw k v hv

/-- The call succeeds, and every object is in order afterwards. -/
def Succeeds (o : Option World) : Prop := ∃ w, o = some w ∧ InOrder w

/-- An object is made. -/
theorem InOrder.make (hw : InOrder w) (hi : w i = none) {o : Option Obj}
    (ho : ∃ s' t', o = some s' ∧ Holds s' t') : Succeeds (w.make i o) := by
  obtain ⟨s', t', rfl, hs'⟩ := ho
  exact ⟨_, if_pos (hi ▸ rfl), hw.update i hs'⟩

/-- An object is changed. -/
theorem InOrder.change (hw : InOrder w) (hi : w i = some s) {f : Obj → Option Obj}
    (hf : ∃ s' t', f s = some s' ∧ Holds s' t') : Succeeds (w.change i f) := by
  obtain ⟨s', t', hf, hs'⟩ := hf
  refine ⟨_, ?_, hw.update i hs'⟩
  rw [World.change, hi, Option.bind_some, hf]
  rfl

/-- An object that is there is changed. -/
theorem InOrder.changed (hw : InOrder w) (hnamed : ∃ s, w i = some s) {f : Obj → Option Obj}
    (hf : ∀ s t, w i = some s → Holds s t → ∃ s' t', f s = some s' ∧ Holds s' t') :
    Succeeds (w.change i f) := by
  obtain ⟨s, hi⟩ := hnamed
  obtain ⟨t, hs⟩ := hw i s hi
  exact hw.change hi (hf s t hi hs)

/-- The text of one object is moved to another one. -/
theorem InOrder.moved (hw : InOrder w) {s v : Obj} (hs : ∃ t, Holds s t) (hj : w j = some v)
    (hempty : s.buffer ≠ .null → v.buffer ≠ .null → v.len ≤ s.capacity → v.len = 0) :
    ∃ r, move s v = some r ∧
      InOrder (Function.update (Function.update w j (some r.2)) i (some r.1)) := by
  obtain ⟨t, hs⟩ := hs
  obtain ⟨u, hv⟩ := hw j v hj
  obtain ⟨s', v', hmove, hs', hv'⟩ := move_spec hs hv hempty
  exact ⟨(s', v'), hmove, (hw.update j hv').update i hs'⟩

/-- A piece that is appended is in order. -/
theorem InOrder.piece (hw : InOrder w) {arg : Arg} {piece : Piece}
    (hpiece : arg.piece w i = some piece) : piece.InOrder := by
  cases arg with
  | string j =>
      rw [Arg.piece] at hpiece
      split at hpiece
      · cases hpiece
        trivial
      · obtain ⟨v, hv, rfl⟩ := Option.map_eq_some_iff.1 hpiece
        exact hw j v hv
  | chars cstr => cases hpiece; trivial
  | char c => cases hpiece; trivial
  | number text => cases hpiece; trivial
  | flash str => cases hpiece; trivial

/-- The operands of `replace` are in order. -/
theorem InOrder.operand (hw : InOrder w) (t : List UInt8) (hj : ∃ v, w j = some v) :
    ∃ u, Operand (operand w i j) t u := by
  rw [WString.operand]
  by_cases hji : j = i
  · rw [if_pos hji]
    exact ⟨t, Or.inl ⟨rfl, rfl⟩⟩
  · obtain ⟨v, hv⟩ := hj
    obtain ⟨u, hu⟩ := hw j v hv
    rw [if_neg hji, hv]
    exact ⟨u, Or.inr ⟨v, rfl, hu⟩⟩

/-- An object is made from characters. -/
theorem assignChars_holds (hs : Holds s t) {cstr : Option CString}
    (hgranted : GrantsChars A s cstr) :
    ∃ s' t', assignChars A s (.ofChars cstr) = some s' ∧ Holds s' t' := by
  cases cstr with
  | none =>
      refine ⟨init, [], ?_, holds_init⟩
      have hnull : ¬Buffer.ofChars none ≠ .null := fun h => h rfl
      rw [assignChars, if_neg hnull, invalidate_spec hs]
  | some c =>
      obtain ⟨s', hassign, hs'⟩ := assignChars_spec hs (text_ofChars c) (hgranted c rfl)
      exact ⟨s', _, hassign, hs'.holds⟩

theorem ofChars_holds {cstr : Option CString} (hgranted : GrantsChars A init cstr) :
    ∃ s' t', ofChars A (.ofChars cstr) = some s' ∧ Holds s' t' := by
  cases cstr with
  | none => exact ⟨init, [], rfl, holds_init⟩
  | some c =>
      obtain ⟨s', hof, hs'⟩ := ofChars_spec (text_ofChars c) (hgranted c rfl)
      exact ⟨s', _, hof, hs'.holds⟩

theorem ofChar_holds {c : UInt8} (hgranted : Grants A init (if c = 0 then 0 else 1)) :
    ∃ s' t', ofChar A c = some s' ∧ Holds s' t' := by
  by_cases hc : c = 0
  · -- the array holds the empty text
    have htext : (Buffer.ofChar c).text = some [] := by
      subst hc
      rfl
    rw [if_pos hc] at hgranted
    obtain ⟨s', hassign, hs'⟩ := assignChars_spec holds_init htext hgranted
    exact ⟨s', _, hassign, hs'.holds⟩
  · rw [if_neg hc] at hgranted
    obtain ⟨s', hassign, hs'⟩ := assignChars_spec holds_init (text_ofChar hc) hgranted
    exact ⟨s', _, hassign, hs'.holds⟩

/-- The part of a text. -/
theorem InOrder.makeSubstring (hw : InOrder w) (hi : w i = none) (hj : w j = some s)
    {left right : ℕ} (hgranted : GrantsPart A s left right) :
    Succeeds (makeSubstring A w i j left right) := by
  obtain ⟨t, hs⟩ := hw j s hj
  obtain ⟨out, u, hsub, hout⟩ := substring_spec hs left right hgranted
  refine ⟨_, ?_, (hw.update j hs).update i hout⟩
  rw [WString.makeSubstring, if_pos (hi ▸ rfl), hj, Option.bind_some, hsub]
  rfl

/-- **A good call succeeds** and leaves every object in order. -/
theorem InOrder.step (hw : InOrder w) {c : Call} (hgood : Good w c) :
    Succeeds (WString.step w c) := by
  obtain ⟨hnamed, hgranted, hlawful⟩ := hgood
  obtain ⟨op, heap⟩ := c
  cases op with
  | ofChars i cstr => exact hw.make hnamed (ofChars_holds hgranted)
  | ofFlash i pstr => exact hw.make hnamed (assignChars_holds holds_init hgranted)
  | ofString i j =>
      obtain ⟨hi, v, hj⟩ := hnamed
      obtain ⟨u, hv⟩ := hw j v hj
      obtain ⟨s', hassign, hs'⟩ := assign_spec holds_init hv (hgranted v hj)
      have hmake := hw.make hi (o := WString.ofString heap v) ⟨s', u, hassign, hs'⟩
      simpa only [WString.step, hj, Option.bind_some] using hmake
  | ofMoved i j =>
      obtain ⟨hi, v, hj⟩ := hnamed
      obtain ⟨r, hmove, hr⟩ := hw.moved (i := i) ⟨[], holds_init⟩ hj fun h => absurd rfl h
      refine ⟨_, ?_, hr⟩
      simp only [WString.step, hi, hj, Option.isNone_none, if_true, Option.bind_some, ofMoved,
        hmove, Option.map_some]
  | ofChar i ch => exact hw.make hnamed (ofChar_holds hgranted)
  | ofNumber i text =>
      obtain ⟨s', hassign, hs'⟩ := assignChars_spec holds_init (text_ofChars text) hgranted
      exact hw.make hnamed ⟨s', _, hassign, hs'.holds⟩
  | destroy i =>
      obtain ⟨s, hi⟩ := hnamed
      obtain ⟨t, hs⟩ := hw i s hi
      obtain ⟨p, hfree⟩ := hs.free
      refine ⟨_, ?_, hw.remove i⟩
      simp only [WString.step, hi, Option.bind_some, hfree, Option.map_some]
  | reserve i size =>
      refine hw.changed hnamed fun s t hi hs => ?_
      obtain ⟨s', hreserve, -, hs'⟩ := reserve_spec hs (hgranted s hi)
      exact ⟨s', t, by rw [hreserve]; rfl, hs'.holds⟩
  | assign i j =>
      obtain ⟨hi, v, hj⟩ := hnamed
      obtain ⟨u, hv⟩ := hw j v hj
      rw [WString.step]
      dsimp only
      by_cases hij : i = j
      · rw [if_pos hij]
        exact hw.changed hi fun s t _ hs => ⟨s, t, rfl, hs⟩
      · rw [if_neg hij, hj, Option.bind_some]
        refine hw.changed hi fun s t hi hs => ?_
        obtain ⟨s', hassign, hs'⟩ := assign_spec hs hv (hgranted hij s v hi hj)
        exact ⟨s', u, hassign, hs'⟩
  | assignMoved i j =>
      obtain ⟨⟨s, hi⟩, v, hj⟩ := hnamed
      rw [WString.step]
      dsimp only
      by_cases hij : i = j
      · rw [if_pos hij]
        exact hw.changed ⟨s, hi⟩ fun s t _ hs => ⟨s, t, rfl, hs⟩
      · obtain ⟨r, hmove, hr⟩ := hw.moved (i := i) (hw i s hi) hj (hlawful hij s v hi hj)
        refine ⟨_, ?_, hr⟩
        rw [if_neg hij, hj, Option.bind_some, hi, Option.bind_some, hmove, Option.map_some]
  | assignChars i cstr =>
      exact hw.changed hnamed fun s t hi hs => assignChars_holds hs (hgranted s hi)
  | concat i arg =>
      obtain ⟨hi, piece, hpiece⟩ := hnamed
      have hchange := hw.changed hi (f := fun s => (WString.concat heap s piece).map Prod.fst)
        fun s t hi hs => by
          obtain ⟨s', ok, hconcat, hs'⟩ := concat_spec hs (hw.piece hpiece)
            (hlawful s piece hi hpiece) (hgranted s piece hi hpiece)
          exact ⟨s', _, by rw [hconcat]; rfl, hs'⟩
      simpa only [WString.step, hpiece, Option.bind_some] using hchange
  | plus i arg =>
      obtain ⟨hi, piece, hpiece⟩ := hnamed
      have hchange := hw.changed hi (f := fun s => WString.plus heap s piece) fun s t hi hs =>
        plus_spec hs (hw.piece hpiece) (hlawful s piece hi hpiece) (hgranted s piece hi hpiece)
      simpa only [WString.step, hpiece, Option.bind_some] using hchange
  | setCharAt i loc ch =>
      refine hw.changed hnamed fun s t hi hs => ?_
      obtain ⟨s', hset, hs'⟩ := setCharAt_spec hs (hlawful s hi)
      exact ⟨s', _, hset, hs'⟩
  | setIndex i index ch =>
      refine hw.changed hnamed fun s t hi hs => ?_
      obtain ⟨s', hset, hs'⟩ := setIndex_spec hs (hlawful s hi)
      exact ⟨s', _, hset, hs'⟩
  | replaceChar i find rep =>
      exact hw.changed hnamed fun s t hi hs => replaceChar_spec hs (hs.chars ▸ hlawful s hi)
  | replace i j k =>
      obtain ⟨hi, hj, hk⟩ := hnamed
      have hchange := hw.changed hi
        (f := fun s => WString.replace heap s (WString.operand w i j) (WString.operand w i k))
        fun s t hi hs => by
          obtain ⟨f, hfind⟩ := hw.operand (i := i) t hj
          obtain ⟨u, hrep⟩ := hw.operand (i := i) t hk
          exact replace_spec hs hfind hrep (hlawful s hi) (hgranted s hi)
      obtain ⟨v, hj⟩ := hj
      obtain ⟨x, hk⟩ := hk
      simpa only [WString.step, hj, hk, Option.isSome_some, and_self, if_true] using hchange
  | remove i index count =>
      refine hw.changed hnamed fun s t _ hs => ?_
      obtain ⟨s', hremove, hs'⟩ := remove_spec hs index.toNat count.toNat
      exact ⟨s', _, hremove, hs'⟩
  | removeFrom i index =>
      refine hw.changed hnamed fun s t _ hs => ?_
      obtain ⟨s', hremove, hs'⟩ := removeFrom_spec hs index.toNat
      exact ⟨s', _, hremove, hs'⟩
  | substring i j left right =>
      obtain ⟨hi, s, hj⟩ := hnamed
      exact hw.makeSubstring hi hj (hgranted s hj)
  | substringFrom i j left =>
      obtain ⟨hi, s, hj⟩ := hnamed
      have hmake := hw.makeSubstring hi hj (hgranted s hj)
      simpa only [WString.step, hj, Option.bind_some] using hmake
  | toLowerCase i =>
      refine hw.changed hnamed fun s t _ hs => ?_
      obtain ⟨s', hlower, hs'⟩ := toLowerCase_spec hs
      exact ⟨s', _, hlower, hs'⟩
  | toUpperCase i =>
      refine hw.changed hnamed fun s t _ hs => ?_
      obtain ⟨s', hupper, hs'⟩ := toUpperCase_spec hs
      exact ⟨s', _, hupper, hs'⟩
  | trim i => exact hw.changed hnamed fun s t _ hs => trim_spec hs

end

/-! ### Runs -/

/-- Good calls, one after the other. -/
theorem inOrder_run : ∀ (calls : List Call) {w : World}, InOrder w → Every step Good w calls →
    Succeeds (exec step w calls) := by
  intro calls
  induction calls with
  | nil =>
      intro w hw _
      exact ⟨w, rfl, hw⟩
  | cons c calls ih =>
      intro w hw hgood
      obtain ⟨w', hstep, hw'⟩ := hw.step hgood.1
      obtain ⟨w'', hexec, hw''⟩ := ih hw' (hgood.2 w' hstep)
      exact ⟨w'', by rw [exec_cons, hstep]; exact hexec, hw''⟩

/-- **Length and terminator agree**, in every state of every run whose calls are lawful, when
allocation succeeds.  No such call does something that C++ gives no meaning to. -/
theorem represented_of_lawful (calls : List Call) (hgood : Every step Good start calls) :
    ∃ w, exec step start calls = some w ∧ ∀ i s, w i = some s → Represented s := by
  have hstart : InOrder start := by
    intro i s hs
    cases hs
  obtain ⟨w, hexec, hw⟩ := inOrder_run calls hstart hgood
  refine ⟨w, hexec, fun i s hs => ?_⟩
  obtain ⟨t, hs⟩ := hw i s hs
  exact hs.represented

/-- A call with such a heap. -/
def generously (op : Op) : Call := ⟨op, generous⟩

/-- `"ab"`. -/
def ab : CString := ⟨[97, 98], by decide⟩

/-- `" ab"`. -/
def spacedAb : CString := ⟨[32, 97, 98], by decide⟩

/-- A string is made, trimmed, and gets another character. -/
def trimmed : List Call :=
  [generously (.ofChars 0 (some spacedAb)), generously (.trim 0), generously (.setCharAt 0 1 99)]

theorem represented_of_lawful_ab :
    Every step Good start trimmed ∧
      ∃ w, exec step start trimmed = some w ∧ (∀ i s, w i = some s → Represented s) ∧
        (w 0).bind (fun s => s.buffer.text) = some [97, 99] := by
  have hgood : Every step Good start trimmed := by
    refine ⟨⟨rfl, ?_, trivial⟩, fun w hw => ⟨⟨?_, trivial, trivial⟩, fun w' hw' =>
      ⟨⟨?_, trivial, ?_⟩, fun _ _ => trivial⟩⟩⟩
    · intro t ht
      cases ht
      exact Or.inr (by decide)
    · have hmade : (some w).map (fun w => (w 0).isSome) = some true := by
        rw [← hw]
        decide +kernel
      exact Option.isSome_iff_exists.1 (Option.some.inj hmade)
    · have hkept : ((some w).bind fun w => step w (generously (.trim 0))).map
          (fun w => (w 0).isSome) = some true := by
        rw [← hw]
        decide +kernel
      rw [Option.bind_some, hw'] at hkept
      exact Option.isSome_iff_exists.1 (Option.some.inj hkept)
    · intro s _ _ h
      cases h
  obtain ⟨w, hw, hall⟩ := represented_of_lawful _ hgood
  have htext : (exec step start trimmed).map (fun w => (w 0).bind fun s => s.buffer.text) =
      some (some [97, 99]) := by decide +kernel
  rw [hw, Option.map_some, Option.some.injEq] at htext
  exact ⟨hgood, w, hw, hall, htext⟩

/-- A run after which an object has a text that is not as long as it says. -/
theorem exists_not_represented {calls : List Call} {i n m : ℕ} (hnm : n ≠ m)
    (h : ((exec step start calls).bind fun w => (w i).map fun s => (s.buffer.strlen, s.len)) =
      some (some n, m)) :
    ∃ w s, exec step start calls = some w ∧ w i = some s ∧ ¬Represented s := by
  obtain ⟨w, hw, h⟩ := Option.bind_eq_some_iff.1 h
  obtain ⟨s, hs, h⟩ := Option.map_eq_some_iff.1 h
  obtain ⟨hstrlen, hlen⟩ : s.buffer.strlen = some n ∧ s.len = m := by
    simpa only [Prod.mk.injEq] using h
  refine ⟨w, s, hw, hs, ?_⟩
  rintro (⟨hnull, -⟩ | ⟨b, -, -, -, -, hrep⟩)
  · rw [hnull] at hstrlen
    cases hstrlen
  · rw [hstrlen, hlen] at hrep
    exact hnm (Option.some.inj hrep)

/-- **Length and terminator can differ.**  After `a = std::move(b)`, where `a` has room for the text
of `b`, the length of `b` is zero and its text is what it was; after `a.setCharAt(0, 0)` the text is
empty and the length is what it was; and `replace("aa", "aab")` of `"aaa"` writes beyond the
buffer. -/
theorem represented_violated :
    (∃ w s, exec step start [generously (.ofChars 0 (some ab)), generously (.ofChars 1 (some ab)),
      generously (.assignMoved 0 1)] = some w ∧ w 1 = some s ∧ ¬Represented s) ∧
    (∃ w s, exec step start [generously (.ofChars 0 (some ab)), generously (.setCharAt 0 0 0)] =
      some w ∧ w 0 = some s ∧ ¬Represented s) ∧
    ∃ w, exec step start [generously (.ofChars 0 (some ⟨[97, 97, 97], by decide⟩)),
      generously (.ofChars 1 (some ⟨[97, 97], by decide⟩)),
      generously (.ofChars 2 (some ⟨[97, 97, 98], by decide⟩))] = some w ∧
      step w (generously (.replace 0 1 2)) = none := by
  refine ⟨exists_not_represented (n := 2) (m := 0) (by decide) (by decide +kernel),
    exists_not_represented (n := 0) (m := 2) (by decide) (by decide +kernel), ?_⟩
  have hrun : (exec step start [generously (.ofChars 0 (some ⟨[97, 97, 97], by decide⟩)),
      generously (.ofChars 1 (some ⟨[97, 97], by decide⟩)),
      generously (.ofChars 2 (some ⟨[97, 97, 98], by decide⟩))]).map
        (fun w => (step w (generously (.replace 0 1 2))).isNone) = some true := by decide +kernel
  obtain ⟨w, hw, hnone⟩ := Option.map_eq_some_iff.1 hrun
  exact ⟨w, hw, Option.isNone_iff_eq_none.1 hnone⟩

end Pico.WString
