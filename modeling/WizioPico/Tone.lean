/-
**Tones and the state machines that play them.**

`tone` and `noTone` of `cores/RP2040/Tone.cpp`, with `PIOProgram` of `PIO.h` and what they use of
`hardware/pio.c`: the claiming of state machines, and the search for a place in the instruction
memory.  Whatever else claims state machines or loads programs does so between two calls.  What
the program is started with, and the mode of the pin, do not matter here and are left out.

* `Pico.Pio.Owner`, `Pico.Pio.State` — who has claimed a state machine; the table of tones, the
  objects it points to, and the places at which the program was loaded;
* `Pico.Pio.prepare`, `Pico.Pio.tone`, `Pico.Pio.noTone` — the functions;
* `Pico.Pio.Balanced` — the table, the claims and the objects agree;
* `Pico.Pio.Inv` — with what makes it last;
* `Pico.Pio.accounted_iff` — **nothing leaks along a run exactly if** no call stops a tone, whose
  object is never deleted, and none gets a state machine that it then has no program for.
-/

import WizioPico.ObjHeap
import WizioPico.Runs
import Mathlib.Data.Fin.Basic
import Mathlib.Data.Int.Notation
import Mathlib.Data.List.Nodup
import Mathlib.Logic.Function.Basic
import Mathlib.Tactic.Push

set_option relaxedAutoImplicit false
set_option autoImplicit false

namespace Pico.Pio

/-! ### The hardware -/

/-- Who has claimed a state machine. -/
inductive Owner where
  | free
  | other
  | tone
  deriving DecidableEq

/-- The claims of the four state machines of the two PIOs. -/
abbrev Claims := Fin 2 → Fin 4 → Owner

/-- `pio_claim_unused_sm`, as far as it looks for one. -/
def unusedSm (claims : Claims) (pio : Fin 2) : Option (Fin 4) :=
  (List.finRange 4).find? fun sm => claims pio sm = .free

/-- Another owner of a state machine. -/
def Claims.set (claims : Claims) (pio : Fin 2) (sm : Fin 4) (o : Owner) : Claims :=
  Function.update claims pio (Function.update (claims pio) sm o)

/-- `_pio_find_offset_for_program`, for a program without an origin: from the top down. -/
def findOffset (used : BitVec 32) (length : ℕ) : Option ℕ :=
  (List.range (32 - length + 1)).reverse.find? fun i =>
    used &&& (((1 <<< length) - 1) <<< i) == 0

/-- `tone_program.length`. -/
def toneProgramLength : ℕ := 8

/-! ### The functions -/

/-- A `Tone`, which has no PIO until it is prepared. -/
structure Tone where
  pin : UInt8
  pio : Option (Fin 2)
  sm : Fin 4

/-- The table `toneMap`, the objects, the number of objects made so far, the claims, and the
offsets of the program in the two instruction memories. -/
structure State where
  toneMap : List (UInt8 × ℕ)
  heap : ObjHeap Tone
  count : ℕ
  claims : Claims
  offset : Fin 2 → ℤ

/-- No tone has been played. -/
def State.start : State := ⟨[], ObjHeap.empty, 0, fun _ _ => .free, fun _ => -1⟩

/-- `_findFreeSM`: which state machine it claims. -/
def findFreeSM (claims : Claims) : Option (Fin 2 × Fin 4) :=
  match unusedSm claims 0 with
  | some sm => some (0, sm)
  | none => (unusedSm claims 1).map fun sm => (1, sm)

/-- `prepare`, with the used part of the two instruction memories. -/
def prepare (s : State) (used : Fin 2 → BitVec 32) : State × Option (Fin 2 × Fin 4) :=
  match findFreeSM s.claims with
  | none => (s, none)
  | some (pio, sm) =>
    let s := { s with claims := s.claims.set pio sm .tone }
    if s.offset pio < 0 then
      match findOffset (used pio) toneProgramLength with
      | none => (s, none)
      | some off => ({ s with offset := Function.update s.offset pio off }, some (pio, sm))
    else (s, some (pio, sm))

/-- `noTone`. -/
def noTone (s : State) (pin : UInt8) : Option State :=
  match s.toneMap.lookup pin with
  | none => some s
  | some p =>
    (s.heap.load p).bind fun entry =>
      entry.pio.map fun pio =>
        { s with
          claims := s.claims.set pio entry.sm .free
          toneMap := s.toneMap.filter fun e => e.1 ≠ pin }

/-- `std::map::insert`. -/
def insert (toneMap : List (UInt8 × ℕ)) (pin : UInt8) (p : ℕ) : List (UInt8 × ℕ) :=
  if (toneMap.lookup pin).isSome then toneMap else (pin, p) :: toneMap

theorem State.count_succ_ne_zero (s : State) : s.count + 1 ≠ 0 := Nat.succ_ne_zero _

/-- `new Tone()`, with the pin filled in. -/
def State.alloc (s : State) (pin : UInt8) : State :=
  { s with
    heap := s.heap.alloc (s.count + 1) ⟨pin, none, ⟨0, Nat.zero_lt_succ 3⟩⟩ s.count_succ_ne_zero
    count := s.count + 1 }

/-- The rest of `tone`, after a previous tone of the pin was stopped. -/
def newTone (s : State) (pin : UInt8) (used : Fin 2 → BitVec 32) : Option State :=
  let p := s.count + 1
  match prepare (s.alloc pin) used with
  | (s, none) => some { s with heap := s.heap.free p }
  | (s, some (pio, sm)) =>
    (s.heap.modify p fun t => { t with pio := some pio, sm := sm }).map fun heap =>
      { s with heap := heap, toneMap := insert s.toneMap pin p }

/-- `tone`. -/
def tone (s : State) (pin : UInt8) (frequency : ℕ) (used : Fin 2 → BitVec 32) : Option State :=
  if frequency = 0 then noTone s pin
  else
    (if (s.toneMap.lookup pin).isSome then noTone s pin else some s).bind fun s =>
      newTone s pin used

/-! ### Runs -/

/-- A call, with the state machines that others have claimed, and the used part of the two
instruction memories. -/
inductive Call where
  | tone (pin : UInt8) (frequency : ℕ) (others : Fin 2 → Fin 4 → Bool) (used : Fin 2 → BitVec 32)
  | noTone (pin : UInt8) (others : Fin 2 → Fin 4 → Bool)

/-- Others have claimed and given back state machines. -/
def State.meet (s : State) (others : Fin 2 → Fin 4 → Bool) : State :=
  { s with
    claims := fun pio sm =>
      if s.claims pio sm = .tone then .tone else if others pio sm then .other else .free }

/-- **One call.** -/
def step (s : State) : Call → Option State
  | .tone pin frequency others used => tone (s.meet others) pin frequency used
  | .noTone pin others => noTone (s.meet others) pin

/-- An entry of the table records a state machine. -/
def Records (s : State) (e : UInt8 × ℕ) (pio : Fin 2) (sm : Fin 4) : Prop :=
  ∃ t, s.heap.load e.2 = some t ∧ t.pio = some pio ∧ t.sm = sm

/-- **Everything is accounted for**: the state machines claimed are those recorded, there is one
entry for a pin, and an object is there exactly as long as an entry points to it. -/
structure Balanced (s : State) : Prop where
  claimed : ∀ pio sm, s.claims pio sm = .tone ↔ ∃ e ∈ s.toneMap, Records s e pio sm
  one_entry : (s.toneMap.map Prod.fst).Nodup
  objects : ∀ p, (s.heap.load p).isSome ↔ p ∈ s.toneMap.map Prod.snd

/-- A tone that could not be started leaves the claims as stopping the previous one has left
them. -/
def LeavesClaims (s s' : State) : Call → Prop
  | .tone pin frequency others _ => frequency ≠ 0 → s'.toneMap.lookup pin = none →
      ∀ t, noTone (s.meet others) pin = some t → s'.claims = t.claims
  | .noTone _ _ => True

/-- A call has an outcome, with everything accounted for. -/
def Accounted (s : State) (c : Call) : Prop :=
  ∃ s', step s c = some s' ∧ Balanced s' ∧ LeavesClaims s s' c

/-- The program is there for the state machine that is going to be claimed, or can be loaded. -/
def Fits (s : State) (used : Fin 2 → BitVec 32) : Prop :=
  ∀ pio sm, findFreeSM s.claims = some (pio, sm) →
    0 ≤ s.offset pio ∨ (findOffset (used pio) toneProgramLength).isSome

/-- A call that stops no tone, and does not claim a state machine in vain. -/
def Harmless (s : State) : Call → Prop
  | .tone pin frequency others used =>
    s.toneMap.lookup pin = none ∧ (frequency = 0 ∨ Fits (s.meet others) used)
  | .noTone pin _ => s.toneMap.lookup pin = none

/-! ### The hardware -/

theorem claims_set_self (claims : Claims) (pio : Fin 2) (sm : Fin 4) (o : Owner) :
    claims.set pio sm o pio sm = o := by
  rw [Claims.set, Function.update_self, Function.update_self]

theorem claims_set_of_ne {claims : Claims} {pio pio' : Fin 2} {sm sm' : Fin 4} {o : Owner}
    (h : ¬(pio' = pio ∧ sm' = sm)) : claims.set pio sm o pio' sm' = claims pio' sm' := by
  rw [Claims.set]
  by_cases hpio : pio' = pio
  · subst hpio
    rw [Function.update_self, Function.update_of_ne fun hsm => h ⟨rfl, hsm⟩]
  · rw [Function.update_of_ne hpio]

theorem free_of_unusedSm {claims : Claims} {pio : Fin 2} {sm : Fin 4}
    (h : unusedSm claims pio = some sm) : claims pio sm = .free := by
  have hfound := List.find?_some h
  exact of_decide_eq_true hfound

/-- Only a state machine that nobody has claimed is found. -/
theorem free_of_findFreeSM {claims : Claims} {pio : Fin 2} {sm : Fin 4}
    (h : findFreeSM claims = some (pio, sm)) : claims pio sm = .free := by
  rw [findFreeSM] at h
  split at h
  · rename_i sm' hsm
    cases h
    exact free_of_unusedSm hsm
  · obtain ⟨sm', hsm, heq⟩ := Option.map_eq_some_iff.1 h
    cases heq
    exact free_of_unusedSm hsm

/-- `prepare` with no state machine left. -/
theorem prepare_none {s : State} (h : findFreeSM s.claims = none) (used : Fin 2 → BitVec 32) :
    prepare s used = (s, none) := by
  rw [prepare, h]

/-- `prepare` with a state machine and the program for it. -/
theorem prepare_fits {s : State} {used : Fin 2 → BitVec 32} {pio : Fin 2} {sm : Fin 4}
    (h : findFreeSM s.claims = some (pio, sm)) (hfits : Fits s used) :
    ∃ offset, prepare s used =
      ({ s with claims := s.claims.set pio sm .tone, offset := offset }, some (pio, sm)) := by
  rw [prepare, h]
  dsimp only
  split
  · rename_i hneg
    rcases hfits pio sm h with hloaded | hroom
    · omega
    · obtain ⟨off, hoff⟩ := Option.isSome_iff_exists.1 hroom
      rw [hoff]
      exact ⟨_, rfl⟩
  · exact ⟨s.offset, rfl⟩

/-- `prepare` with a state machine, but no program for it. -/
theorem prepare_of_not_fits {s : State} {used : Fin 2 → BitVec 32} (h : ¬Fits s used) :
    ∃ pio sm, findFreeSM s.claims = some (pio, sm) ∧
      prepare s used = ({ s with claims := s.claims.set pio sm .tone }, none) := by
  rw [Fits] at h
  push Not at h
  obtain ⟨pio, sm, hfree, hneg, hroom⟩ := h
  refine ⟨pio, sm, hfree, ?_⟩
  rw [prepare, hfree]
  dsimp only
  have hnone : findOffset (used pio) toneProgramLength = none := by simpa using hroom
  rw [if_pos hneg, hnone]

/-! ### The table -/

theorem mem_of_lookup {l : List (UInt8 × ℕ)} {pin : UInt8} {p : ℕ}
    (h : l.lookup pin = some p) : (pin, p) ∈ l := by
  obtain ⟨l₁, l₂, rfl, -⟩ := List.lookup_eq_some_iff.1 h
  simp

theorem lookup_eq_none_iff {l : List (UInt8 × ℕ)} {pin : UInt8} :
    l.lookup pin = none ↔ pin ∉ l.map Prod.fst := by
  rw [List.lookup_eq_none_iff]
  constructor
  · rintro h hmem
    obtain ⟨e, he, rfl⟩ := List.mem_map.1 hmem
    simpa using h e he
  · intro h e he
    have hne : pin ≠ e.1 := fun heq => h (by rw [heq]; exact List.mem_map_of_mem he)
    simpa using hne

/-- Two entries that point to the same object are the same. -/
theorem eq_of_snd_eq {l : List (UInt8 × ℕ)} (hnd : (l.map Prod.snd).Nodup) {e e' : UInt8 × ℕ}
    (he : e ∈ l) (he' : e' ∈ l) (h : e.2 = e'.2) : e = e' :=
  List.inj_on_of_nodup_map hnd he he' h

/-! ### The invariant -/

/-- What makes the account last: no object has two entries, every entry has its state machine, and
the next object has a new address. -/
structure Inv (s : State) : Prop extends Balanced s where
  ptrs : (s.toneMap.map Prod.snd).Nodup
  started : ∀ e ∈ s.toneMap, ∃ pio sm, Records s e pio sm
  fresh : ∀ p, (s.heap.load p).isSome → p ≤ s.count

theorem inv_start : Inv State.start where
  claimed pio sm := by simp [State.start]
  one_entry := List.nodup_nil
  objects p := by simp [State.start]
  ptrs := List.nodup_nil
  started e he := by cases he
  fresh p hp := by simp [State.start] at hp

/-- What the invariant depends on. -/
theorem Inv.congr {s s' : State} (h : Inv s) (hmap : s'.toneMap = s.toneMap)
    (hload : ∀ p, s'.heap.load p = s.heap.load p)
    (hclaims : ∀ pio sm, s'.claims pio sm = .tone ↔ s.claims pio sm = .tone)
    (hcount : s.count ≤ s'.count) : Inv s' := by
  have hrec : ∀ e pio sm, Records s' e pio sm ↔ Records s e pio sm := fun e pio sm => by
    rw [Records, Records, hload]
  constructor
  · constructor
    · intro pio sm
      rw [hclaims, h.claimed, hmap]
      simp only [hrec]
    · rw [hmap]
      exact h.one_entry
    · intro p
      rw [hload, hmap]
      exact h.objects p
  · rw [hmap]
    exact h.ptrs
  · intro e he
    rw [hmap] at he
    obtain ⟨pio, sm, hr⟩ := h.started e he
    exact ⟨pio, sm, (hrec e pio sm).2 hr⟩
  · intro p hp
    rw [hload] at hp
    exact Nat.le_trans (h.fresh p hp) hcount

theorem meet_tone_iff (s : State) (others : Fin 2 → Fin 4 → Bool) (pio : Fin 2) (sm : Fin 4) :
    (s.meet others).claims pio sm = .tone ↔ s.claims pio sm = .tone := by
  simp only [State.meet]
  by_cases h : s.claims pio sm = .tone
  · simp [h]
  · simp only [h, if_false]
    split <;> simp

/-- Others do not touch the account. -/
theorem Inv.meet {s : State} (h : Inv s) (others : Fin 2 → Fin 4 → Bool) : Inv (s.meet others) :=
  h.congr rfl (fun _ => rfl) (meet_tone_iff s others) (Nat.le_refl _)

/-! ### Starting a tone -/

theorem Inv.load_new {s : State} (h : Inv s) : s.heap.load (s.count + 1) = none := by
  rw [← Option.not_isSome_iff_eq_none]
  intro hsome
  have := h.fresh _ hsome
  omega

/-- The objects after the new one has been deleted again. -/
theorem Inv.load_free_alloc {s : State} (h : Inv s) (pin : UInt8) (p : ℕ) :
    ((s.alloc pin).heap.free (s.count + 1)).load p = s.heap.load p := by
  by_cases hp : p = s.count + 1
  · rw [hp, ObjHeap.load_free_self, h.load_new]
  · rw [ObjHeap.load_free_of_ne hp]
    exact @ObjHeap.load_alloc_of_ne _ _ _ _ _ (Nat.succ_ne_zero _) hp

/-- Without a state machine the tone is given up, and nothing has changed. -/
theorem Inv.newTone_none {s : State} (h : Inv s) (pin : UInt8) (used : Fin 2 → BitVec 32)
    (hfree : findFreeSM s.claims = none) :
    ∃ s', newTone s pin used = some s' ∧ Inv s' ∧ s'.claims = s.claims := by
  have hprepare : prepare (s.alloc pin) used = (s.alloc pin, none) :=
    prepare_none (s := s.alloc pin) hfree used
  refine ⟨{ s.alloc pin with heap := (s.alloc pin).heap.free (s.count + 1) }, ?_, ?_, rfl⟩
  · rw [newTone, hprepare]
  · exact h.congr rfl (h.load_free_alloc pin) (fun _ _ => Iff.rfl) (Nat.le_succ _)

/-- **With a state machine and a program for it** the tone is recorded. -/
theorem Inv.newTone_fits {s : State} (h : Inv s) {pin : UInt8} {used : Fin 2 → BitVec 32}
    {pio : Fin 2} {sm : Fin 4} (hpin : s.toneMap.lookup pin = none)
    (hfree : findFreeSM s.claims = some (pio, sm)) (hfits : Fits s used) :
    ∃ s', newTone s pin used = some s' ∧ Inv s' ∧
      s'.toneMap = (pin, s.count + 1) :: s.toneMap := by
  obtain ⟨offset, hprepare⟩ := prepare_fits (s := s.alloc pin) hfree hfits
  obtain ⟨heap, hmod, hself, hother⟩ := ObjHeap.exists_modify
    (fun t : Tone => { t with pio := some pio, sm := sm })
    (ObjHeap.load_alloc_self s.heap (s.count + 1) ⟨pin, none, 0⟩ (Nat.succ_ne_zero _))
  have hold : ∀ p ≠ s.count + 1, heap.load p = s.heap.load p := fun p hp =>
    (hother p hp).trans (ObjHeap.load_alloc_of_ne hp)
  have hne : ∀ e ∈ s.toneMap, e.2 ≠ s.count + 1 := fun e he heq => by
    have hsome := (h.objects e.2).2 (List.mem_map_of_mem he)
    rw [heq, h.load_new] at hsome
    cases hsome
  have hrec : ∀ e ∈ s.toneMap, ∀ pio' sm',
      (∃ t, heap.load e.2 = some t ∧ t.pio = some pio' ∧ t.sm = sm') ↔ Records s e pio' sm' :=
    fun e he pio' sm' => by rw [hold e.2 (hne e he)]; rfl
  refine ⟨⟨(pin, s.count + 1) :: s.toneMap, heap, s.count + 1, s.claims.set pio sm .tone, offset⟩,
    ?_, ?_, rfl⟩
  · have hinsert : insert s.toneMap pin (s.count + 1) = (pin, s.count + 1) :: s.toneMap := by
      rw [insert, hpin]
      rfl
    rw [newTone, hprepare, ← hinsert]
    exact congrArg (Option.map _) hmod
  · constructor
    · constructor
      · intro pio' sm'
        by_cases hnew : pio' = pio ∧ sm' = sm
        · obtain ⟨rfl, rfl⟩ := hnew
          simp only [claims_set_self, true_iff]
          exact ⟨_, List.mem_cons_self, _, hself, rfl, rfl⟩
        · change s.claims.set pio sm .tone pio' sm' = .tone ↔ _
          rw [claims_set_of_ne hnew, h.claimed]
          constructor
          · rintro ⟨e, he, hr⟩
            exact ⟨e, List.mem_cons_of_mem _ he, (hrec e he pio' sm').2 hr⟩
          · rintro ⟨e, he, hr⟩
            rcases List.mem_cons.1 he with rfl | he
            · obtain ⟨t, ht, hpio, hsm⟩ := hr
              rw [hself] at ht
              cases ht
              cases hpio
              exact absurd ⟨rfl, hsm.symm⟩ hnew
            · exact ⟨e, he, (hrec e he pio' sm').1 hr⟩
      · exact List.nodup_cons.2 ⟨lookup_eq_none_iff.1 hpin, h.one_entry⟩
      · intro p
        rw [List.map_cons, List.mem_cons]
        by_cases hp : p = s.count + 1
        · subst hp
          simp [hself]
        · rw [hold p hp, h.objects]
          simp [hp]
    · refine List.nodup_cons.2 ⟨fun hmem => ?_, h.ptrs⟩
      obtain ⟨e, he, heq⟩ := List.mem_map.1 hmem
      exact hne e he heq
    · intro e he
      rcases List.mem_cons.1 he with rfl | he
      · exact ⟨pio, sm, _, hself, rfl, rfl⟩
      · obtain ⟨pio', sm', hr⟩ := h.started e he
        exact ⟨pio', sm', (hrec e he pio' sm').2 hr⟩
    · intro p hp
      by_cases hnew : p = s.count + 1
      · exact Nat.le_of_eq hnew
      · rw [hold p hnew] at hp
        exact Nat.le_succ_of_le (h.fresh p hp)

/-- **With a state machine but no program** the tone is given up, and the state machine stays
claimed. -/
theorem newTone_of_not_fits {s : State} (pin : UInt8) {used : Fin 2 → BitVec 32}
    (hfits : ¬Fits s used) :
    ∃ s' pio sm, newTone s pin used = some s' ∧ findFreeSM s.claims = some (pio, sm) ∧
      s'.toneMap = s.toneMap ∧ s'.claims = s.claims.set pio sm .tone := by
  obtain ⟨pio, sm, hfree, hprepare⟩ := prepare_of_not_fits (s := s.alloc pin) hfits
  refine ⟨{ s.alloc pin with
    heap := (s.alloc pin).heap.free (s.count + 1)
    claims := s.claims.set pio sm .tone }, pio, sm, ?_, hfree, rfl, rfl⟩
  rw [newTone, hprepare]
  rfl

/-! ### Stopping a tone -/

theorem noTone_none {s : State} {pin : UInt8} (h : s.toneMap.lookup pin = none) :
    noTone s pin = some s := by
  rw [noTone, h]

/-- **Stopping a tone** takes its entry away, but not its object. -/
theorem Inv.noTone_some {s : State} (h : Inv s) {pin : UInt8} {p : ℕ}
    (hp : s.toneMap.lookup pin = some p) :
    ∃ s', noTone s pin = some s' ∧ s'.heap = s.heap ∧ s'.count = s.count ∧
      s'.toneMap = s.toneMap.filter fun e => e.1 ≠ pin := by
  obtain ⟨pio, sm, t, ht, hpio, -⟩ := h.started _ (mem_of_lookup hp)
  refine ⟨{ s with
    claims := s.claims.set pio t.sm .free
    toneMap := s.toneMap.filter fun e => e.1 ≠ pin }, ?_, rfl, rfl, rfl⟩
  rw [noTone, hp]
  change (s.heap.load p).bind _ = _
  rw [ht, Option.bind_some, hpio]
  rfl

/-- The object that no entry points to any more. -/
theorem Inv.leaked {s : State} (h : Inv s) {pin : UInt8} {p : ℕ}
    (hp : s.toneMap.lookup pin = some p) :
    (s.heap.load p).isSome ∧ p ≤ s.count ∧
      p ∉ (s.toneMap.filter fun e => e.1 ≠ pin).map Prod.snd := by
  have hmem := mem_of_lookup hp
  have hsome := (h.objects p).2 (List.mem_map_of_mem hmem)
  refine ⟨hsome, h.fresh p hsome, fun hrest => ?_⟩
  obtain ⟨e, he, heq⟩ := List.mem_map.1 hrest
  obtain ⟨he, hne⟩ := List.mem_filter.1 he
  have hsame := eq_of_snd_eq h.ptrs he hmem heq
  rw [hsame] at hne
  simp at hne

/-- A new tone leaves the other objects and the other entries alone. -/
theorem newTone_old {s s' : State} {pin : UInt8} {used : Fin 2 → BitVec 32} {p : ℕ}
    (hs : newTone s pin used = some s') (hp : p ≤ s.count) :
    s'.heap.load p = s.heap.load p ∧
      (p ∈ s'.toneMap.map Prod.snd → p ∈ s.toneMap.map Prod.snd) := by
  have hne : p ≠ s.count + 1 := by omega
  have hload : (s.alloc pin).heap.load p = s.heap.load p :=
    @ObjHeap.load_alloc_of_ne _ _ _ _ _ (Nat.succ_ne_zero _) hne
  have hkeep : (prepare (s.alloc pin) used).1.heap = (s.alloc pin).heap ∧
      (prepare (s.alloc pin) used).1.toneMap = s.toneMap := by
    rw [prepare]
    split
    · exact ⟨rfl, rfl⟩
    · dsimp only
      split
      · split <;> exact ⟨rfl, rfl⟩
      · exact ⟨rfl, rfl⟩
  rw [newTone] at hs
  split at hs
  · rename_i t hprepare
    rw [hprepare] at hkeep
    cases hs
    dsimp only at hkeep ⊢
    rw [hkeep.2, ObjHeap.load_free_of_ne hne, hkeep.1]
    exact ⟨hload, id⟩
  · rename_i t pio sm hprepare
    rw [hprepare] at hkeep
    obtain ⟨heap, hmod, rfl⟩ := Option.map_eq_some_iff.1 hs
    dsimp only at hkeep hmod ⊢
    rw [hkeep.1] at hmod
    obtain ⟨heap', hmod', -, hother⟩ := ObjHeap.exists_modify
      (fun t : Tone => { t with pio := some pio, sm := sm })
      (ObjHeap.load_alloc_self s.heap (s.count + 1) ⟨pin, none, 0⟩ (Nat.succ_ne_zero _))
    obtain rfl : heap = heap' := Option.some.inj (hmod.symm.trans hmod')
    refine ⟨(hother p hne).trans hload, fun hmem => ?_⟩
    rw [hkeep.2, insert] at hmem
    split at hmem
    · exact hmem
    · rcases List.mem_cons.1 hmem with heq | hmem
      · exact absurd heq hne
      · exact hmem

/-! ### One call -/

/-- **A harmless call** keeps the account. -/
theorem Inv.step {s : State} (h : Inv s) {c : Call} (hc : Harmless s c) :
    ∃ s', step s c = some s' ∧ Inv s' ∧ LeavesClaims s s' c := by
  cases c with
  | noTone pin others =>
      exact ⟨s.meet others, noTone_none (s := s.meet others) hc, h.meet others, trivial⟩
  | tone pin frequency others used =>
      obtain ⟨hpin, hfits⟩ := hc
      have hm := h.meet others
      have hpin' : (s.meet others).toneMap.lookup pin = none := hpin
      by_cases hfreq : frequency = 0
      · refine ⟨s.meet others, ?_, hm, fun hne => absurd hfreq hne⟩
        rw [Pio.step, tone, if_pos hfreq, noTone_none hpin']
      · have hstep : Pio.step s (.tone pin frequency others used) =
            newTone (s.meet others) pin used := by
          rw [Pio.step, tone, if_neg hfreq, hpin']
          rfl
        rw [hstep]
        cases hfree : findFreeSM (s.meet others).claims with
        | none =>
            obtain ⟨s', hs', hinv, hclaims⟩ := hm.newTone_none pin used hfree
            refine ⟨s', hs', hinv, fun _ _ t ht => ?_⟩
            rw [noTone_none hpin'] at ht
            cases ht
            exact hclaims
        | some r =>
            obtain ⟨pio, sm⟩ := r
            obtain ⟨s', hs', hinv, hmap⟩ :=
              hm.newTone_fits hpin' hfree (hfits.resolve_left hfreq)
            refine ⟨s', hs', hinv, fun _ hnone => ?_⟩
            rw [hmap] at hnone
            simp at hnone

/-- Stopping a tone leaves an object that no entry points to. -/
theorem Inv.not_balanced_of_lookup {s s' : State} (h : Inv s) {pin : UInt8} {p : ℕ}
    (hp : s.toneMap.lookup pin = some p) (hload : s'.heap.load p = s.heap.load p)
    (hmap : p ∈ s'.toneMap.map Prod.snd →
      p ∈ (s.toneMap.filter fun e => e.1 ≠ pin).map Prod.snd) : ¬Balanced s' := by
  intro hb
  obtain ⟨hsome, -, hnot⟩ := h.leaked hp
  rw [← hload] at hsome
  exact hnot (hmap ((hb.objects p).1 hsome))

/-- **A call keeps the account exactly if it is harmless.** -/
theorem Inv.accounted_iff_harmless {s : State} (h : Inv s) (c : Call) : Accounted s c ↔ Harmless s c := by
  constructor
  · rintro ⟨s', hs', hb, -⟩
    cases c with
    | noTone pin others =>
        refine Option.eq_none_iff_forall_ne_some.2 fun p hp => ?_
        obtain ⟨t, ht, hheap, -, hmap⟩ := (h.meet others).noTone_some hp
        obtain rfl : t = s' := Option.some.inj (ht.symm.trans hs')
        exact (h.meet others).not_balanced_of_lookup hp (by rw [hheap]) (by rw [hmap]; exact id) hb
    | tone pin frequency others used =>
        have hm := h.meet others
        have hnone : s.toneMap.lookup pin = none := by
          refine Option.eq_none_iff_forall_ne_some.2 fun p hp => ?_
          have hp' : (s.meet others).toneMap.lookup pin = some p := hp
          obtain ⟨t, ht, hheap, hcount, hmap⟩ := hm.noTone_some hp'
          rw [Pio.step, tone] at hs'
          split at hs'
          · obtain rfl : t = s' := Option.some.inj (ht.symm.trans hs')
            exact hm.not_balanced_of_lookup hp' (by rw [hheap]) (by rw [hmap]; exact id) hb
          · rw [hp', ht] at hs'
            have hle : p ≤ t.count := by
              rw [hcount]
              exact (hm.leaked hp').2.1
            obtain ⟨hload, hmem⟩ := newTone_old hs' hle
            rw [hheap] at hload
            rw [hmap] at hmem
            exact hm.not_balanced_of_lookup hp' hload hmem hb
        refine ⟨hnone, or_iff_not_imp_left.2 fun hfreq => ?_⟩
        by_contra hfits
        have hnone' : (s.meet others).toneMap.lookup pin = none := hnone
        obtain ⟨t, pio, sm, ht, hfree, hmap, hclaims⟩ := newTone_of_not_fits pin hfits
        rw [Pio.step, tone, if_neg hfreq, hnone'] at hs'
        obtain rfl : t = s' := Option.some.inj (ht.symm.trans hs')
        obtain ⟨e, he, r, hr, hpio, hsm⟩ := (hb.claimed pio sm).1 (by
          rw [hclaims, claims_set_self])
        rw [hmap] at he
        have hold : (s.meet others).claims pio sm = .tone := by
          refine (hm.claimed pio sm).2 ⟨e, he, r, ?_, hpio, hsm⟩
          have hle := hm.fresh e.2 ((hm.objects e.2).2 (List.mem_map_of_mem he))
          rw [← (newTone_old ht hle).1, hr]
        rw [free_of_findFreeSM hfree] at hold
        cases hold
  · intro hc
    obtain ⟨s', hs', hinv, hleaves⟩ := h.step hc
    exact ⟨s', hs', hinv.toBalanced, hleaves⟩

/-- **Nothing leaks along a run exactly if** no call of it stops a tone, by `noTone` or by another
tone on the same pin, and no call claims a state machine that the program cannot be loaded for. -/
theorem accounted_iff (calls : List Call) :
    Runs.Every step Accounted State.start calls ↔ Runs.Every step Harmless State.start calls :=
  Runs.every_iff (fun _ c h => h.accounted_iff_harmless c)
    (fun _ _ _ h hc hs => by
      obtain ⟨t, ht, hinv, -⟩ := h.step hc
      obtain rfl := Option.some.inj (ht.symm.trans hs)
      exact hinv)
    calls inv_start

/-- A tone on pin 2 is started and stopped: its object is still there. -/
theorem noTone_leaks :
    ¬Runs.Every step Accounted State.start
      [.tone 2 440 (fun _ _ => false) (fun _ => 0), .noTone 2 (fun _ _ => false)] := by
  intro h
  obtain ⟨s', hs', hb, -⟩ := (h.2 _ rfl).1
  cases hs'
  exact absurd ((hb.objects 1).1 rfl) (by decide)

end Pico.Pio
