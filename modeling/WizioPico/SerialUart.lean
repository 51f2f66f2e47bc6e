/-
**The receive path of the serial port.**

`Uart` of `arduino/cores/RP2040/SerialUart.h` over the ring buffer of `arduino/arduino`.  The
receive interrupt stores bytes, the main loop takes them out; `read` does so with the interrupt
masked, but `available`, `peek` and the test at the start of `read` load the two indices without
masking it, in an order that C++ leaves open.

* `Pico.Uart.isrSave` — the interrupt, which runs to its end once it strikes;
* `Pico.Uart.Method.code` — `available`, `peek` and `read`, access by access;
* `Pico.Uart.System` — the port and the main loop, with all that has arrived, was taken from the
  port, was stored, and was returned by `read`;
* `Pico.Uart.Lossless` — nothing is lost, doubled or reordered, and the three methods do not
  promise too much;
* `Pico.Uart.reach_lossless` — **this holds in every state**, wherever the interrupt strikes, and as
  many bytes as `available` has returned can be read.
-/

import WizioPico.Interrupt
import WizioPico.RingBuffer
import WizioPico.Runs

set_option relaxedAutoImplicit false
set_option autoImplicit false

namespace Pico.Uart

open Interrupt (Code Meets)

/-! ### The interrupt -/

/-- What one run of `isr_save` leaves: the ring, the bytes still in the port, the bytes it has
taken out of the port, and the bytes it has stored. -/
structure Served (N : ℕ) where
  ring : RingBufferN N
  uart : List UInt8
  taken : List UInt8
  stored : List UInt8

/-- `isr_save`: as long as the port has a byte and the ring has room, the byte is moved. -/
def isrSave {N : ℕ} (r : RingBufferN N) : List UInt8 → Served N
  | [] => ⟨r, [], [], []⟩
  | c :: uart =>
    if r.availableForStore ≠ 0 then
      let s := isrSave (r.storeChar c) uart
      { s with taken := c :: s.taken, stored := if r.stores then c :: s.stored else s.stored }
    else ⟨r, c :: uart, [], []⟩

/-! ### The main loop -/

/-- The methods, each with the order in which the two indices of its first test are loaded. -/
inductive Method where
  | available (headFirst : Bool)
  | peek (headFirst : Bool)
  | read (headFirst : Bool)
  deriving DecidableEq

variable {N : ℕ}

/-- Loads both indices. -/
def loadIndices (headFirst : Bool) (k : ℕ → ℕ → Code (RingBufferN N) ℤ) :
    Code (RingBufferN N) ℤ :=
  if headFirst then
    .load RingBufferN.iHead fun head => .load RingBufferN.iTail fun tail => k head tail
  else
    .load RingBufferN.iTail fun tail => .load RingBufferN.iHead fun head => k head tail

/-- **The methods, access by access.**  What `read` does between `ENTER_CRITICAL` and
`EXIT_CRITICAL` is one access; its result goes through a `uint8_t`. -/
def Method.code : Method → Code (RingBufferN N) ℤ
  | .available o => loadIndices o fun head tail => .ret (RingBufferN.availableOf N head tail)
  | .peek o => loadIndices o fun head tail =>
    if tail = head then .ret (-1)
    else .load RingBufferN.iTail fun tail => .load (fun r => r.aucBuffer tail) fun b => .ret b.toNat
  | .read o => loadIndices o fun head tail =>
    if RingBufferN.availableOf N head tail = 0 then .ret (-1)
    else .access (fun r => r.readChar.1) fun r => .ret (r.readChar.2 % 256)

/-- The main loop: between two calls, or in a call, with the accesses it has left; `sawEmpty` says
that the ring was empty at some moment of the call. -/
inductive Main (N : ℕ) where
  | idle
  | running (m : Method) (code : Code (RingBufferN N) ℤ) (sawEmpty : Bool)

/-- The port, the ring and the main loop.  `returned` is the last call that has returned, with its
result, until the next one begins. -/
structure System (N : ℕ) where
  ring : RingBufferN N
  uart : List UInt8
  main : Main N
  arrived : List UInt8
  taken : List UInt8
  stored : List UInt8
  delivered : List UInt8
  returned : Option (Method × ℤ × Bool)

/-- What can happen next. -/
inductive Event where
  | arrive (b : UInt8)
  | irq
  | call (m : Method)
  | access

/-- The ghost of a call notices an empty ring. -/
def Main.notice (m : Main N) (r : RingBufferN N) : Main N :=
  match m with
  | .idle => .idle
  | .running m code sawEmpty => .running m code (sawEmpty || r.isEmpty)

/-- A call returns: the byte that `read` returns counts as delivered. -/
def System.finish (s : System N) (m : Method) (v : ℤ) (sawEmpty : Bool) : System N :=
  { s with
    main := .idle
    returned := some (m, v, sawEmpty)
    delivered := match m with
      | .read _ => if v = -1 then s.delivered else s.delivered ++ [UInt8.ofNat v.toNat]
      | _ => s.delivered }

/-- **One step**: a byte arrives, the interrupt strikes and runs to its end, or the main loop
begins a call or makes its next access to the ring. -/
def step (s : System N) : Event → Option (System N)
  | .arrive b => some { s with uart := s.uart ++ [b], arrived := s.arrived ++ [b] }
  | .irq =>
    let t := isrSave s.ring s.uart
    some { s with
      ring := t.ring, uart := t.uart, main := s.main.notice t.ring
      taken := s.taken ++ t.taken, stored := s.stored ++ t.stored }
  | .call m =>
    match s.main with
    | .idle => some { s with main := .running m m.code s.ring.isEmpty, returned := none }
    | .running _ _ _ => none
  | .access =>
    match s.main with
    | .running m (.access f k) sawEmpty =>
      let s' := { s with ring := f s.ring }
      match k s.ring with
      | .ret v => some (s'.finish m v sawEmpty)
      | code => some { s' with main := .running m code (sawEmpty || s'.ring.isEmpty) }
    | _ => none

/-- A port that has just been constructed. -/
def System.start (hN : 0 < N) : System N := ⟨.empty hN, [], .idle, [], [], [], [], none⟩

/-! ### What is expected -/

/-- **Nothing is lost, doubled or reordered**, and no call promises too much. -/
structure Lossless (s : System N) : Prop where
  /-- What `read` has returned is, in order, a prefix of what the interrupt has stored. -/
  inOrder : s.delivered <+: s.stored
  /-- The rest of it is in the ring: no unread byte has been overwritten. -/
  kept : s.stored = s.delivered ++ s.ring.unread
  /-- The interrupt has stored every byte it has taken, in the order of their arrival. -/
  taken : s.taken = s.stored
  arrived : s.arrived = s.taken ++ s.uart
  /-- `read` returns -1 only if the ring was empty at some moment of the call. -/
  read : ∀ o sawEmpty, s.returned = some (.read o, -1, sawEmpty) → sawEmpty = true
  /-- `available` returns no more than there is to read. -/
  available : ∀ o v sawEmpty, s.returned = some (.available o, v, sawEmpty) →
    0 ≤ v ∧ v ≤ s.ring.unread.length
  /-- `peek` returns the next byte, or -1 if the ring was empty at some moment of the call. -/
  peek : ∀ o v sawEmpty, s.returned = some (.peek o, v, sawEmpty) →
    v = -1 ∧ sawEmpty = true ∨ ∃ b : UInt8, s.ring.unread.head? = some b ∧ v = b.toNat

/-! ### What the interrupt does to the ring -/

/-- Bytes may have been added. -/
def Grows (r t : RingBufferN N) : Prop := t.iTail = r.iTail ∧ r.unread <+: t.unread

theorem Grows.refl (r : RingBufferN N) : Grows r r := ⟨rfl, List.prefix_refl _⟩

theorem Grows.trans (r t u : RingBufferN N) (h : Grows r t) (h' : Grows t u) : Grows r u :=
  ⟨h'.1.trans h.1, h.2.trans h'.2⟩

/-- What is empty now was empty before. -/
theorem Grows.nil {r t : RingBufferN N} (h : Grows r t) (ht : t.unread = []) : r.unread = [] :=
  List.prefix_nil.1 (ht ▸ h.2)

/-- **The interrupt appends what it takes out of the port**, and nothing else. -/
theorem isrSave_spec (r : RingBufferN N) (uart : List UInt8) :
    (isrSave r uart).ring.iTail = r.iTail ∧
      (isrSave r uart).ring.unread = r.unread ++ (isrSave r uart).stored ∧
      (isrSave r uart).taken = (isrSave r uart).stored ∧
      uart = (isrSave r uart).taken ++ (isrSave r uart).uart := by
  induction uart generalizing r with
  | nil => simp [isrSave]
  | cons c uart ih =>
      unfold isrSave
      split
      · rename_i hroom
        have hstores : r.stores = true := by
          rw [RingBufferN.stores_iff]
          rw [RingBufferN.availableForStore_eq] at hroom
          have := Ring.count_lt r.tail_lt r.head_lt
          rw [← RingBufferN.length_unread] at this
          omega
        obtain ⟨htail, hunread⟩ := r.unread_storeChar c hstores
        obtain ⟨ih₁, ih₂, ih₃, ih₄⟩ := ih (r.storeChar c)
        simp only [hstores, if_true]
        refine ⟨ih₁.trans htail, ?_, by rw [ih₃], ?_⟩
        · rw [ih₂, hunread, List.append_assoc]
          rfl
        · rw [List.cons_append, ← ih₄]
      · simp

theorem grows_isrSave (r : RingBufferN N) (uart : List UInt8) :
    Grows r (isrSave r uart).ring := by
  obtain ⟨htail, hunread, -⟩ := isrSave_spec r uart
  exact ⟨htail, hunread ▸ List.prefix_append _ _⟩

/-! ### What the methods guarantee -/

/-- The result of a call that began with the ring `r₀`, in terms of the rings before and after its
last access. -/
def Post (r₀ : RingBufferN N) : Method → ℤ → RingBufferN N → RingBufferN N → Prop
  | .available _, v, r, r' => r' = r ∧ 0 ≤ v ∧ v ≤ r.unread.length
  | .peek _, v, r, r' =>
    r' = r ∧ (v = -1 ∧ r₀.unread = [] ∨ ∃ b : UInt8, r.unread.head? = some b ∧ v = b.toNat)
  | .read _, v, r, r' =>
    v = -1 ∧ r' = r ∧ r₀.unread = [] ∨ ∃ b : UInt8, v = b.toNat ∧ r.unread = b :: r'.unread

/-- **The two loads.**  The tail does not change between them, so in either order the indices are
those of one ring, the one at the moment the head was loaded. -/
theorem meets_loadIndices {Q : ℤ → RingBufferN N → RingBufferN N → Prop} {r₀ : RingBufferN N}
    {o : Bool} {k : ℕ → ℕ → Code (RingBufferN N) ℤ}
    (h : ∀ r t, Grows r₀ r → Grows r t →
      (∀ a, k r.iHead r.iTail = .ret a → Q a t t) ∧ Meets Grows Eq Q (k r.iHead r.iTail) t) :
    Meets Grows Eq Q (loadIndices o k) r₀ := by
  cases o with
  | true =>
      refine Meets.load_more (fun _ => rfl) (fun _ => rfl) fun r hr => ?_
      refine Meets.load (fun _ => rfl) fun t ht => ?_
      rw [ht.1]
      exact h r t hr ht
  | false =>
      refine Meets.load_more (fun _ => rfl) (fun _ => rfl) fun r hr => ?_
      refine Meets.load (fun _ => rfl) fun t ht => ?_
      rw [← ht.1]
      exact h t t (hr.trans _ _ _ ht) (Grows.refl t)

theorem meets_available (o : Bool) (r₀ : RingBufferN N) :
    Meets Grows Eq (Post r₀ (.available o)) (Method.available o).code r₀ := by
  refine meets_loadIndices fun r t _ ht => ⟨fun a ha => ?_, trivial⟩
  cases ha
  rw [r.availableOf_eq]
  exact ⟨rfl, by omega, by exact_mod_cast ht.2.length_le⟩

theorem meets_peek (o : Bool) (r₀ : RingBufferN N) :
    Meets Grows Eq (Post r₀ (.peek o)) (Method.peek o).code r₀ := by
  refine meets_loadIndices fun r t hr ht => ?_
  by_cases he : r.iTail = r.iHead
  · rw [if_pos he]
    refine ⟨fun a ha => ?_, trivial⟩
    cases ha
    exact ⟨rfl, .inl ⟨rfl, hr.nil ((RingBufferN.unread_eq_nil_iff r).2 he)⟩⟩
  · rw [if_neg he]
    refine ⟨fun a ha => (by cases ha), ?_⟩
    refine Meets.load_more (fun _ => rfl) (fun _ => rfl) fun u hu => ?_
    refine Meets.load_ret (fun _ => rfl) fun w hw => ⟨rfl, .inr ⟨w.aucBuffer w.iTail, ?_, ?_⟩⟩
    · have hrw : Grows r w := (ht.trans _ _ _ hu).trans _ _ _ hw
      exact w.head_unread fun hnil =>
        he ((RingBufferN.unread_eq_nil_iff r).1 (hrw.nil hnil))
    · rw [hw.1]

theorem meets_read (o : Bool) (r₀ : RingBufferN N) :
    Meets Grows Eq (Post r₀ (.read o)) (Method.read o).code r₀ := by
  refine meets_loadIndices fun r t hr ht => ?_
  by_cases he : RingBufferN.availableOf N r.iHead r.iTail = 0
  · rw [if_pos he]
    refine ⟨fun a ha => ?_, trivial⟩
    cases ha
    rw [r.availableOf_eq] at he
    exact .inl ⟨rfl, rfl, hr.nil (List.length_eq_zero_iff.1 (by exact_mod_cast he))⟩
  · rw [if_neg he]
    refine ⟨fun a ha => (by cases ha), fun u hu =>
      ⟨fun a ha => ?_, fun hno => (by cases hno), trivial⟩⟩
    cases ha
    rw [r.availableOf_eq] at he
    have hne : u.unread ≠ [] := fun hnil => he (by rw [(ht.trans _ _ _ hu).nil hnil]; rfl)
    obtain ⟨b, hb, hunread⟩ := u.unread_readChar hne
    have hlt := b.toNat_lt
    exact .inr ⟨b, by rw [hb]; omega, hunread⟩

/-- **Every method keeps its promise**, whatever the interrupt does meanwhile. -/
theorem meets_code (m : Method) (r₀ : RingBufferN N) :
    Meets Grows Eq (Post r₀ m) m.code r₀ := by
  cases m with
  | available o => exact meets_available o r₀
  | peek o => exact meets_peek o r₀
  | read o => exact meets_read o r₀

/-! ### The invariant -/

/-- A call that is on its way keeps its promise, and has noticed if it began with an empty ring. -/
def OnTheWay (s : System N) : Prop :=
  match s.main with
  | .idle => True
  | .running m code sawEmpty =>
    ∃ r₀, Meets Grows Eq (Post r₀ m) code s.ring ∧ (r₀.unread = [] → sawEmpty = true)

/-- What the result of a call promises. -/
def Promise (s : System N) : Method → ℤ → Bool → Prop
  | .available _, v, _ => 0 ≤ v ∧ v ≤ s.ring.unread.length
  | .peek _, v, sawEmpty =>
    v = -1 ∧ sawEmpty = true ∨ ∃ b : UInt8, s.ring.unread.head? = some b ∧ v = b.toNat
  | .read _, v, sawEmpty => v = -1 → sawEmpty = true

/-- When a call has returned, the laws about results are its own promise. -/
theorem Lossless.of_promise {s : System N} {m : Method} {v : ℤ} {e : Bool}
    (hret : s.returned = some (m, v, e)) (hkept : s.stored = s.delivered ++ s.ring.unread)
    (htaken : s.taken = s.stored) (harrived : s.arrived = s.taken ++ s.uart)
    (hpromise : Promise s m v e) : Lossless s := by
  refine ⟨⟨_, hkept.symm⟩, hkept, htaken, harrived, ?_, ?_, ?_⟩
  · intro o sawEmpty hr
    rw [hret] at hr
    cases hr
    exact hpromise rfl
  · intro o v sawEmpty hr
    rw [hret] at hr
    cases hr
    exact hpromise
  · intro o v sawEmpty hr
    rw [hret] at hr
    cases hr
    exact hpromise

/-- **The invariant**: nothing is lost, and the call that is on its way keeps its promise.  While
a call is on its way, no result is held. -/
structure Inv (s : System N) : Prop where
  lossless : Lossless s
  onTheWay : OnTheWay s
  fresh : s.main ≠ .idle → s.returned = none

theorem inv_start (hN : 0 < N) : Inv (System.start hN) where
  lossless := by
    have h : (System.start hN).ring.unread = [] := RingBufferN.unread_empty hN
    constructor <;> simp [System.start, RingBufferN.unread_empty]
  onTheWay := trivial
  fresh := fun h => absurd rfl h

namespace Inv

variable {s : System N}

/-- A byte arrives. -/
theorem arrive (h : Inv s) (b : UInt8) :
    Inv { s with uart := s.uart ++ [b], arrived := s.arrived ++ [b] } where
  lossless :=
    { h.lossless with arrived := by simp [h.lossless.arrived] }
  onTheWay := h.onTheWay
  fresh := h.fresh

/-- **The interrupt strikes.** -/
theorem irq (h : Inv s) : ∀ s', step s .irq = some s' → Inv s' := by
  intro s' hs'
  cases hs'
  obtain ⟨htail, hunread, htaken, huart⟩ := isrSave_spec s.ring s.uart
  have hgrows := grows_isrSave s.ring s.uart
  constructor
  · constructor
    · exact h.lossless.inOrder.trans (List.prefix_append _ _)
    · simp only [hunread, h.lossless.kept, List.append_assoc]
    · simp only [h.lossless.taken, htaken]
    · simp only [h.lossless.arrived, List.append_assoc, ← huart]
    · exact h.lossless.read
    · intro o v e hr
      obtain ⟨h0, hv⟩ := h.lossless.available o v e hr
      exact ⟨h0, by have := hgrows.2.length_le; simp only; omega⟩
    · intro o v e hr
      refine (h.lossless.peek o v e hr).imp_right ?_
      rintro ⟨b, hb, hv⟩
      refine ⟨b, ?_, hv⟩
      simp only [hunread]
      rw [List.head?_append, hb]
      rfl
  · have hway := h.onTheWay
    unfold OnTheWay at hway ⊢
    cases hm : s.main with
    | idle => simp [Main.notice]
    | running m code e =>
        rw [hm] at hway
        obtain ⟨r₀, hmeets, he⟩ := hway
        exact ⟨r₀, hmeets.interfere Grows.trans hgrows, fun h0 => by simp [he h0]⟩
  · intro hidle
    refine h.fresh fun he => hidle ?_
    simp only [he, Main.notice]

/-- **A call begins.** -/
theorem call (h : Inv s) (m : Method) : ∀ s', step s (.call m) = some s' → Inv s' := by
  intro s' hs'
  simp only [step] at hs'
  split at hs'
  · cases hs'
    refine ⟨⟨h.lossless.inOrder, h.lossless.kept, h.lossless.taken, h.lossless.arrived, ?_, ?_, ?_⟩,
      ?_, fun _ => rfl⟩
    · intro o e hr
      cases hr
    · intro o v e hr
      cases hr
    · intro o v e hr
      cases hr
    · exact ⟨s.ring, meets_code m s.ring, fun h0 => (RingBufferN.isEmpty_iff _).2 h0⟩
  · cases hs'

/-- **A call returns** with its last access. -/
theorem finish (h : Inv s) {m : Method} {v : ℤ} {e : Bool} {r₀ r' : RingBufferN N}
    (hpost : Post r₀ m v s.ring r') (he : r₀.unread = [] → e = true) :
    Inv (({ s with ring := r' } : System N).finish m v e) := by
  refine ⟨?_, trivial, fun hno => absurd rfl hno⟩
  cases m with
  | available o =>
      obtain ⟨rfl, h0, hv⟩ := hpost
      exact .of_promise rfl h.lossless.kept h.lossless.taken h.lossless.arrived ⟨h0, hv⟩
  | peek o =>
      obtain ⟨rfl, hv⟩ := hpost
      exact .of_promise rfl h.lossless.kept h.lossless.taken h.lossless.arrived
        (hv.imp_left fun hv => ⟨hv.1, he hv.2⟩)
  | read o =>
      rcases hpost with ⟨rfl, rfl, h0⟩ | ⟨b, rfl, hunread⟩
      · exact .of_promise rfl h.lossless.kept h.lossless.taken h.lossless.arrived
          fun _ => he h0
      · have hne : (b.toNat : ℤ) ≠ -1 := by omega
        have hbyte : UInt8.ofNat (b.toNat : ℤ).toNat = b := by simp
        have hdelivered :
            (({ s with ring := r' } : System N).finish (.read o) b.toNat e).delivered =
              s.delivered ++ [b] := by
          simp only [System.finish, if_neg hne, hbyte]
        have hkept : s.stored = (s.delivered ++ [b]) ++ r'.unread := by
          rw [h.lossless.kept, hunread, List.append_assoc]
          rfl
        refine .of_promise rfl ?_ h.lossless.taken h.lossless.arrived fun hv => absurd hv hne
        rw [hdelivered]
        exact hkept

/-- **The main loop makes an access.** -/
theorem access (h : Inv s) : ∀ s', step s .access = some s' → Inv s' := by
  intro s' hs'
  have hway := h.onTheWay
  unfold OnTheWay at hway
  simp only [step] at hs'
  split at hs'
  · rename_i m f k e hm
    rw [hm] at hway
    obtain ⟨r₀, hmeets, he⟩ := hway
    rcases hmeets.access_cases Grows.refl with ⟨v, hk, hpost⟩ | ⟨hk, hsame, hmeets⟩
    · rw [hk] at hs'
      cases hs'
      exact h.finish hpost he
    · have hs' : some { s with
          ring := f s.ring
          main := .running m (k s.ring) (e || (f s.ring).isEmpty) } = some s' := by
        cases hc : k s.ring with
        | ret v => rw [hc] at hk; cases hk
        | access f' k' => rw [hc] at hs'; exact hs'
      cases hs'
      rw [← hsame] at hmeets ⊢
      refine ⟨⟨h.lossless.inOrder, h.lossless.kept, h.lossless.taken, h.lossless.arrived,
        h.lossless.read, h.lossless.available, h.lossless.peek⟩,
        ⟨r₀, hmeets, fun h0 => by simp [he h0]⟩, fun _ => ?_⟩
      exact h.fresh (by rw [hm]; simp)
  · cases hs'

/-- **One step.** -/
theorem step (h : Inv s) (ev : Event) {s' : System N} (hs' : step s ev = some s') : Inv s' := by
  cases ev with
  | arrive b => cases hs'; exact h.arrive b
  | irq => exact h.irq s' hs'
  | call m => exact h.call m s' hs'
  | access => exact h.access s' hs'

end Inv

/-! ### Runs -/

/-- Every state of a run satisfies the invariant. -/
theorem inv_of_reach (hN : 0 < N) {s : System N} (h : Runs.Reach step (System.start hN) s) :
    Inv s :=
  h.invariant (inv_start hN) fun _ ev _ hinv hs' => hinv.step ev hs'

/-- A `read` that has seen an empty ring, since `n` bytes had been stored, has seen them all
delivered. -/
def Exhausted (n : ℕ) (s : System N) : Prop :=
  n ≤ s.stored.length ∧
    (∀ m code, s.main = .running m code true → n ≤ s.delivered.length) ∧
    ∀ o v, s.returned = some (.read o, v, true) → n ≤ s.delivered.length

/-- Once the ring is empty, all that was stored is delivered. -/
theorem Inv.delivered_of_isEmpty {s : System N} (h : Inv s) (he : s.ring.isEmpty = true) :
    s.delivered.length = s.stored.length := by
  rw [h.lossless.kept, (RingBufferN.isEmpty_iff _).1 he, List.append_nil]

/-- This is kept by every step. -/
theorem Exhausted.step {n : ℕ} {s s' : System N} (h : Exhausted n s) (hinv : Inv s) {ev : Event}
    (hs' : step s ev = some s') : Exhausted n s' := by
  obtain ⟨hn, hmain, hret⟩ := h
  have hinv' := hinv.step ev hs'
  -- A ring that is empty now has delivered the `n` bytes.
  have hnow : n ≤ s'.stored.length → s'.ring.isEmpty = true → n ≤ s'.delivered.length :=
    fun hn he => (hinv'.delivered_of_isEmpty he).symm ▸ hn
  cases ev with
  | arrive b =>
      cases hs'
      exact ⟨hn, hmain, hret⟩
  | irq =>
      cases hs'
      have hn' : n ≤ (s.stored ++ (isrSave s.ring s.uart).stored).length := by
        rw [List.length_append]
        omega
      refine ⟨hn', fun m code hm => ?_, hret⟩
      cases hr : s.main with
      | idle => simp [hr, Main.notice] at hm
      | running m' code' e =>
          simp only [hr, Main.notice, Main.running.injEq] at hm
          obtain ⟨-, -, he⟩ := hm
          rcases Bool.or_eq_true_iff.1 he with he | he
          · exact hmain m' code' (he ▸ hr)
          · exact hnow hn' he
  | call m =>
      simp only [Uart.step] at hs'
      split at hs'
      · cases hs'
        refine ⟨hn, fun m' code hm => ?_, fun o v hr => by cases hr⟩
        simp only [Main.running.injEq] at hm
        exact hnow hn hm.2.2
      · cases hs'
  | access =>
      simp only [Uart.step] at hs'
      split at hs'
      · rename_i m f k e hm
        split at hs'
        · rename_i v hk
          cases hs'
          refine ⟨hn, fun m' code hm' => (by cases hm'), fun o v' hr => ?_⟩
          cases hr
          have := hmain _ _ hm
          simp only [System.finish]
          split
          · exact this
          · rw [List.length_append]
            omega
        · cases hs'
          refine ⟨hn, fun m' code hm' => ?_, hret⟩
          simp only [Main.running.injEq] at hm'
          rcases Bool.or_eq_true_iff.1 hm'.2.2 with he | he
          · exact hmain m _ (he ▸ hm)
          · exact hnow hn he
      · cases hs'

/-- **What `available` has promised can be read**: a later `read` returns -1 only after that many
bytes have been delivered. -/
theorem Inv.deliverable {s s' : System N} (h : Inv s) {o : Bool} {v : ℤ} {e : Bool}
    (hv : s.returned = some (.available o, v, e)) {evs : List Event}
    (hrun : Runs.exec Uart.step s evs = some s') {o' e' : Bool}
    (hread : s'.returned = some (.read o', -1, e')) :
    s.delivered.length + v ≤ s'.delivered.length := by
  have hidle : s.main = .idle := by
    by_contra hno
    rw [h.fresh hno] at hv
    cases hv
  have hstart : Exhausted s.stored.length s := by
    refine ⟨Nat.le_refl _, fun m code hm => ?_, fun o v hr => ?_⟩
    · rw [hidle] at hm
      cases hm
    · rw [hv] at hr
      cases hr
  obtain ⟨hinv', -, -, hret⟩ := Runs.exec_invariant (P := fun s' => Inv s' ∧ Exhausted _ s')
    (fun t ev t' ht ht' => ⟨ht.1.step ev ht', ht.2.step ht.1 ht'⟩) evs ⟨h, hstart⟩ hrun
  have he : e' = true := hinv'.lossless.read o' e' hread
  have hle := hret o' (-1) (he ▸ hread)
  have hbound := (h.lossless.available o v e hv).2
  have hlen := congrArg List.length h.lossless.kept
  rw [List.length_append] at hlen
  omega

/-- **The receive path is lossless in every state**, wherever the interrupt has struck, and what
`available` has returned can be read. -/
theorem reach_lossless (hN : 0 < N) {s : System N} (h : Runs.Reach step (System.start hN) s) :
    Lossless s ∧ ∀ o v e, s.returned = some (.available o, v, e) →
      ∀ evs s', Runs.exec step s evs = some s' →
        ∀ o' e', s'.returned = some (.read o', -1, e') →
          s.delivered.length + v ≤ s'.delivered.length := by
  have hinv := inv_of_reach hN h
  exact ⟨hinv.lossless, fun o v e hv evs s' hrun o' e' hread => hinv.deliverable hv hrun hread⟩

/-- Two bytes arrive; the interrupt stores the first before `read` is called, and the second
between the two loads of its test. -/
def struck : List Event :=
  [.arrive 65, .irq, .call (.read true), .access, .arrive 66, .irq, .access, .access]

/-- The first byte has been read then, and the second one is in the ring. -/
theorem lossless_struck : ∃ s : System 4, Runs.exec step (System.start (by decide)) struck = some s ∧
    s.returned = some (.read true, 65, false) ∧ s.delivered = [65] ∧ s.ring.unread = [66] ∧
      Lossless s := by
  have hrun : (Runs.exec step (System.start (N := 4) (by decide)) struck).map
      (fun s => (s.returned, s.delivered, s.ring.unread)) =
        some (some (.read true, 65, false), [65], [66]) := by decide
  obtain ⟨s, hs, hv⟩ := Option.map_eq_some_iff.1 hrun
  obtain ⟨hret, hv⟩ := Prod.mk.inj hv
  obtain ⟨hdel, hunread⟩ := Prod.mk.inj hv
  exact ⟨s, hs, hret, hdel, hunread, (reach_lossless (by decide) ⟨struck, hs⟩).1⟩

end Pico.Uart
