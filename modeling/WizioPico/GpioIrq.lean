/-
**Pin interrupts: `attachInterrupt`, `attachInterruptEx`, `detachInterrupt`.**

The three functions of `arduino/cores/RP2040/wiring.c` over the bank interrupt of
`SDK/hardware/gpio.c`, on one core and with no other user of that interrupt.  What decides whether
an event of a pin reaches its callbacks is spread over three places: the table `pins` of the core,
the enable bits of the bank (four for each pin, eight pins to a register), and one callback slot
of the SDK that all pins of the core share.

* `Pico.Gpio.Bank` — these three, and whether the SDK's handler is on the interrupt;
* `Pico.Gpio.dispatch` — the callbacks that run when the bank has raised some events;
* `Pico.Gpio.Line`, `Pico.Gpio.Line.next` — what the calls so far ask for, pin by pin: nothing of
  the source, this is the purpose the functions are measured against;
* `Pico.Gpio.PerPin` — the dispatch of every pin is what the calls asked for;
* `Pico.Gpio.perPin_iff` — **along a run this holds in every state exactly if** no pin is detached
  while an event of any pin is enabled, and no mode reaches into the events of another pin.
-/

import WizioPico.Runs
import Mathlib.Data.Nat.Notation
import Mathlib.Logic.Function.Basic

set_option relaxedAutoImplicit false
set_option autoImplicit false

namespace Pico.Gpio

/-! ### The bank -/

/-- `PINS_COUNT` of the variants, which is also `NUM_BANK0_GPIOS`. -/
def pinsCount : ℕ := 30

/-- The functions a callback slot of the SDK can point to here. -/
inductive IrqCallback where
  | irqGpioCallback
  deriving DecidableEq

/-- One entry of `pins`, as far as interrupts use it.  A callback is its address. -/
structure Pin where
  events : BitVec 32
  callback : ℕ
  callbackEx : ℕ
  deriving DecidableEq

/-- **The state of one core.**  `inte` are the enable registers of the bank, `callbacks` is the
core's entry of the SDK's table, `handler` says that `gpio_default_irq_handler` is on the
interrupt, and `enabled` that the interrupt is. -/
structure Bank where
  pins : ℕ → Pin
  inte : ℕ → BitVec 32
  callbacks : Option IrqCallback
  handler : Bool
  enabled : Bool

/-- Reset: static storage is zero, and so are the enable registers. -/
def Bank.reset : Bank := ⟨fun _ => ⟨0, 0, 0⟩, fun _ => 0, none, false, false⟩

/-- Writes an entry of `pins`. -/
def Bank.setPin (b : Bank) (pin : ℕ) (p : Pin) : Bank :=
  { b with pins := Function.update b.pins pin p }

@[simp] theorem Bank.setPin_pins (b : Bank) (pin : ℕ) (p : Pin) :
    (b.setPin pin p).pins = Function.update b.pins pin p := rfl

/-- `gpio_set_irq_enabled`. -/
def gpioSetIrqEnabled (b : Bank) (gpio : ℕ) (events : BitVec 32) (enabled : Bool) : Bank :=
  let events := events <<< (4 * (gpio % 8))
  let reg := b.inte (gpio / 8)
  let reg := if enabled then reg ||| events else reg &&& ~~~events
  { b with inte := Function.update b.inte (gpio / 8) reg }

/-- `gpio_set_irq_callback`. -/
def gpioSetIrqCallback (b : Bank) (callback : Option IrqCallback) : Bank :=
  if b.callbacks.isSome then
    { b with handler := b.handler && callback.isSome, callbacks := callback }
  else if callback.isSome then
    { b with callbacks := callback, handler := true }
  else b

/-- `gpio_set_irq_enabled_with_callback`. -/
def gpioSetIrqEnabledWithCallback (b : Bank) (gpio : ℕ) (events : BitVec 32) (enabled : Bool)
    (callback : Option IrqCallback) : Bank :=
  let b := gpioSetIrqEnabled b gpio events enabled
  let b := gpioSetIrqCallback b callback
  if enabled then { b with enabled := true } else b

/-- `attachInterruptEx`. -/
def attachInterruptEx (b : Bank) (pin cb : ℕ) (mode : BitVec 32) : Bank :=
  if cb ≠ 0 ∧ pin < pinsCount then
    let b := b.setPin pin { b.pins pin with callbackEx := cb }
    gpioSetIrqEnabledWithCallback b pin mode true (some .irqGpioCallback)
  else b

/-- `attachInterrupt`. -/
def attachInterrupt (b : Bank) (pin cb : ℕ) (mode : BitVec 32) : Bank :=
  if cb ≠ 0 ∧ pin < pinsCount then
    let b := b.setPin pin { b.pins pin with callback := cb }
    gpioSetIrqEnabledWithCallback b pin mode true (some .irqGpioCallback)
  else b

/-- `detachInterrupt`. -/
def detachInterrupt (b : Bank) (pin : ℕ) : Bank :=
  if pin < pinsCount then
    let b := b.setPin pin { b.pins pin with callback := 0, callbackEx := 0 }
    gpioSetIrqEnabledWithCallback b pin (b.pins pin).events false none
  else b

/-! ### The interrupt -/

/-- A callback that ran, with the events an extended one was given. -/
inductive Ran where
  | callback (cb : ℕ)
  | callbackEx (cb : ℕ) (events : BitVec 32)
  deriving DecidableEq

/-- The callbacks of one entry, for the events it was called with. -/
def Pin.run (p : Pin) (events : BitVec 32) : List Ran :=
  (if p.callback ≠ 0 then [Ran.callback p.callback] else []) ++
    if p.callbackEx ≠ 0 then [Ran.callbackEx p.callbackEx events] else []

/-- `irq_gpio_callback`. -/
def irqGpioCallback (b : Bank) (gpio : ℕ) (events : BitVec 32) : List Ran :=
  if gpio < pinsCount then (b.pins gpio).run events else []

/-- What a callback slot does when it is called; it may be empty. -/
def callSlot (b : Bank) : Option IrqCallback → ℕ → BitVec 32 → List Ran
  | none, _, _ => []
  | some .irqGpioCallback, gpio, events => irqGpioCallback b gpio events

/-- The inner loop of `gpio_default_irq_handler`, with `n` pins of the register left. -/
def handleRegister (b : Bank) : ℕ → ℕ → BitVec 32 → List Ran
  | 0, _, _ => []
  | n + 1, i, events8 =>
    if events8 = 0 then []
    else
      let events := events8 &&& 0xf
      (if events ≠ 0 then callSlot b b.callbacks i events else []) ++
        handleRegister b n (i + 1) (events8 >>> 4)

/-- `gpio_default_irq_handler`, for the raw status of the bank: an event is seen if it is raised
and enabled. -/
def gpioDefaultIrqHandler (b : Bank) (raw : ℕ → BitVec 32) : List Ran :=
  [0, 8, 16, 24].flatMap fun gpio => handleRegister b 8 gpio (raw (gpio / 8) &&& b.inte (gpio / 8))

/-- **The callbacks that run** when the raw status of the bank is `raw`. -/
def dispatch (b : Bank) (raw : ℕ → BitVec 32) : List Ran :=
  if b.handler && b.enabled then gpioDefaultIrqHandler b raw else []

/-- The bit of an event in the register of its pin. -/
def eventBit (pin e : ℕ) : ℕ := 4 * (pin % 8) + e

/-- The raw status of a bank that has raised one event of one pin. -/
def raised (pin e : ℕ) (reg : ℕ) : BitVec 32 :=
  if reg = pin / 8 then BitVec.twoPow 32 (eventBit pin e) else 0

/-- The event `e` of the pin is enabled. -/
def Bank.enables (b : Bank) (pin e : ℕ) : Bool := (b.inte (pin / 8)).getLsbD (eventBit pin e)

/-! ### What the calls ask for -/

/-- The calls of a sketch. -/
inductive Call where
  | attachInterrupt (pin cb : ℕ) (mode : BitVec 32)
  | attachInterruptEx (pin cb : ℕ) (mode : BitVec 32)
  | detachInterrupt (pin : ℕ)

/-- What was asked for one pin since it was last detached: the events of all modes, and the last
callback of each kind. -/
structure Line where
  mode : BitVec 32
  callback : ℕ
  callbackEx : ℕ

/-- The pin has been attached since it was last detached. -/
def Line.Attached (l : Line) : Prop := l.callback ≠ 0 ∨ l.callbackEx ≠ 0

/-- The callbacks an event `e` is owed: those attached to the pin, if a mode contains `e`. -/
def Line.owed (l : Line) (e : ℕ) : List Ran :=
  if l.mode.getLsbD e then
    Pin.run ⟨0, l.callback, l.callbackEx⟩ (BitVec.twoPow 32 e)
  else []

/-- A call changes what is asked for its own pin, and nothing else. -/
def Line.next (ls : ℕ → Line) : Call → ℕ → Line
  | .attachInterrupt pin cb mode =>
    if cb ≠ 0 ∧ pin < pinsCount then
      Function.update ls pin { ls pin with mode := (ls pin).mode ||| mode, callback := cb }
    else ls
  | .attachInterruptEx pin cb mode =>
    if cb ≠ 0 ∧ pin < pinsCount then
      Function.update ls pin { ls pin with mode := (ls pin).mode ||| mode, callbackEx := cb }
    else ls
  | .detachInterrupt pin =>
    if pin < pinsCount then Function.update ls pin ⟨0, 0, 0⟩ else ls

/-- The core, and what the calls so far have asked for. -/
structure Session where
  bank : Bank
  lines : ℕ → Line

/-- Nothing has been called yet. -/
def start : Session := ⟨.reset, fun _ => ⟨0, 0, 0⟩⟩

/-- The bank after a call. -/
def Bank.next (b : Bank) : Call → Bank
  | .attachInterrupt pin cb mode => attachInterrupt b pin cb mode
  | .attachInterruptEx pin cb mode => attachInterruptEx b pin cb mode
  | .detachInterrupt pin => detachInterrupt b pin

/-- One call. -/
def step (s : Session) (c : Call) : Option Session :=
  some ⟨s.bank.next c, Line.next s.lines c⟩

/-- **Dispatch is per pin**: an event runs exactly the callbacks its own pin is owed for it, and
a pin that is not attached has no event enabled. -/
def PerPin (s : Session) : Prop :=
  ∀ q < pinsCount, ∀ e < 4,
    dispatch s.bank (raised q e) = (s.lines q).owed e ∧
      (¬ (s.lines q).Attached → s.bank.enables q e = false)

/-- A call that leaves the events of other pins alone.  The SDK's callback slot is emptied by
every `detachInterrupt`, and no event is disabled by it, so no event may be enabled then; the bits
of a mode beyond the four of its pin may only fall on events that are enabled already. -/
def Harmless (s : Session) : Call → Prop
  | .attachInterrupt pin cb mode | .attachInterruptEx pin cb mode =>
    cb ≠ 0 → pin < pinsCount → ∀ q < pinsCount, ∀ e < 4, q ≠ pin →
      q / 8 = pin / 8 → (mode <<< (4 * (pin % 8))).getLsbD (eventBit q e) →
        (s.lines q).mode.getLsbD e
  | .detachInterrupt pin =>
    pin < pinsCount → ∀ q < pinsCount, ∀ e < 4, (s.lines q).mode.getLsbD e = false

/-! ### One event of one pin -/

theorem eventBit_lt (q : ℕ) {e : ℕ} (he : e < 4) : eventBit q e < 32 := by
  have : q % 8 < 8 := Nat.mod_lt _ (by decide)
  unfold eventBit
  omega

/-- A register in which nothing is left runs nothing. -/
@[simp] theorem handleRegister_zero (b : Bank) (n i : ℕ) : handleRegister b n i 0#32 = [] := by
  cases n <;> simp [handleRegister]

/-- The event of the first pin of a register is in its low four bits. -/
theorem twoPow_of_lt : ∀ k < 4, BitVec.twoPow 32 k ≠ 0 ∧
    BitVec.twoPow 32 k &&& 0xf = BitVec.twoPow 32 k ∧ BitVec.twoPow 32 k >>> 4 = 0#32 := by
  decide

/-- The event of a later pin is not, and moves down by four bits. -/
theorem twoPow_of_ge : ∀ k < 32, 4 ≤ k → BitVec.twoPow 32 k ≠ 0 ∧
    BitVec.twoPow 32 k &&& 0xf = 0 ∧ BitVec.twoPow 32 k >>> 4 = BitVec.twoPow 32 (k - 4) := by
  decide

/-- The loop over a register finds the one event it has, at the pin the event belongs to. -/
theorem handleRegister_twoPow (b : Bank) {e : ℕ} (he : e < 4) :
    ∀ (k n i : ℕ), k < n → 4 * k + e < 32 →
      handleRegister b n i (BitVec.twoPow 32 (4 * k + e)) =
        callSlot b b.callbacks (i + k) (BitVec.twoPow 32 e) := by
  intro k
  induction k with
  | zero =>
      intro n i hn _
      obtain ⟨m, rfl⟩ : ∃ m, n = m + 1 := ⟨n - 1, by omega⟩
      obtain ⟨hne, hlow, hrest⟩ := twoPow_of_lt e he
      rw [Nat.mul_zero, Nat.zero_add, handleRegister, if_neg hne, hlow, hrest,
        handleRegister_zero]
      simp only [ne_eq, hne, not_false_eq_true, if_true, List.append_nil, Nat.add_zero]
  | succ k ih =>
      intro n i hn hlt
      obtain ⟨m, rfl⟩ : ∃ m, n = m + 1 := ⟨n - 1, by omega⟩
      obtain ⟨hne, hlow, hrest⟩ := twoPow_of_ge (4 * (k + 1) + e) hlt (by omega)
      have hdown : 4 * (k + 1) + e - 4 = 4 * k + e := by omega
      have hpin : i + 1 + k = i + (k + 1) := by omega
      rw [handleRegister, if_neg hne, hlow, hrest, hdown, ih m (i + 1) (by omega) (by omega), hpin]
      simp

/-- The registers a single event is seen in: its own, if it is enabled. -/
theorem raised_and (b : Bank) (q e r : ℕ) :
    raised q e r &&& b.inte r =
      if r = q / 8 ∧ b.enables q e then BitVec.twoPow 32 (eventBit q e) else 0 := by
  unfold raised Bank.enables
  by_cases hr : r = q / 8
  · subst hr
    simp only [if_true, true_and]
    rw [BitVec.twoPow_and]
    rfl
  · simp [hr]

/-- **An event runs the callback slot**, if it is enabled and the SDK's handler is reached. -/
theorem dispatch_raised (b : Bank) {q e : ℕ} (hq : q < pinsCount) (he : e < 4) :
    dispatch b (raised q e) =
      if b.handler && b.enabled && b.enables q e then
        callSlot b b.callbacks q (BitVec.twoPow 32 e)
      else [] := by
  have hhandle : gpioDefaultIrqHandler b (raised q e) =
      if b.enables q e then callSlot b b.callbacks q (BitVec.twoPow 32 e) else [] := by
    have hq4 : q / 8 < 4 := by unfold pinsCount at hq; omega
    have hpin : 8 * (q / 8) + q % 8 = q := Nat.div_add_mod q 8
    have hloop : handleRegister b 8 (8 * (q / 8)) (BitVec.twoPow 32 (eventBit q e)) =
        callSlot b b.callbacks q (BitVec.twoPow 32 e) := by
      have := eventBit_lt q he
      rw [eventBit, handleRegister_twoPow b he _ _ _ (Nat.mod_lt _ (by decide)) this, hpin]
    unfold gpioDefaultIrqHandler
    cases h : b.enables q e with
    | false => simp [raised_and, h]
    | true =>
        rcases (by omega : q / 8 = 0 ∨ q / 8 = 1 ∨ q / 8 = 2 ∨ q / 8 = 3) with h8 | h8 | h8 | h8 <;>
          simpa [raised_and, h, h8] using hloop
  unfold dispatch
  rw [hhandle]
  cases b.handler && b.enabled <;> simp

/-! ### What the calls do to the bank -/

/-- Enabling events adds them to the register of the pin, whichever pins they belong to. -/
theorem enables_attach (b : Bank) (pin : ℕ) (mode : BitVec 32) (callback : Option IrqCallback)
    (q e : ℕ) :
    (gpioSetIrqEnabledWithCallback b pin mode true callback).enables q e =
      (b.enables q e ||
        decide (q / 8 = pin / 8) && (mode <<< (4 * (pin % 8))).getLsbD (eventBit q e)) := by
  have hinte : (gpioSetIrqEnabledWithCallback b pin mode true callback).inte =
      Function.update b.inte (pin / 8) (b.inte (pin / 8) ||| mode <<< (4 * (pin % 8))) := by
    simp only [gpioSetIrqEnabledWithCallback, gpioSetIrqCallback, gpioSetIrqEnabled, if_true]
    split
    · rfl
    · split <;> rfl
  unfold Bank.enables
  rw [hinte]
  by_cases h : q / 8 = pin / 8
  · simp [h]
  · simp [h]

/-- The bits of a mode that are the pin's own are its low four. -/
theorem getLsbD_own (mode : BitVec 32) (pin : ℕ) {e : ℕ} (he : e < 4) :
    (mode <<< (4 * (pin % 8))).getLsbD (eventBit pin e) = mode.getLsbD e := by
  have := eventBit_lt pin he
  rw [BitVec.getLsbD_shiftLeft]
  unfold eventBit at *
  simp [this]

/-- After an attach the slot points to the core's callback, and the interrupt reaches it. -/
theorem wired_attach (b : Bank) (pin : ℕ) (mode : BitVec 32) (h : b.handler = b.callbacks.isSome) :
    let b' := gpioSetIrqEnabledWithCallback b pin mode true (some .irqGpioCallback)
    b'.callbacks = some .irqGpioCallback ∧ b'.handler = true ∧ b'.enabled = true ∧
      b'.pins = b.pins := by
  simp only [gpioSetIrqEnabledWithCallback, gpioSetIrqCallback, gpioSetIrqEnabled, if_true]
  cases hc : b.callbacks with
  | none => simp
  | some c => simp [h, hc]

/-- Disabling no event writes the register back. -/
theorem gpioSetIrqEnabled_none (b : Bank) (pin : ℕ) : gpioSetIrqEnabled b pin 0 false = b := by
  have hreg : b.inte (pin / 8) &&& ~~~(0#32 <<< (4 * (pin % 8))) = b.inte (pin / 8) := by
    rw [BitVec.zero_shiftLeft, BitVec.not_zero, BitVec.and_allOnes]
  unfold gpioSetIrqEnabled
  simp only [Bool.false_eq_true, if_false]
  erw [hreg]
  rw [Function.update_eq_self]

/-- A detach with no events empties the slot, and leaves every event as it is. -/
theorem detach_eq (b : Bank) (pin : ℕ) :
    gpioSetIrqEnabledWithCallback b pin 0 false none =
      { b with callbacks := none, handler := b.handler && !b.callbacks.isSome } := by
  unfold gpioSetIrqEnabledWithCallback
  rw [gpioSetIrqEnabled_none]
  cases hc : b.callbacks with
  | none => cases b; cases hc; simp [gpioSetIrqCallback]
  | some c => cases b; cases hc; simp [gpioSetIrqCallback]

/-! ### The invariant -/

/-- **The bank is what the calls asked for.** -/
structure Faithful (s : Session) : Prop where
  callback : ∀ q, (s.bank.pins q).callback = (s.lines q).callback
  callbackEx : ∀ q, (s.bank.pins q).callbackEx = (s.lines q).callbackEx
  /-- Nothing ever writes this field. -/
  events : ∀ q, (s.bank.pins q).events = 0
  attached : ∀ q e, (s.lines q).mode.getLsbD e → (s.lines q).Attached
  enables : ∀ q < pinsCount, ∀ e < 4, s.bank.enables q e = (s.lines q).mode.getLsbD e
  slot : ∀ q < pinsCount, ∀ e < 4, (s.lines q).mode.getLsbD e →
    s.bank.callbacks = some .irqGpioCallback
  handler : s.bank.handler = s.bank.callbacks.isSome
  enabled : s.bank.callbacks.isSome → s.bank.enabled

theorem faithful_start : Faithful start := by
  constructor <;> simp [start, Bank.reset, Bank.enables]

namespace Faithful

variable {s : Session}

/-- The pin's entry runs what the pin is owed. -/
theorem run_eq (h : Faithful s) (q : ℕ) (events : BitVec 32) :
    (s.bank.pins q).run events =
      Pin.run ⟨0, (s.lines q).callback, (s.lines q).callbackEx⟩ events := by
  simp [Pin.run, h.callback q, h.callbackEx q]

theorem perPin (h : Faithful s) : PerPin s := by
  intro q hq e he
  rw [dispatch_raised s.bank hq he, h.enables q hq e he]
  unfold Line.owed
  cases hm : (s.lines q).mode.getLsbD e with
  | false => simp
  | true =>
      have hslot := h.slot q hq e he hm
      have hen : s.bank.enabled = true := h.enabled (by simp [hslot])
      have hha : s.bank.handler = true := by simp [h.handler, hslot]
      refine ⟨?_, fun hno => absurd (h.attached q e hm) hno⟩
      simp [hslot, hen, hha, callSlot, irqGpioCallback, hq, h.run_eq]

/-- A field of the entries that is what was asked for stays so, when the entry and the line of one
pin change together. -/
theorem update_field {γ : Type*} {f : Pin → γ} {g : Line → γ} {ps : ℕ → Pin} {ls : ℕ → Line}
    (h : ∀ q, f (ps q) = g (ls q)) (pin : ℕ) {p : Pin} {l : Line} (hpl : f p = g l) (q : ℕ) :
    f (Function.update ps pin p q) = g (Function.update ls pin l q) := by
  by_cases hq : q = pin
  · subst hq
    rw [Function.update_self, Function.update_self, hpl]
  · rw [Function.update_of_ne hq, Function.update_of_ne hq, h q]

/-- **An attach keeps the invariant**, if its mode only adds events of its own pin. -/
theorem attach (h : Faithful s) {pin : ℕ} (hpin : pin < pinsCount) {mode : BitVec 32} {p : Pin}
    {l : Line} (hcb : p.callback = l.callback) (hcbEx : p.callbackEx = l.callbackEx)
    (hev : p.events = 0) (hmode : l.mode = (s.lines pin).mode ||| mode) (hatt : l.Attached)
    (hown : ∀ q < pinsCount, ∀ e < 4, q ≠ pin → q / 8 = pin / 8 →
      (mode <<< (4 * (pin % 8))).getLsbD (eventBit q e) → (s.lines q).mode.getLsbD e) :
    Faithful ⟨gpioSetIrqEnabledWithCallback (s.bank.setPin pin p) pin mode true
      (some .irqGpioCallback), Function.update s.lines pin l⟩ := by
  obtain ⟨hslot, hha, hen, hpins⟩ := wired_attach (s.bank.setPin pin p) pin mode h.handler
  constructor
  · intro q
    rw [hpins]
    exact update_field h.callback pin hcb q
  · intro q
    rw [hpins]
    exact update_field h.callbackEx pin hcbEx q
  · rw [hpins]
    exact (Function.forall_update_iff s.bank.pins fun _ p => p.events = 0).2
      ⟨hev, fun q _ => h.events q⟩
  · intro q e hm
    by_cases hq : q = pin
    · subst hq; simpa using hatt
    · simpa [hq] using h.attached q e (by simpa [hq] using hm)
  · intro q hq e he
    rw [enables_attach]
    have hold : (s.bank.setPin pin p).enables q e = (s.lines q).mode.getLsbD e :=
      h.enables q hq e he
    rw [hold]
    by_cases hqp : q = pin
    · subst hqp
      simp [getLsbD_own mode q he, hmode]
    · have := hown q hq e he hqp
      simp only [Function.update_of_ne hqp]
      rw [Bool.or_eq_left_iff_imp, Bool.and_eq_true, decide_eq_true_iff]
      exact fun hb => this hb.1 hb.2
  · intro q hq e he _
    exact hslot
  · rw [hha, hslot]
    rfl
  · intro _
    exact hen

/-- If it adds an event of another pin, that pin runs a callback nobody asked for, or has an event
enabled without being attached. -/
theorem own_of_perPin (h : Faithful s) {pin : ℕ} {mode : BitVec 32} {p : Pin} {l : Line}
    (hP : PerPin ⟨gpioSetIrqEnabledWithCallback (s.bank.setPin pin p) pin mode true
      (some .irqGpioCallback), Function.update s.lines pin l⟩) :
    ∀ q < pinsCount, ∀ e < 4, q ≠ pin → q / 8 = pin / 8 →
      (mode <<< (4 * (pin % 8))).getLsbD (eventBit q e) → (s.lines q).mode.getLsbD e := by
  intro q hq e he hqp hreg hbit
  obtain ⟨hslot, hha, hen, hpins⟩ := wired_attach (s.bank.setPin pin p) pin mode h.handler
  obtain ⟨hrun, hoff⟩ := hP q hq e he
  rw [dispatch_raised _ hq he, enables_attach, hslot, hha, hen] at hrun
  rw [enables_attach] at hoff
  simp only [hreg, hbit, decide_true, Bool.and_true, Bool.or_true, Function.update_of_ne hqp,
    if_true, callSlot, irqGpioCallback, hq, hpins, Bank.setPin_pins, h.run_eq, reduceCtorEq, imp_false,
    not_not] at hrun hoff
  by_contra hno
  rw [Line.owed, if_neg hno] at hrun
  rcases hoff with hc | hc <;> simp [Pin.run, hc] at hrun

/-- What a detach does to the bank: the pin's callbacks are gone, and so is the slot. -/
theorem detachInterrupt_eq (h : Faithful s) {pin : ℕ} (hpin : pin < pinsCount) :
    detachInterrupt s.bank pin =
      { s.bank.setPin pin ⟨0, 0, 0⟩ with callbacks := none, handler := false } := by
  have hev := h.events pin
  have hha := h.handler
  unfold detachInterrupt
  simp only [hpin, if_true, Bank.setPin_pins, Function.update_self, hev, detach_eq]
  cases hc : s.bank.callbacks <;> simp [Bank.setPin, hha, hc]

/-- **A detach keeps the invariant** if no event is enabled. -/
theorem detach (h : Faithful s) {pin : ℕ} (hpin : pin < pinsCount)
    (hidle : ∀ q < pinsCount, ∀ e < 4, (s.lines q).mode.getLsbD e = false) :
    Faithful ⟨detachInterrupt s.bank pin, Function.update s.lines pin ⟨0, 0, 0⟩⟩ := by
  rw [h.detachInterrupt_eq hpin]
  constructor
  · exact update_field h.callback pin rfl
  · exact update_field h.callbackEx pin rfl
  · exact (Function.forall_update_iff s.bank.pins fun _ p => p.events = 0).2
      ⟨rfl, fun q _ => h.events q⟩
  · intro q e hm
    by_cases hq : q = pin
    · subst hq; simp at hm
    · simpa [hq] using h.attached q e (by simpa [hq] using hm)
  · intro q hq e he
    have hoff : s.bank.enables q e = false := (h.enables q hq e he).trans (hidle q hq e he)
    refine Eq.trans hoff ?_
    by_cases hqp : q = pin
    · subst hqp; simp
    · simp [hqp, hidle q hq e he]
  · intro q hq e he hm
    by_cases hqp : q = pin
    · subst hqp; simp at hm
    · simp [hqp, hidle q hq e he] at hm
  · rfl
  · simp

/-- If one is, its pin is left without dispatch, or the detached pin with an event. -/
theorem idle_of_perPin (h : Faithful s) {pin : ℕ} (hpin : pin < pinsCount)
    (hP : PerPin ⟨detachInterrupt s.bank pin, Function.update s.lines pin ⟨0, 0, 0⟩⟩) :
    ∀ q < pinsCount, ∀ e < 4, (s.lines q).mode.getLsbD e = false := by
  intro q hq e he
  obtain ⟨hrun, hoff⟩ := hP q hq e he
  rw [h.detachInterrupt_eq hpin] at hrun hoff
  rw [dispatch_raised _ hq he] at hrun
  by_cases hqp : q = pin
  · subst hqp
    rw [← h.enables q hq e he]
    exact hoff (by simp [Line.Attached])
  · simp only [Function.update_of_ne hqp, Bool.false_and, Bool.false_eq_true, if_false] at hrun
    cases hm : (s.lines q).mode.getLsbD e with
    | false => rfl
    | true =>
        rw [Line.owed, if_pos hm] at hrun
        rcases h.attached q e hm with hc | hc <;> simp [Pin.run, hc] at hrun

/-- **One call**: it leaves dispatch per pin exactly if it is harmless, and then the bank is again
what the calls asked for. -/
theorem step (h : Faithful s) (c : Call) :
    (PerPin ⟨s.bank.next c, Line.next s.lines c⟩ ↔ Harmless s c) ∧
      (Harmless s c → Faithful ⟨s.bank.next c, Line.next s.lines c⟩) := by
  cases c with
  | attachInterrupt pin cb mode =>
      by_cases hg : cb ≠ 0 ∧ pin < pinsCount
      · simp only [Bank.next, attachInterrupt, Line.next, if_pos hg]
        have hkeep : Harmless s (.attachInterrupt pin cb mode) → Faithful _ := fun hc =>
          h.attach (p := { s.bank.pins pin with callback := cb })
            (l := { s.lines pin with mode := (s.lines pin).mode ||| mode, callback := cb })
            hg.2 rfl (h.callbackEx pin) (h.events pin) rfl (.inl hg.1) (hc hg.1 hg.2)
        exact ⟨⟨fun hP _ _ => h.own_of_perPin hP, fun hc => (hkeep hc).perPin⟩, hkeep⟩
      · simp only [Bank.next, attachInterrupt, Line.next, if_neg hg]
        exact ⟨⟨fun _ hcb hpin => absurd ⟨hcb, hpin⟩ hg, fun _ => h.perPin⟩, fun _ => h⟩
  | attachInterruptEx pin cb mode =>
      by_cases hg : cb ≠ 0 ∧ pin < pinsCount
      · simp only [Bank.next, attachInterruptEx, Line.next, if_pos hg]
        have hkeep : Harmless s (.attachInterruptEx pin cb mode) → Faithful _ := fun hc =>
          h.attach (p := { s.bank.pins pin with callbackEx := cb })
            (l := { s.lines pin with mode := (s.lines pin).mode ||| mode, callbackEx := cb })
            hg.2 (h.callback pin) rfl (h.events pin) rfl (.inr hg.1) (hc hg.1 hg.2)
        exact ⟨⟨fun hP _ _ => h.own_of_perPin hP, fun hc => (hkeep hc).perPin⟩, hkeep⟩
      · simp only [Bank.next, attachInterruptEx, Line.next, if_neg hg]
        exact ⟨⟨fun _ hcb hpin => absurd ⟨hcb, hpin⟩ hg, fun _ => h.perPin⟩, fun _ => h⟩
  | detachInterrupt pin =>
      by_cases hpin : pin < pinsCount
      · simp only [Bank.next, Line.next, if_pos hpin]
        have hkeep : Harmless s (.detachInterrupt pin) → Faithful _ := fun hc =>
          h.detach hpin (hc hpin)
        exact ⟨⟨fun hP _ => h.idle_of_perPin hpin hP, fun hc => (hkeep hc).perPin⟩, hkeep⟩
      · simp only [Bank.next, detachInterrupt, Line.next, if_neg hpin]
        exact ⟨⟨fun _ hlt => absurd hlt hpin, fun _ => h.perPin⟩, fun _ => h⟩

end Faithful

/-! ### Runs -/

/-- **Interrupts stay per pin along a run of calls exactly if every call is harmless.** -/
theorem perPin_iff (cs : List Call) :
    Runs.Every step (fun s c => ∀ s', step s c = some s' → PerPin s') start cs ↔
      Runs.Every step Harmless start cs := by
  refine Runs.every_iff (P := Faithful) ?_ ?_ cs faithful_start
  · intro s c h
    rw [← (h.step c).1]
    exact ⟨fun hP => hP _ rfl, fun hP s' hs' => (Option.some.inj hs') ▸ hP⟩
  · intro s c s' h hc hs'
    exact (Option.some.inj hs') ▸ (h.step c).2 hc

/-- Two pins are attached for the rising edge; detaching the second one takes the first one's
callback away, and leaves the event of the second enabled. -/
theorem perPin_violated :
    ¬ Runs.Every step (fun s c => ∀ s', step s c = some s' → PerPin s') start
      [.attachInterrupt 0 0x10000101 8, .attachInterrupt 1 0x10000201 8, .detachInterrupt 1] := by
  intro h
  obtain ⟨hrun, -⟩ := (h.2 _ rfl |>.2 _ rfl |>.1 _ rfl) 0 (by decide) 3 (by decide)
  revert hrun
  decide

end Pico.Gpio
