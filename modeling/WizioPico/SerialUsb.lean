/-
**The USB serial port and its interrupt.**

`SerialUSB` of `arduino/libraries/RP2040/SerialUSB`, on one core.  The methods call TinyUSB with
`_usb_mutex` held; the low-priority interrupt, which a timer sets off, calls `tud_task` as well.
The main line goes from one call of another function to the next, and the interrupt may strike in
front of each; what those functions return is an input.

* `Pico.Usb.Pc` — where the main line stands, with the locals it needs from there on;
* `Pico.Usb.Pc.inSection` — the places between taking the mutex and giving it back;
* `Pico.Usb.Port`, `Pico.Usb.advance` — the port, and one step of the main line;
* `Pico.Usb.serialUsbIrq`, `Pico.Usb.lowPriorityWorkerIrq` — the interrupt, and the one of
  `arduino_stdio_usb.c` for the same purpose;
* `Pico.Usb.Locked` — the mutex is held exactly in the sections, which every step keeps so;
* `Pico.Usb.exclusive_iff` — **along a run TinyUSB is never entered twice exactly if** the interrupt
  never strikes in a section: it does not look at the mutex;
* `Pico.Usb.exclusive_worker` — the other interrupt never enters TinyUSB twice.
-/

import WizioPico.Runs
import Mathlib.Data.Int.Notation

set_option relaxedAutoImplicit false
set_option autoImplicit false

namespace Pico.Usb

/-! ### The main line -/

/-- The methods. -/
inductive Method where
  | write (size : ℕ)
  | read
  | available
  | peek
  | flush
  | toBool

/-- Where the main line stands: what it is about to call, or in the middle of.  The places of
`begin` come first, then those that all methods have, then those of each of them. -/
inductive Pc where
  | idle
  | tusbInit
  | irqSetExclusiveHandler
  | irqSetEnabled
  | mutexInit
  | addAlarm
  | entry (m : Method)
  | mutexTryEnter (m : Method)
  | mutexExit (v : ℤ)
  | writeConnected (size : ℕ)
  | writeAvailable (size : ℕ) (i : ℤ)
  | write (size : ℕ) (i n : ℤ)
  | writeTask (size : ℕ) (i n2 : ℤ)
  | writeFlush (size : ℕ) (i n2 : ℤ)
  | waitTask (size : ℕ) (i : ℤ)
  | waitFlush (size : ℕ) (i : ℤ)
  | waitConnected (size : ℕ) (i : ℤ)
  | waitAvailable (size : ℕ) (i : ℤ)
  | waitTime (size : ℕ) (i : ℤ)
  | readConnected
  | readAvailable
  | readChar
  | available
  | peek
  | flush
  | boolTask
  | boolConnected

/-- The places at which the main line has taken the mutex and not given it back. -/
def Pc.inSection : Pc → Bool
  | .idle | .tusbInit | .irqSetExclusiveHandler | .irqSetEnabled | .mutexInit | .addAlarm
  | .entry _ | .mutexTryEnter _ => false
  | _ => true

/-- The port.  `held` says that the main line is the owner of the mutex, `reentered` that
`tud_task` was called by the interrupt while it was. -/
structure Port where
  pc : Pc
  running : Bool
  held : Bool
  irqEnabled : Bool
  lastAvailTime : ℤ
  returned : Option ℤ
  reentered : Bool

/-- The port as `begin` finds it after the constructor, which has given the mutex back. -/
def Port.start : Port := ⟨.tusbInit, false, false, false, 0, none, false⟩

/-- What a method returns while the port is not running. -/
def Method.stopped : Method → ℤ
  | .write _ | .available | .peek | .flush | .toBool => 0
  | .read => -1

/-- What it returns if its own core owns the mutex already; `-1` is true as a `bool`. -/
def Method.busy : Method → ℤ
  | .write _ | .available | .flush => 0
  | .read | .peek => -1
  | .toBool => 1

/-- The first call a method makes with the mutex held. -/
def Method.body : Method → Pc
  | .write size => .writeConnected size
  | .read => .readConnected
  | .available => .available
  | .peek => .peek
  | .flush => .flush
  | .toBool => .boolTask

/-- The head of the loop of `write`.  The index of the loop hides the variable that is returned,
which stays 0. -/
def writeLoop (size : ℕ) (i : ℤ) : Pc := if i < size then .writeAvailable size i else .mutexExit 0

/-- The main line goes to another place. -/
def Port.goto (s : Port) (pc : Pc) : Port := { s with pc := pc }

/-- A method returns. -/
def Port.return (s : Port) (v : ℤ) : Port := { s with pc := .idle, returned := some v }

/-- **One step of the main line**, with what the call it makes returns; behind a flush in `write`
this is the time that is taken then, and of a `peek` it is the byte, or that there is none. -/
def advance (s : Port) (reply : ℤ) : Option Port :=
  match s.pc with
  | .idle => none
  | .tusbInit => some (s.goto .irqSetExclusiveHandler)
  | .irqSetExclusiveHandler => some (s.goto .irqSetEnabled)
  | .irqSetEnabled => some { s with irqEnabled := true, pc := .mutexInit }
  | .mutexInit => some { s with held := false, pc := .addAlarm }
  | .addAlarm => some { s with running := reply ≠ 0, pc := .idle }
  | .entry m => some (if s.running then s.goto (.mutexTryEnter m) else s.return m.stopped)
  -- On one core the owner of a mutex that is taken is this core, so nothing ever blocks.
  | .mutexTryEnter m =>
    some (if s.held then s.return m.busy else { s with held := true, pc := m.body })
  | .mutexExit v => some ({ s with held := false }.return v)
  | .writeConnected size =>
    some (if reply ≠ 0 then s.goto (writeLoop size 0)
      else { s with lastAvailTime := 0, pc := .mutexExit 0 })
  | .writeAvailable size i =>
    let n := if size - i > reply then reply else size - i
    some (s.goto (if n ≠ 0 then .write size i n else .waitTask size i))
  | .write size i _ => some (s.goto (.writeTask size i reply))
  | .writeTask size i n2 => some (s.goto (.writeFlush size i n2))
  | .writeFlush size i n2 => some { s with lastAvailTime := reply, pc := writeLoop size (i + n2) }
  | .waitTask size i => some (s.goto (.waitFlush size i))
  | .waitFlush size i => some (s.goto (.waitConnected size i))
  | .waitConnected size i =>
    some (s.goto (if reply = 0 then .mutexExit 0 else .waitAvailable size i))
  | .waitAvailable size i =>
    some (s.goto (if reply = 0 then .waitTime size i else writeLoop size i))
  | .waitTime size i =>
    some (s.goto (if reply > s.lastAvailTime + 1000000 then .mutexExit 0 else writeLoop size i))
  | .readConnected => some (s.goto (if reply ≠ 0 then .readAvailable else .mutexExit (-1)))
  | .readAvailable => some (s.goto (if reply ≠ 0 then .readChar else .mutexExit (-1)))
  | .readChar => some (s.goto (.mutexExit reply))
  | .available => some (s.goto (.mutexExit reply))
  | .peek => some (s.goto (.mutexExit reply))
  | .flush => some (s.goto (.mutexExit 0))
  | .boolTask => some (s.goto .boolConnected)
  | .boolConnected => some (s.goto (.mutexExit (if reply ≠ 0 then 1 else 0)))

/-! ### The interrupt -/

/-- `tud_task`, called by the interrupt. -/
def irqTudTask (s : Port) : Port := { s with reentered := s.reentered || s.held }

/-- `SerialUSB_irq`. -/
def serialUsbIrq (s : Port) : Port := irqTudTask s

/-- `low_priority_worker_irq` of `arduino_stdio_usb.c`, over the same mutex: it tries to take it,
and gives it back afterwards. -/
def lowPriorityWorkerIrq (s : Port) : Port := if s.held then s else irqTudTask s

/-- What can happen next. -/
inductive Event where
  | call (m : Method)
  | advance (reply : ℤ)
  | irq

/-- **One step**, for one of the two interrupts. -/
def step (irq : Port → Port) (s : Port) : Event → Option Port
  | .call m =>
    match s.pc with
    | .idle => some (s.goto (.entry m))
    | _ => none
  | .advance reply => advance s reply
  | .irq => if s.irqEnabled then some (irq s) else none

/-- The interrupt strikes outside of the sections, if it does. -/
def Outside (s : Port) : Event → Prop
  | .irq => s.irqEnabled = true → s.pc.inSection = false
  | _ => True

/-! ### The mutex and the sections -/

@[simp] theorem inSection_writeLoop (size : ℕ) (i : ℤ) :
    (writeLoop size i).inSection = true := by
  unfold writeLoop
  split <;> rfl

@[simp] theorem inSection_body (m : Method) : m.body.inSection = true := by
  cases m <;> rfl

/-- A choice between two places is in a section if both are. -/
@[simp] theorem inSection_ite (p : Prop) [Decidable p] (a b : Pc) :
    (if p then a else b).inSection = if p then a.inSection else b.inSection := by
  split <;> rfl

/-- The main line holds the mutex exactly in the sections. -/
def Locked (s : Port) : Prop := s.held = s.pc.inSection

/-- **A step of the main line** keeps the mutex and the sections together: it takes the mutex on
its way into a section, gives it back on its way out, and otherwise stays inside or outside. -/
theorem Locked.advance {s s' : Port} {reply : ℤ} (h : Locked s)
    (hs : advance s reply = some s') : Locked s' ∧ s'.reentered = s.reentered := by
  unfold Usb.advance at hs
  split at hs
  all_goals rename_i hpc
  all_goals cases hs
  all_goals unfold Locked at h ⊢
  all_goals rw [hpc] at h
  all_goals constructor
  -- first the steps to one place, and the flag, which no step changes, then those with a choice
  all_goals try first | rfl | exact h | (split <;> rfl)
  all_goals simp only [Port.goto, Port.return, inSection_ite, inSection_writeLoop]
  all_goals repeat' split
  all_goals first | exact h | exact (inSection_body _).symm |
    exact h.trans (inSection_writeLoop _ _).symm

/-- **The invariant**: the mutex is held exactly in the sections, and nothing was re-entered. -/
structure Sound (s : Port) : Prop where
  locked : Locked s
  exclusive : s.reentered = false

theorem sound_start : Sound Port.start := ⟨rfl, rfl⟩

namespace Sound

variable {s : Port}

theorem call (h : Sound s) (irq : Port → Port) (m : Method) {s' : Port}
    (hs : step irq s (.call m) = some s') : Sound s' := by
  simp only [step] at hs
  split at hs
  · rename_i hpc
    cases hs
    have hlocked := h.locked
    unfold Locked at hlocked
    rw [hpc] at hlocked
    exact ⟨hlocked, h.exclusive⟩
  · cases hs

theorem advance (h : Sound s) {reply : ℤ} {s' : Port} (hs : advance s reply = some s') :
    Sound s' := by
  obtain ⟨hlocked, hsame⟩ := h.locked.advance hs
  exact ⟨hlocked, hsame.trans h.exclusive⟩

/-- The interrupt re-enters TinyUSB exactly if it strikes in a section. -/
theorem reentered_irqTudTask (h : Sound s) : (irqTudTask s).reentered = s.pc.inSection := by
  have hlocked : s.held = s.pc.inSection := h.locked
  rw [irqTudTask, h.exclusive, hlocked, Bool.false_or]

/-- **One step re-enters TinyUSB exactly if the interrupt strikes in a section.** -/
theorem exclusive_iff_outside (h : Sound s) (ev : Event) :
    (∀ s', step serialUsbIrq s ev = some s' → s'.reentered = false) ↔ Outside s ev := by
  cases ev with
  | call m => exact iff_of_true (fun s' hs => (h.call _ m hs).exclusive) trivial
  | advance reply => exact iff_of_true (fun s' hs => (h.advance hs).exclusive) trivial
  | irq =>
      simp only [step, serialUsbIrq, Outside]
      split
      · rename_i hen
        simp [hen, h.reentered_irqTudTask]
      · rename_i hen
        simp [hen]

/-- A step outside of the sections, or of the main line, keeps the invariant. -/
theorem step (h : Sound s) {ev : Event} (hout : Outside s ev) {s' : Port}
    (hs : step serialUsbIrq s ev = some s') : Sound s' := by
  have hexcl := (h.exclusive_iff_outside ev).2 hout s' hs
  cases ev with
  | call m => exact h.call _ m hs
  | advance reply => exact h.advance hs
  | irq =>
      simp only [Usb.step] at hs
      split at hs
      · cases hs
        exact ⟨h.locked, hexcl⟩
      · cases hs

/-- **With the other interrupt every step keeps the invariant**: it does nothing in a section. -/
theorem step_worker (h : Sound s) {ev : Event} {s' : Port}
    (hs : Usb.step lowPriorityWorkerIrq s ev = some s') : Sound s' := by
  cases ev with
  | call m => exact h.call _ m hs
  | advance reply => exact h.advance hs
  | irq =>
      simp only [Usb.step, lowPriorityWorkerIrq] at hs
      split at hs
      · cases hs
        split
        · exact h
        · rename_i hfree
          exact ⟨h.locked, by simp [irqTudTask, h.exclusive, hfree]⟩
      · cases hs

end Sound

/-! ### Runs -/

/-- **Along a run TinyUSB is never re-entered exactly if the interrupt only strikes outside of the
sections.** -/
theorem exclusive_iff (evs : List Event) :
    Runs.Every (step serialUsbIrq)
        (fun s ev => ∀ s', step serialUsbIrq s ev = some s' → s'.reentered = false) Port.start evs ↔
      Runs.Every (step serialUsbIrq) Outside Port.start evs :=
  Runs.every_iff (fun _ ev h => h.exclusive_iff_outside ev)
    (fun _ _ _ h hout hs => h.step hout hs) evs sound_start

/-- **With the interrupt of `arduino_stdio_usb.c` it never is.** -/
theorem exclusive_worker {s : Port}
    (h : Runs.Reach (step lowPriorityWorkerIrq) Port.start s) : s.reentered = false :=
  (h.invariant sound_start fun _ _ _ hs hs' => hs.step_worker hs').exclusive

/-- The interrupt strikes while `flush` is in TinyUSB. -/
theorem exclusive_violated :
    ¬ ∀ evs : List Event, Runs.Every (step serialUsbIrq)
      (fun s ev => ∀ s', step serialUsbIrq s ev = some s' → s'.reentered = false) Port.start evs := by
  intro h
  have hrun := h [.advance 0, .advance 0, .advance 0, .advance 0, .advance 1,
    .call .flush, .advance 0, .advance 0, .irq]
  have := (hrun.2 _ rfl |>.2 _ rfl |>.2 _ rfl |>.2 _ rfl |>.2 _ rfl |>.2 _ rfl |>.2 _ rfl |>.2 _ rfl
    |>.1 _ rfl)
  revert this
  decide

end Pico.Usb
