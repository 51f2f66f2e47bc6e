/-
**Measuring a pulse.**

`pulseIn` of `arduino/arduino/wiring_pulse.c` waits for a pulse on a pin, and returns its width in
microseconds, or 0 if it is not over before a timeout.  It looks at the clock and at the pin in
turn; the clock is a counter of 32 bits that starts anew every 71 minutes, and a deadline is
computed from it.

* `Pace` — the times between the looks;
* `Measurement` — a call, with all that it meets, relative to its beginning;
* `Measurement.pulseIn` — the function, called at some moment;
* `Measurement.Pulse` — a pulse as it is sampled, without regard to the timeout;
* `Measurement.Independent` — **the result does not depend on the moment**: it is the width of the
  pulse, or 0;
* `Measurement.Unwrapped` — a moment at which the deadline does no harm;
* `independent_iff` — the result is right at two moments exactly if both are such.
-/

import WizioPico.Fuel
import Mathlib.Algebra.Group.Nat.Defs
import Mathlib.Data.Int.Notation

set_option relaxedAutoImplicit false
set_option autoImplicit false

namespace Pico.PulseIn

open Fuel (Returns Stops whileLoop)

/-! ### The function -/

/-- The microseconds from each look at the clock to the look at the pin, and from there to the next
look at the clock. -/
structure Pace where
  toPin : ℕ → ℕ
  toClock : ℕ → ℕ

/-- When the looks at the clock happen, after the first one. -/
def Pace.clock (p : Pace) : ℕ → ℕ
  | 0 => 0
  | k + 1 => p.clock k + p.toPin k + p.toClock k

/-- When the looks at the pin happen. -/
def Pace.pin (p : Pace) (k : ℕ) : ℕ := p.clock k + p.toPin k

/-- **A call**: the pace of the processor, the level of the pin after so many microseconds, and the
arguments. -/
structure Measurement where
  pace : Pace
  wave : ℕ → Bool
  state : UInt8
  timeout : UInt32

/-- `micros`, from the microseconds since the start of the system. -/
def micros (now : ℕ) : UInt32 := UInt32.ofNat now

/-- `digitalRead`. -/
def digitalRead (level : Bool) : ℤ := if level then 1 else 0

/-- The variables of `pulseIn`, and the number of looks after the first one. -/
structure PulseVars where
  initTime : UInt32
  currTime : UInt32
  pinState : ℤ
  looks : ℕ

namespace Measurement

variable (m : Measurement) (start : ℕ)

/-- What a look at the clock returns, and one at the pin. -/
def counter (k : ℕ) : UInt32 := micros (start + m.pace.clock k)
def sample (k : ℕ) : ℤ := digitalRead (m.wave (m.pace.pin k))

/-- The deadline, computed from the first look. -/
def maxTime : UInt32 := m.counter start 0 + m.timeout

/-- The body of the loops that wait for the end of a pulse. -/
def look (v : PulseVars) : PulseVars :=
  { v with
    currTime := m.counter start (v.looks + 1)
    pinState := m.sample (v.looks + 1)
    looks := v.looks + 1 }

/-- The body of the loop that waits for its start. -/
def lookInit (v : PulseVars) : PulseVars :=
  { m.look start v with initTime := (m.look start v).currTime }

/-- The tests of the loops. -/
def inPulse (v : PulseVars) : Bool :=
  decide (v.pinState = m.state.toNat) && decide (v.currTime < m.maxTime start)
def noPulse (v : PulseVars) : Bool :=
  decide (v.pinState ≠ m.state.toNat) && decide (v.currTime < m.maxTime start)

/-- What is returned in the end. -/
def width (v : PulseVars) : UInt32 :=
  if v.currTime < m.maxTime start then v.currTime - v.initTime else 0

/-- `pulseIn`. -/
def pulseIn (fuel : ℕ) : Option UInt32 :=
  (whileLoop (m.inPulse start) (m.look start) fuel
    ⟨m.counter start 0, m.counter start 0, m.sample 0, 0⟩).bind fun v =>
  (whileLoop (m.noPulse start) (m.lookInit start) fuel v).bind fun v =>
  (whileLoop (m.inPulse start) (m.look start) fuel v).map (m.width start)

/-! ### What is expected -/

/-- The pin is in the state that is asked for. -/
def Level (k : ℕ) : Prop := m.sample k = m.state.toNat

instance (k : ℕ) : Decidable (m.Level k) := inferInstanceAs (Decidable (_ = _))

/-- **Where the three waits end**, for the end of the previous pulse, for the start of the pulse and
for its end, if each goes on only as long as a condition holds. -/
def Sampled (go : ℕ → Prop) (a b c : ℕ) : Prop :=
  Stops (fun k => m.Level k ∧ go k) 0 a ∧ Stops (fun k => ¬m.Level k ∧ go k) a b ∧
    Stops (fun k => m.Level k ∧ go k) b c

/-- **A pulse as it is sampled**: the first look before it, the first one in it, and the first one
after it. -/
def Pulse (a b c : ℕ) : Prop := m.Sampled (fun _ => True) a b c

/-- The width of the pulse if it is over before the timeout, and 0 otherwise. -/
def Measures (r : UInt32) : Prop :=
  (∀ a b c, m.Pulse a b c → m.pace.clock c < m.timeout.toNat →
    r.toNat = m.pace.clock c - m.pace.clock b) ∧
  ((¬∃ a b c, m.Pulse a b c ∧ m.pace.clock c < m.timeout.toNat) → r = 0)

/-- **The moment of the call does not matter.** -/
def Independent (start₁ start₂ : ℕ) : Prop :=
  ∃ r, Returns (m.pulseIn start₁) r ∧ Returns (m.pulseIn start₂) r ∧ m.Measures r

/-- A look at the clock before the deadline, as the loops compare them. -/
def InTime (k : ℕ) : Prop := m.counter start k < m.maxTime start

instance (k : ℕ) : Decidable (m.InTime start k) := inferInstanceAs (Decidable (_ < _))

/-- **The deadline does no harm.**  If the pulse is over in time, the deadline is not beyond the
last value of the counter, unless the width is 0; otherwise the deadline is noticed before the pulse
is over, or the width is not visible in the counter. -/
structure Unwrapped : Prop where
  ended : ∀ a b c, m.Pulse a b c → m.pace.clock c < m.timeout.toNat →
    (micros start).toNat + m.timeout.toNat < 2 ^ 32 ∨ m.pace.clock c = m.pace.clock b
  missed : (¬∃ a b c, m.Pulse a b c ∧ m.pace.clock c < m.timeout.toNat) →
    (∃ j, ¬m.InTime start j ∧ ∀ a b c, m.Pulse a b c → j ≤ c) ∨
      ∃ a b c, m.Pulse a b c ∧ 2 ^ 32 ∣ m.pace.clock c - m.pace.clock b

/-! ### Samples -/

section

variable {m} {go : ℕ → Prop} {a b c a' b' c' j : ℕ}

theorem Sampled.unique (h : m.Sampled go a b c) (h' : m.Sampled go a' b' c') :
    a = a' ∧ b = b' ∧ c = c' := by
  obtain ⟨ha, hb, hc⟩ := h
  obtain ⟨ha', hb', hc'⟩ := h'
  obtain rfl := ha.unique ha'
  obtain rfl := hb.unique hb'
  exact ⟨rfl, rfl, hc.unique hc'⟩

/-- The condition has held at every look but the last one. -/
theorem Sampled.forall_lt (h : m.Sampled go a b c) {k : ℕ} (hk : k < c) : go k := by
  obtain ⟨⟨-, ha, -⟩, ⟨-, hb, -⟩, ⟨-, hc, -⟩⟩ := h
  by_cases hka : k < a
  · exact (ha k (Nat.zero_le k) hka).2
  · by_cases hkb : k < b
    · exact (hb k (Nat.le_of_not_lt hka) hkb).2
    · exact (hc k (Nat.le_of_not_lt hkb) hk).2

theorem Sampled.forall_le (h : m.Sampled go a b c) (hgo : go c) {k : ℕ} (hk : k ≤ c) : go k := by
  rcases Nat.eq_or_lt_of_le hk with rfl | hlt
  · exact hgo
  · exact h.forall_lt hlt

theorem Sampled.le (h : m.Sampled go a b c) : a ≤ b ∧ b ≤ c := ⟨h.2.1.1, h.2.2.1⟩

/-- Then there was a look out of the pulse before it. -/
theorem Sampled.lt (h : m.Sampled go a b c) (hgo : go c) : a < b := by
  have hall := h.forall_le hgo (Nat.le_trans h.le.1 h.le.2)
  obtain ⟨⟨-, -, ha⟩, ⟨hab, -, hb⟩, -⟩ := h
  refine Nat.lt_of_le_of_ne hab fun heq => ?_
  have hlevel : ¬m.Level a := fun hlevel => ha ⟨hlevel, hall⟩
  exact hb (heq ▸ ⟨hlevel, hall⟩)

/-- A condition that holds throughout does not matter. -/
theorem Sampled.congr {go' : ℕ → Prop} (h : m.Sampled go a b c) (hgo : ∀ k, k ≤ c → go k)
    (hgo' : ∀ k, k ≤ c → go' k) : m.Sampled go' a b c := by
  obtain ⟨hab, hbc⟩ := h.le
  have heq : ∀ k, k ≤ c → (go' k ↔ go k) := fun k hk => iff_of_true (hgo' k hk) (hgo k hk)
  obtain ⟨ha, hb, hc⟩ := h
  refine ⟨ha.congr fun k _ hk => ?_, hb.congr fun k _ hk => ?_, hc.congr fun k _ hk => ?_⟩
  · rw [heq k (by omega)]
  · rw [heq k (by omega)]
  · rw [heq k (by omega)]

theorem Pulse.sampled (h : m.Pulse a b c) (hgo : ∀ k, k ≤ c → go k) : m.Sampled go a b c :=
  Sampled.congr h (fun _ _ => trivial) hgo

theorem Sampled.pulse (h : m.Sampled go a b c) (hgo : go c) : m.Pulse a b c :=
  h.congr (fun _ => h.forall_le hgo) fun _ _ => trivial

/-- A condition that fails brings every wait to an end. -/
theorem exists_sampled (m : Measurement) (h : ¬go j) : ∃ a b c, m.Sampled go a b c := by
  obtain ⟨a, ha, haj⟩ : ∃ a, Stops (fun k => m.Level k ∧ go k) 0 a ∧ a ≤ j :=
    Fuel.exists_stops (Nat.zero_le j) fun hj => h hj.2
  obtain ⟨b, hb, hbj⟩ : ∃ b, Stops (fun k => ¬m.Level k ∧ go k) a b ∧ b ≤ j :=
    Fuel.exists_stops haj fun hj => h hj.2
  obtain ⟨c, hc, -⟩ : ∃ c, Stops (fun k => m.Level k ∧ go k) b c ∧ c ≤ j :=
    Fuel.exists_stops hbj fun hj => h hj.2
  exact ⟨a, b, c, ha, hb, hc⟩

end

/-! ### The loops -/

/-- The variables after some looks. -/
def vars (initTime : UInt32) (k : ℕ) : PulseVars :=
  ⟨initTime, m.counter start k, m.sample k, k⟩

theorem inPulse_vars (i : UInt32) (k : ℕ) :
    m.inPulse start (m.vars start i k) = true ↔ m.Level k ∧ m.InTime start k := by
  rw [inPulse, Bool.and_eq_true, decide_eq_true_iff, decide_eq_true_iff]
  rfl

theorem noPulse_vars (i : UInt32) (k : ℕ) :
    m.noPulse start (m.vars start i k) = true ↔ ¬m.Level k ∧ m.InTime start k := by
  rw [noPulse, Bool.and_eq_true, decide_eq_true_iff, decide_eq_true_iff]
  rfl

/-- **Waiting for the end of a pulse.** -/
theorem returns_inPulse_iff (i : UInt32) (a : ℕ) (v : PulseVars) :
    Returns (fun n => whileLoop (m.inPulse start) (m.look start) n (m.vars start i a)) v ↔
      ∃ b, Stops (fun k => m.Level k ∧ m.InTime start k) a b ∧ v = m.vars start i b := by
  rw [Fuel.returns_whileLoop_iff (m.inPulse start) (m.vars start i) fun _ _ => rfl]
  simp only [inPulse_vars]

/-- **Waiting for its start.** -/
theorem returns_noPulse_iff (i : UInt32) (a : ℕ) (v : PulseVars) :
    Returns (fun n => whileLoop (m.noPulse start) (m.lookInit start) n (m.vars start i a)) v ↔
      ∃ b, Stops (fun k => ¬m.Level k ∧ m.InTime start k) a b ∧
        v = m.vars start (if b = a then i else m.counter start b) b := by
  let path : ℕ → PulseVars := fun k => m.vars start (if k = a then i else m.counter start k) k
  have hfirst : path a = m.vars start i a := by
    simp only [path, if_true]
  have hpath : ∀ k, a ≤ k → m.lookInit start (path k) = path (k + 1) := by
    intro k hk
    simp only [path, if_neg (by omega : ¬k + 1 = a)]
    rfl
  rw [← hfirst, Fuel.returns_whileLoop_iff (m.noPulse start) path hpath]
  simp only [path, noPulse_vars]

/-- What is returned after the three loops. -/
theorem width_vars {a b c : ℕ} (h : m.Sampled (m.InTime start) a b c) :
    m.width start (m.vars start (if b = a then m.counter start 0 else m.counter start b) c) =
      if m.InTime start c then m.counter start c - m.counter start b else 0 := by
  by_cases htime : m.InTime start c
  · have hlt := h.lt htime
    rw [if_pos htime, if_neg (by omega : ¬b = a)]
    exact if_pos htime
  · rw [if_neg htime]
    exact if_neg htime

/-- **What `pulseIn` returns.** -/
theorem returns_pulseIn_iff (r : UInt32) :
    Returns (m.pulseIn start) r ↔ ∃ a b c, m.Sampled (m.InTime start) a b c ∧
      r = if m.InTime start c then m.counter start c - m.counter start b else 0 := by
  have hmono : ∀ (cond : PulseVars → Bool) (body : PulseVars → PulseVars) (v : PulseVars) n t,
      whileLoop cond body n v = some t → whileLoop cond body (n + 1) v = some t :=
    fun _ _ _ n _ h => Fuel.whileLoop_mono n h
  have hlast : ∀ v, Returns (fun n => (whileLoop (m.inPulse start) (m.look start) n v).map
      (m.width start)) r ↔ ∃ w, Returns
        (fun n => whileLoop (m.inPulse start) (m.look start) n v) w ∧ r = m.width start w :=
    fun v => Fuel.returns_map_iff (hmono _ _ v)
  unfold pulseIn
  rw [Fuel.returns_bind_iff (hmono _ _ _)]
  constructor
  · rintro ⟨v, hv, hrest⟩
    obtain ⟨a, ha, rfl⟩ := (m.returns_inPulse_iff start _ 0 v).1 hv
    rw [Fuel.returns_bind_iff (hmono _ _ _)] at hrest
    obtain ⟨w, hw, hrest⟩ := hrest
    obtain ⟨b, hb, rfl⟩ := (m.returns_noPulse_iff start _ a w).1 hw
    obtain ⟨x, hx, rfl⟩ := (hlast _).1 hrest
    obtain ⟨c, hc, rfl⟩ := (m.returns_inPulse_iff start _ b x).1 hx
    exact ⟨a, b, c, ⟨ha, hb, hc⟩, m.width_vars start ⟨ha, hb, hc⟩⟩
  · rintro ⟨a, b, c, h, rfl⟩
    have hwidth := (m.width_vars start h).symm
    obtain ⟨ha, hb, hc⟩ := h
    have hv := (m.returns_inPulse_iff start (m.counter start 0) 0 _).2 ⟨a, ha, rfl⟩
    have hw := (m.returns_noPulse_iff start (m.counter start 0) a _).2 ⟨b, hb, rfl⟩
    have hx := (m.returns_inPulse_iff start
      (if b = a then m.counter start 0 else m.counter start b) b _).2 ⟨c, hc, rfl⟩
    refine ⟨_, hv, ?_⟩
    rw [Fuel.returns_bind_iff (hmono _ _ _)]
    exact ⟨_, hw, (hlast _).2 ⟨_, hx, hwidth⟩⟩

/-! ### The counter -/

variable {m start}

theorem clock_mono {j k : ℕ} (h : j ≤ k) : m.pace.clock j ≤ m.pace.clock k := by
  induction h with
  | refl => exact Nat.le_refl _
  | step _ ih =>
      refine Nat.le_trans ih ?_
      rw [Pace.clock]
      omega

theorem toNat_counter (k : ℕ) :
    (m.counter start k).toNat = (start + m.pace.clock k) % 2 ^ 32 := UInt32.toNat_ofNat'

theorem toNat_counter_zero : (m.counter start 0).toNat = (micros start).toNat := rfl

/-- Times that are subtracted in the counter. -/
theorem toNat_sub_counter (m : Measurement) (start : ℕ) {b c : ℕ} (h : b ≤ c) :
    (m.counter start c - m.counter start b).toNat =
      (m.pace.clock c - m.pace.clock b) % 2 ^ 32 := by
  have hle := clock_mono (m := m) h
  rw [UInt32.toNat_sub, toNat_counter, toNat_counter]
  omega

theorem toNat_maxTime :
    (m.maxTime start).toNat = ((micros start).toNat + m.timeout.toNat) % 2 ^ 32 := by
  rw [maxTime, UInt32.toNat_add, toNat_counter_zero]

/-- A deadline that the counter reaches is not reached before the timeout. -/
theorem inTime_of_lt {k : ℕ} (hwrap : (micros start).toNat + m.timeout.toNat < 2 ^ 32)
    (hk : m.pace.clock k < m.timeout.toNat) : m.InTime start k := by
  have hstart : (micros start).toNat = start % 2 ^ 32 := UInt32.toNat_ofNat'
  rw [InTime, UInt32.lt_iff_toNat_lt, toNat_counter, toNat_maxTime]
  omega

/-- **A deadline beyond the last value of the counter** has been reached at once. -/
theorem not_inTime_zero (hwrap : 2 ^ 32 ≤ (micros start).toNat + m.timeout.toNat) :
    ¬m.InTime start 0 := by
  have hlt := m.timeout.toNat_lt
  have hlt' := (micros start).toNat_lt
  rw [InTime, UInt32.lt_iff_toNat_lt, toNat_counter_zero, toNat_maxTime]
  omega

/-! ### Right or wrong -/

/-- **A pulse that is over before the deadline** is measured. -/
theorem returns_of_pulse {a b c : ℕ} (h : m.Pulse a b c) (htime : ∀ k, k ≤ c → m.InTime start k) :
    Returns (m.pulseIn start) (m.counter start c - m.counter start b) :=
  (m.returns_pulseIn_iff start _).2
    ⟨a, b, c, h.sampled htime, (if_pos (htime c (Nat.le_refl c))).symm⟩

/-- Waiting that has ended at the deadline returns 0. -/
theorem returns_zero_of_expired {a b c : ℕ} (h : m.Sampled (m.InTime start) a b c)
    (hexpired : ¬m.InTime start c) : Returns (m.pulseIn start) 0 :=
  (m.returns_pulseIn_iff start 0).2 ⟨a, b, c, h, (if_neg hexpired).symm⟩

/-- **When 0 is returned**: the deadline is noticed before a pulse is over, or the width of the
pulse is not visible in the counter. -/
theorem returns_zero_iff : Returns (m.pulseIn start) 0 ↔
    (∃ j, ¬m.InTime start j ∧ ∀ a b c, m.Pulse a b c → j ≤ c) ∨
      ∃ a b c, m.Pulse a b c ∧ 2 ^ 32 ∣ m.pace.clock c - m.pace.clock b := by
  constructor
  · intro hzero
    obtain ⟨a, b, c, h, hr⟩ := (m.returns_pulseIn_iff start 0).1 hzero
    by_cases htime : m.InTime start c
    · rw [if_pos htime] at hr
      have hsub := m.toNat_sub_counter start h.le.2
      rw [← hr] at hsub
      exact .inr ⟨a, b, c, h.pulse htime, Nat.dvd_of_mod_eq_zero hsub.symm⟩
    · refine .inl ⟨c, htime, fun a' b' c' hpulse => ?_⟩
      by_contra hlt
      have hbefore : ∀ k, k ≤ c' → m.InTime start k := fun k hk => h.forall_lt (by omega)
      have := (h.unique (hpulse.sampled hbefore)).2.2
      omega
  · rintro (⟨j, hj, hbefore⟩ | ⟨a, b, c, hpulse, hdvd⟩)
    · obtain ⟨a, b, c, h⟩ := exists_sampled m hj
      by_cases htime : m.InTime start c
      · exact absurd (h.forall_le htime (hbefore a b c (h.pulse htime))) hj
      · exact returns_zero_of_expired h htime
    · by_cases hall : ∀ k, k ≤ c → m.InTime start k
      · have hsub : m.counter start c - m.counter start b = 0 := by
          rw [← UInt32.toNat_inj, m.toNat_sub_counter start hpulse.le.2,
            Nat.mod_eq_zero_of_dvd hdvd]
          rfl
        exact hsub ▸ returns_of_pulse hpulse hall
      · obtain ⟨k, hk⟩ := not_forall.1 hall
        obtain ⟨hkc, hexpired⟩ := Classical.not_imp.1 hk
        obtain ⟨a', b', c', h⟩ := exists_sampled m hexpired
        refine returns_zero_of_expired h fun htime => ?_
        obtain ⟨-, -, rfl⟩ := hpulse.unique (h.pulse htime)
        exact hexpired (h.forall_le htime hkc)

/-- With a deadline beyond the last value of the counter, 0 is returned at once. -/
theorem returns_zero_of_wrap (hwrap : 2 ^ 32 ≤ (micros start).toNat + m.timeout.toNat) :
    Returns (m.pulseIn start) 0 :=
  returns_zero_iff.2 (.inl ⟨0, not_inTime_zero hwrap, fun _ _ c _ => Nat.zero_le c⟩)

/-- There is one right result. -/
theorem Measures.unique {r r' : UInt32} (h : m.Measures r) (h' : m.Measures r') : r = r' := by
  by_cases hover : ∃ a b c, m.Pulse a b c ∧ m.pace.clock c < m.timeout.toNat
  · obtain ⟨a, b, c, hpulse, hlt⟩ := hover
    rw [← UInt32.toNat_inj, h.1 a b c hpulse hlt, h'.1 a b c hpulse hlt]
  · rw [h.2 hover, h'.2 hover]

/-- A pulse that is over in time, with a deadline that the counter reaches. -/
theorem measures_of_pulse {a b c : ℕ} (hpulse : m.Pulse a b c)
    (hlt : m.pace.clock c < m.timeout.toNat) :
    m.Measures (m.counter start c - m.counter start b) := by
  have hbound := m.timeout.toNat_lt
  refine ⟨fun a' b' c' hpulse' _ => ?_, fun hno => absurd ⟨a, b, c, hpulse, hlt⟩ hno⟩
  obtain ⟨rfl, rfl, rfl⟩ := hpulse.unique hpulse'
  rw [m.toNat_sub_counter start hpulse.le.2]
  exact Nat.mod_eq_of_lt (by omega)

/-- **A call measures rightly** exactly if the deadline does no harm. -/
theorem exists_measures_iff :
    (∃ r, Returns (m.pulseIn start) r ∧ m.Measures r) ↔ m.Unwrapped start := by
  by_cases hover : ∃ a b c, m.Pulse a b c ∧ m.pace.clock c < m.timeout.toNat
  · obtain ⟨a, b, c, hpulse, hlt⟩ := hover
    by_cases hwrap : (micros start).toNat + m.timeout.toNat < 2 ^ 32
    · have htime : ∀ k, k ≤ c → m.InTime start k :=
        fun k hk => inTime_of_lt hwrap (Nat.lt_of_le_of_lt (clock_mono hk) hlt)
      exact iff_of_true ⟨_, returns_of_pulse hpulse htime, measures_of_pulse hpulse hlt⟩
        ⟨fun _ _ _ _ _ => .inl hwrap, fun hno => absurd ⟨a, b, c, hpulse, hlt⟩ hno⟩
    · have hzero : Returns (m.pulseIn start) 0 := returns_zero_of_wrap (Nat.le_of_not_lt hwrap)
      constructor
      · rintro ⟨r, hr, hmeasures⟩
        obtain rfl := hr.unique hzero
        refine ⟨fun a' b' c' hpulse' hlt' => .inr ?_, fun hno => absurd ⟨a, b, c, hpulse, hlt⟩ hno⟩
        have hwidth := hmeasures.1 a' b' c' hpulse' hlt'
        have hle := clock_mono (m := m) hpulse'.le.2
        rw [UInt32.toNat_zero] at hwidth
        omega
      · intro hunwrapped
        refine ⟨0, hzero, fun a' b' c' hpulse' hlt' => ?_, fun _ => rfl⟩
        have hwidth := (hunwrapped.ended a' b' c' hpulse' hlt').resolve_left hwrap
        rw [UInt32.toNat_zero]
        omega
  · constructor
    · rintro ⟨r, hr, hmeasures⟩
      obtain rfl := hmeasures.2 hover
      exact ⟨fun a b c hpulse hlt => absurd ⟨a, b, c, hpulse, hlt⟩ hover,
        fun _ => returns_zero_iff.1 hr⟩
    · intro hunwrapped
      exact ⟨0, returns_zero_iff.2 (hunwrapped.missed hover),
        fun a b c hpulse hlt => absurd ⟨a, b, c, hpulse, hlt⟩ hover, fun _ => rfl⟩

/-- **When the moment of the call does not matter**: the deadline does no harm at either of two
moments. -/
theorem independent_iff (m : Measurement) (start₁ start₂ : ℕ) :
    m.Independent start₁ start₂ ↔ m.Unwrapped start₁ ∧ m.Unwrapped start₂ := by
  rw [← exists_measures_iff, ← exists_measures_iff]
  constructor
  · rintro ⟨r, h₁, h₂, hmeasures⟩
    exact ⟨⟨r, h₁, hmeasures⟩, r, h₂, hmeasures⟩
  · rintro ⟨⟨r, h₁, hmeasures⟩, r', h₂, hmeasures'⟩
    obtain rfl := hmeasures.unique hmeasures'
    exact ⟨r, h₁, h₂, hmeasures⟩

/-- A pulse of one microsecond, one microsecond after the call, with a timeout of a millisecond. -/
def shortPulse : Measurement :=
  ⟨⟨fun _ => 0, fun _ => 1⟩, fun t => decide (t = 1), 1, 1000⟩

/-- **It is measured at the start of the system, but not when the counter has its last value.** -/
theorem shortPulse_not_independent : ¬shortPulse.Independent 0 (2 ^ 32 - 1) := by
  have hbefore : ¬shortPulse.Level 0 := by decide
  have hin : shortPulse.Level 1 := by decide
  have hafter : ¬shortPulse.Level 2 := by decide
  have hpulse : shortPulse.Pulse 0 1 2 := by
    refine ⟨⟨Nat.le_refl 0, fun k _ hk => absurd hk (Nat.not_lt_zero k), fun h => hbefore h.1⟩,
      ⟨Nat.zero_le 1, fun k _ hk => ?_, fun h => h.1 hin⟩,
      ⟨Nat.le_succ 1, fun k hk hk' => ?_, fun h => hafter h.1⟩⟩
    · obtain rfl : k = 0 := by omega
      exact ⟨hbefore, trivial⟩
    · obtain rfl : k = 1 := by omega
      exact ⟨hin, trivial⟩
  have hzero : Returns (shortPulse.pulseIn (2 ^ 32 - 1)) 0 := returns_zero_of_wrap (by decide)
  rintro ⟨r, -, hr, hmeasures⟩
  obtain rfl := hr.unique hzero
  exact absurd (hmeasures.1 0 1 2 hpulse (by decide)) (by decide)

end Measurement

end Pico.PulseIn
