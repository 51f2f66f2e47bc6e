/-
**The duty of the PWM.**

A duty of 16 bits is scaled to the wrap of the counter and stored in the half of the compare
register that is for the channel; `getDuty` scales it back.

* `hwWriteMasked`, `Hw.setChanLevel`, `Hw.chanLevel` — the compare register;
* `PWMClass.setDuty`, `PWMClass.getDuty`, `analogWrite` — the functions;
* `chanLevel_setChanLevel` — a level that is set is the one that is read;
* `scale_le`, `scale_near` — scaling there and back;
* `duty_accurate` — **the conversion is accurate and does not overflow**;
* `analogWrite_hw` — `analogWrite` sets what `setDuty` sets.
-/

import WizioPico.CTypes
import WizioPico.Pwm

set_option relaxedAutoImplicit false
set_option autoImplicit false

namespace Pico.Pwm

open Fuel

/-! ### The compare register -/

/-- `hw_write_masked`: what a register becomes. -/
def hwWriteMasked (old values mask : UInt32) : UInt32 := old ^^^ ((old ^^^ values) &&& mask)

/-- `PWM_CH0_CC_A_LSB` or `PWM_CH0_CC_B_LSB`, and the bits from there on. -/
def ccLsb (chan : UInt8) : UInt32 := if chan ≠ 0 then 16 else 0
def ccBits (chan : UInt8) : UInt32 := if chan ≠ 0 then 0xffff0000 else 0xffff

/-- `pwm_set_chan_level`. -/
def Hw.setChanLevel (hw : Hw) (slice chan : UInt8) (level : UInt16) : Hw :=
  Function.update hw slice
    { hw slice with
      cc := hwWriteMasked (hw slice).cc (level.toUInt32 <<< ccLsb chan) (ccBits chan) }

/-- `pwm_set_enabled`. -/
def Hw.setEnabled (hw : Hw) (slice : UInt8) (enabled : Bool) : Hw :=
  Function.update hw slice
    { hw slice with csr := hwWriteMasked (hw slice).csr (if enabled then 1 else 0) 1 }

/-- The level of a channel, as `getDuty` reads it. -/
def Hw.chanLevel (hw : Hw) (slice chan : UInt8) : UInt32 :=
  ((hw slice).cc >>> ccLsb chan) &&& 0xffff

theorem getLsbD_low (i : ℕ) : (65535#32).getLsbD i = decide (i < 16) := by
  have hones : 65535#32 = BitVec.ofNat 32 (2 ^ 16 - 1) := rfl
  rw [hones, BitVec.getLsbD_ofNat, Nat.testBit_two_pow_sub_one]
  by_cases hi : i < 16
  · simp only [hi, Nat.lt_trans hi (show 16 < 32 by decide), decide_true, Bool.and_true]
  · simp only [hi, decide_false, Bool.and_false]

theorem getLsbD_high (i : ℕ) (hi : i < 16) : (4294901760#32).getLsbD (16 + i) = true := by
  have hones : 4294901760#32 = 65535#32 <<< 16 := rfl
  rw [hones, BitVec.getLsbD_shiftLeft, Nat.add_sub_cancel_left, getLsbD_low]
  have hin : 16 + i < 32 := Nat.add_lt_add_left hi 16
  simp [hi, hin]

/-- **A level that is set is the one that is read**, whatever the other channel has. -/
theorem readBack (old : UInt32) (chan : UInt8) (level : UInt16) :
    (hwWriteMasked old (level.toUInt32 <<< ccLsb chan) (ccBits chan) >>> ccLsb chan) &&& 0xffff =
      level.toUInt32 := by
  apply UInt32.toBitVec_inj.1
  apply BitVec.eq_of_getLsbD_eq
  intro i hi
  by_cases hchan : chan ≠ 0
  · simp only [ccLsb, ccBits, if_pos hchan]
    by_cases hlow : i < 16
    · have hin : 16 + i < 32 := Nat.add_lt_add_left hlow 16
      have hmask := getLsbD_high i hlow
      rw [BitVec.getLsbD_eq_getElem hin] at hmask
      simp [hwWriteMasked, getLsbD_low, hmask, hi, hlow, hin]
    · simp [hwWriteMasked, getLsbD_low, hlow, BitVec.getLsbD_of_ge level.toBitVec i (by omega)]
  · simp only [ccLsb, ccBits, if_neg hchan]
    by_cases hlow : i < 16
    · simp [hwWriteMasked, getLsbD_low, hlow]
    · simp [hwWriteMasked, getLsbD_low, hlow, BitVec.getLsbD_of_ge level.toBitVec i (by omega)]

@[simp] theorem chanLevel_setEnabled (hw : Hw) (slice chan : UInt8) (enabled : Bool) :
    (hw.setEnabled slice enabled).chanLevel slice chan = hw.chanLevel slice chan := by
  rw [Hw.chanLevel, Hw.setEnabled, Function.update_self, Hw.chanLevel]

@[simp] theorem chanLevel_setChanLevel (hw : Hw) (slice chan : UInt8) (level : UInt16) :
    (hw.setChanLevel slice chan level).chanLevel slice chan = level.toUInt32 := by
  rw [Hw.chanLevel, Hw.setChanLevel, Function.update_self]
  exact readBack _ chan level

@[simp] theorem top_setEnabled (hw : Hw) (slice : UInt8) (enabled : Bool) :
    (hw.setEnabled slice enabled slice).top = (hw slice).top := by
  rw [Hw.setEnabled, Function.update_self]

@[simp] theorem top_setChanLevel (hw : Hw) (slice chan : UInt8) (level : UInt16) :
    (hw.setChanLevel slice chan level slice).top = (hw slice).top := by
  rw [Hw.setChanLevel, Function.update_self]

/-! ### The functions -/

namespace PWMClass

/-- `setDuty`. -/
def setDuty (pwm : PWMClass) (sourceHz : UInt32) (duty : UInt16) (ns : Bool) (hw : Hw) : Bool × Hw :=
  let top := (hw pwm.slice).top
  if ns then
    let sliceHz := 16 * sourceHz / (hw pwm.slice).div
    let cc := (duty.toUInt64 * sliceHz.toUInt64 / 1000000000).toUInt32
    if cc > 65535 then (false, hw)
    else (true, (hw.setChanLevel pwm.slice pwm.channel cc.toUInt16).setEnabled pwm.slice true)
  else
    let cc := duty.toUInt32 * (top + 1) / 65535
    (true, (hw.setChanLevel pwm.slice pwm.channel cc.toUInt16).setEnabled pwm.slice true)

/-- `getDuty`. -/
def getDuty (pwm : PWMClass) (sourceHz : UInt32) (ns : Bool) (hw : Hw) : UInt16 :=
  let top := (hw pwm.slice).top
  let sliceHz := 16 * sourceHz / (hw pwm.slice).div
  let cc := hw.chanLevel pwm.slice pwm.channel
  if ns then (cc.toUInt64 * 1000000000 / sliceHz.toUInt64).toUInt16
  else (cc * 65535 / (top + 1)).toUInt16

end PWMClass

/-- `PINS_COUNT`. -/
def pinsCount : UInt8 := 30

/-- `analogWrite`.  The function of the pin plays no part here. -/
def analogWrite (sourceHz : UInt32) (pin : UInt8) (duty : ℤ) (fuel : ℕ) (b : Board) : Option Board :=
  if pin < pinsCount then
    let ready :=
      if 0 = (b.pins pin).pwmFrequency then analogSetFrequency sourceHz pin 1000 fuel b
      else some (true, b)
    ready.map fun r =>
      if r.1 then
        let b := r.2
        let slice := (b.pins pin).pwmSlice
        let top := (b.hw slice).top
        let cc := toSize duty * (top + 1) / 65535
        { b with
          hw := (b.hw.setChanLevel slice (b.pins pin).pwmChannel cc.toUInt16).setEnabled slice true }
      else r.2
  else some b

/-! ### Scaling there and back -/

section

variable {x t m : ℕ}

/-- Scaling to another range does not leave it. -/
theorem scale_le (hx : x ≤ m) : x * t / m ≤ t := Nat.div_le_of_le_mul (Nat.mul_le_mul_right t hx)

/-- Scaling there and back gives no more. -/
theorem scale_back_le (ht : 0 < t) : x * t / m * m / t ≤ x := by
  have hdown : x * t / m * m ≤ x * t := Nat.div_mul_le_self (x * t) m
  calc x * t / m * m / t ≤ x * t / t := Nat.div_le_div_right hdown
    _ = x := Nat.mul_div_cancel x ht

/-- Scaling there and back gives little less. -/
theorem scale_back_near (ht : 0 < t) (hm : 0 < m) :
    (x - x * t / m * m / t) * t < m + t := by
  have hdown : x * t < m * (x * t / m + 1) := Nat.lt_mul_div_succ (x * t) hm
  have hup : x * t / m * m < t * (x * t / m * m / t + 1) := Nat.lt_mul_div_succ _ ht
  rw [Nat.mul_succ, Nat.mul_comm m] at hdown
  rw [Nat.mul_succ, Nat.mul_comm t] at hup
  rw [Nat.sub_mul]
  omega

end

/-! ### The conversion -/

/-- **The conversion of a duty**: the products do not overflow, so the level and the duty that is
read back are what the numbers give; they keep to their ranges, and come close to the duty. -/
structure Accurate (pwm : PWMClass) (sourceHz : UInt32) (hw : Hw) (duty : UInt16) (hw' : Hw) :
    Prop where
  noWrap : duty.toNat * ((hw pwm.slice).top.toNat + 1) < 2 ^ 32
  level : (hw'.chanLevel pwm.slice pwm.channel).toNat =
    duty.toNat * ((hw pwm.slice).top.toNat + 1) / 65535
  level_le : (hw'.chanLevel pwm.slice pwm.channel).toNat ≤ (hw pwm.slice).top.toNat + 1
  level_zero : duty.toNat = 0 → (hw'.chanLevel pwm.slice pwm.channel).toNat = 0
  level_full : duty.toNat = 65535 →
    (hw'.chanLevel pwm.slice pwm.channel).toNat = (hw pwm.slice).top.toNat + 1
  backNoWrap : (hw'.chanLevel pwm.slice pwm.channel).toNat * 65535 < 2 ^ 32
  back : (pwm.getDuty sourceHz false hw').toNat =
    (hw'.chanLevel pwm.slice pwm.channel).toNat * 65535 / ((hw pwm.slice).top.toNat + 1)
  back_le : (pwm.getDuty sourceHz false hw').toNat ≤ duty.toNat
  back_near : (duty.toNat - (pwm.getDuty sourceHz false hw').toNat) *
    ((hw pwm.slice).top.toNat + 1) < 65535 + ((hw pwm.slice).top.toNat + 1)
  back_ends : duty.toNat = 0 ∨ duty.toNat = 65535 →
    (pwm.getDuty sourceHz false hw').toNat = duty.toNat

section

variable {top : UInt32} {duty : UInt16}

theorem toNat_succ (htop : top.toNat ≤ 65534) : (top + 1).toNat = top.toNat + 1 := by
  rw [UInt32.toNat_add]
  exact Nat.mod_eq_of_lt (Nat.lt_of_le_of_lt (Nat.succ_le_succ htop) (by decide))

theorem duty_le (duty : UInt16) : duty.toNat ≤ 65535 := Nat.le_of_lt_succ duty.toNat_lt

/-- The level of a duty. -/
theorem toNat_level (htop : top.toNat ≤ 65534) :
    duty.toNat * (top.toNat + 1) < 2 ^ 32 ∧
    (duty.toUInt32 * (top + 1) / 65535).toUInt16.toNat = duty.toNat * (top.toNat + 1) / 65535 := by
  have hmul : duty.toNat * (top.toNat + 1) ≤ 65535 * 65535 :=
    Nat.mul_le_mul (duty_le duty) (Nat.succ_le_succ htop)
  have hlt : duty.toNat * (top.toNat + 1) < 2 ^ 32 := Nat.lt_of_le_of_lt hmul (by decide)
  have hlevel : duty.toNat * (top.toNat + 1) / 65535 ≤ top.toNat + 1 := scale_le (duty_le duty)
  refine ⟨hlt, ?_⟩
  rw [UInt32.toNat_toUInt16, UInt32.toNat_div, UInt32.toNat_mul, toNat_succ htop,
    UInt16.toNat_toUInt32, Nat.mod_eq_of_lt hlt]
  exact Nat.mod_eq_of_lt (Nat.lt_of_le_of_lt hlevel (by omega))

/-- The duty of a level. -/
theorem toNat_back {level : UInt32} (htop : top.toNat ≤ 65534)
    (hlevel : level.toNat ≤ top.toNat + 1) :
    level.toNat * 65535 < 2 ^ 32 ∧
    (level * 65535 / (top + 1)).toUInt16.toNat = level.toNat * 65535 / (top.toNat + 1) := by
  have hlt : level.toNat * 65535 < 2 ^ 32 := by omega
  have hback : level.toNat * 65535 / (top.toNat + 1) ≤ 65535 := by
    exact Nat.div_le_of_le_mul (Nat.mul_le_mul_right 65535 hlevel)
  refine ⟨hlt, ?_⟩
  rw [UInt32.toNat_toUInt16, UInt32.toNat_div, UInt32.toNat_mul, toNat_succ htop]
  change level.toNat * 65535 % 2 ^ 32 / (top.toNat + 1) % 2 ^ 16 = _
  rw [Nat.mod_eq_of_lt hlt]
  exact Nat.mod_eq_of_lt (Nat.lt_of_le_of_lt hback (by decide))

end

/-- What `setDuty` leaves in the level of its channel. -/
theorem setDuty_level (pwm : PWMClass) (sourceHz : UInt32) (hw : Hw) (duty : UInt16)
    (htop : (hw pwm.slice).top.toNat ≤ 65534) :
    ((pwm.setDuty sourceHz duty false hw).2.chanLevel pwm.slice pwm.channel).toNat =
      duty.toNat * ((hw pwm.slice).top.toNat + 1) / 65535 := by
  simp only [PWMClass.setDuty, Bool.false_eq_true, if_false, chanLevel_setEnabled,
    chanLevel_setChanLevel]
  rw [UInt16.toNat_toUInt32, (toNat_level htop).2]

@[simp] theorem setDuty_top (pwm : PWMClass) (sourceHz : UInt32) (hw : Hw) (duty : UInt16) :
    ((pwm.setDuty sourceHz duty false hw).2 pwm.slice).top = (hw pwm.slice).top := by
  simp only [PWMClass.setDuty, Bool.false_eq_true, if_false, top_setEnabled, top_setChanLevel]

/-- **The conversion of the duty is accurate and does not overflow**, and the level grows with the
duty. -/
theorem duty_accurate (pwm : PWMClass) (sourceHz : UInt32) (hw : Hw)
    (htop : (hw pwm.slice).top.toNat ≤ 65534) :
    (∀ duty, ∃ hw', pwm.setDuty sourceHz duty false hw = (true, hw') ∧
      Accurate pwm sourceHz hw duty hw') ∧
    ∀ duty duty' : UInt16, duty.toNat ≤ duty'.toNat →
      ((pwm.setDuty sourceHz duty false hw).2.chanLevel pwm.slice pwm.channel).toNat ≤
        ((pwm.setDuty sourceHz duty' false hw).2.chanLevel pwm.slice pwm.channel).toNat := by
  constructor
  · intro duty
    have hlevel := setDuty_level pwm sourceHz hw duty htop
    have hkept := setDuty_top pwm sourceHz hw duty
    refine ⟨(pwm.setDuty sourceHz duty false hw).2, rfl, ?_⟩
    generalize (pwm.setDuty sourceHz duty false hw).2 = hw' at hlevel hkept ⊢
    have hle : (hw'.chanLevel pwm.slice pwm.channel).toNat ≤ (hw pwm.slice).top.toNat + 1 :=
      hlevel ▸ scale_le (duty_le duty)
    obtain ⟨hwrap, hback⟩ := toNat_back htop hle
    have hduty : (pwm.getDuty sourceHz false hw').toNat =
        (hw'.chanLevel pwm.slice pwm.channel).toNat * 65535 / ((hw pwm.slice).top.toNat + 1) := by
      simp only [PWMClass.getDuty, Bool.false_eq_true, if_false, hkept]
      exact hback
    have hpos : 0 < (hw pwm.slice).top.toNat + 1 := Nat.succ_pos _
    refine ⟨(toNat_level htop).1, hlevel, hle, fun hzero => ?_, fun hfull => ?_, hwrap, hduty, ?_, ?_,
      fun hends => ?_⟩
    · rw [hlevel, hzero, Nat.zero_mul, Nat.zero_div]
    · rw [hlevel, hfull, Nat.mul_div_cancel_left _ (Nat.succ_pos 65534)]
    · rw [hduty, hlevel]
      exact scale_back_le hpos
    · rw [hduty, hlevel]
      exact scale_back_near hpos (Nat.succ_pos 65534)
    · rw [hduty, hlevel]
      rcases hends with hzero | hfull
      · simp only [hzero, Nat.zero_mul, Nat.zero_div]
      · rw [hfull, Nat.mul_div_cancel_left _ (Nat.succ_pos 65534), Nat.mul_div_cancel_left _ hpos]
  · intro duty duty' hle
    rw [setDuty_level _ _ _ _ htop, setDuty_level _ _ _ _ htop]
    exact Nat.div_le_div_right (Nat.mul_le_mul_right _ hle)

/-- Half of the duty, with a wrap of 999. -/
theorem duty_half : ∃ hw', (⟨0, 1⟩ : PWMClass).setDuty 125000000 32768 false
      (reset.hw.setDivTop 0 16 999) = (true, hw') ∧
    Accurate ⟨0, 1⟩ 125000000 (reset.hw.setDivTop 0 16 999) 32768 hw' := by
  have htop : (reset.hw.setDivTop 0 16 999 0).top.toNat ≤ 65534 := by
    rw [Hw.top_setDivTop]
    exact Nat.le_add_left 999 64535
  exact (duty_accurate ⟨0, 1⟩ 125000000 _ htop).1 32768

/-- `analogWrite` sets what `setDuty` sets, on a pin that has a frequency. -/
theorem analogWrite_hw (sourceHz : UInt32) (pin : UInt8) (duty : UInt16) (fuel : ℕ) (b : Board)
    (hpin : pin < pinsCount) (hfreq : (b.pins pin).pwmFrequency ≠ 0) :
    analogWrite sourceHz pin duty.toNat fuel b = some { b with
      hw := ((⟨(b.pins pin).pwmSlice, (b.pins pin).pwmChannel⟩ : PWMClass).setDuty sourceHz duty
        false b.hw).2 } := by
  have hint : toInt duty.toUInt32 = duty.toNat := by
    rw [toInt, UInt16.toNat_toUInt32, if_pos (Nat.lt_of_le_of_lt (duty_le duty) (by decide))]
  have hsize : toSize (duty.toNat : ℤ) = duty.toUInt32 := by
    rw [← hint, toSize_toInt]
  simp only [analogWrite, if_pos hpin, if_neg (Ne.symm hfreq), Option.map_some, if_true, hsize,
    PWMClass.setDuty, Bool.false_eq_true, if_false]

end Pico.Pwm
