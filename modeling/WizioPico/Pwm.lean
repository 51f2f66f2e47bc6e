/-
**The frequency of the PWM.**

`PWMClass::setFreq` of `libraries/RP2040/PWM/PWM.h` and `analogSetFrequency` of
`cores/RP2040/wiring.c` look for a divider, in units of 1/16, and a counter wrap whose product is
what a frequency needs.

* `Slice`, `Search` — the registers of a PWM slice, and the variables of the search;
* `PWMClass.setFreq`, `PWMClass.getFreq`, `analogSetFrequency` — the functions;
* `Search.Left` — **what holds in each round**: the divider is what the wrap leaves of the number;
* `Search.next_cases`, `Search.loop_found` — a round, and the search;
* `setFreq_sound` — **the search is sound**;
* `complete_iff` — **when the search finds a pair of registers if there is one**.
-/

import Mathlib.Algebra.Group.Nat.Defs
import Mathlib.Logic.Function.Basic
import Mathlib.Tactic.Common
import Mathlib.Tactic.Ring
import WizioPico.FactorSearch
import WizioPico.Fuel

set_option relaxedAutoImplicit false
set_option autoImplicit false

namespace Pico.Pwm

open Fuel FactorSearch

/-! ### The registers -/

/-- The registers of a slice. -/
structure Slice where
  csr : UInt32
  div : UInt32
  cc : UInt32
  top : UInt32

/-- The slices of `pwm_hw`. -/
abbrev Hw := UInt8 → Slice

/-- `pwm_gpio_to_slice_num`. -/
def gpioToSliceNum (gpio : UInt8) : UInt8 := (gpio >>> 1) &&& 7

/-- `pwm_gpio_to_channel`. -/
def gpioToChannel (gpio : UInt8) : UInt8 := gpio &&& 1

/-- The divider and the wrap of a slice are set. -/
def Hw.setDivTop (hw : Hw) (slice : UInt8) (div top : UInt32) : Hw :=
  Function.update hw slice { hw slice with div, top }

@[simp] theorem Hw.div_setDivTop (hw : Hw) (slice : UInt8) (div top : UInt32) :
    (hw.setDivTop slice div top slice).div = div := by
  rw [Hw.setDivTop, Function.update_self]

@[simp] theorem Hw.top_setDivTop (hw : Hw) (slice : UInt8) (div top : UInt32) :
    (hw.setDivTop slice div top slice).top = top := by
  rw [Hw.setDivTop, Function.update_self]

/-- What a `PWMClass` holds. -/
structure PWMClass where
  slice : UInt8
  channel : UInt8

/-- What `pins` holds of a pin for the PWM. -/
structure Pin where
  pwmSlice : UInt8
  pwmChannel : UInt8
  pwmFrequency : UInt32

/-- The pins and the registers. -/
structure Board where
  pins : UInt8 → Pin
  hw : Hw

/-- The pins and the registers after a reset. -/
def reset : Board := ⟨fun _ => ⟨0, 0, 0⟩, fun _ => ⟨0, 16, 0, 0xFFFF⟩⟩

/-! ### The search -/

/-- The largest wrap. -/
def topMax : UInt32 := 65534

/-- The variables of the search. -/
structure Search where
  div16Top : UInt32
  top : UInt32

namespace Search

/-- A round of the loop: a few small prime factors. -/
def next (s : Search) : Option Search :=
  if s.div16Top ≥ 16 * 5 ∧ s.div16Top % 5 = 0 ∧ s.top * 5 ≤ topMax then
    some ⟨s.div16Top / 5, s.top * 5⟩
  else if s.div16Top ≥ 16 * 3 ∧ s.div16Top % 3 = 0 ∧ s.top * 3 ≤ topMax then
    some ⟨s.div16Top / 3, s.top * 3⟩
  else if s.div16Top ≥ 16 * 2 ∧ s.top * 2 ≤ topMax then
    some ⟨s.div16Top / 2, s.top * 2⟩
  else none

/-- The loop.  The fuel is the number of its rounds. -/
def loop : ℕ → Search → Option Search
  | 0, _ => none
  | fuel + 1, s =>
    match s.next with
    | some s => loop fuel s
    | none => some s

/-- The search for a frequency. -/
def start (sourceHz freq : UInt32) : Search := ⟨16 * sourceHz / freq, 1⟩

/-- The registers are set, if the divider is one. -/
def write (s : Search) (slice : UInt8) (hw : Hw) : Bool × Hw :=
  if s.div16Top < 16 then (false, hw)
  else if s.div16Top ≥ 256 * 16 then (false, hw)
  else (true, hw.setDivTop slice s.div16Top s.top)

end Search

namespace PWMClass

/-- `getFreq`. -/
def getFreq (pwm : PWMClass) (sourceHz : UInt32) (hw : Hw) : UInt32 :=
  let div16 := (hw pwm.slice).div
  let top := (hw pwm.slice).top
  16 * sourceHz / div16 / top

/-- `setFreq`. -/
def setFreq (pwm : PWMClass) (sourceHz freq : UInt32) (fuel : ℕ) (hw : Hw) : Option (Bool × Hw) :=
  (Search.loop fuel (.start sourceHz freq)).map fun s => s.write pwm.slice hw

end PWMClass

/-- `analogSetFrequency`. -/
def analogSetFrequency (sourceHz : UInt32) (pin : UInt8) (freq : UInt32) (fuel : ℕ) (b : Board) :
    Option (Bool × Board) :=
  let entry : Pin := ⟨gpioToSliceNum pin, gpioToChannel pin, 0⟩
  (Search.loop fuel (.start sourceHz freq)).map fun s =>
    let w := s.write entry.pwmSlice b.hw
    let entry := if w.1 then { entry with pwmFrequency := freq } else entry
    (w.1, ⟨Function.update b.pins pin entry, w.2⟩)

/-! ### A round -/

theorem two_le_five_three : ∀ p ∈ [5, 3], 2 ≤ p :=
  List.forall_mem_cons.2 ⟨Nat.le_add_left 2 3, List.forall_mem_singleton.2 (Nat.le_succ 2)⟩

/-- The search, as a search for a factor. -/
def rule : Rule := ⟨[5, 3], 2, 16, 65534, two_le_five_three, Nat.le_refl 2⟩

theorem rule_factor (n t : ℕ) :
    rule.factor n t =
      if 5 ∣ n / t ∧ rule.Fits n t 5 then some 5
      else if 3 ∣ n / t ∧ rule.Fits n t 3 then some 3
      else if rule.Fits n t 2 then some 2
      else none := rfl

namespace Search

/-- **What holds in each round**: the divider is what the wrap leaves of the number. -/
structure Left (n : ℕ) (s : Search) : Prop where
  top_pos : 1 ≤ s.top.toNat
  top_le : s.top.toNat ≤ 65534
  div : s.div16Top.toNat = n / s.top.toNat

section

variable {n : ℕ} {s : Search} {p : UInt32}

/-- The products with the factors do not overflow. -/
theorem Left.toNat_top_mul (h : Left n s) (hp : p.toNat ≤ 5) :
    (s.top * p).toNat = s.top.toNat * p.toNat := by
  have hle : s.top.toNat * p.toNat ≤ 65534 * 5 := Nat.mul_le_mul h.top_le hp
  rw [UInt32.toNat_mul, Nat.mod_eq_of_lt (by omega)]

/-- The limits, as numbers. -/
theorem Left.fits_iff (h : Left n s) (hp : p.toNat ≤ 5) :
    s.div16Top ≥ 16 * p ∧ s.top * p ≤ topMax ↔ rule.Fits n s.top.toNat p.toNat := by
  have hlow : (16 * p).toNat = 16 * p.toNat := by
    rw [UInt32.toNat_mul, Nat.mod_eq_of_lt]
    · rfl
    · exact Nat.lt_of_le_of_lt (Nat.mul_le_mul_left 16 hp) (by decide)
  rw [ge_iff_le, UInt32.le_iff_toNat_le, UInt32.le_iff_toNat_le, h.toNat_top_mul hp, hlow, h.div]
  rfl

/-- The test for a factor that has to divide. -/
theorem Left.divides_iff (h : Left n s) (hp : p.toNat ≤ 5) :
    s.div16Top ≥ 16 * p ∧ s.div16Top % p = 0 ∧ s.top * p ≤ topMax ↔
      p.toNat ∣ n / s.top.toNat ∧ rule.Fits n s.top.toNat p.toNat := by
  rw [← h.fits_iff hp, ← h.div, Nat.dvd_iff_mod_eq_zero, ← UInt32.toNat_mod, ← UInt32.toNat_inj,
    UInt32.toNat_zero]
  exact and_left_comm

/-- The search after a factor has been split off. -/
theorem Left.split (h : Left n s) (hpos : 0 < p.toNat) (hp : p.toNat ≤ 5)
    (hfits : rule.Fits n s.top.toNat p.toNat) : Left n ⟨s.div16Top / p, s.top * p⟩ := by
  have htop := h.toNat_top_mul hp
  refine ⟨?_, ?_, ?_⟩
  · rw [htop]
    exact Nat.mul_pos h.top_pos hpos
  · rw [htop]
    exact hfits.2
  · rw [htop, UInt32.toNat_div, h.div, Nat.div_div_eq_div_mul]

/-- **What a round does**: it splits off the next factor, or there is none. -/
theorem next_cases (h : Left n s) :
    (∃ s' p, s.next = some s' ∧ rule.factor n s.top.toNat = some p ∧ Left n s' ∧
      s'.top.toNat = s.top.toNat * p) ∨
    (s.next = none ∧ rule.factor n s.top.toNat = none) := by
  have five := h.divides_iff (p := 5) (by decide)
  have three := h.divides_iff (p := 3) (by decide)
  have two := h.fits_iff (p := 2) (by decide)
  rw [rule_factor]
  by_cases h5 : 5 ∣ n / s.top.toNat ∧ rule.Fits n s.top.toNat 5
  · exact .inl ⟨_, 5, if_pos (five.2 h5), if_pos h5,
      h.split (p := 5) (by decide) (by decide) h5.2, h.toNat_top_mul (p := 5) (by decide)⟩
  · rw [if_neg h5, next, if_neg (mt five.1 h5)]
    by_cases h3 : 3 ∣ n / s.top.toNat ∧ rule.Fits n s.top.toNat 3
    · exact .inl ⟨_, 3, if_pos (three.2 h3), if_pos h3,
        h.split (p := 3) (by decide) (by decide) h3.2, h.toNat_top_mul (p := 3) (by decide)⟩
    · rw [if_neg h3, if_neg (mt three.1 h3)]
      by_cases h2 : rule.Fits n s.top.toNat 2
      · exact .inl ⟨_, 2, if_pos (two.2 h2), if_pos h2,
          h.split (p := 2) (by decide) (by decide) h2, h.toNat_top_mul (p := 2) (by decide)⟩
      · exact .inr ⟨if_neg (mt two.1 h2), if_neg h2⟩

/-- What the search is left with: no factor fits any more. -/
structure Found (n : ℕ) (s : Search) : Prop extends Left n s where
  reaches : rule.Reaches n s.top.toNat
  full : rule.factor n s.top.toNat = none

/-- More rounds than the search needs change nothing. -/
theorem loop_mono (fuel : ℕ) (s s' : Search) (h : loop fuel s = some s') :
    loop (fuel + 1) s = some s' := by
  induction fuel generalizing s with
  | zero => cases h
  | succ fuel ih =>
      rw [loop] at h ⊢
      cases hnext : s.next with
      | none => rwa [hnext] at h
      | some s₁ =>
          rw [hnext] at h
          exact ih s₁ h

/-- **The search ends.**  The wrap grows with each round, and has a bound. -/
theorem loop_found (h : Left n s) (hreach : rule.Reaches n s.top.toNat) :
    ∃ s', Returns (fun fuel => loop fuel s) s' ∧ Found n s' := by
  induction hroom : 65534 - s.top.toNat using Nat.strong_induction_on generalizing s with
  | _ room ih =>
    rcases next_cases h with ⟨s₁, p, hnext, hfactor, h₁, htop⟩ | ⟨hnext, hfactor⟩
    · have hgrow : s.top.toNat * 2 ≤ s₁.top.toNat :=
        htop ▸ Nat.mul_le_mul_left _ (Rule.two_le_of_factor hfactor)
      have hpos := h.top_pos
      have hle := h₁.top_le
      obtain ⟨s', hreturns, hfound⟩ := ih (65534 - s₁.top.toNat) (by omega) h₁
        (hreach.tail ⟨p, hfactor, htop⟩) rfl
      refine ⟨s', hreturns.succ fun fuel => ?_, hfound⟩
      rw [loop, hnext]
    · refine ⟨s, (returns_some s).succ fun fuel => ?_, h, hreach, hfactor⟩
      rw [loop, hnext]

/-- What is left is small once the wrap cannot be doubled. -/
theorem Found.lt (h : Found n s) (hn : n < 2 ^ 27) : s.div16Top.toNat < 256 * 16 := by
  have hdiv := h.div
  have hmul := Nat.mul_div_le n s.top.toNat
  rw [← hdiv] at hmul
  by_contra hge
  have hfits := Rule.not_fits_of_full h.full
  refine hfits ⟨?_, ?_⟩
  · change 16 * 2 ≤ _
    omega
  · change s.top.toNat * 2 ≤ 65534
    have hbig := Nat.mul_le_mul_left s.top.toNat (Nat.not_lt.1 hge)
    omega

theorem Found.le (h : Found n s) (hn : 16 ≤ n) : 16 ≤ s.div16Top.toNat :=
  h.div ▸ h.reaches.low_le hn

end

end Search

/-! ### What the search is for -/

/-- The number that the search splits: what the clock, in units of 1/16, leaves for a frequency. -/
def target (sourceHz freq : UInt32) : ℕ := 16 * sourceHz.toNat / freq.toNat

/-- A pair of registers can realise a number. -/
def Realisable (n : ℕ) : Prop :=
  ∃ div top, 16 ≤ div ∧ div ≤ 4095 ∧ 1 ≤ top ∧ top ≤ 65534 ∧ top * div ≤ n ∧ n < top * (div + 1)

/-- **What a search is to do**: on success the registers are in their range, their product comes
close to the number, and the frequency to the one asked for; otherwise the registers are left
alone. -/
structure Sound (sourceHz freq : UInt32) (slice : UInt8) (hw : Hw) (ok : Bool) (hw' : Hw) :
    Prop where
  div : ok = true → 16 ≤ (hw' slice).div.toNat ∧ (hw' slice).div.toNat < 4096
  top : ok = true → 1 ≤ (hw' slice).top.toNat ∧ (hw' slice).top.toNat ≤ 65534
  product : ok = true →
    (hw' slice).top.toNat * (hw' slice).div.toNat ≤ target sourceHz freq ∧
    target sourceHz freq < (hw' slice).top.toNat * ((hw' slice).div.toNat + 1)
  getFreq : ok = true → ∀ pwm : PWMClass, pwm.slice = slice →
    freq.toNat ≤ (pwm.getFreq sourceHz hw').toNat ∧
    16 * (pwm.getFreq sourceHz hw').toNat < 17 * freq.toNat
  kept : ok = false → hw' = hw
  works : 16 ≤ target sourceHz freq → target sourceHz freq < 2 ^ 27 → ok = true

/-- The number that a pair of registers stands for is realisable exactly within the limits. -/
theorem realisable_iff (n : ℕ) : Realisable n ↔ 16 ≤ n ∧ n < 65534 * 4096 := by
  constructor
  · rintro ⟨div, top, hlow, hdiv, hpos, htop, hle, hlt⟩
    have hmin : 1 * 16 ≤ top * div := Nat.mul_le_mul hpos hlow
    have hmax : top * (div + 1) ≤ 65534 * 4096 := Nat.mul_le_mul htop (Nat.succ_le_succ hdiv)
    omega
  · rintro ⟨hlow, hlt⟩
    -- the smallest wrap for which the divider is small enough
    have hpos : 0 < n / 4096 + 1 := Nat.succ_pos _
    have hmul := Nat.mul_div_le n (n / 4096 + 1)
    have hlt' := Nat.lt_mul_div_succ n hpos
    refine ⟨n / (n / 4096 + 1), n / 4096 + 1, ?_, ?_, hpos, ?_, hmul, hlt'⟩
    · rw [Nat.le_div_iff_mul_le hpos]
      omega
    · rw [← Nat.lt_succ_iff, Nat.div_lt_iff_lt_mul hpos]
      omega
    · omega

/-- A quotient of quotients is at least what was asked for, and not much more than that. -/
theorem div_div_bounds {n f d t k : ℕ} (hf : 0 < f) (hd : k ≤ d) (hk : 0 < k) (ht : 0 < t)
    (hle : t * d ≤ n / f) (hlt : n / f < t * (d + 1)) :
    f ≤ n / d / t ∧ k * (n / d / t) < (k + 1) * f := by
  have hdt : 0 < d * t := Nat.mul_pos (Nat.lt_of_lt_of_le hk hd) ht
  rw [Nat.div_div_eq_div_mul]
  constructor
  · rw [Nat.le_div_iff_mul_le hdt, Nat.mul_comm f, Nat.mul_comm d]
    exact (Nat.le_div_iff_mul_le hf).1 hle
  · have hquot : n / (d * t) * (d * t) ≤ n := Nat.div_mul_le_self n (d * t)
    have hn : n < t * (d + 1) * f := (Nat.div_lt_iff_lt_mul hf).1 hlt
    generalize n / (d * t) = g at hquot ⊢
    have hgd : g * d < (d + 1) * f := by
      refine Nat.lt_of_mul_lt_mul_left (a := t) ?_
      calc t * (g * d) = g * (d * t) := by ring
        _ < t * (d + 1) * f := Nat.lt_of_le_of_lt hquot hn
        _ = t * ((d + 1) * f) := Nat.mul_assoc t (d + 1) f
    have hkd : k * (d + 1) ≤ (k + 1) * d := by
      rw [Nat.mul_succ, Nat.succ_mul]
      exact Nat.add_le_add_left hd _
    refine Nat.lt_of_mul_lt_mul_right (a := d) ?_
    calc k * g * d = k * (g * d) := Nat.mul_assoc k g d
      _ < k * ((d + 1) * f) := Nat.mul_lt_mul_of_pos_left hgd hk
      _ = k * (d + 1) * f := (Nat.mul_assoc k (d + 1) f).symm
      _ ≤ (k + 1) * d * f := Nat.mul_le_mul_right f hkd
      _ = (k + 1) * f * d := Nat.mul_right_comm (k + 1) d f

/-! ### The results -/

namespace Search

variable {sourceHz freq : UInt32} {s : Search} {n : ℕ}

theorem toNat_start (hsource : 16 * sourceHz.toNat < 2 ^ 32) :
    (start sourceHz freq).div16Top.toNat = target sourceHz freq := by
  have hmul : (16 * sourceHz).toNat = 16 * sourceHz.toNat := by
    rw [UInt32.toNat_mul]
    exact Nat.mod_eq_of_lt hsource
  rw [start, UInt32.toNat_div, hmul, target]

/-- The search for a frequency ends. -/
theorem start_found (freq : UInt32) (hsource : 16 * sourceHz.toNat < 2 ^ 32) :
    ∃ s, Returns (fun fuel => loop fuel (start sourceHz freq)) s ∧
      Found (target sourceHz freq) s := by
  refine loop_found ⟨Nat.le_refl 1, Nat.le_add_left 1 65533, ?_⟩ Relation.ReflTransGen.refl
  rw [toNat_start hsource]
  exact (Nat.div_one _).symm

/-- The registers are set if the divider is in its range. -/
theorem write_cases (s : Search) (slice : UInt8) (hw : Hw) :
    (16 ≤ s.div16Top.toNat ∧ s.div16Top.toNat < 4096 ∧
      s.write slice hw = (true, hw.setDivTop slice s.div16Top s.top)) ∨
    (¬(16 ≤ s.div16Top.toNat ∧ s.div16Top.toNat < 4096) ∧ s.write slice hw = (false, hw)) := by
  have hlow : s.div16Top < 16 ↔ s.div16Top.toNat < 16 := UInt32.lt_iff_toNat_lt
  have hhigh : s.div16Top ≥ 256 * 16 ↔ 4096 ≤ s.div16Top.toNat := UInt32.le_iff_toNat_le
  rw [write]
  split
  · rename_i h
    exact .inr ⟨fun hin => Nat.not_lt.2 hin.1 (hlow.1 h), rfl⟩
  · rename_i h
    split
    · rename_i h'
      exact .inr ⟨fun hin => Nat.not_lt.2 (hhigh.1 h') hin.2, rfl⟩
    · rename_i h'
      exact .inl ⟨Nat.not_lt.1 (mt hlow.2 h), Nat.not_le.1 (mt hhigh.2 h'), rfl⟩

/-- **What has been found is written soundly.** -/
theorem Found.sound (h : Found (target sourceHz freq) s) (hfreq : 1 ≤ freq.toNat)
    (hsource : 16 * sourceHz.toNat < 2 ^ 32) (slice : UInt8) (hw : Hw) :
    Sound sourceHz freq slice hw (s.write slice hw).1 (s.write slice hw).2 := by
  have hmul : s.top.toNat * s.div16Top.toNat ≤ target sourceHz freq :=
    h.div ▸ Nat.mul_div_le _ _
  have hlt : target sourceHz freq < s.top.toNat * (s.div16Top.toNat + 1) :=
    h.div ▸ Nat.lt_mul_div_succ _ h.top_pos
  rcases write_cases s slice hw with ⟨hlow, hhigh, hwrite⟩ | ⟨hout, hwrite⟩
  · rw [hwrite]
    refine ⟨fun _ => ?_, fun _ => ?_, fun _ => ?_, fun _ pwm hpwm => ?_, fun hfalse => ?_,
      fun _ _ => rfl⟩
    · simpa only [Hw.div_setDivTop] using And.intro hlow hhigh
    · simpa only [Hw.top_setDivTop] using And.intro h.top_pos h.top_le
    · simpa only [Hw.div_setDivTop, Hw.top_setDivTop] using And.intro hmul hlt
    · have hclock : (16 * sourceHz).toNat = 16 * sourceHz.toNat := by
        rw [UInt32.toNat_mul]
        exact Nat.mod_eq_of_lt hsource
      simp only [PWMClass.getFreq, hpwm, Hw.div_setDivTop, Hw.top_setDivTop, UInt32.toNat_div,
        hclock]
      exact div_div_bounds hfreq hlow (Nat.succ_pos 15) h.top_pos hmul hlt
    · cases hfalse
  · rw [hwrite]
    refine ⟨fun h => ?_, fun h => ?_, fun h => ?_, fun h => ?_, fun _ => rfl, fun hn hn' => ?_⟩
    · cases h
    · cases h
    · cases h
    · cases h
    · exact absurd ⟨h.le hn, h.lt hn'⟩ hout

end Search

section

variable {sourceHz freq : UInt32}

/-- What `setFreq` and `analogSetFrequency` come to is what the search has found. -/
theorem setFreq_found (freq : UInt32) (hsource : 16 * sourceHz.toNat < 2 ^ 32) :
    ∃ s, Search.Found (target sourceHz freq) s ∧
      (∀ (pwm : PWMClass) hw,
        Returns (fun fuel => pwm.setFreq sourceHz freq fuel hw) (s.write pwm.slice hw)) ∧
      ∀ pin b, ∃ pins, Returns (fun fuel => analogSetFrequency sourceHz pin freq fuel b)
        ((s.write (gpioToSliceNum pin) b.hw).1, ⟨pins, (s.write (gpioToSliceNum pin) b.hw).2⟩) := by
  obtain ⟨s, hreturns, hfound⟩ := Search.start_found freq hsource
  exact ⟨s, hfound, fun pwm hw => hreturns.map fun s => s.write pwm.slice hw,
    fun pin b => ⟨_, hreturns.map _⟩⟩

/-- **The frequency search is sound**, in `setFreq` and in `analogSetFrequency`, and it ends. -/
theorem setFreq_sound (hfreq : 1 ≤ freq.toNat) (hsource : 16 * sourceHz.toNat < 2 ^ 32) :
    (∀ (pwm : PWMClass) hw, ∃ ok hw',
      Returns (fun fuel => pwm.setFreq sourceHz freq fuel hw) (ok, hw') ∧
      Sound sourceHz freq pwm.slice hw ok hw') ∧
    ∀ pin b, ∃ ok b',
      Returns (fun fuel => analogSetFrequency sourceHz pin freq fuel b) (ok, b') ∧
      Sound sourceHz freq (gpioToSliceNum pin) b.hw ok b'.hw := by
  obtain ⟨s, hfound, hset, hanalog⟩ := setFreq_found freq hsource
  refine ⟨fun pwm hw => ⟨_, _, hset pwm hw, hfound.sound hfreq hsource pwm.slice hw⟩,
    fun pin b => ?_⟩
  obtain ⟨pins, hreturns⟩ := hanalog pin b
  exact ⟨_, _, hreturns, hfound.sound hfreq hsource (gpioToSliceNum pin) b.hw⟩

/-- The frequency of a new `PWMClass`, with a clock of 125 MHz. -/
theorem setFreq_default : ∃ hw',
    Returns (fun fuel => (⟨0, 0⟩ : PWMClass).setFreq 125000000 1000 fuel reset.hw) (true, hw') := by
  have hsource : 16 * (125000000 : UInt32).toNat < 2 ^ 32 := by decide
  have hfreq : 1 ≤ (1000 : UInt32).toNat := by decide
  obtain ⟨ok, hw', hreturns, hsound⟩ := (setFreq_sound hfreq hsource).1 ⟨0, 0⟩ reset.hw
  have hok : ok = true := hsound.works (by decide) (by decide)
  exact ⟨hw', hok ▸ hreturns⟩

/-- **The searches are complete**: they only fail if no pair of registers can realise the number. -/
def Complete (sourceHz freq : UInt32) (pwm : PWMClass) (hw : Hw) (pin : UInt8) (b : Board) : Prop :=
  (∃ ok hw', Returns (fun fuel => pwm.setFreq sourceHz freq fuel hw) (ok, hw') ∧
    (ok = false → ¬Realisable (target sourceHz freq))) ∧
  ∃ ok b', Returns (fun fuel => analogSetFrequency sourceHz pin freq fuel b) (ok, b') ∧
    (ok = false → ¬Realisable (target sourceHz freq))

/-- The products of the factors 5, 3 and 2 that a number gives come past its 4096th part. -/
def Passes (n : ℕ) : Prop := ∃ t, rule.Reaches n t ∧ n < 4096 * t

/-- What is left when the search ends is small if the products come far enough. -/
theorem Search.Found.lt_iff {n : ℕ} {s : Search} (h : Search.Found n s) :
    s.div16Top.toNat < 4096 ↔ Passes n := by
  rw [h.div, Nat.div_lt_iff_lt_mul h.top_pos]
  constructor
  · intro hlt
    exact ⟨s.top.toNat, h.reaches, hlt⟩
  · rintro ⟨t, hreach, hlt⟩
    exact Nat.lt_of_lt_of_le hlt (Nat.mul_le_mul_left 4096 (h.reaches.le_of_full h.full hreach))

/-- When a failure means that the number is not realisable. -/
theorem Search.Found.write_complete_iff {n : ℕ} {s : Search} (h : Search.Found n s) (slice : UInt8)
    (hw : Hw) :
    ((s.write slice hw).1 = false → ¬Realisable n) ↔ 65534 * 4096 ≤ n ∨ Passes n := by
  rw [realisable_iff, ← h.lt_iff]
  rcases s.write_cases slice hw with ⟨-, hhigh, hwrite⟩ | ⟨hout, hwrite⟩
  · rw [hwrite]
    exact iff_of_true (fun h => by cases h) (.inr hhigh)
  · rw [hwrite]
    have hlow := h.le
    have hdiv : s.div16Top.toNat ≤ n := h.div ▸ Nat.div_le_self n _
    constructor
    · intro hnot
      have hrange := hnot rfl
      omega
    · intro hcase _ hrange
      have hfour := hlow hrange.1
      omega

/-- **When the frequency search is complete**: the factors that it takes have to come past the
4096th part of the number, unless no pair of registers does. -/
theorem complete_iff (hsource : 16 * sourceHz.toNat < 2 ^ 32) (pwm : PWMClass) (hw : Hw)
    (pin : UInt8) (b : Board) :
    Complete sourceHz freq pwm hw pin b ↔
      65534 * 4096 ≤ target sourceHz freq ∨ Passes (target sourceHz freq) := by
  obtain ⟨s, hfound, hset, hanalog⟩ := setFreq_found freq hsource
  obtain ⟨pins, hreturns⟩ := hanalog pin b
  constructor
  · rintro ⟨⟨ok, hw', hreturns', hcomplete⟩, -⟩
    have hok := (hreturns'.unique (hset pwm hw))
    rw [← hfound.write_complete_iff pwm.slice hw, ← hok]
    exact hcomplete
  · intro hpasses
    exact ⟨⟨_, _, hset pwm hw, (hfound.write_complete_iff pwm.slice hw).2 hpasses⟩,
      ⟨_, _, hreturns, (hfound.write_complete_iff (gpioToSliceNum pin) b.hw).2 hpasses⟩⟩

end

/-- The search for 14 Hz, with a clock of 125 MHz, ends at the wrap 34560 and the divider 4133. -/
theorem search_stuck : Search.loop 20 (Search.start 125000000 14) = some ⟨4133, 34560⟩ := rfl

/-- 14 Hz are out of reach of the search, though not of the registers: the wrap 34878 and the
divider 4095 would do. -/
theorem incomplete_low_frequency : ¬Complete 125000000 14 ⟨0, 0⟩ reset.hw 0 reset := by
  rintro ⟨⟨ok, hw', hreturns, hcomplete⟩, -⟩
  have hstuck : Returns (fun fuel => (⟨0, 0⟩ : PWMClass).setFreq 125000000 14 fuel reset.hw)
      (false, reset.hw) :=
    (returns_of_mono (fun n s h => Search.loop_mono n _ s h) search_stuck).map
      fun s => s.write 0 reset.hw
  have hok : ok = false := congrArg Prod.fst (hreturns.unique hstuck)
  exact hcomplete hok ((realisable_iff _).2 (by decide))

/-- 7 Hz are out of reach of the registers. -/
theorem complete_unrealisable : Complete 125000000 7 ⟨0, 0⟩ reset.hw 0 reset :=
  (complete_iff (by decide) _ _ _ _).2 (.inl (by decide))

end Pico.Pwm
