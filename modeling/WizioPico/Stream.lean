/-
**Reading numbers from a stream.**

`Stream` of `arduino/arduino/Stream.h` and `Stream.cpp`, over any class derived from it, whose
`peek` and `read` work on the characters that have arrived.  Time passes with the calls of
`millis`: the model is given what each of them will return, and what arrives by then.

* `Pico.Stream` — the characters that are there, and the calls of `millis` to come;
* `Pico.Stream.timedPeek`, `Pico.Stream.peekNextDigit`, `Pico.Stream.parseInt` — the methods;
* `Pico.Stream.Awaits` — waiting for a character: it comes in time, or the wait ends without one;
* `Pico.Stream.Arrives` — characters that come in time, each counted from the one before;
* `Pico.Stream.foldl_numberLoop` — the loop of `parseInt` undoes the loop of `printNumber`;
* `Pico.Stream.parseInt_emitted` — **`parseInt` returns what `print` was given**, up to both ends
  of the range, and takes no more characters than `print` has emitted.
-/

import WizioPico.Print

set_option relaxedAutoImplicit false
set_option autoImplicit false

namespace Pico

/-- `class Stream`: its timeout, the characters that have arrived, and for each call of `millis` to
come its result and the characters that arrive with it. -/
structure Stream where
  timeout : UInt32
  buffered : List UInt8
  polls : List (UInt32 × List UInt8)

namespace Stream

/-! ### The methods -/

/-- `LookaheadMode`. -/
inductive LookaheadMode where
  | skipAll
  | skipNone
  | skipWhitespace

/-- `NO_IGNORE_CHAR`. -/
def noIgnoreChar : UInt8 := 1

/-- `read`; what it returns is not used here. -/
def read (s : Stream) : Stream := { s with buffered := s.buffered.tail }

/-- The loop of `timedPeek`: a character is looked for before the clock is. -/
def timedPeekLoop (timeout start : UInt32) :
    List UInt8 → List (UInt32 × List UInt8) → Option (ℤ × List UInt8 × List (UInt32 × List UInt8))
  | c :: buffered, polls => some (c.toNat, c :: buffered, polls)
  | [], [] => none
  | [], (now, arrived) :: polls =>
    if now - start < timeout then timedPeekLoop timeout start arrived polls
    else some (-1, arrived, polls)

/-- `timedPeek`.  Nothing but this loop looks at `_startMillis`. -/
def timedPeek (s : Stream) : Option (ℤ × Stream) :=
  match s.polls with
  | [] => none
  | (start, arrived) :: polls =>
    (timedPeekLoop s.timeout start (s.buffered ++ arrived) polls).map fun r =>
      (r.1, ⟨s.timeout, r.2.1, r.2.2⟩)

/-- A digit. -/
def isDigit (c : ℤ) : Bool := 48 ≤ c && c ≤ 57 -- '0' to '9'

/-- The `switch` of `peekNextDigit`: the character is not one to skip. -/
def LookaheadMode.fails (lookahead : LookaheadMode) (c : ℤ) : Bool :=
  match lookahead with
  | .skipNone => true
  | .skipWhitespace => !(c == 32 || c == 9 || c == 13 || c == 10) -- ' ', '\t', '\r', '\n'
  | .skipAll => false

theorem timedPeekLoop_le {timeout start : UInt32} {buffered buffered' : List UInt8}
    {polls polls' : List (UInt32 × List UInt8)} {c : ℤ}
    (h : timedPeekLoop timeout start buffered polls = some (c, buffered', polls')) :
    polls'.length ≤ polls.length := by
  induction polls generalizing buffered with
  | nil =>
      cases buffered with
      | nil => cases h
      | cons b buffered =>
          cases h
          exact Nat.le_refl 0
  | cons p polls ih =>
      cases buffered with
      | nil =>
          rw [timedPeekLoop] at h
          split at h
          · exact Nat.le_succ_of_le (ih h)
          · cases h
            exact Nat.le_succ _
      | cons b buffered =>
          cases h
          exact Nat.le_refl _

/-- Every wait looks at the clock. -/
theorem timedPeek_lt {s s' : Stream} {c : ℤ} (h : s.timedPeek = some (c, s')) :
    s'.polls.length < s.polls.length := by
  rw [timedPeek] at h
  split at h
  · cases h
  · rename_i start arrived polls hpolls
    obtain ⟨⟨c', buffered', polls'⟩, hloop, heq⟩ := Option.map_eq_some_iff.1 h
    cases heq
    rw [hpolls]
    exact Nat.lt_succ_of_le (timedPeekLoop_le hloop)

/-- `peekNextDigit`. -/
def peekNextDigit (lookahead : LookaheadMode) (detectDecimal : Bool) (s : Stream) :
    Option (ℤ × Stream) :=
  match h : s.timedPeek with
  | none => none
  | some (c, s') =>
    if c < 0 ∨ c = 45 ∨ isDigit c ∨ (detectDecimal ∧ c = 46) then some (c, s') -- '-', '.'
    else if lookahead.fails c then some (-1, s')
    else peekNextDigit lookahead detectDecimal s'.read
termination_by s.polls.length
decreasing_by
  have hlt := timedPeek_lt h
  exact hlt

/-- What the loop of `parseInt` does with a character: the value so far, and whether there was a
minus. -/
def parseChar (ignore : UInt8) (c : ℤ) (r : BitVec 32 × Bool) : BitVec 32 × Bool :=
  if c = ignore.toNat then r
  else if c = 45 then (r.1, true)
  else if isDigit c then (r.1 * 10 + BitVec.ofInt 32 c - 48, r.2)
  else r

/-- The loop of `parseInt`. -/
def parseLoop (ignore : UInt8) (c : ℤ) (r : BitVec 32 × Bool) (s : Stream) :
    Option ((BitVec 32 × Bool) × Stream) :=
  match _h : s.read.timedPeek with
  | none => none
  | some (c', s') =>
    if isDigit c' ∨ c' = ignore.toNat then parseLoop ignore c' (parseChar ignore c r) s'
    else some (parseChar ignore c r, s')
termination_by s.polls.length
decreasing_by
  have hlt := timedPeek_lt ‹s.read.timedPeek = _›
  exact hlt

/-- `parseInt`. -/
def parseInt (lookahead : LookaheadMode) (ignore : UInt8) (s : Stream) :
    Option (BitVec 32 × Stream) :=
  (peekNextDigit lookahead false s).bind fun p =>
    if p.1 < 0 then some (0, p.2)
    else (parseLoop ignore p.1 (0, false) p.2).map fun r =>
      (if r.1.2 then -r.1.1 else r.1.1, r.2)

/-! ### What arrives -/

/-- All characters that have arrived or will. -/
def bytes (s : Stream) : List UInt8 := s.buffered ++ s.polls.flatMap Prod.snd

/-- A wait from the time `start` on, looking at the buffer first and then at the clock, as often as
it takes: it ends with a character that is there, or when the clock shows that time is up. -/
inductive Await (timeout start : UInt32) :
    List UInt8 → List (UInt32 × List UInt8) → Option UInt8 → List UInt8 →
      List (UInt32 × List UInt8) → Prop
  | here (c : UInt8) (buffered : List UInt8) (polls : List (UInt32 × List UInt8)) :
      Await timeout start (c :: buffered) polls (some c) (c :: buffered) polls
  | wait {now : UInt32} {arrived buffered' : List UInt8} {polls polls' : List (UInt32 × List UInt8)}
      {r : Option UInt8} : now - start < timeout → Await timeout start arrived polls r buffered' polls' →
      Await timeout start [] ((now, arrived) :: polls) r buffered' polls'
  | late {now : UInt32} {arrived : List UInt8} {polls : List (UInt32 × List UInt8)} :
      ¬now - start < timeout → Await timeout start [] ((now, arrived) :: polls) none arrived polls

/-- **A wait for the next character**, from the next time that the clock shows. -/
structure Awaits (s : Stream) (r : Option UInt8) (s' : Stream) : Prop where
  timeout : s'.timeout = s.timeout
  await : ∃ start arrived polls, s.polls = (start, arrived) :: polls ∧
    Await s.timeout start (s.buffered ++ arrived) polls r s'.buffered s'.polls

/-- **Characters that come in time**, each taken as soon as it is there. -/
inductive Arrives : Stream → List UInt8 → Stream → Prop
  | nil (s : Stream) : Arrives s [] s
  | cons {s t u : Stream} {c : UInt8} {cs : List UInt8} :
      s.Awaits (some c) t → Arrives t.read cs u → Arrives s (c :: cs) u

/-- Characters that are there already come in time. -/
theorem arrives_buffered (timeout : UInt32) (cs rest : List UInt8)
    (polls : List (UInt32 × List UInt8)) (times : List UInt32) (h : times.length = cs.length) :
    Arrives ⟨timeout, cs ++ rest, times.map (fun t => (t, [])) ++ polls⟩ cs
      ⟨timeout, rest, polls⟩ := by
  induction cs generalizing times with
  | nil =>
      obtain rfl : times = [] := List.length_eq_zero_iff.1 h
      exact Arrives.nil _
  | cons c cs ih =>
      cases times with
      | nil => cases h
      | cons t times =>
          refine Arrives.cons (t := ⟨timeout, c :: (cs ++ rest), times.map (fun t => (t, [])) ++ polls⟩)
            ⟨rfl, t, [], times.map (fun t => (t, [])) ++ polls, rfl, ?_⟩ ?_
          · rw [List.append_nil]
            exact Await.here c _ _
          · exact ih times (Nat.succ.inj h)

/-- What `timedPeek` returns for it. -/
def code : Option UInt8 → ℤ
  | none => -1
  | some c => c.toNat

theorem timedPeekLoop_of_await {timeout start : UInt32} {buffered buffered' : List UInt8}
    {polls polls' : List (UInt32 × List UInt8)} {r : Option UInt8}
    (h : Await timeout start buffered polls r buffered' polls') :
    timedPeekLoop timeout start buffered polls = some (code r, buffered', polls') := by
  induction h with
  | here c buffered polls => rw [timedPeekLoop, code]
  | wait hnow _ ih => rw [timedPeekLoop, if_pos hnow, ih]
  | late hnow => rw [timedPeekLoop, if_neg hnow]; rfl

theorem Awaits.timedPeek {s s' : Stream} {r : Option UInt8} (h : s.Awaits r s') :
    s.timedPeek = some (code r, s') := by
  obtain ⟨htimeout, start, arrived, polls, hpolls, hawait⟩ := h
  rw [Stream.timedPeek, hpolls]
  dsimp only
  rw [timedPeekLoop_of_await hawait, ← htimeout]
  rfl

/-- A character that has come is the first in the buffer. -/
theorem await_some {timeout start : UInt32} {buffered buffered' : List UInt8}
    {polls polls' : List (UInt32 × List UInt8)} {c : UInt8}
    (h : Await timeout start buffered polls (some c) buffered' polls') :
    buffered' = c :: buffered'.tail := by
  generalize hr : some c = r at h
  induction h with
  | here d buffered polls =>
      cases hr
      rfl
  | wait _ _ ih => exact ih hr
  | late _ => cases hr

/-- Waiting takes no character. -/
theorem await_bytes {timeout start : UInt32} {buffered buffered' : List UInt8}
    {polls polls' : List (UInt32 × List UInt8)} {r : Option UInt8}
    (h : Await timeout start buffered polls r buffered' polls') :
    buffered' ++ polls'.flatMap Prod.snd = buffered ++ polls.flatMap Prod.snd := by
  induction h with
  | here c buffered polls => rfl
  | wait _ _ ih => simpa using ih
  | late _ => simp

theorem Awaits.bytes {s s' : Stream} {r : Option UInt8} (h : s.Awaits r s') :
    s'.bytes = s.bytes := by
  obtain ⟨-, start, arrived, polls, hpolls, hawait⟩ := h
  rw [Stream.bytes, Stream.bytes, await_bytes hawait, hpolls]
  simp

theorem Awaits.bytes_some {s s' : Stream} {c : UInt8} (h : s.Awaits (some c) s') :
    s.bytes = c :: s'.read.bytes := by
  rw [← h.bytes]
  obtain ⟨-, start, arrived, polls, hpolls, hawait⟩ := h
  rw [Stream.bytes, await_some hawait]
  rfl

/-- The characters that come are taken, and no others. -/
theorem Arrives.bytes {s u : Stream} {cs : List UInt8} (h : Arrives s cs u) :
    s.bytes = cs ++ u.bytes := by
  induction h with
  | nil s => rfl
  | cons hawait _ ih => rw [hawait.bytes_some, ih, List.cons_append]

/-! ### The loops -/

/-- One turn of the loop of `peekNextDigit`. -/
theorem peekNextDigit_of_awaits {s m : Stream} {r : Option UInt8} (h : s.Awaits r m)
    (lookahead : LookaheadMode) (detectDecimal : Bool) :
    peekNextDigit lookahead detectDecimal s =
      if code r < 0 ∨ code r = 45 ∨ isDigit (code r) ∨ (detectDecimal ∧ code r = 46) then
        some (code r, m)
      else if lookahead.fails (code r) then some (-1, m)
      else peekNextDigit lookahead detectDecimal m.read := by
  rw [peekNextDigit]
  split
  · rename_i hnone
    rw [h.timedPeek] at hnone
    cases hnone
  · rename_i c s' hsome
    rw [h.timedPeek] at hsome
    cases hsome
    rfl

/-- One turn of the loop of `parseInt`. -/
theorem parseLoop_of_awaits {s m : Stream} {next : Option UInt8} (h : s.read.Awaits next m)
    (ignore : UInt8) (c : ℤ) (r : BitVec 32 × Bool) :
    parseLoop ignore c r s =
      if isDigit (code next) ∨ code next = ignore.toNat then
        parseLoop ignore (code next) (parseChar ignore c r) m
      else some (parseChar ignore c r, m) := by
  rw [parseLoop]
  split
  · rename_i hnone
    rw [h.timedPeek] at hnone
    cases hnone
  · rename_i c' s' hsome
    rw [h.timedPeek] at hsome
    cases hsome
    rfl

/-- What comes in front of a number: neither a digit nor a minus. -/
def isFront (c : UInt8) : Bool := !isDigit c.toNat && c != 45

/-- `peekNextDigit` drops what is in front of the number. -/
theorem peekNextDigit_front {front cs : List UInt8} {c : UInt8} {s t : Stream}
    (hfront : ∀ b ∈ front, isFront b) (hc : c = 45 ∨ isDigit c.toNat)
    (h : Arrives s (front ++ c :: cs) t) :
    ∃ m, peekNextDigit .skipAll false s = some ((c.toNat : ℤ), m) ∧ Arrives m.read cs t := by
  induction front generalizing s with
  | nil =>
      cases h with
      | cons hawait hrest =>
          rename_i m
          have hstop : ((c.toNat : ℤ) < 0 ∨ (c.toNat : ℤ) = 45 ∨ isDigit c.toNat ∨
              (false = true ∧ (c.toNat : ℤ) = 46)) := by
            rcases hc with rfl | hc
            · exact .inr (.inl rfl)
            · exact .inr (.inr (.inl hc))
          exact ⟨m, (peekNextDigit_of_awaits hawait _ _).trans (if_pos hstop), hrest⟩
  | cons b front ih =>
      cases h with
      | cons hawait hrest =>
          rename_i m
          have hb : isFront b := hfront b List.mem_cons_self
          obtain ⟨m', hm', harr⟩ := ih (fun b' hb' => hfront b' (List.mem_cons_of_mem b hb')) hrest
          refine ⟨m', ?_, harr⟩
          have hgo : ¬((b.toNat : ℤ) < 0 ∨ (b.toNat : ℤ) = 45 ∨ isDigit b.toNat ∨
              (false = true ∧ (b.toNat : ℤ) = 46)) := by
            rw [isFront, Bool.and_eq_true, bne_iff_ne, Bool.not_eq_true'] at hb
            have hne : (b.toNat : ℤ) ≠ 45 := fun h45 => hb.2 (UInt8.toNat.inj (by exact_mod_cast h45))
            simp [hb.1, hne]
          exact (peekNextDigit_of_awaits hawait _ _).trans ((if_neg hgo).trans hm')

/-- What a digit does to the value. -/
def pushDigit (value : BitVec 32) (c : UInt8) : BitVec 32 :=
  value * 10 + BitVec.ofInt 32 c.toNat - 48

/-- A character that ends the number. -/
def endsNumber (ignore : UInt8) (next : Option UInt8) : Prop :=
  ∀ c ∈ next, isDigit c.toNat = false ∧ c ≠ ignore

/-- The loop takes the digits that come, and stops in front of what ends the number. -/
theorem parseLoop_digits {ignore c : UInt8} {cs : List UInt8} {r : BitVec 32 × Bool}
    {s t u : Stream} {next : Option UInt8} (hignore : isDigit ignore.toNat = false)
    (hcs : ∀ b ∈ cs, isDigit b.toNat) (harr : Arrives s.read cs t) (hend : t.Awaits next u)
    (hnext : endsNumber ignore next) :
    parseLoop ignore c.toNat r s =
      some (((cs.foldl pushDigit (parseChar ignore c.toNat r).1),
        (parseChar ignore c.toNat r).2), u) := by
  induction cs generalizing s c r with
  | nil =>
      cases harr
      have hstop : ¬(isDigit (code next) ∨ code next = ignore.toNat) := by
        cases next with
        | none => simp [code, isDigit]
        | some d =>
            obtain ⟨hd, hne⟩ := hnext d rfl
            have hne' : (d.toNat : ℤ) ≠ ignore.toNat :=
              fun h => hne (UInt8.toNat.inj (by exact_mod_cast h))
            simp [code, hd, hne']
      exact (parseLoop_of_awaits hend _ _ _).trans (if_neg hstop)
  | cons d cs ih =>
      cases harr with
      | cons hawait hrest =>
          rename_i m
          have hd : isDigit d.toNat := hcs d List.mem_cons_self
          have hne : (d.toNat : ℤ) ≠ ignore.toNat := fun h => by
            rw [h, hignore] at hd
            cases hd
          have hminus : (d.toNat : ℤ) ≠ 45 := fun h => by
            rw [h] at hd
            cases hd
          have hpush : parseChar ignore d.toNat (parseChar ignore c.toNat r) =
              (pushDigit (parseChar ignore c.toNat r).1 d, (parseChar ignore c.toNat r).2) := by
            rw [parseChar, if_neg hne, if_neg hminus, if_pos hd]
            rfl
          have hrec := ih (c := d) (r := parseChar ignore c.toNat r)
            (fun b hb => hcs b (List.mem_cons_of_mem d hb)) hrest
          rw [hpush] at hrec
          exact (parseLoop_of_awaits hawait _ _ _).trans ((if_pos (.inl hd)).trans hrec)

/-! ### Printing and parsing -/

/-- A decimal digit is one for `parseInt` as well. -/
theorem isDigit_digit {d : ℕ} (hd : d < 10) : isDigit (Print.digit d).toNat := by
  have hnat : (Print.digit d).toNat = d + 48 := by
    rw [Print.digit, if_pos hd, UInt8.toNat_ofNat']
    omega
  rw [hnat, isDigit]
  simp
  omega

theorem pushDigit_digit {d : ℕ} (hd : d < 10) (value : BitVec 32) :
    pushDigit value (Print.digit d) = value * 10 + BitVec.ofNat 32 d := by
  have hnat : (Print.digit d).toNat = d + 48 := by
    rw [Print.digit, if_pos hd, UInt8.toNat_ofNat']
    omega
  rw [pushDigit, hnat]
  change value * 10 + BitVec.ofNat 32 (d + 48) - 48 = _
  rw [BitVec.ofNat_add, ← BitVec.add_assoc]
  exact BitVec.add_sub_cancel _ _

/-- **The loop of `parseInt` undoes the loop of `printNumber`.** -/
theorem foldl_numberLoop (n : ℕ) (str : List UInt8) :
    (Print.numberLoop 10 (by decide) n str).foldl pushDigit 0 =
      str.foldl pushDigit (BitVec.ofNat 32 n) := by
  induction n using Nat.strong_induction_on generalizing str with
  | _ n ih =>
      have hmod : n % 10 < 10 := Nat.mod_lt _ (by decide)
      have hvalue : pushDigit (BitVec.ofNat 32 (n / 10)) (Print.digit (n % 10)) =
          BitVec.ofNat 32 n := by
        rw [pushDigit_digit hmod]
        change BitVec.ofNat 32 (n / 10) * BitVec.ofNat 32 10 + _ = _
        rw [← BitVec.ofNat_mul, ← BitVec.ofNat_add, Nat.div_add_mod']
      rw [Print.numberLoop]
      split
      · rename_i hzero
        rw [hzero] at hvalue
        rw [List.foldl_cons, ← hvalue]
        rfl
      · rename_i hne
        rw [ih (n / 10) (by omega), List.foldl_cons, hvalue]

/-- The text of a number, behind characters to skip. -/
theorem parseInt_text {front cs : List UInt8} {c : UInt8} {s t u : Stream} {next : Option UInt8}
    (hfront : ∀ b ∈ front, isFront b) (hc : c = 45 ∨ isDigit c.toNat)
    (hcs : ∀ b ∈ cs, isDigit b.toNat) (harr : Arrives s (front ++ c :: cs) t)
    (hend : t.Awaits next u) (hnext : endsNumber noIgnoreChar next) :
    s.parseInt .skipAll noIgnoreChar =
      some (if c = 45 then -cs.foldl pushDigit 0 else (c :: cs).foldl pushDigit 0, u) := by
  obtain ⟨m, hpeek, hrest⟩ := peekNextDigit_front hfront hc harr
  have hpos : ¬(c.toNat : ℤ) < 0 := by omega
  have hloop := parseLoop_digits (c := c) (r := (0, false)) rfl hcs hrest hend hnext
  rw [parseInt, hpeek, Option.bind_some, if_neg hpos, hloop, Option.map_some]
  rcases hc with rfl | hc
  · rfl
  · have hminus : (c.toNat : ℤ) ≠ 45 := fun h => by
      rw [h] at hc
      cases hc
    have hignore : (c.toNat : ℤ) ≠ noIgnoreChar.toNat := fun h => by
      rw [h] at hc
      cases hc
    have hne : c ≠ 45 := fun h => hminus (by rw [h]; rfl)
    rw [parseChar, if_neg hignore, if_neg hminus, if_pos hc, if_neg hne, List.foldl_cons]
    rfl

/-- The digits of a number. -/
theorem exists_numberText (n : BitVec 32) :
    ∃ d ds, Print.numberText n 10 = d :: ds ∧ (∀ c ∈ d :: ds, isDigit c.toNat) ∧
      (d :: ds).foldl pushDigit 0 = n := by
  obtain ⟨d, hd, ds, hds, hloop⟩ :=
    Print.exists_numberLoop (by decide : 2 ≤ 10) n.toNat []
  rw [List.append_nil] at hloop
  refine ⟨Print.digit d, ds, hloop, fun c hc => ?_, ?_⟩
  · rcases List.mem_cons.1 hc with rfl | hc
    · exact isDigit_digit hd
    · obtain ⟨e, he, rfl⟩ := hds c hc
      exact isDigit_digit he
  · rw [← hloop, foldl_numberLoop, List.foldl_nil, BitVec.ofNat_toNat, BitVec.setWidth_eq]

/-- **Printing and parsing are inverse.**  A number that is printed, and arrives behind characters
that are neither digits nor a minus, is what `parseInt` returns when the next character ends the
number or none comes in time; and it takes the characters up to the end of the number only. -/
theorem parseInt_emitted (v : BitVec 32) {front : List UInt8} {s t u : Stream}
    {next : Option UInt8} (hfront : ∀ c ∈ front, isFront c)
    (harr : Arrives s (front ++ Print.emitted v 10) t) (hend : t.Awaits next u)
    (hnext : endsNumber noIgnoreChar next) :
    s.parseInt .skipAll noIgnoreChar = some (v, u) ∧
      s.bytes = front ++ Print.emitted v 10 ++ u.bytes := by
  refine ⟨?_, by rw [harr.bytes, hend.bytes]⟩
  rw [Print.emitted_dec] at harr
  obtain ⟨d, ds, htext, hdigit, hvalue⟩ := exists_numberText (if v.slt 0 then -v else v)
  have hd := hdigit d List.mem_cons_self
  rw [htext] at harr
  split at harr
  · rename_i hneg
    rw [if_pos hneg] at hvalue
    rw [parseInt_text hfront (.inl rfl) hdigit harr hend hnext, if_pos rfl, hvalue, neg_neg]
  · rename_i hpos
    rw [if_neg hpos] at hvalue
    have hds : ∀ b ∈ ds, isDigit b.toNat := fun b hb => hdigit b (List.mem_cons_of_mem d hb)
    have hne : d ≠ 45 := by
      rintro rfl
      cases hd
    rw [parseInt_text hfront (.inr hd) hds harr hend hnext, if_neg hne, hvalue]

/-- The smallest number. -/
theorem emitted_intMin : Print.emitted (BitVec.intMin 32) 10 =
    [45, 50, 49, 52, 55, 52, 56, 51, 54, 52, 56] := by
  have hneg : (BitVec.intMin 32).slt 0 = true := by decide
  rw [Print.emitted_dec, if_pos hneg, if_pos hneg]
  simp [Print.numberText, Print.numberLoop, Print.checkedBase, Print.digit]

/-- The smallest number behind an `x`, with nothing behind it for a second. -/
theorem parseInt_emitted_intMin :
    (⟨1000, 120 :: Print.emitted (BitVec.intMin 32) 10,
      (List.replicate 12 3).map (fun t => (t, [])) ++ [(5, []), (1004, []), (1005, [])]⟩ :
        Stream).parseInt .skipAll noIgnoreChar = some (BitVec.intMin 32, ⟨1000, [], []⟩) := by
  have harr := arrives_buffered 1000 ([120] ++ Print.emitted (BitVec.intMin 32) 10) []
    [(5, []), (1004, []), (1005, [])] (List.replicate 12 3) (by simp [emitted_intMin])
  rw [List.append_nil] at harr
  have hend : Awaits ⟨1000, [], [(5, []), (1004, []), (1005, [])]⟩ none ⟨1000, [], []⟩ :=
    ⟨rfl, 5, [], _, rfl, .wait (by decide) (.late (by decide))⟩
  exact (parseInt_emitted (BitVec.intMin 32) (List.forall_mem_singleton.2 (by decide)) harr hend
    (fun c hc => by cases hc)).1

end Stream

end Pico
