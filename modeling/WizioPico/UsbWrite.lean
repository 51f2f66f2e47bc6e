/-
**Writing to the USB serial port.**

`SerialUSB::write` of `arduino/libraries/RP2040/SerialUSB/SerialUSB.h`, with the bytes it hands to
TinyUSB.  What TinyUSB, the clock and the mutex answer is given by an endpoint, for each call that
is made of them.  The loop counts in a variable of its own, that hides the one that is returned.

* `Pico.UsbWrite.Endpoint` — the answers, of which TinyUSB accepts no more than it is offered;
* `Pico.UsbWrite.writeLoop`, `Pico.UsbWrite.write` — the method; it need not end;
* `Pico.UsbWrite.sent_write_prefix` — **the bytes that are accepted are a prefix of the buffer**;
* `Pico.UsbWrite.Refuses`, `Pico.UsbWrite.Quiet` — the endpoint accepts nothing;
* `Pico.UsbWrite.Reported`, `Pico.UsbWrite.PrintReported` — the result is the number of bytes that
  have been accepted, and a string is printed up to the first byte that is not;
* `Pico.UsbWrite.write_reported_iff` — **the result is right exactly if nothing is accepted.**
-/

import WizioPico.Print

set_option relaxedAutoImplicit false
set_option autoImplicit false

namespace Pico.UsbWrite

open Pico.Print

/-! ### The method -/

/-- What `mutex_try_enter` finds: it enters, or the owner is this core, or the other one. -/
inductive Entered where
  | yes
  | own
  | other
  deriving DecidableEq

/-- What is answered to the calls, by their number. -/
structure Endpoint where
  tryEnter : ℕ → Entered
  connected : ℕ → Bool
  available : ℕ → UInt32
  accepted : ℕ → UInt32 → UInt32
  accepted_le : ∀ k n, accepted k n ≤ n
  time : ℕ → UInt64

/-- The port: `_running`, the time of `write`, the number of calls that have been made, and the
bytes that TinyUSB has accepted. -/
structure SerialUSB where
  running : Bool
  lastAvailTime : UInt64
  calls : ℕ
  sent : List UInt8
  deriving DecidableEq

variable (e : Endpoint) (buf : ℕ → UInt8) (size : UInt32)

/-- `n`, with what `tud_cdc_write_available` answers to the call `k`; both are of type `int`. -/
def offered (i : UInt32) (k : ℕ) : UInt32 :=
  if toInt (e.available k) < toInt (size - i) then e.available k else size - i

/-- The test for giving up, in front of which the call `k` has been made. -/
def givesUp (k : ℕ) (lastAvailTime : UInt64) : Bool :=
  !e.connected k || e.available (k + 1) == 0 && lastAvailTime + 1000000 < e.time (k + 2)

/-- The loop of `write`, for a number of rounds. -/
def writeLoop : ℕ → UInt32 → SerialUSB → Option SerialUSB
  | 0, _, _ => none
  | rounds + 1, i, s =>
    if i < size then
      let n := offered e size i s.calls
      if n ≠ 0 then
        let n2 := e.accepted (s.calls + 1) n
        writeLoop rounds (i + n2) { s with
          calls := s.calls + 3
          sent := s.sent ++ (List.range n2.toNat).map fun j => buf (i.toNat + j)
          lastAvailTime := e.time (s.calls + 2) }
      else if givesUp e (s.calls + 1) s.lastAvailTime then some { s with calls := s.calls + 4 }
      else writeLoop rounds i { s with calls := s.calls + 4 }
    else some s

/-- `write(const uint8_t *, size_t)`, with as many rounds of its loop: the result, and the port
afterwards. -/
def write (rounds : ℕ) (s : SerialUSB) : Option (UInt32 × SerialUSB) :=
  if !s.running then some (0, s)
  else
    let entered := e.tryEnter s.calls
    if entered = .own then some (0, { s with calls := s.calls + 1 })
    else
      let i : UInt32 := 0
      if e.connected (s.calls + 1) then
        (writeLoop e buf size rounds 0 { s with calls := s.calls + 2 }).map fun s => (i, s)
      else some (i, { s with calls := s.calls + 2, lastAvailTime := 0 })

/-- `write(uint8_t)`. -/
def writeChar (rounds : ℕ) (s : SerialUSB) (c : UInt8) : Option (SerialUSB × ℕ) :=
  (write e (fun _ => c) 1 rounds s).map fun r => (r.2, r.1.toNat)

/-- The virtual methods. -/
def port (rounds : ℕ) : Port SerialUSB where
  write := writeChar e rounds
  writeBuffer s buffer :=
    (write e (fun j => buffer.getD j 0) (UInt32.ofNat buffer.length) rounds s).map fun r =>
      (r.2, r.1.toNat)

/-! ### What is accepted -/

variable {e buf size} {rounds : ℕ} {i : UInt32} {s s' : SerialUSB}

/-- The bytes of a buffer. -/
def bytes (buf : ℕ → UInt8) (n : ℕ) : List UInt8 := (List.range n).map buf

theorem bytes_add (buf : ℕ → UInt8) (m n : ℕ) :
    bytes buf (m + n) = bytes buf m ++ (List.range n).map fun j => buf (m + j) := by
  rw [bytes, List.range_add, List.map_append, List.map_map]
  rfl

/-- Bytes are only added. -/
theorem sent_writeLoop (h : writeLoop e buf size rounds i s = some s') :
    ∃ p, s'.sent = s.sent ++ p := by
  induction rounds generalizing i s with
  | zero => cases h
  | succ rounds ih =>
      rw [writeLoop] at h
      split at h
      · dsimp only at h
        split at h
        · obtain ⟨p, hp⟩ := ih h
          exact ⟨_, hp.trans (List.append_assoc _ _ _)⟩
        · split at h
          · cases h
            exact ⟨[], (List.append_nil _).symm⟩
          · exact ih (s := { s with calls := s.calls + 4 }) h
      · cases h
        exact ⟨[], (List.append_nil _).symm⟩

/-- What is offered is what is left, or less, as long as TinyUSB has no room for `2 ^ 31` bytes. -/
theorem offered_le (havail : ∀ k, (e.available k).toNat < 2 ^ 31) (hsize : size.toNat < 2 ^ 31)
    (hi : i ≤ size) (k : ℕ) : (offered e size i k).toNat ≤ size.toNat - i.toNat := by
  have hsub : (size - i).toNat = size.toNat - i.toNat := UInt32.toNat_sub_of_le _ _ hi
  rw [offered]
  split
  · rename_i hlt
    have ha := havail k
    rw [toInt, toInt, if_pos ha, if_pos (by omega)] at hlt
    omega
  · exact hsub.le

/-- **The bytes that are accepted are a prefix of the buffer**, each once and in order. -/
theorem sent_writeLoop_prefix (havail : ∀ k, (e.available k).toNat < 2 ^ 31)
    (hsize : size.toNat < 2 ^ 31) {before : List UInt8} (hi : i ≤ size)
    (hsent : s.sent = before ++ bytes buf i.toNat)
    (h : writeLoop e buf size rounds i s = some s') :
    ∃ n ≤ size.toNat, s'.sent = before ++ bytes buf n := by
  induction rounds generalizing i s with
  | zero => cases h
  | succ rounds ih =>
      have hile : i.toNat ≤ size.toNat := hi
      rw [writeLoop] at h
      split at h
      · dsimp only at h
        split at h
        · have hn := offered_le havail hsize hi s.calls
          have hn2 := UInt32.le_iff_toNat_le.1
            (e.accepted_le (s.calls + 1) (offered e size i s.calls))
          have hadd : (i + e.accepted (s.calls + 1) (offered e size i s.calls)).toNat =
              i.toNat + (e.accepted (s.calls + 1) (offered e size i s.calls)).toNat := by
            rw [UInt32.toNat_add]
            omega
          refine ih ?_ ?_ h
          · rw [UInt32.le_iff_toNat_le, hadd]
            omega
          · rw [hadd, bytes_add, ← List.append_assoc, ← hsent]
        · split at h
          · cases h
            exact ⟨i.toNat, hile, hsent⟩
          · exact ih (s := { s with calls := s.calls + 4 }) hi hsent h
      · cases h
        exact ⟨i.toNat, hile, hsent⟩

/-- A shorter list of the bytes of a buffer is a prefix. -/
theorem bytes_prefix {m n : ℕ} (h : m ≤ n) : bytes buf m <+: bytes buf n := by
  obtain ⟨k, rfl⟩ := Nat.exists_eq_add_of_le h
  rw [bytes_add]
  exact List.prefix_append _ _

/-- **The bytes that a call has accepted are a prefix of its buffer.** -/
theorem sent_write_prefix (havail : ∀ k, (e.available k).toNat < 2 ^ 31)
    (hsize : size.toNat < 2 ^ 31) {ret : UInt32}
    (h : write e buf size rounds s = some (ret, s')) :
    ∃ p, s'.sent = s.sent ++ p ∧ p <+: bytes buf size.toNat := by
  have hnone : ∃ p, s.sent = s.sent ++ p ∧ p <+: bytes buf size.toNat :=
    ⟨[], (List.append_nil _).symm, List.nil_prefix⟩
  rw [write] at h
  split at h
  · cases h
    exact hnone
  · dsimp only at h
    split at h
    · cases h
      exact hnone
    · split at h
      · obtain ⟨t, ht, heq⟩ := Option.map_eq_some_iff.1 h
        cases heq
        obtain ⟨n, hn, hsent⟩ := sent_writeLoop_prefix (s := { s with calls := s.calls + 2 })
          havail hsize (UInt32.zero_le) (List.append_nil s.sent).symm ht
        exact ⟨bytes buf n, hsent, bytes_prefix hn⟩
      · cases h
        exact hnone

/-! ### An endpoint that accepts nothing -/

variable (e size) in
/-- **The loop accepts nothing**: from the call `k` on, TinyUSB refuses what it is offered, until
the loop gives up. -/
inductive Refuses : ℕ → UInt64 → Prop
  | refused {k : ℕ} {last : UInt64} : offered e size 0 k ≠ 0 →
      e.accepted (k + 1) (offered e size 0 k) = 0 → Refuses (k + 3) (e.time (k + 2)) →
      Refuses k last
  | waits {k : ℕ} {last : UInt64} : offered e size 0 k = 0 → givesUp e (k + 1) last = false →
      Refuses (k + 4) last → Refuses k last
  | givesUp {k : ℕ} {last : UInt64} : offered e size 0 k = 0 → givesUp e (k + 1) last = true →
      Refuses k last

variable (e size) in
/-- **A call accepts nothing**: the port is not running, or taken by this core, or not connected, or
there is nothing to write, or TinyUSB refuses. -/
def Quiet (s : SerialUSB) : Prop :=
  s.running = false ∨ e.tryEnter s.calls = .own ∨ e.connected (s.calls + 1) = false ∨ size = 0 ∨
    Refuses e size (s.calls + 2) s.lastAvailTime

/-- A loop that ends has left the bytes as they were exactly if it accepts nothing. -/
theorem sent_writeLoop_iff (hsize : size ≠ 0) (h : writeLoop e buf size rounds 0 s = some s') :
    s'.sent = s.sent ↔ Refuses e size s.calls s.lastAvailTime := by
  induction rounds generalizing s with
  | zero => cases h
  | succ rounds ih =>
      have hpos : (0 : UInt32) < size := UInt32.pos_iff_ne_zero.2 hsize
      rw [writeLoop, if_pos hpos] at h
      dsimp only at h
      split at h
      · rename_i hn
        by_cases hacc : e.accepted (s.calls + 1) (offered e size 0 s.calls) = 0
        · rw [hacc] at h
          have hiff := ih h
          rw [UInt32.toNat_zero, List.range_zero, List.map_nil, List.append_nil] at hiff
          refine hiff.trans ⟨.refused hn hacc, fun hr => ?_⟩
          cases hr with
          | refused _ _ hr => exact hr
          | waits hz => exact absurd hz hn
          | givesUp hz => exact absurd hz hn
        · obtain ⟨p, hp⟩ := sent_writeLoop h
          refine iff_of_false (fun hsent => hacc ?_) fun hr => ?_
          · rw [hsent] at hp
            have hlen := congrArg List.length hp
            simp only [List.length_append, List.length_map, List.length_range] at hlen
            exact UInt32.toNat_inj.1 (by rw [UInt32.toNat_zero]; omega)
          · cases hr with
            | refused _ hz _ => exact hacc hz
            | waits hz => exact hn hz
            | givesUp hz => exact hn hz
      · rename_i hn
        have hz := not_not.1 hn
        split at h
        · rename_i hgives
          cases h
          exact iff_of_true rfl (.givesUp hz hgives)
        · rename_i hgives
          have hgives' := Bool.eq_false_iff.2 hgives
          refine (ih h).trans ⟨.waits hz hgives', fun hr => ?_⟩
          cases hr with
          | refused hn' => exact absurd hz hn'
          | waits _ _ hr => exact hr
          | givesUp _ hg => exact absurd hg hgives

/-- The value returned is 0, and bytes have been accepted unless the call accepts nothing. -/
theorem write_cases {ret : UInt32} (h : write e buf size rounds s = some (ret, s')) :
    ret = 0 ∧ (∃ p, s'.sent = s.sent ++ p) ∧ (s'.sent = s.sent ↔ Quiet e size s) := by
  have hnone : s.sent = s.sent ++ [] := (List.append_nil _).symm
  rw [write] at h
  split at h
  · rename_i hrun
    cases h
    exact ⟨rfl, ⟨[], hnone⟩, iff_of_true rfl (Or.inl (by simpa using hrun))⟩
  rename_i hrun
  dsimp only at h
  split at h
  · rename_i hown
    cases h
    exact ⟨rfl, ⟨[], hnone⟩, iff_of_true rfl (Or.inr (Or.inl hown))⟩
  rename_i hown
  split at h
  · rename_i hconn
    obtain ⟨t, ht, heq⟩ := Option.map_eq_some_iff.1 h
    cases heq
    refine ⟨rfl, sent_writeLoop (s := { s with calls := s.calls + 2 }) ht, ?_⟩
    by_cases hsize : size = 0
    · cases rounds with
      | zero => cases ht
      | succ rounds =>
          rw [writeLoop, if_neg (by simp [hsize])] at ht
          cases ht
          exact iff_of_true rfl (Or.inr (Or.inr (Or.inr (Or.inl hsize))))
    · refine (sent_writeLoop_iff hsize ht).trans ⟨fun hr => ?_, ?_⟩
      · exact Or.inr (Or.inr (Or.inr (Or.inr hr)))
      · rintro (h | h | h | h | hr)
        · simp [h] at hrun
        · exact absurd h hown
        · simp [h] at hconn
        · exact absurd h hsize
        · exact hr
  · rename_i hconn
    cases h
    exact ⟨rfl, ⟨[], hnone⟩, iff_of_true rfl (Or.inr (Or.inr (Or.inl (by simpa using hconn))))⟩

/-! ### What the result says -/

variable (buf size) in
/-- **The result of `write`** is the length of the prefix that has been accepted. -/
def Reported (s : SerialUSB) (ret : UInt32) (s' : SerialUSB) : Prop :=
  ∃ p, s'.sent = s.sent ++ p ∧ p <+: bytes buf size.toNat ∧ ret.toNat = p.length

variable (e rounds) in
/-- **A string is printed as long as its bytes are accepted**: the result is the length of the
prefix that has been accepted, and the byte behind it, if there is one, has been written in
vain. -/
def PrintReported (s : SerialUSB) (text : List UInt8) (s' : SerialUSB) (n : ℕ) : Prop :=
  ∃ p rest, text = p ++ rest ∧ s'.sent = s.sent ++ p ∧ n = p.length ∧
    ∀ c rest', rest = c :: rest' →
      ∃ t k, writeChar e rounds t c = some (s', k) ∧ s'.sent = t.sent

theorem reported_iff {ret : UInt32} (h : write e buf size rounds s = some (ret, s')) :
    Reported buf size s ret s' ↔ Quiet e size s := by
  obtain ⟨hret, -, hquiet⟩ := write_cases h
  rw [← hquiet]
  constructor
  · rintro ⟨p, hsent, -, hlen⟩
    rw [hret, UInt32.toNat_zero] at hlen
    rw [hsent, List.length_eq_zero_iff.1 hlen.symm, List.append_nil]
  · intro hsent
    exact ⟨[], by rw [hsent, List.append_nil], List.nil_prefix, by rw [hret]; rfl⟩

theorem printReported_iff {ifsh : CString} {n : ℕ}
    (h : printFlash (port e rounds) s ifsh = some (s', n)) :
    PrintReported e rounds s ifsh.bytes s' n ↔ ifsh.bytes = [] ∨ Quiet e 1 s := by
  rw [printFlash] at h
  generalize ifsh.bytes = text at h ⊢
  cases text with
  | nil =>
      cases h
      exact iff_of_true ⟨[], [], rfl, (List.append_nil _).symm, rfl, nofun⟩ (Or.inl rfl)
  | cons c text =>
      obtain ⟨⟨t, k⟩, hchar, h⟩ := Option.bind_eq_some_iff.1 h
      obtain ⟨⟨ret, t'⟩, hwrite, heq⟩ := Option.map_eq_some_iff.1 hchar
      cases heq
      obtain ⟨hret, -, hquiet⟩ := write_cases hwrite
      -- the byte is taken for one that was not accepted
      have hzero : ¬ret.toNat ≠ 0 := by simp [hret]
      rw [if_neg hzero] at h
      cases h
      rw [or_iff_right (List.cons_ne_nil c text), ← hquiet]
      constructor
      · rintro ⟨p, rest, -, hsent, hlen, -⟩
        rw [hsent, List.length_eq_zero_iff.1 hlen.symm, List.append_nil]
      · intro hsent
        refine ⟨[], c :: text, rfl, by rw [hsent, List.append_nil], rfl, fun d rest hd => ?_⟩
        obtain rfl : c = d := (List.cons.inj hd).1
        exact ⟨s, _, hchar, hsent⟩

/-- **The result of `SerialUSB::write` is right exactly if TinyUSB accepts nothing**, and so is what
`print` makes of it: it stops behind the first byte of the string, whether accepted or not. -/
theorem write_reported_iff (e : Endpoint) (rounds : ℕ) (s : SerialUSB) :
    (∀ buf size ret s', write e buf size rounds s = some (ret, s') →
      (Reported buf size s ret s' ↔ Quiet e size s)) ∧
    ∀ ifsh s' n, printFlash (port e rounds) s ifsh = some (s', n) →
      (PrintReported e rounds s ifsh.bytes s' n ↔ ifsh.bytes = [] ∨ Quiet e 1 s) :=
  ⟨fun _ _ _ _ h => reported_iff h, fun _ _ _ h => printReported_iff h⟩

/-- A terminal that takes a byte at a time. -/
def oneByOne : Endpoint where
  tryEnter _ := .yes
  connected _ := true
  available _ := 1
  accepted _ n := n
  accepted_le _ _ := UInt32.le_refl _
  time _ := 0

theorem write_reported_iff_oneByOne :
    Reported (fun _ => 65) 1 ⟨true, 0, 0, []⟩ 0 ⟨true, 0, 5, [65]⟩ ↔
      Quiet oneByOne 1 ⟨true, 0, 0, []⟩ :=
  (write_reported_iff oneByOne 2 ⟨true, 0, 0, []⟩).1 _ _ _ _ (by decide)

/-- It accepts the byte that is written, and 0 is returned. -/
theorem write_oneByOne_not_reported : ∃ s', write oneByOne (fun _ => 65) 1 2 ⟨true, 0, 0, []⟩ =
    some (0, s') ∧ s'.sent = [65] ∧ ¬Reported (fun _ => 65) 1 ⟨true, 0, 0, []⟩ 0 s' := by
  refine ⟨⟨true, 0, 5, [65]⟩, by decide, rfl, ?_⟩
  rintro ⟨p, hsent, -, hlen⟩
  have hnil : p = [] := List.length_eq_zero_iff.1 hlen.symm
  rw [hnil] at hsent
  cases hsent

end Pico.UsbWrite
