/-
**The SD card on the SPI bus.**

The lower half of `library/VFS/fatfs_sd.c`.  Whatever the card does, it answers with one byte for
each byte exchanged, and time goes on with each of them: a card is the sequence of its answers,
with a clock that counts microseconds.  The program takes a step for each byte exchanged and for
each look at the clock.  The detect and write-protect pins are not connected.

* `Pico.Sd.Card`, `Pico.Sd.Bus` — the card, and the bus with what was sent over it; bytes that are
  only exchanged for their answers are left out;
* `Pico.Sd.waitReady`, `Pico.Sd.selectCard`, `Pico.Sd.sendCmd` — the functions, in the order of the
  source, and `Pico.Sd.rcvrDatablock`, `Pico.Sd.xmitDatablock` for the data;
* `Pico.Sd.lt_sendCmd` — a command takes time, so loops over commands come to an end;
* `Pico.Sd.log_command` — **what a command sends**;
* `Pico.Sd.sendCmd_at_once` — a command to a card that is ready and answers at once.
-/

import WizioPico.Polling
import Mathlib.Data.List.Basic

set_option relaxedAutoImplicit false
set_option autoImplicit false

namespace Pico.Sd

/-! ### The card and the bus -/

/-- A card, with the clock. -/
structure Card where
  reply : ℕ → UInt8
  clock : Clock

/-- What happens on the bus: the select line, command packets, and the tokens and the data of
blocks. -/
inductive Event where
  | select
  | deselect
  | packet (bytes : List UInt8)
  | token (t : UInt8)
  | data (bytes : List UInt8)
  deriving DecidableEq

/-- The bus: the next step, whether the card is selected, and what has happened. -/
structure Bus where
  n : ℕ
  selected : Bool
  log : List Event

/-- Steps whose answers are not looked at. -/
def Bus.skip (b : Bus) (k : ℕ) : Bus := { b with n := b.n + k }

/-- Sending `k` bytes. -/
def Bus.send (b : Bus) (e : Event) (k : ℕ) : Bus := ⟨b.n + k, b.selected, b.log ++ [e]⟩

/-! ### Commands -/

/-- The commands; those of applications carry the bit `0x80`. -/
def CMD0 : UInt8 := 0
def CMD1 : UInt8 := 1
def CMD8 : UInt8 := 8
def CMD12 : UInt8 := 12
def CMD16 : UInt8 := 16
def CMD17 : UInt8 := 17
def CMD18 : UInt8 := 18
def CMD24 : UInt8 := 24
def CMD25 : UInt8 := 25
def CMD55 : UInt8 := 55
def CMD58 : UInt8 := 58
def ACMD23 : UInt8 := 0x80 + 23
def ACMD41 : UInt8 := 0x80 + 41

variable (card : Card)

/-- `wait_ready`, for a time in milliseconds. -/
def waitReady (b : Bus) (wt : ℕ) : Bool × Bus :=
  let timeoutTime := card.clock.time b.n + wt * 1000
  let r := card.clock.poll card.reply (fun d => d == 0xFF) timeoutTime (b.n + 1)
  (r.1 == 0xFF, { b with n := r.2 })

/-- `deselect_card`. -/
def deselectCard (b : Bus) : Bus := ⟨b.n + 1, false, b.log ++ [.deselect]⟩

/-- `select_card`. -/
def selectCard (b : Bus) : Bool × Bus :=
  let r := waitReady card ⟨b.n + 1, true, b.log ++ [.select]⟩ 500
  if r.1 then (true, r.2) else (false, deselectCard r.2)

/-- The six bytes of a command, with the checksums that two of them need. -/
def packet (cmd : UInt8) (arg : UInt32) : List UInt8 :=
  let n : UInt8 := if cmd = CMD8 then 0x87 else if cmd = CMD0 then 0x95 else 0x01
  [0x40 ||| cmd, (arg >>> 24).toUInt8, (arg >>> 16).toUInt8, (arg >>> 8).toUInt8, arg.toUInt8, n]

/-- The loop for the response, which may come `n` bytes late. -/
def response : ℕ → Bus → UInt8 × Bus
  | 0, b => (card.reply b.n, b.skip 1)
  | n + 1, b =>
    if card.reply b.n &&& 0x80 ≠ 0 then response n (b.skip 1) else (card.reply b.n, b.skip 1)

/-- `send_cmd`, for a command without the bit `0x80`. -/
def command (b : Bus) (cmd : UInt8) (arg : UInt32) : UInt8 × Bus :=
  if cmd = CMD12 then response card 9 ((b.send (.packet (packet cmd arg)) 6).skip 1)
  else
    let r := selectCard card (deselectCard b)
    if r.1 then response card 9 (r.2.send (.packet (packet cmd arg)) 6) else (0xFF, r.2)

/-- `send_cmd`. -/
def sendCmd (b : Bus) (cmd : UInt8) (arg : UInt32) : UInt8 × Bus :=
  if cmd &&& 0x80 ≠ 0 then
    let r := command card b CMD55 0
    if r.1 > 1 then r else command card r.2 (cmd &&& 0x7F) arg
  else command card b cmd arg

/-! ### Blocks -/

/-- `rcvr_datablock`: whether there was a block, with its bytes. -/
def rcvrDatablock (b : Bus) (btr : ℕ) : Bool × List UInt8 × Bus :=
  let timeoutTime := card.clock.time b.n + 200 * 1000
  let r := card.clock.poll card.reply (fun token => token != 0xFF) timeoutTime (b.n + 1)
  if r.1 ≠ 0xFE then (false, [], { b with n := r.2 })
  else
    (true, (List.range btr).map fun i => card.reply (r.2 + i), { b with n := r.2 + btr + 2 })

/-- `xmit_datablock`. -/
def xmitDatablock (b : Bus) (buff : List UInt8) (token : UInt8) : Bool × Bus :=
  let r := waitReady card b 500
  if !r.1 then (false, r.2)
  else
    let b := r.2.send (.token token) 1
    if token ≠ 0xFD then
      let b := (b.send (.data buff) buff.length).skip 2
      (card.reply b.n &&& 0x1F == 0x05, b.skip 1)
    else (true, b)

/-! ### Time -/

variable {card} {b : Bus}

theorem lt_waitReady (b : Bus) (wt : ℕ) : b.n < (waitReady card b wt).2.n := by
  have hlt := card.clock.lt_poll card.reply (fun d => d == 0xFF)
    (card.clock.time b.n + wt * 1000) (b.n + 1)
  exact Nat.lt_of_succ_lt hlt

theorem lt_selectCard (b : Bus) : b.n < (selectCard card b).2.n := by
  have hlt := @lt_waitReady card ⟨b.n + 1, true, b.log ++ [.select]⟩ 500
  rw [selectCard]
  split
  · exact Nat.lt_of_succ_lt hlt
  · exact Nat.lt_succ_of_lt (Nat.lt_of_succ_lt hlt)

theorem lt_response (n : ℕ) (b : Bus) : b.n < (response card n b).2.n := by
  induction n generalizing b with
  | zero => exact Nat.lt_succ_self b.n
  | succ n ih =>
      rw [response]
      split
      · exact Nat.lt_of_succ_lt (ih (b.skip 1))
      · exact Nat.lt_succ_self b.n

theorem lt_command (b : Bus) (cmd : UInt8) (arg : UInt32) :
    b.n < (command card b cmd arg).2.n := by
  rw [command]
  split
  · have hlt := @lt_response card 9 ((b.send (.packet (packet cmd arg)) 6).skip 1)
    exact Nat.lt_trans (Nat.lt_add_of_pos_right (by decide : 0 < 6 + 1)) hlt
  · have hsel := @lt_selectCard card (deselectCard b)
    have hdes : b.n < (deselectCard b).n := Nat.lt_succ_self b.n
    dsimp only
    split
    · have hlt := @lt_response card 9
        ((selectCard card (deselectCard b)).2.send (.packet (packet cmd arg)) 6)
      have hsend : (selectCard card (deselectCard b)).2.n <
          ((selectCard card (deselectCard b)).2.send (.packet (packet cmd arg)) 6).n :=
        Nat.lt_add_of_pos_right (by decide)
      omega
    · exact Nat.lt_trans hdes hsel

/-- **A command takes time.** -/
theorem lt_sendCmd (b : Bus) (cmd : UInt8) (arg : UInt32) :
    b.n < (sendCmd card b cmd arg).2.n := by
  have h55 := @lt_command card b CMD55 0
  rw [sendCmd]
  split
  · dsimp only
    split
    · exact h55
    · exact Nat.lt_trans h55 (lt_command _ _ _)
  · exact lt_command _ _ _

/-! ### What is sent -/

@[simp] theorem log_waitReady (b : Bus) (wt : ℕ) : (waitReady card b wt).2.log = b.log := rfl

@[simp] theorem selected_waitReady (b : Bus) (wt : ℕ) :
    (waitReady card b wt).2.selected = b.selected := rfl

@[simp] theorem log_response (n : ℕ) (b : Bus) : (response card n b).2.log = b.log := by
  induction n generalizing b with
  | zero => rfl
  | succ n ih =>
      rw [response]
      split
      · exact ih (b.skip 1)
      · rfl

/-- **What a command sends**: `CMD12` only its packet, any other selects the card before, and if
the card does not become ready deselects it again and sends nothing. -/
theorem log_command (b : Bus) (cmd : UInt8) (arg : UInt32) :
    (command card b cmd arg).2.log = b.log ++
      if cmd = CMD12 then [.packet (packet cmd arg)]
      else if (selectCard card (deselectCard b)).1 then
        [.deselect, .select, .packet (packet cmd arg)]
      else [.deselect, .select, .deselect] := by
  rw [command]
  split
  · rw [log_response]
    rfl
  · dsimp only
    rw [selectCard]
    split
    · rw [if_pos rfl, if_pos rfl, log_response]
      simp [Bus.send, deselectCard]
    · simp [deselectCard]

/-! ### A card that answers at once -/

/-- The bus after a command to a card that is ready and answers at once. -/
def Bus.after (b : Bus) (cmd : UInt8) (arg : UInt32) : Bus :=
  ⟨b.n + 11, true, b.log ++ [.deselect, .select, .packet (packet cmd arg)]⟩

theorem waitReady_at_once {wt : ℕ} (h : card.reply (b.n + 1) = 0xFF) :
    waitReady card b wt = (true, { b with n := b.n + 2 }) := by
  have hff : (card.reply (b.n + 1) == 0xFF) = true := beq_iff_eq.2 h
  rw [waitReady, card.clock.poll_of_pos (p := fun d => d == 0xFF) hff, hff]

theorem selectCard_at_once (h : card.reply (b.n + 2) = 0xFF) :
    selectCard card b = (true, ⟨b.n + 3, true, b.log ++ [.select]⟩) := by
  rw [selectCard, waitReady_at_once h]
  rfl

theorem command_at_once {cmd : UInt8} {arg : UInt32} {res : UInt8} (hcmd : cmd ≠ CMD12)
    (hready : card.reply (b.n + 3) = 0xFF) (hres : card.reply (b.n + 10) = res)
    (hbit : res &&& 0x80 = 0) : command card b cmd arg = (res, b.after cmd arg) := by
  have hready' : card.reply ((deselectCard b).n + 2) = 0xFF := hready
  rw [command, if_neg hcmd, selectCard_at_once hready', if_pos rfl, response]
  change (if card.reply (b.n + 10) &&& 0x80 ≠ 0 then _ else (card.reply (b.n + 10), _)) = _
  rw [hres, if_neg (not_not_intro hbit), Bus.after]
  simp [deselectCard, Bus.send, Bus.skip]

/-- **A command to a card that is ready and answers at once.** -/
theorem sendCmd_at_once {cmd : UInt8} {arg : UInt32} {res : UInt8} (h80 : cmd &&& 0x80 = 0)
    (hcmd : cmd ≠ CMD12) (hready : card.reply (b.n + 3) = 0xFF)
    (hres : card.reply (b.n + 10) = res) (hbit : res &&& 0x80 = 0) :
    sendCmd card b cmd arg = (res, b.after cmd arg) := by
  rw [sendCmd, if_neg (not_not_intro h80), command_at_once hcmd hready hres hbit]

/-- A command of an application, to such a card. -/
theorem sendCmd_acmd_at_once {cmd : UInt8} {arg : UInt32} {res res' : UInt8}
    (h80 : cmd &&& 0x80 ≠ 0) (hcmd : cmd &&& 0x7F ≠ CMD12)
    (hready : card.reply (b.n + 3) = 0xFF) (hres : card.reply (b.n + 10) = res) (hle : ¬res > 1)
    (hbit : res &&& 0x80 = 0) (hready' : card.reply (b.n + 14) = 0xFF)
    (hres' : card.reply (b.n + 21) = res') (hbit' : res' &&& 0x80 = 0) :
    sendCmd card b cmd arg = (res', (b.after CMD55 0).after (cmd &&& 0x7F) arg) := by
  rw [sendCmd, if_pos h80, command_at_once (by decide) hready hres hbit, if_neg hle]
  exact command_at_once hcmd hready' hres' hbit'

end Pico.Sd
