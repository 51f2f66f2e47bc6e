/-
**Reading and writing sectors of an SD card.**

`disk_read` and `disk_write` of `library/VFS/fatfs_sd.c`, for any number of sectors.  The result is
told from a counter that the loop over the blocks counts down.

* `Pico.Sd.readLoop`, `Pico.Sd.writeLoop` — the loops, with the counter they leave;
* `Pico.Sd.diskRead`, `Pico.Sd.diskWrite` — the functions;
* `Pico.Sd.Received`, `Pico.Sd.Written` — a sequence of blocks, each announced, or taken, in time;
* `Pico.Sd.Accepted` — a command that the card gets ready for and answers with 0, and
  `Pico.Sd.sendCmd_accepted_iff` — `send_cmd` returns 0 for exactly these;
* `Pico.Sd.received_of_readLoop`, `Pico.Sd.written_of_writeLoop` — a loop that counts down to 0 has
  had all its blocks;
* `Pico.Sd.ReadReported`, `Pico.Sd.WriteReported` — what the result says about the transfer;
* `Pico.Sd.transfer_reported` — **sector transfers are all-or-reported**.
-/

import Mathlib.Algebra.Group.Nat.Defs
import WizioPico.SdInit

set_option relaxedAutoImplicit false
set_option autoImplicit false

namespace Pico.Sd

/-! ### The functions -/

/-- `DRESULT`. -/
inductive DResult where
  | ok
  | error
  | wrprt
  | notrdy
  | parerr
  deriving DecidableEq

variable (card : Card)

/-- The address of a sector, for cards with block and with byte addressing. -/
def address (d : Driver) (sector : UInt32) : UInt32 :=
  if d.cardType &&& CT_BLOCK = 0 then sector * 512 else sector

/-- The loop of `disk_read`, with `k` rounds to go after this one: the counter afterwards, and what
was stored in the buffer. -/
def readLoop (k : ℕ) (b : Bus) : UInt32 × List UInt8 × Bus :=
  let r := rcvrDatablock card b 512
  if !r.1 then (UInt32.ofNat (k + 1), [], r.2.2)
  else
    match k with
    | 0 => (0, r.2.1, r.2.2)
    | k + 1 =>
      let t := readLoop k r.2.2
      (t.1, r.2.1 ++ t.2.1, t.2.2)

/-- The read command: for one sector, or for several. -/
def readCmd (count : UInt32) : UInt8 := if count = 1 then CMD17 else CMD18

/-- `disk_read`: the result, and what was stored in the buffer. -/
def diskRead (d : Driver) (b : Bus) (sector count : UInt32) : DResult × List UInt8 × Bus :=
  if d.stat &&& STA_NOINIT ≠ 0 then (.notrdy, [], b)
  else
    let r : UInt32 × List UInt8 × Bus :=
      if count = 1 then
        let r := sendCmd card b CMD17 (address d sector)
        if r.1 = 0 then
          let t := rcvrDatablock card r.2 512
          (if t.1 then 0 else count, t.2.1, t.2.2)
        else (count, [], r.2)
      else
        let r := sendCmd card b CMD18 (address d sector)
        if r.1 = 0 then
          let t := readLoop card (count - 1).toNat r.2
          (t.1, t.2.1, (sendCmd card t.2.2 CMD12 0).2)
        else (count, [], r.2)
    (if r.1 ≠ 0 then .error else .ok, r.2.1, deselectCard r.2.2)

/-- The loop of `disk_write`. -/
def writeLoop (k : ℕ) (b : Bus) (buff : List UInt8) : UInt32 × Bus :=
  let r := xmitDatablock card b (buff.take 512) 0xFC
  if !r.1 then (UInt32.ofNat (k + 1), r.2)
  else
    match k with
    | 0 => (0, r.2)
    | k + 1 => writeLoop k r.2 (buff.drop 512)

/-- The write command, after the number of sectors has been announced to an SD card. -/
def writeCmd (d : Driver) (b : Bus) (sector count : UInt32) : UInt8 × Bus :=
  if count = 1 then sendCmd card b CMD24 (address d sector)
  else
    let b := if d.cardType &&& CT_SDC ≠ 0 then (sendCmd card b ACMD23 count).2 else b
    sendCmd card b CMD25 (address d sector)

/-- The write command itself: for one sector, or for several. -/
def writeOp (count : UInt32) : UInt8 := if count = 1 then CMD24 else CMD25

/-- The bus on which it is sent: the number of sectors, if there are several, has been announced to
an SD card, whatever that answered. -/
def announce (d : Driver) (b : Bus) (count : UInt32) : Bus :=
  if count ≠ 1 ∧ d.cardType &&& CT_SDC ≠ 0 then (sendCmd card b ACMD23 count).2 else b

/-- `disk_write`. -/
def diskWrite (d : Driver) (b : Bus) (buff : List UInt8) (sector count : UInt32) :
    DResult × Bus :=
  if d.stat &&& STA_NOINIT ≠ 0 then (.notrdy, b)
  else if d.stat &&& STA_PROTECT ≠ 0 then (.wrprt, b)
  else
    let r := writeCmd card d b sector count
    let t : UInt32 × Bus :=
      if r.1 = 0 then
        if count = 1 then
          let t := xmitDatablock card r.2 (buff.take 512) 0xFE
          (if t.1 then 0 else count, t.2)
        else
          let t := writeLoop card (count - 1).toNat r.2 buff
          let stop := xmitDatablock card t.2 [] 0xFD
          (if stop.1 then t.1 else 1, stop.2)
      else (count, r.2)
    (if t.1 ≠ 0 then .error else .ok, deselectCard t.2)

/-! ### Blocks in time -/

/-- **A block is announced** by its token within 200 ms; its bytes come from the step `n'` on. -/
def Announced (b : Bus) (n' : ℕ) : Prop :=
  card.clock.Answers card.reply (fun token => token != 0xFF) (card.clock.time b.n + 200 * 1000)
    (b.n + 1) 0xFE n'

/-- The bytes that come from a step on. -/
def payload (n k : ℕ) : List UInt8 := (List.range k).map fun i => card.reply (n + i)

/-- **`k` blocks are announced**, one after the other, with these bytes. -/
inductive Received : ℕ → Bus → List UInt8 → Bus → Prop
  | zero (b : Bus) : Received 0 b [] b
  | succ {k n' : ℕ} {b b' : Bus} {bytes : List UInt8} : Announced card b n' →
      Received k { b with n := n' + 512 + 2 } bytes b' →
      Received (k + 1) b (payload card n' 512 ++ bytes) b'

/-- **The card gets ready** within 500 ms, and the next step is `n'`. -/
def Ready (b : Bus) (n' : ℕ) : Prop :=
  card.clock.Answers card.reply (fun d => d == 0xFF) (card.clock.time b.n + 500 * 1000)
    (b.n + 1) 0xFF n'

/-- **A block is taken** by the card, behind its token. -/
def Taken (token : UInt8) (b : Bus) (block : List UInt8) (b' : Bus) : Prop :=
  ∃ n', Ready card b n' ∧ card.reply (n' + 1 + block.length + 2) &&& 0x1F = 0x05 ∧
    b' = ⟨n' + 1 + block.length + 2 + 1, b.selected, b.log ++ [.token token] ++ [.data block]⟩

/-- **`k` blocks are taken**, one after the other. -/
inductive Written (token : UInt8) : ℕ → Bus → List UInt8 → Bus → Prop
  | zero (b : Bus) (buff : List UInt8) : Written token 0 b buff b
  | succ {k : ℕ} {b b₁ b' : Bus} {buff : List UInt8} : Taken card token b (buff.take 512) b₁ →
      Written token k b₁ (buff.drop 512) b' → Written token (k + 1) b buff b'

/-- **The response to a command**: of the bytes from a step on, the first without the top bit, at
most `k` bytes late. -/
def R1 (k n : ℕ) (res : UInt8) (n' : ℕ) : Prop :=
  res &&& 0x80 = 0 ∧ ∃ i ≤ k, (∀ j < i, card.reply (n + j) &&& 0x80 ≠ 0) ∧
    card.reply (n + i) = res ∧ n' = n + i + 1

/-- **The card responds to a command**: selected anew, it gets ready, and behind the packet comes
its response, within ten bytes. -/
def Responds (b : Bus) (cmd : UInt8) (arg : UInt32) (res : UInt8) (b' : Bus) : Prop :=
  ∃ n n', Ready card { b with n := b.n + 2 } n ∧ R1 card 9 (n + 6) res n' ∧
    b' = ⟨n', true, b.log ++ [.deselect, .select, .packet (packet cmd arg)]⟩

/-- **A command is accepted**: the response to it is 0.  A command of an application comes behind a
`CMD55`, to which the card responds with 0 or, while it is idle, with 1. -/
inductive Accepted (b : Bus) (cmd : UInt8) (arg : UInt32) (b' : Bus) : Prop
  | plain : cmd &&& 0x80 = 0 → Responds card b cmd arg 0 b' → Accepted b cmd arg b'
  | application {res : UInt8} {b₁ : Bus} : cmd &&& 0x80 ≠ 0 → Responds card b CMD55 0 res b₁ →
      res ≤ 1 → Responds card b₁ (cmd &&& 0x7F) arg 0 b' → Accepted b cmd arg b'

variable {card} {b : Bus}

theorem waitReady_iff {n' : ℕ} :
    waitReady card b 500 = (true, { b with n := n' }) ↔ Ready card b n' := by
  rw [Ready, ← card.clock.poll_eq_iff (by decide), waitReady]
  constructor
  · intro h
    have hff := congrArg Prod.fst h
    have hn := congrArg (fun r : Bool × Bus => r.2.n) h
    exact Prod.ext (beq_iff_eq.1 hff) hn
  · intro h
    rw [h]
    rfl

/-- The card does not get ready. -/
theorem waitReady_false (h : ¬∃ n', Ready card b n') : (waitReady card b 500).1 = false := by
  by_contra hne
  have htrue : (waitReady card b 500).1 = true := by simpa using hne
  exact h ⟨(waitReady card b 500).2.n, waitReady_iff.1 (Prod.ext htrue rfl)⟩

/-- A block that is announced is received. -/
theorem rcvrDatablock_announced {n' : ℕ} (h : Announced card b n') (k : ℕ) :
    rcvrDatablock card b k = (true, payload card n' k, { b with n := n' + k + 2 }) := by
  rw [Announced, ← card.clock.poll_eq_iff (by decide)] at h
  rw [rcvrDatablock, h, if_neg (not_not_intro rfl)]
  rfl

/-- Without an announcement there is no block. -/
theorem rcvrDatablock_not_announced (h : ¬∃ n', Announced card b n') (k : ℕ) :
    ∃ n', rcvrDatablock card b k = (false, [], { b with n := n' }) := by
  rw [rcvrDatablock]
  split
  · exact ⟨_, rfl⟩
  · rename_i htoken
    have hann := (card.clock.poll_eq_iff (by decide)).1 (Prod.ext (not_not.1 htoken) rfl)
    exact absurd ⟨_, hann⟩ h

/-- The bus after a block has been sent from the step `n'` on. -/
def Bus.sent (b : Bus) (n' : ℕ) (token : UInt8) (block : List UInt8) : Bus :=
  ⟨n' + 1 + block.length + 2 + 1, b.selected, b.log ++ [.token token] ++ [.data block]⟩

/-- A block is sent to a card that gets ready, and the card's response decides. -/
theorem xmitDatablock_ready {n' : ℕ} {token : UInt8} (h : Ready card b n') (hfd : token ≠ 0xFD)
    (block : List UInt8) :
    xmitDatablock card b block token =
      (card.reply (n' + 1 + block.length + 2) &&& 0x1F == 0x05, b.sent n' token block) := by
  rw [xmitDatablock, waitReady_iff.2 h]
  dsimp only
  rw [if_neg (by decide), if_pos hfd]
  rfl

/-- The stop token is sent to a card that gets ready. -/
theorem xmitDatablock_stop {n' : ℕ} (h : Ready card b n') :
    xmitDatablock card b [] 0xFD = (true, ⟨n' + 1, b.selected, b.log ++ [.token 0xFD]⟩) := by
  rw [xmitDatablock, waitReady_iff.2 h]
  rfl

/-- Nothing is sent to a card that does not. -/
theorem xmitDatablock_not_ready (h : ¬∃ n', Ready card b n') (block : List UInt8)
    (token : UInt8) :
    ∃ n', xmitDatablock card b block token = (false, { b with n := n' }) := by
  rw [xmitDatablock, waitReady_false h]
  exact ⟨_, rfl⟩

theorem xmitDatablock_iff {token : UInt8} {block : List UInt8} {b' : Bus} (hfd : token ≠ 0xFD) :
    xmitDatablock card b block token = (true, b') ↔ Taken card token b block b' := by
  by_cases h : ∃ n', Ready card b n'
  · obtain ⟨n', h⟩ := h
    rw [xmitDatablock_ready h hfd]
    constructor
    · intro heq
      exact ⟨n', h, beq_iff_eq.1 (congrArg Prod.fst heq), (congrArg Prod.snd heq).symm⟩
    · rintro ⟨n'', h', hresp, rfl⟩
      have hbus := (waitReady_iff.2 h).symm.trans (waitReady_iff.2 h')
      obtain rfl : n' = n'' := congrArg (fun r : Bool × Bus => r.2.n) hbus
      rw [hresp]
      rfl
  · obtain ⟨n', heq⟩ := xmitDatablock_not_ready h block token
    rw [heq]
    constructor
    · intro hfalse
      cases hfalse
    · rintro ⟨n'', h', -⟩
      exact absurd ⟨n'', h'⟩ h

/-! ### Accepted commands -/

theorem r1_step {k n n' : ℕ} {res : UInt8} (h : card.reply n &&& 0x80 ≠ 0) :
    R1 card (k + 1) n res n' ↔ R1 card k (n + 1) res n' := by
  have hsum : ∀ i, n + (i + 1) = n + 1 + i := fun i => by omega
  rw [R1, R1]
  refine and_congr_right fun hbit => ?_
  constructor
  · rintro ⟨i, hik, hbefore, hres, rfl⟩
    cases i with
    | zero =>
        rw [Nat.add_zero] at hres
        rw [hres] at h
        exact absurd hbit h
    | succ i =>
        refine ⟨i, by omega, fun j hj => ?_, by rw [← hsum, hres], by omega⟩
        rw [← hsum]
        exact hbefore (j + 1) (by omega)
  · rintro ⟨i, hik, hbefore, hres, rfl⟩
    refine ⟨i + 1, by omega, fun j hj => ?_, by rw [hsum, hres], by omega⟩
    cases j with
    | zero => exact h
    | succ j =>
        rw [hsum]
        exact hbefore j (by omega)

theorem r1_of_answer {k n n' : ℕ} {res : UInt8} (h : card.reply n &&& 0x80 = 0) :
    R1 card k n res n' ↔ card.reply n = res ∧ n' = n + 1 := by
  constructor
  · rintro ⟨hbit, i, -, hbefore, hres, rfl⟩
    cases i with
    | zero => exact ⟨hres, rfl⟩
    | succ i => exact absurd h (hbefore 0 (Nat.succ_pos i))
  · rintro ⟨rfl, rfl⟩
    exact ⟨h, 0, Nat.zero_le k, fun j hj => absurd hj (Nat.not_lt_zero j), rfl, rfl⟩

/-- **The loop for the response returns what the card responds.** -/
theorem response_iff {k n' : ℕ} {res : UInt8} (hres : res &&& 0x80 = 0) :
    response card k b = (res, { b with n := n' }) ↔ R1 card k b.n res n' := by
  induction k generalizing b with
  | zero =>
      rw [response]
      constructor
      · intro heq
        have hreply : card.reply b.n = res := congrArg Prod.fst heq
        have hn : b.n + 1 = n' := congrArg (fun r : UInt8 × Bus => r.2.n) heq
        exact ⟨hres, 0, Nat.le_refl 0, fun j hj => absurd hj (Nat.not_lt_zero j), hreply, hn.symm⟩
      · rintro ⟨-, i, hi, -, hreply, rfl⟩
        obtain rfl := Nat.le_zero.1 hi
        rw [← hreply]
        rfl
  | succ k ih =>
      rw [response]
      by_cases hbit : card.reply b.n &&& 0x80 = 0
      · rw [if_neg (not_not_intro hbit), r1_of_answer hbit]
        constructor
        · intro heq
          have hn : b.n + 1 = n' := congrArg (fun r : UInt8 × Bus => r.2.n) heq
          exact ⟨congrArg Prod.fst heq, hn.symm⟩
        · rintro ⟨hreply, rfl⟩
          rw [hreply]
          rfl
      · rw [if_pos hbit, r1_step hbit]
        exact ih (b := b.skip 1)

/-- It only looks at the card. -/
theorem response_bus (k : ℕ) (b : Bus) :
    (response card k b).2 = { b with n := (response card k b).2.n } := by
  induction k generalizing b with
  | zero => rfl
  | succ k ih =>
      rw [response]
      split
      · exact ih (b.skip 1)
      · rfl

/-- **A command returns what the card responds.** -/
theorem command_iff {cmd : UInt8} {arg : UInt32} {res : UInt8} {b' : Bus} (hcmd : cmd ≠ CMD12)
    (hres : res &&& 0x80 = 0) :
    command card b cmd arg = (res, b') ↔ Responds card b cmd arg res b' := by
  have hlog : b.log ++ [.deselect] ++ [.select] ++ [.packet (packet cmd arg)] =
      b.log ++ [.deselect, .select, .packet (packet cmd arg)] := by simp
  rw [command, if_neg hcmd, selectCard, deselectCard]
  dsimp only
  by_cases hready : ∃ n, Ready card ⟨b.n + 2, true, b.log ++ [.deselect] ++ [.select]⟩ n
  · obtain ⟨n, hn⟩ := hready
    have hwait := waitReady_iff.2 hn
    rw [hwait, if_pos rfl, if_pos rfl, Bus.send, hlog]
    constructor
    · intro heq
      have hbus := @response_bus card 9
        ⟨n + 6, true, b.log ++ [.deselect, .select, .packet (packet cmd arg)]⟩
      rw [heq] at hbus
      have hr1 := (response_iff hres).1 (heq.trans (congrArg (Prod.mk res) hbus))
      exact ⟨n, b'.n, hn, hr1, hbus⟩
    · rintro ⟨n₁, n', hn₁, hr1, rfl⟩
      have hsame := hwait.symm.trans (waitReady_iff.2 hn₁)
      obtain rfl : n = n₁ := congrArg (fun r : Bool × Bus => r.2.n) hsame
      exact (response_iff hres).2 hr1
  · rw [waitReady_false hready, if_neg Bool.false_ne_true, if_neg Bool.false_ne_true]
    constructor
    · intro heq
      have hff : (0xFF : UInt8) = res := congrArg Prod.fst heq
      rw [← hff] at hres
      exact absurd hres (by decide)
    · rintro ⟨n, n', hn, -⟩
      exact absurd ⟨n, hn⟩ hready

theorem bit_of_le_one {res : UInt8} (h : res ≤ 1) : res &&& 0x80 = 0 := by
  have hnat : res.toNat ≤ 1 := h
  have hcases : res = 0 ∨ res = 1 := by
    rcases Nat.le_one_iff_eq_zero_or_eq_one.1 hnat with hz | hone
    · exact .inl (UInt8.toNat_inj.1 hz)
    · exact .inr (UInt8.toNat_inj.1 hone)
  rcases hcases with rfl | rfl <;> rfl

/-- **`send_cmd` returns 0 exactly for an accepted command.** -/
theorem sendCmd_accepted_iff {cmd : UInt8} {arg : UInt32} {b' : Bus}
    (hcmd : cmd &&& 0x7F ≠ CMD12) :
    sendCmd card b cmd arg = (0, b') ↔ Accepted card b cmd arg b' := by
  rw [sendCmd]
  by_cases h80 : cmd &&& 0x80 = 0
  · have hne : cmd ≠ CMD12 := by
      rintro rfl
      exact hcmd rfl
    rw [if_neg (not_not_intro h80), command_iff hne rfl]
    constructor
    · exact .plain h80
    · rintro (⟨-, h⟩ | ⟨happ, -⟩)
      · exact h
      · exact absurd h80 happ
  · rw [if_pos h80]
    dsimp only
    by_cases hle : (command card b CMD55 0).1 ≤ 1
    · have h55 := (command_iff (by decide) (bit_of_le_one hle)).1
        (rfl : command card b CMD55 0 = (_, _))
      rw [if_neg (UInt8.not_lt.2 hle), command_iff hcmd rfl]
      constructor
      · exact .application h80 h55 hle
      · rintro (⟨hplain, -⟩ | ⟨-, h55', hle', h⟩)
        · exact absurd hplain h80
        · have hsame := (command_iff (by decide) (bit_of_le_one hle')).2 h55'
          rw [hsame]
          exact h
    · rw [if_pos (UInt8.not_le.1 hle)]
      constructor
      · intro heq
        rw [heq] at hle
        exact absurd (UInt8.zero_le : (0 : UInt8) ≤ 1) hle
      · rintro (⟨hplain, -⟩ | ⟨-, h55', hle', -⟩)
        · exact absurd hplain h80
        · have hsame := (command_iff (by decide) (bit_of_le_one hle')).2 h55'
          rw [hsame] at hle
          exact absurd hle' hle

/-- And then that is where it has come to. -/
theorem Accepted.bus_eq {cmd : UInt8} {arg : UInt32} {b₁ : Bus} (h : Accepted card b cmd arg b₁)
    (hcmd : cmd &&& 0x7F ≠ CMD12) : (sendCmd card b cmd arg).2 = b₁ := by
  rw [(sendCmd_accepted_iff hcmd).2 h]

/-- What follows an accepted command starts where `send_cmd` has come to. -/
theorem exists_accepted {cmd : UInt8} {arg : UInt32} {p : Bus → Prop}
    (hcmd : cmd &&& 0x7F ≠ CMD12) :
    (∃ b₁, Accepted card b cmd arg b₁ ∧ p b₁) ↔
      (sendCmd card b cmd arg).1 = 0 ∧ p (sendCmd card b cmd arg).2 := by
  constructor
  · rintro ⟨b₁, hacc, h⟩
    rw [(sendCmd_accepted_iff hcmd).2 hacc]
    exact ⟨rfl, h⟩
  · rintro ⟨hres, h⟩
    exact ⟨_, (sendCmd_accepted_iff hcmd).1 (Prod.ext hres rfl), h⟩

/-! ### The loops -/

theorem readLoop_announced_zero {n' : ℕ} (h : Announced card b n') :
    readLoop card 0 b = (0, payload card n' 512, { b with n := n' + 512 + 2 }) := by
  rw [readLoop, rcvrDatablock_announced h]
  simp only [Bool.not_true, Bool.false_eq_true, if_false]

theorem readLoop_announced_succ {k n' : ℕ} (h : Announced card b n') :
    readLoop card (k + 1) b =
      ((readLoop card k { b with n := n' + 512 + 2 }).1,
        payload card n' 512 ++ (readLoop card k { b with n := n' + 512 + 2 }).2.1,
        (readLoop card k { b with n := n' + 512 + 2 }).2.2) := by
  rw [readLoop, rcvrDatablock_announced h]
  simp only [Bool.not_true, Bool.false_eq_true, if_false]

/-- The loop ends with the first block that is not announced. -/
theorem readLoop_not_announced {k : ℕ} (h : ¬∃ n', Announced card b n') :
    ∃ n', readLoop card k b = (UInt32.ofNat (k + 1), [], { b with n := n' }) := by
  obtain ⟨n', hrcvr⟩ := rcvrDatablock_not_announced h 512
  refine ⟨n', ?_⟩
  rw [readLoop.eq_def, hrcvr]
  simp only [Bool.not_false, if_true]

/-- **The loop of `disk_read` counts down to 0 exactly with all blocks**, and then the buffer holds
their bytes. -/
theorem readLoop_received {k : ℕ} {bytes : List UInt8} {b' : Bus}
    (h : Received card (k + 1) b bytes b') : readLoop card k b = (0, bytes, b') := by
  induction k generalizing b bytes with
  | zero =>
      cases h with
      | succ hann hrest =>
          cases hrest
          rw [readLoop_announced_zero hann, List.append_nil]
  | succ k ih =>
      cases h with
      | succ hann hrest => rw [readLoop_announced_succ hann, ih hrest]

/-- A counter that is not yet 0. -/
theorem ofNat_succ_ne_zero {k : ℕ} (hk : k + 1 < 2 ^ 32) : UInt32.ofNat (k + 1) ≠ 0 := by
  intro h
  have hnat := congrArg UInt32.toNat h
  rw [UInt32.toNat_ofNat_of_lt' hk] at hnat
  cases hnat

theorem received_of_readLoop {k : ℕ} (hk : k + 1 < 2 ^ 32) (h : (readLoop card k b).1 = 0) :
    ∃ bytes b', Received card (k + 1) b bytes b' := by
  induction k generalizing b with
  | zero =>
      by_cases hann : ∃ n', Announced card b n'
      · obtain ⟨n', hann⟩ := hann
        exact ⟨_, _, .succ hann (.zero _)⟩
      · obtain ⟨n', heq⟩ := readLoop_not_announced hann
        rw [heq] at h
        exact absurd h (ofNat_succ_ne_zero hk)
  | succ k ih =>
      by_cases hann : ∃ n', Announced card b n'
      · obtain ⟨n', hann⟩ := hann
        rw [readLoop_announced_succ hann] at h
        dsimp only at h
        obtain ⟨bytes, b', hrest⟩ := ih (by omega) h
        exact ⟨_, b', .succ hann hrest⟩
      · obtain ⟨n', heq⟩ := readLoop_not_announced hann
        rw [heq] at h
        exact absurd h (ofNat_succ_ne_zero hk)

/-- Reading sends nothing. -/
theorem log_readLoop (k : ℕ) (b : Bus) : (readLoop card k b).2.2.log = b.log := by
  induction k generalizing b with
  | zero =>
      by_cases hann : ∃ n', Announced card b n'
      · obtain ⟨n', hann⟩ := hann
        rw [readLoop_announced_zero hann]
      · obtain ⟨n', heq⟩ := readLoop_not_announced hann
        rw [heq]
  | succ k ih =>
      by_cases hann : ∃ n', Announced card b n'
      · obtain ⟨n', hann⟩ := hann
        rw [readLoop_announced_succ hann]
        dsimp only
        rw [ih]
      · obtain ⟨n', heq⟩ := readLoop_not_announced hann
        rw [heq]

theorem writeLoop_taken_zero {buff : List UInt8} {b₁ : Bus}
    (h : Taken card 0xFC b (buff.take 512) b₁) : writeLoop card 0 b buff = (0, b₁) := by
  rw [writeLoop, (xmitDatablock_iff (by decide)).2 h]
  simp only [Bool.not_true, Bool.false_eq_true, if_false]

theorem writeLoop_taken_succ {k : ℕ} {buff : List UInt8} {b₁ : Bus}
    (h : Taken card 0xFC b (buff.take 512) b₁) :
    writeLoop card (k + 1) b buff = writeLoop card k b₁ (buff.drop 512) := by
  rw [writeLoop, (xmitDatablock_iff (by decide)).2 h]
  simp only [Bool.not_true, Bool.false_eq_true, if_false]

theorem xmitDatablock_not_taken {token : UInt8} (htoken : token ≠ 0xFD) {block : List UInt8}
    (h : ¬∃ b₁, Taken card token b block b₁) : (xmitDatablock card b block token).1 = false := by
  by_contra hne
  have htrue : (xmitDatablock card b block token).1 = true := by simpa using hne
  exact h ⟨_, (xmitDatablock_iff htoken).1 (Prod.ext htrue rfl)⟩

/-- The loop ends with the first block that is not taken. -/
theorem writeLoop_not_taken {k : ℕ} {buff : List UInt8}
    (h : ¬∃ b₁, Taken card 0xFC b (buff.take 512) b₁) :
    writeLoop card k b buff =
      (UInt32.ofNat (k + 1), (xmitDatablock card b (buff.take 512) 0xFC).2) := by
  rw [writeLoop.eq_def]
  dsimp only
  rw [xmitDatablock_not_taken (by decide) h]
  simp only [Bool.not_false, if_true]

theorem writeLoop_written {k : ℕ} {buff : List UInt8} {b' : Bus}
    (h : Written card 0xFC (k + 1) b buff b') : writeLoop card k b buff = (0, b') := by
  induction k generalizing b buff with
  | zero =>
      cases h with
      | succ htaken hrest =>
          cases hrest
          exact writeLoop_taken_zero htaken
  | succ k ih =>
      cases h with
      | succ htaken hrest => rw [writeLoop_taken_succ htaken, ih hrest]

theorem written_of_writeLoop {k : ℕ} {buff : List UInt8} (hk : k + 1 < 2 ^ 32)
    (h : (writeLoop card k b buff).1 = 0) : ∃ b', Written card 0xFC (k + 1) b buff b' := by
  induction k generalizing b buff with
  | zero =>
      by_cases htaken : ∃ b₁, Taken card 0xFC b (buff.take 512) b₁
      · obtain ⟨b₁, htaken⟩ := htaken
        exact ⟨b₁, .succ htaken (.zero _ _)⟩
      · rw [writeLoop_not_taken htaken] at h
        exact absurd h (ofNat_succ_ne_zero hk)
  | succ k ih =>
      by_cases htaken : ∃ b₁, Taken card 0xFC b (buff.take 512) b₁
      · obtain ⟨b₁, htaken⟩ := htaken
        rw [writeLoop_taken_succ htaken] at h
        obtain ⟨b', hrest⟩ := ih (by omega) h
        exact ⟨b', .succ htaken hrest⟩
      · rw [writeLoop_not_taken htaken] at h
        exact absurd h (ofNat_succ_ne_zero hk)

/-- **The loop of `disk_write` counts down to 0 exactly with all blocks.** -/
theorem writeLoop_iff {k : ℕ} {buff : List UInt8} {b' : Bus} (hk : k + 1 < 2 ^ 32) :
    writeLoop card k b buff = (0, b') ↔ Written card 0xFC (k + 1) b buff b' := by
  refine ⟨fun h => ?_, writeLoop_written⟩
  obtain ⟨b₁, hwritten⟩ := written_of_writeLoop hk (congrArg Prod.fst h)
  have heq := (writeLoop_written hwritten).symm.trans h
  rwa [(Prod.mk.inj heq).2] at hwritten

/-! ### What was sent -/

/-- The stop commands sent. -/
def stops (log : List Event) : ℕ := log.count (.packet (packet CMD12 0))

/-- The stop tokens sent. -/
def stopTokens (log : List Event) : ℕ := log.count (.token 0xFD)

/-- The data sent. -/
def dataSent (log : List Event) : List UInt8 :=
  log.flatMap fun
    | .data bytes => bytes
    | _ => []

/-- An event of a command: neither a token nor data, and the stop command only if it is that. -/
def IsCommand (cmds : List UInt8) (e : Event) : Prop :=
  e = .select ∨ e = .deselect ∨ ∃ cmd ∈ cmds, ∃ arg, e = .packet (packet cmd arg)

theorem exists_log_command (b : Bus) (cmd : UInt8) (arg : UInt32) :
    ∃ es, (command card b cmd arg).2.log = b.log ++ es ∧ ∀ e ∈ es, IsCommand [cmd] e := by
  have hpacket : IsCommand [cmd] (.packet (packet cmd arg)) :=
    .inr (.inr ⟨cmd, List.mem_singleton_self cmd, arg, rfl⟩)
  have hselect : IsCommand [cmd] .select := .inl rfl
  have hdeselect : IsCommand [cmd] .deselect := .inr (.inl rfl)
  refine ⟨_, log_command b cmd arg, ?_⟩
  split
  · exact List.forall_mem_singleton.2 hpacket
  · split
    · exact List.forall_mem_cons.2
        ⟨hdeselect, List.forall_mem_cons.2 ⟨hselect, List.forall_mem_singleton.2 hpacket⟩⟩
    · exact List.forall_mem_cons.2
        ⟨hdeselect, List.forall_mem_cons.2 ⟨hselect, List.forall_mem_singleton.2 hdeselect⟩⟩

/-- **What a command adds to the log**: its own packet, and those of `CMD55` and the command behind
it for an application. -/
theorem exists_log_sendCmd (b : Bus) (cmd : UInt8) (arg : UInt32) :
    ∃ es, (sendCmd card b cmd arg).2.log = b.log ++ es ∧
      ∀ e ∈ es, IsCommand [cmd, CMD55, cmd &&& 0x7F] e := by
  have hmono : ∀ {cmd' e}, cmd' ∈ [cmd, CMD55, cmd &&& 0x7F] → IsCommand [cmd'] e →
      IsCommand [cmd, CMD55, cmd &&& 0x7F] e := by
    rintro cmd' e hmem (h | h | ⟨c, hc, arg', h⟩)
    · exact .inl h
    · exact .inr (.inl h)
    · obtain rfl := List.mem_singleton.1 hc
      exact .inr (.inr ⟨c, hmem, arg', h⟩)
  rw [sendCmd]
  split
  · obtain ⟨es, hlog, hes⟩ := @exists_log_command card b CMD55 0
    dsimp only
    split
    · exact ⟨es, hlog, fun e he => hmono (by simp) (hes e he)⟩
    · obtain ⟨es', hlog', hes'⟩ := @exists_log_command card
        (command card b CMD55 0).2 (cmd &&& 0x7F) arg
      refine ⟨es ++ es', by rw [hlog', hlog, List.append_assoc], fun e he => ?_⟩
      rcases List.mem_append.1 he with he | he
      · exact hmono (by simp) (hes e he)
      · exact hmono (by simp) (hes' e he)
  · obtain ⟨es, hlog, hes⟩ := @exists_log_command card b cmd arg
    exact ⟨es, hlog, fun e he => hmono (by simp) (hes e he)⟩

/-- A command sends no token and no data. -/
theorem tokens_sendCmd (b : Bus) (cmd : UInt8) (arg : UInt32) :
    stopTokens (sendCmd card b cmd arg).2.log = stopTokens b.log ∧
      dataSent (sendCmd card b cmd arg).2.log = dataSent b.log := by
  obtain ⟨es, hlog, hes⟩ := @exists_log_sendCmd card b cmd arg
  have htoken : es.count (.token 0xFD) = 0 := List.count_eq_zero.2 fun hmem => by
    rcases hes _ hmem with h | h | ⟨c, -, a, h⟩ <;> cases h
  have hdata : dataSent es = [] := List.flatMap_eq_nil_iff.2 fun e he => by
    rcases hes e he with rfl | rfl | ⟨c, -, a, rfl⟩ <;> rfl
  constructor
  · rw [stopTokens, stopTokens, hlog, List.count_append, htoken]
    rfl
  · rw [dataSent] at hdata ⊢
    rw [dataSent, hlog, List.flatMap_append, hdata, List.append_nil]

/-- Only `CMD12` sends the stop command. -/
theorem stops_sendCmd (b : Bus) {cmd : UInt8} (arg : UInt32)
    (hcmd : ∀ c ∈ [cmd, CMD55, cmd &&& 0x7F], 0x40 ||| c ≠ 0x40 ||| CMD12) :
    stops (sendCmd card b cmd arg).2.log = stops b.log := by
  obtain ⟨es, hlog, hes⟩ := @exists_log_sendCmd card b cmd arg
  have hstop : es.count (.packet (packet CMD12 0)) = 0 := List.count_eq_zero.2 fun hmem => by
    rcases hes _ hmem with h | h | ⟨c, hc, a, h⟩
    · cases h
    · cases h
    · have hpacket : packet CMD12 0 = packet c a := Event.packet.inj h
      exact hcmd c hc (List.cons.inj hpacket).1.symm
  rw [stops, stops, hlog, List.count_append, hstop]
  rfl

/-- And `CMD12` sends it once. -/
theorem stops_stop (b : Bus) : stops (sendCmd card b CMD12 0).2.log = stops b.log + 1 := by
  rw [sendCmd, if_neg (by decide), stops, log_command, if_pos rfl, List.count_append]
  rfl

/-- Blocks are sent without a stop token. -/
theorem stopTokens_xmitDatablock (b : Bus) (block : List UInt8) {token : UInt8}
    (hfd : token ≠ 0xFD) :
    stopTokens (xmitDatablock card b block token).2.log = stopTokens b.log := by
  by_cases h : ∃ n', Ready card b n'
  · obtain ⟨n', h⟩ := h
    have hne : Event.token token ≠ .token 0xFD := fun heq => hfd (Event.token.inj heq)
    rw [xmitDatablock_ready h hfd, stopTokens, Bus.sent, List.count_append, List.count_append,
      List.count_singleton, List.count_singleton]
    simp [hne, stopTokens]
  · obtain ⟨n', heq⟩ := xmitDatablock_not_ready h block token
    rw [heq]

theorem stopTokens_writeLoop (k : ℕ) (b : Bus) (buff : List UInt8) :
    stopTokens (writeLoop card k b buff).2.log = stopTokens b.log := by
  have hstep := @stopTokens_xmitDatablock card b (buff.take 512) 0xFC
    (by decide)
  induction k generalizing b buff with
  | zero =>
      by_cases htaken : ∃ b₁, Taken card 0xFC b (buff.take 512) b₁
      · obtain ⟨b₁, htaken⟩ := htaken
        rw [(xmitDatablock_iff (by decide)).2 htaken] at hstep
        rw [writeLoop_taken_zero htaken, hstep]
      · rw [writeLoop_not_taken htaken, hstep]
  | succ k ih =>
      by_cases htaken : ∃ b₁, Taken card 0xFC b (buff.take 512) b₁
      · obtain ⟨b₁, htaken⟩ := htaken
        rw [(xmitDatablock_iff (by decide)).2 htaken] at hstep
        rw [writeLoop_taken_succ htaken, ih b₁ (buff.drop 512)
          (stopTokens_xmitDatablock b₁ ((buff.drop 512).take 512) (by decide)), hstep]
      · rw [writeLoop_not_taken htaken, hstep]

/-- **The blocks that are taken are those of the buffer**, in order. -/
theorem Written.dataSent {token : UInt8} {k : ℕ} {buff : List UInt8} {b' : Bus}
    (h : Written card token k b buff b') :
    Sd.dataSent b'.log = Sd.dataSent b.log ++ buff.take (k * 512) := by
  induction h with
  | zero b buff => rw [Nat.zero_mul, List.take_zero, List.append_nil]
  | @succ k b b₁ b' buff htaken _ ih =>
      obtain ⟨n', -, -, rfl⟩ := htaken
      have hlog : Sd.dataSent (b.log ++ [.token token] ++ [.data (buff.take 512)]) =
          Sd.dataSent b.log ++ buff.take 512 := by
        simp [Sd.dataSent, List.flatMap_append]
      have hsum : (k + 1) * 512 = 512 + k * 512 := by omega
      rw [ih, hlog, List.append_assoc, hsum, List.take_add]

/-- The blocks that are announced have 512 bytes each. -/
theorem Received.length {k : ℕ} {bytes : List UInt8} {b' : Bus}
    (h : Received card k b bytes b') : bytes.length = k * 512 := by
  induction h with
  | zero b => rw [List.length_nil, Nat.zero_mul]
  | succ hann _ ih =>
      rw [List.length_append, ih, payload, List.length_map, List.length_range]
      omega

/-- And they are determined. -/
theorem Received.bytes_eq {k : ℕ} {bytes bytes' : List UInt8} {b' b'' : Bus}
    (h : Received card k b bytes b') (h' : Received card k b bytes' b'') : bytes = bytes' := by
  induction h generalizing bytes' b'' with
  | zero b =>
      cases h'
      rfl
  | @succ k n' b b' bytes hann _ ih =>
      cases h' with
      | @succ _ n'' _ _ bytes' hann' hrest' =>
          have hsame := (rcvrDatablock_announced hann 0).symm.trans (rcvrDatablock_announced hann' 0)
          have hn := congrArg (fun r : Bool × List UInt8 × Bus => r.2.2.n) hsame
          dsimp only at hn
          obtain rfl : n' = n'' := by omega
          rw [ih hrest']

/-! ### All or reported -/

theorem toNat_sub_one {count : UInt32} (h : count ≠ 0) : count.toNat = (count - 1).toNat + 1 := by
  have hpos : 0 < count.toNat := by
    refine Nat.pos_of_ne_zero fun hz => h ?_
    exact UInt32.toNat_inj.1 hz
  have hle : (1 : UInt32) ≤ count := hpos
  have hone : (1 : UInt32).toNat = 1 := rfl
  rw [UInt32.toNat_sub_of_le _ _ hle, hone]
  omega

/-- **What the result of `disk_read` says**: it is `RES_OK` exactly if the command was accepted and
every block announced, and then the buffer holds their bytes; several blocks are stopped once, but
not if the command was refused; and the card is deselected. -/
structure ReadReported (card : Card) (d : Driver) (b : Bus) (sector count : UInt32) : Prop where
  result : (diskRead card d b sector count).1 = .ok ↔
    ∃ b₁, Accepted card b (readCmd count) (address d sector) b₁ ∧
      ∃ bytes b', Received card count.toNat b₁ bytes b'
  buff : ∀ {b₁ b' : Bus} {bytes : List UInt8},
    Accepted card b (readCmd count) (address d sector) b₁ →
      Received card count.toNat b₁ bytes b' → (diskRead card d b sector count).2.1 = bytes
  stopped : count ≠ 1 → (∃ b₁, Accepted card b CMD18 (address d sector) b₁) →
    stops (diskRead card d b sector count).2.2.log = 1
  not_stopped : count = 1 ∨ (¬∃ b₁, Accepted card b CMD18 (address d sector) b₁) →
    stops (diskRead card d b sector count).2.2.log = 0
  deselected : (diskRead card d b sector count).2.2.selected = false

/-- **What the result of `disk_write` says**: it is `RES_OK` exactly if the command and every block
were accepted, and several blocks could be stopped, and then the bytes of the buffer were sent;
several blocks are stopped once, if the card gets ready for it, but not if the command was refused;
and the card is deselected. -/
structure WriteReported (card : Card) (d : Driver) (b : Bus) (buff : List UInt8)
    (sector count : UInt32) : Prop where
  result : (diskWrite card d b buff sector count).1 = .ok ↔
    ∃ b₁, Accepted card (announce card d b count) (writeOp count) (address d sector) b₁ ∧
      ∃ b', Written card (if count = 1 then 0xFE else 0xFC) count.toNat b₁ buff b' ∧
        (count ≠ 1 → ∃ n', Ready card b' n')
  sent : (diskWrite card d b buff sector count).1 = .ok →
    dataSent (diskWrite card d b buff sector count).2.log = buff.take (count.toNat * 512)
  stopped : count ≠ 1 → ∀ b₁,
    Accepted card (announce card d b count) CMD25 (address d sector) b₁ →
      let b₂ := (writeLoop card (count - 1).toNat b₁ buff).2
      ((∃ n', Ready card b₂ n') →
          stopTokens (diskWrite card d b buff sector count).2.log = 1) ∧
        ((¬∃ n', Ready card b₂ n') →
          stopTokens (diskWrite card d b buff sector count).2.log = 0)
  not_stopped : (count = 1 ∨
      ¬∃ b₁, Accepted card (announce card d b count) CMD25 (address d sector) b₁) →
    stopTokens (diskWrite card d b buff sector count).2.log = 0
  deselected : (diskWrite card d b buff sector count).2.selected = false

theorem readCmd_ne_stop (count : UInt32) : readCmd count &&& 0x7F ≠ CMD12 := by
  rw [readCmd]
  split <;> decide

theorem writeOp_ne_stop (count : UInt32) : writeOp count &&& 0x7F ≠ CMD12 := by
  rw [writeOp]
  split <;> decide

/-- The write command is sent behind the announcement. -/
theorem writeCmd_eq (d : Driver) (b : Bus) (sector count : UInt32) :
    writeCmd card d b sector count =
      sendCmd card (announce card d b count) (writeOp count) (address d sector) := by
  rw [writeCmd, writeOp, announce]
  by_cases hone : count = 1
  · rw [if_pos hone, if_pos hone, if_neg fun h => h.1 hone]
  · rw [if_neg hone, if_neg hone]
    by_cases hsdc : d.cardType &&& CT_SDC ≠ 0
    · rw [if_pos hsdc, if_pos ⟨hone, hsdc⟩]
    · rw [if_neg hsdc, if_neg fun h => hsdc h.2]

theorem writeOp_many {count : UInt32} (hone : count ≠ 1) : writeOp count = CMD25 := if_neg hone

/-- What follows an accepted write command starts where that has come to. -/
theorem exists_accepted_write {d : Driver} {sector count : UInt32} {p : Bus → Prop} :
    (∃ b₁, Accepted card (announce card d b count) (writeOp count) (address d sector) b₁ ∧ p b₁) ↔
      (writeCmd card d b sector count).1 = 0 ∧ p (writeCmd card d b sector count).2 := by
  rw [exists_accepted (writeOp_ne_stop count), writeCmd_eq]

/-- A write command is accepted exactly if its result is 0. -/
theorem accepted_write_iff {d : Driver} {sector count : UInt32} :
    (∃ b₁, Accepted card (announce card d b count) (writeOp count) (address d sector) b₁) ↔
      (writeCmd card d b sector count).1 = 0 := by
  have h := @exists_accepted_write card b d sector count fun _ => True
  simpa only [and_true] using h

/-- A command is accepted exactly if its result is 0. -/
theorem accepted_iff {cmd : UInt8} {arg : UInt32} (hcmd : cmd &&& 0x7F ≠ CMD12) :
    (∃ b₁, Accepted card b cmd arg b₁) ↔ (sendCmd card b cmd arg).1 = 0 := by
  have h := @exists_accepted card b cmd arg (fun _ => True) hcmd
  simpa only [and_true] using h

theorem ready_stat {d : Driver} (hd : d.stat = 0) :
    ¬d.stat &&& STA_NOINIT ≠ 0 ∧ ¬d.stat &&& STA_PROTECT ≠ 0 := by
  rw [hd]
  decide

/-- A read whose command is refused. -/
theorem diskRead_refused {d : Driver} {sector count : UInt32} (hd : d.stat = 0)
    (hcount : count ≠ 0) (h : (sendCmd card b (readCmd count) (address d sector)).1 ≠ 0) :
    diskRead card d b sector count =
      (.error, [], deselectCard (sendCmd card b (readCmd count) (address d sector)).2) := by
  rw [diskRead, if_neg (ready_stat hd).1]
  by_cases hone : count = 1
  · rw [readCmd, if_pos hone] at h ⊢
    rw [if_pos hone, if_neg h]
    dsimp only
    rw [if_pos hcount]
  · rw [readCmd, if_neg hone] at h ⊢
    rw [if_neg hone, if_neg h]
    dsimp only
    rw [if_pos hcount]

/-- A read of one sector. -/
theorem diskRead_one {d : Driver} {sector : UInt32} (hd : d.stat = 0)
    (h : (sendCmd card b CMD17 (address d sector)).1 = 0) :
    diskRead card d b sector 1 =
      let t := rcvrDatablock card (sendCmd card b CMD17 (address d sector)).2 512
      (if t.1 then .ok else .error, t.2.1, deselectCard t.2.2) := by
  rw [diskRead, if_neg (ready_stat hd).1, if_pos rfl, if_pos h]
  dsimp only
  cases (rcvrDatablock card (sendCmd card b CMD17 (address d sector)).2 512).1 <;> rfl

/-- A read of several sectors. -/
theorem diskRead_many {d : Driver} {sector count : UInt32} (hd : d.stat = 0) (hone : count ≠ 1)
    (h : (sendCmd card b CMD18 (address d sector)).1 = 0) :
    diskRead card d b sector count =
      let t := readLoop card (count - 1).toNat (sendCmd card b CMD18 (address d sector)).2
      (if t.1 ≠ 0 then .error else .ok, t.2.1, deselectCard (sendCmd card t.2.2 CMD12 0).2) := by
  rw [diskRead, if_neg (ready_stat hd).1, if_neg hone, if_pos h]

theorem stops_deselectCard (b : Bus) : stops (deselectCard b).log = stops b.log := by
  rw [stops, deselectCard, List.count_append]
  rfl

/-- The read commands do not stop anything. -/
theorem stops_readCmd (hlog : b.log = []) (d : Driver) (sector count : UInt32) :
    stops (sendCmd card b (readCmd count) (address d sector)).2.log = 0 := by
  have hcmd : ∀ c ∈ [readCmd count, CMD55, readCmd count &&& 0x7F],
      0x40 ||| c ≠ 0x40 ||| CMD12 := by
    intro c hc
    have hread : readCmd count = CMD17 ∨ readCmd count = CMD18 := by
      rw [readCmd]
      split
      · exact .inl rfl
      · exact .inr rfl
    simp only [List.mem_cons, List.not_mem_nil, or_false] at hc
    rcases hread with hread | hread
    · rw [hread] at hc
      rcases hc with rfl | rfl | rfl <;> decide
    · rw [hread] at hc
      rcases hc with rfl | rfl | rfl <;> decide
  rw [stops_sendCmd b _ hcmd, hlog]
  rfl

theorem read_reported_refused {d : Driver} {sector count : UInt32} (hd : d.stat = 0)
    (hcount : count ≠ 0) (hlog : b.log = [])
    (h : (sendCmd card b (readCmd count) (address d sector)).1 ≠ 0) :
    ReadReported card d b sector count := by
  have hread := diskRead_refused hd hcount h
  constructor
  · rw [hread, exists_accepted (readCmd_ne_stop count)]
    exact iff_of_false (by simp) (fun hok => h hok.1)
  · intro b₁ b' bytes hacc _
    exact absurd ((accepted_iff (readCmd_ne_stop count)).1 ⟨b₁, hacc⟩) h
  · intro hone hacc
    rw [readCmd, if_neg hone] at h
    exact absurd ((accepted_iff (by decide)).1 hacc) h
  · intro _
    rw [hread, stops_deselectCard]
    exact stops_readCmd hlog d sector count
  · rw [hread]
    rfl

theorem read_reported_one {d : Driver} {sector : UInt32} (hd : d.stat = 0) (hlog : b.log = [])
    (h : (sendCmd card b CMD17 (address d sector)).1 = 0) : ReadReported card d b sector 1 := by
  have hread := diskRead_one hd h
  have hstops : stops (sendCmd card b CMD17 (address d sector)).2.log = 0 :=
    stops_readCmd hlog d sector 1
  have hnat : (1 : UInt32).toNat = 0 + 1 := rfl
  by_cases hann : ∃ n', Announced card (sendCmd card b CMD17 (address d sector)).2 n'
  · obtain ⟨n', hann⟩ := hann
    have hrecv := Received.succ hann (.zero _)
    rw [List.append_nil] at hrecv
    rw [rcvrDatablock_announced hann] at hread
    constructor
    · rw [hread, exists_accepted (readCmd_ne_stop 1)]
      exact iff_of_true rfl ⟨h, _, _, hrecv⟩
    · intro b₁ b' bytes hacc hbytes
      rw [readCmd, if_pos rfl] at hacc
      rw [← hacc.bus_eq (by decide), hnat] at hbytes
      rw [hread]
      dsimp only
      exact hrecv.bytes_eq hbytes
    · exact fun hone => absurd rfl hone
    · intro _
      rw [hread, stops_deselectCard]
      exact hstops
    · rw [hread]
      rfl
  · obtain ⟨n', hnone⟩ := rcvrDatablock_not_announced hann 512
    rw [hnone] at hread
    constructor
    · rw [hread, exists_accepted (readCmd_ne_stop 1)]
      refine iff_of_false (by simp) ?_
      rintro ⟨-, bytes, b', hrecv⟩
      cases hrecv with
      | succ hfirst _ => exact hann ⟨_, hfirst⟩
    · intro b₁ b' bytes hacc hbytes
      rw [readCmd, if_pos rfl] at hacc
      rw [← hacc.bus_eq (by decide), hnat] at hbytes
      cases hbytes with
      | succ hfirst _ => exact absurd ⟨_, hfirst⟩ hann
    · exact fun hone => absurd rfl hone
    · intro _
      rw [hread, stops_deselectCard]
      exact hstops
    · rw [hread]
      rfl

theorem read_reported_many {d : Driver} {sector count : UInt32} (hd : d.stat = 0)
    (hcount : count ≠ 0) (hone : count ≠ 1) (hlog : b.log = [])
    (h : (sendCmd card b CMD18 (address d sector)).1 = 0) :
    ReadReported card d b sector count := by
  have hread := diskRead_many hd hone h
  have hcmd : readCmd count = CMD18 := if_neg hone
  have hnat := toNat_sub_one hcount
  have hlt : (count - 1).toNat + 1 < 2 ^ 32 := by
    rw [← hnat]
    exact count.toNat_lt
  have hstops := @stops_readCmd card _ hlog d sector count
  rw [hcmd] at hstops
  have hstop : stops (diskRead card d b sector count).2.2.log = 1 := by
    rw [hread, stops_deselectCard, stops_stop, log_readLoop, hstops]
  have hok : (diskRead card d b sector count).1 = .ok ↔
      (readLoop card (count - 1).toNat (sendCmd card b CMD18 (address d sector)).2).1 = 0 := by
    rw [hread]
    by_cases hz :
        (readLoop card (count - 1).toNat (sendCmd card b CMD18 (address d sector)).2).1 = 0
    · simp [hz]
    · simp [hz]
  constructor
  · rw [hok, hcmd, exists_accepted (by decide), hnat]
    constructor
    · intro hz
      exact ⟨h, received_of_readLoop hlt hz⟩
    · rintro ⟨-, bytes, b', hrecv⟩
      rw [readLoop_received hrecv]
  · intro b₁ b' bytes hacc hbytes
    rw [hcmd] at hacc
    have hbus := hacc.bus_eq (by decide)
    rw [← hbus, hnat] at hbytes
    rw [hread]
    dsimp only
    rw [readLoop_received hbytes]
  · exact fun _ _ => hstop
  · rintro (hone' | hres)
    · exact absurd hone' hone
    · exact absurd ((accepted_iff (by decide)).2 h) hres
  · rw [hread]
    rfl

/-- **Reading is all-or-reported.** -/
theorem read_reported {d : Driver} (hd : d.stat = 0) {sector count : UInt32} (hcount : count ≠ 0)
    (hlog : b.log = []) : ReadReported card d b sector count := by
  by_cases hres : (sendCmd card b (readCmd count) (address d sector)).1 = 0
  · by_cases hone : count = 1
    · subst hone
      exact read_reported_one hd hlog hres
    · rw [readCmd, if_neg hone] at hres
      exact read_reported_many hd hcount hone hlog hres
  · exact read_reported_refused hd hcount hlog hres

/-! ### Writing -/

/-- A write whose command is refused. -/
theorem diskWrite_refused {d : Driver} {sector count : UInt32} (hd : d.stat = 0)
    (hcount : count ≠ 0) (buff : List UInt8) (h : (writeCmd card d b sector count).1 ≠ 0) :
    diskWrite card d b buff sector count =
      (.error, deselectCard (writeCmd card d b sector count).2) := by
  rw [diskWrite, if_neg (ready_stat hd).1, if_neg (ready_stat hd).2]
  dsimp only
  rw [if_neg h, if_pos hcount]

/-- A write of one sector. -/
theorem diskWrite_one {d : Driver} {sector : UInt32} (hd : d.stat = 0) (buff : List UInt8)
    (h : (writeCmd card d b sector 1).1 = 0) :
    diskWrite card d b buff sector 1 =
      let t := xmitDatablock card (writeCmd card d b sector 1).2 (buff.take 512) 0xFE
      (if t.1 then .ok else .error, deselectCard t.2) := by
  rw [diskWrite, if_neg (ready_stat hd).1, if_neg (ready_stat hd).2]
  dsimp only
  rw [if_pos h, if_pos rfl]
  cases (xmitDatablock card (writeCmd card d b sector 1).2 (buff.take 512) 0xFE).1 <;> rfl

/-- A write of several sectors. -/
theorem diskWrite_many {d : Driver} {sector count : UInt32} (hd : d.stat = 0) (hone : count ≠ 1)
    (buff : List UInt8) (h : (writeCmd card d b sector count).1 = 0) :
    diskWrite card d b buff sector count =
      let t := writeLoop card (count - 1).toNat (writeCmd card d b sector count).2 buff
      let stop := xmitDatablock card t.2 [] 0xFD
      (if (if stop.1 then t.1 else 1) ≠ 0 then .error else .ok, deselectCard stop.2) := by
  rw [diskWrite, if_neg (ready_stat hd).1, if_neg (ready_stat hd).2]
  dsimp only
  rw [if_pos h, if_neg hone]

theorem tokens_deselectCard (b : Bus) :
    stopTokens (deselectCard b).log = stopTokens b.log ∧
      dataSent (deselectCard b).log = dataSent b.log := by
  rw [deselectCard, stopTokens, dataSent, List.count_append, List.flatMap_append]
  exact ⟨rfl, List.append_nil _⟩

/-- The write commands send neither tokens nor data. -/
theorem tokens_writeCmd (hlog : b.log = []) (d : Driver) (sector count : UInt32) :
    stopTokens (writeCmd card d b sector count).2.log = 0 ∧
      dataSent (writeCmd card d b sector count).2.log = [] := by
  have hstart : stopTokens b.log = 0 ∧ dataSent b.log = [] := by
    rw [hlog]
    exact ⟨rfl, rfl⟩
  rw [writeCmd]
  split
  · rw [(tokens_sendCmd b _ _).1, (tokens_sendCmd b _ _).2]
    exact hstart
  · dsimp only
    split
    · rw [(tokens_sendCmd _ _ _).1, (tokens_sendCmd _ _ _).2, (tokens_sendCmd b _ _).1,
        (tokens_sendCmd b _ _).2]
      exact hstart
    · rw [(tokens_sendCmd b _ _).1, (tokens_sendCmd b _ _).2]
      exact hstart

theorem write_reported_refused {d : Driver} {sector count : UInt32} (hd : d.stat = 0)
    (hcount : count ≠ 0) (hlog : b.log = []) (buff : List UInt8)
    (h : (writeCmd card d b sector count).1 ≠ 0) :
    WriteReported card d b buff sector count := by
  have hwrite := diskWrite_refused hd hcount buff h
  constructor
  · rw [hwrite, exists_accepted_write]
    exact iff_of_false (by simp) (fun hok => h hok.1)
  · rw [hwrite]
    intro hok
    cases hok
  · intro hone b₁ hacc
    rw [← writeOp_many hone] at hacc
    exact absurd (accepted_write_iff.1 ⟨b₁, hacc⟩) h
  · intro _
    rw [hwrite, (tokens_deselectCard _).1]
    exact (tokens_writeCmd hlog d sector count).1
  · rw [hwrite]
    rfl

theorem write_reported_one {d : Driver} {sector : UInt32} (hd : d.stat = 0) (hlog : b.log = [])
    (buff : List UInt8) (h : (writeCmd card d b sector 1).1 = 0) :
    WriteReported card d b buff sector 1 := by
  have hwrite := diskWrite_one hd buff h
  have htokens := @tokens_writeCmd card _ hlog d sector 1
  have hstop := @stopTokens_xmitDatablock card (writeCmd card d b sector 1).2 (buff.take 512) 0xFE
    (by decide)
  have hnot : stopTokens (diskWrite card d b buff sector 1).2.log = 0 := by
    rw [hwrite, (tokens_deselectCard _).1, hstop, htokens.1]
  by_cases htaken : ∃ b', Taken card 0xFE (writeCmd card d b sector 1).2 (buff.take 512) b'
  · obtain ⟨b', htaken⟩ := htaken
    have hwritten := Written.succ htaken (.zero b' (buff.drop 512))
    rw [(xmitDatablock_iff (by decide)).2 htaken] at hwrite
    constructor
    · rw [hwrite, exists_accepted_write]
      exact iff_of_true rfl ⟨h, b', hwritten, fun hone => absurd rfl hone⟩
    · rw [hwrite]
      intro _
      rw [(tokens_deselectCard _).2, hwritten.dataSent, htokens.2, List.nil_append]
      rfl
    · exact fun hone => absurd rfl hone
    · exact fun _ => hnot
    · rw [hwrite]
      rfl
  · dsimp only at hwrite
    rw [xmitDatablock_not_taken (by decide) htaken] at hwrite
    constructor
    · rw [hwrite, exists_accepted_write]
      refine iff_of_false (by simp) ?_
      rintro ⟨-, b', hwritten, -⟩
      cases hwritten with
      | succ hfirst _ => exact htaken ⟨_, hfirst⟩
    · rw [hwrite]
      intro hok
      cases hok
    · exact fun hone => absurd rfl hone
    · exact fun _ => hnot
    · rw [hwrite]
      rfl

section

variable {d : Driver} {sector count : UInt32} {buff : List UInt8}

/-- The bus on which several blocks are sent is that of the command that was accepted. -/
theorem writeCmd_bus (hone : count ≠ 1) {b₁ : Bus}
    (hacc : Accepted card (announce card d b count) CMD25 (address d sector) b₁) :
    (writeCmd card d b sector count).2 = b₁ := by
  rw [← writeOp_many hone] at hacc
  rw [writeCmd_eq]
  exact hacc.bus_eq (writeOp_ne_stop count)

/-- The loop for several blocks. -/
theorem writeBlocks_iff (hcount : count ≠ 0) {b₁ b' : Bus} :
    writeLoop card (count - 1).toNat b₁ buff = (0, b') ↔
      Written card 0xFC count.toNat b₁ buff b' := by
  have hnat := toNat_sub_one hcount
  have hlt := count.toNat_lt
  rw [hnat] at hlt ⊢
  exact writeLoop_iff hlt

/-- Several blocks can be stopped. -/
theorem write_reported_stopped (hd : d.stat = 0) (hcount : count ≠ 0) (hone : count ≠ 1)
    (hlog : b.log = []) (h : (writeCmd card d b sector count).1 = 0) {n' : ℕ}
    (hready : Ready card (writeLoop card (count - 1).toNat
      (writeCmd card d b sector count).2 buff).2 n') :
    WriteReported card d b buff sector count := by
  have hwrite := diskWrite_many hd hone buff h
  have htokens := @tokens_writeCmd card _ hlog d sector count
  have hloop := @stopTokens_writeLoop card (count - 1).toNat (writeCmd card d b sector count).2 buff
  have hiff := fun b' => @writeBlocks_iff card count buff hcount
    (writeCmd card d b sector count).2 b'
  have haccepted := accepted_write_iff.2 h
  rw [writeOp_many hone] at haccepted
  rw [htokens.1] at hloop
  generalize hb₁ : writeLoop card (count - 1).toNat (writeCmd card d b sector count).2 buff = t
    at hwrite hloop hiff hready
  dsimp only at hwrite
  rw [xmitDatablock_stop hready, if_pos rfl] at hwrite
  have hok : (diskWrite card d b buff sector count).1 = .ok ↔ t.1 = 0 := by
    rw [hwrite]
    by_cases hz : t.1 = 0
    · simp [hz]
    · simp [hz]
  constructor
  · rw [hok, if_neg hone, exists_accepted_write]
    constructor
    · intro hz
      exact ⟨h, t.2, (hiff t.2).1 (Prod.ext hz rfl), fun _ => ⟨n', hready⟩⟩
    · rintro ⟨-, b', hwritten, -⟩
      rw [(hiff b').2 hwritten]
  · intro hz
    have hsent := ((hiff t.2).1 (Prod.ext (hok.1 hz) rfl)).dataSent
    rw [htokens.2, List.nil_append, dataSent] at hsent
    rw [hwrite, (tokens_deselectCard _).2, dataSent, List.flatMap_append, hsent]
    exact List.append_nil _
  · intro _ b₁ hacc
    rw [← writeCmd_bus hone hacc, hb₁]
    refine ⟨fun _ => ?_, fun hnot => absurd ⟨n', hready⟩ hnot⟩
    rw [stopTokens] at hloop
    rw [hwrite, (tokens_deselectCard _).1, stopTokens, List.count_append, hloop]
    rfl
  · rintro (hone' | hres)
    · exact absurd hone' hone
    · exact absurd haccepted hres
  · rw [hwrite]
    rfl

/-- Several blocks after which the card does not get ready. -/
theorem write_reported_not_ready (hd : d.stat = 0) (hcount : count ≠ 0) (hone : count ≠ 1)
    (hlog : b.log = []) (h : (writeCmd card d b sector count).1 = 0)
    (hready : ¬∃ n', Ready card (writeLoop card (count - 1).toNat
      (writeCmd card d b sector count).2 buff).2 n') :
    WriteReported card d b buff sector count := by
  have hwrite := diskWrite_many hd hone buff h
  have hloop := @stopTokens_writeLoop card (count - 1).toNat (writeCmd card d b sector count).2 buff
  have haccepted := accepted_write_iff.2 h
  rw [writeOp_many hone] at haccepted
  rw [(tokens_writeCmd hlog d sector count).1] at hloop
  obtain ⟨n', hfail⟩ := xmitDatablock_not_ready hready [] 0xFD
  dsimp only at hwrite
  rw [hfail] at hwrite
  have herror : (diskWrite card d b buff sector count).1 = .error := by
    rw [hwrite]
    rfl
  constructor
  · rw [herror, if_neg hone, exists_accepted_write]
    refine iff_of_false (by simp) ?_
    rintro ⟨-, b', hwritten, hstop⟩
    rw [(writeBlocks_iff hcount).2 hwritten] at hready
    exact hready (hstop hone)
  · intro hz
    rw [herror] at hz
    cases hz
  · intro _ b₁ hacc
    rw [← writeCmd_bus hone hacc, hwrite, (tokens_deselectCard _).1]
    exact ⟨fun hyes => absurd hyes hready, fun _ => hloop⟩
  · rintro (hone' | hres)
    · exact absurd hone' hone
    · exact absurd haccepted hres
  · rw [hwrite]
    rfl

theorem write_reported_many (hd : d.stat = 0) (hcount : count ≠ 0) (hone : count ≠ 1)
    (hlog : b.log = []) (h : (writeCmd card d b sector count).1 = 0) :
    WriteReported card d b buff sector count := by
  by_cases hready : ∃ n', Ready card (writeLoop card (count - 1).toNat
      (writeCmd card d b sector count).2 buff).2 n'
  · obtain ⟨n', hready⟩ := hready
    exact write_reported_stopped hd hcount hone hlog h hready
  · exact write_reported_not_ready hd hcount hone hlog h hready

end

/-- **Writing is all-or-reported.** -/
theorem write_reported {d : Driver} (hd : d.stat = 0) {sector count : UInt32} (hcount : count ≠ 0)
    (hlog : b.log = []) (buff : List UInt8) : WriteReported card d b buff sector count := by
  by_cases hres : (writeCmd card d b sector count).1 = 0
  · by_cases hone : count = 1
    · subst hone
      exact write_reported_one hd hlog buff hres
    · exact write_reported_many hd hcount hone hlog hres
  · exact write_reported_refused hd hcount hlog buff hres

/-- **Sector transfers are all-or-reported**, for every card, at any time, and any number of
sectors. -/
theorem transfer_reported (card : Card) (n : ℕ) (selected : Bool) {d : Driver} (hd : d.stat = 0)
    (sector : UInt32) {count : UInt32} (hcount : count ≠ 0) (buff : List UInt8) :
    ReadReported card d ⟨n, selected, []⟩ sector count ∧
      WriteReported card d ⟨n, selected, []⟩ buff sector count :=
  ⟨read_reported hd hcount rfl, write_reported hd hcount rfl buff⟩

/-! ### A card that accepts -/

theorem announced_at_once (h : card.reply (b.n + 1) = 0xFE) : Announced card b (b.n + 2) :=
  ⟨0, fun i hi => absurd hi (Nat.not_lt_zero i), h, rfl⟩

theorem ready_at_once (h : card.reply (b.n + 1) = 0xFF) : Ready card b (b.n + 2) :=
  ⟨0, fun i hi => absurd hi (Nat.not_lt_zero i), h, rfl⟩

theorem taken_at_once {token : UInt8} {block : List UInt8} {n k : ℕ} (hn : b.n = n)
    (hlen : block.length = k) (h : card.reply (n + 1) = 0xFF)
    (hresp : card.reply (n + (k + 5)) &&& 0x1F = 0x05) :
    Taken card token b block
      ⟨n + (k + 6), b.selected, b.log ++ [.token token] ++ [.data block]⟩ := by
  subst hn
  have hstep : b.n + 2 + 1 + block.length + 2 = b.n + (k + 5) := by omega
  refine ⟨b.n + 2, ready_at_once h, ?_, ?_⟩
  · rw [hstep]
    exact hresp
  · rw [hstep]
    rfl

/-- A card of version 1 that is always ready, accepts what it is sent at once, announces three
blocks to whoever reads from the step 0 on, and takes three from whoever writes. -/
def busyCard : Card where
  reply n :=
    if n = 10 ∨ n = 21 ∨ n = 32 then 0x00
    else if n = 12 ∨ n = 528 ∨ n = 1044 then 0xFE
    else if n = 550 ∨ n = 1068 ∨ n = 1586 then 0x05
    else 0xFF
  clock := oldCard.clock

/-- The bytes of its three blocks. -/
def busyBytes : List UInt8 :=
  payload busyCard 13 512 ++ (payload busyCard 529 512 ++ (payload busyCard 1045 512 ++ []))

/-- They are what is read from it. -/
theorem busyCard_received :
    ∃ b₁ b', Accepted busyCard ⟨0, false, []⟩ CMD18 3584 b₁ ∧
      Received busyCard 3 b₁ busyBytes b' := by
  have hcmd : sendCmd busyCard ⟨0, false, []⟩ CMD18 3584 =
      (0, Bus.after ⟨0, false, []⟩ CMD18 3584) :=
    sendCmd_at_once rfl (by decide) rfl rfl rfl
  have h₁ : Announced busyCard (Bus.after ⟨0, false, []⟩ CMD18 3584) 13 := announced_at_once rfl
  have h₂ : Announced busyCard { Bus.after ⟨0, false, []⟩ CMD18 3584 with n := 527 } 529 :=
    announced_at_once rfl
  have h₃ : Announced busyCard { Bus.after ⟨0, false, []⟩ CMD18 3584 with n := 1043 } 1045 :=
    announced_at_once rfl
  exact ⟨_, _, (sendCmd_accepted_iff (by decide)).1 hcmd,
    .succ h₁ (.succ h₂ (.succ h₃ (.zero _)))⟩

/-- And it takes three blocks. -/
theorem busyCard_written {buff : List UInt8} (hlen : buff.length = 1536) :
    ∃ b₁ b' n', Accepted busyCard (announce busyCard ⟨0, CT_SD1⟩ ⟨0, false, []⟩ 3) CMD25 3584 b₁ ∧
      Written busyCard 0xFC 3 b₁ buff b' ∧ Ready busyCard b' n' := by
  have hacmd : sendCmd busyCard ⟨0, false, []⟩ ACMD23 3 =
      (0, (Bus.after ⟨0, false, []⟩ CMD55 0).after (ACMD23 &&& 0x7F) 3) :=
    @sendCmd_acmd_at_once busyCard _ _ _ 0 _ (by decide) (by decide) rfl rfl (by decide) rfl rfl
      rfl rfl
  have hann : announce busyCard ⟨0, CT_SD1⟩ ⟨0, false, []⟩ 3 =
      (Bus.after ⟨0, false, []⟩ CMD55 0).after (ACMD23 &&& 0x7F) 3 := by
    rw [announce, if_pos (by decide), hacmd]
  rw [hann]
  have hcmd : sendCmd busyCard ((Bus.after ⟨0, false, []⟩ CMD55 0).after (ACMD23 &&& 0x7F) 3)
      CMD25 3584 =
      (0, ((Bus.after ⟨0, false, []⟩ CMD55 0).after (ACMD23 &&& 0x7F) 3).after CMD25 3584) :=
    sendCmd_at_once rfl (by decide) rfl rfl rfl
  have hblock : ∀ {block : List UInt8}, 512 ≤ block.length → (block.take 512).length = 512 := by
    intro block h
    rw [List.length_take, Nat.min_eq_left h]
  have hdrop : (buff.drop 512).length = 1024 := by rw [List.length_drop, hlen]
  have hdrop' : ((buff.drop 512).drop 512).length = 512 := by rw [List.length_drop, hdrop]
  have h₁ := fun w (hn : Bus.n w = 33) => @taken_at_once busyCard w 0xFC (buff.take 512) 33 512 hn
    (hblock (by omega)) (by decide) (by decide)
  have h₂ := fun w (hn : Bus.n w = 551) => @taken_at_once busyCard w 0xFC
    ((buff.drop 512).take 512) 551 512 hn (hblock (by omega)) (by decide) (by decide)
  have h₃ := fun w (hn : Bus.n w = 1069) => @taken_at_once busyCard w 0xFC
    (((buff.drop 512).drop 512).take 512) 1069 512 hn (hblock (by omega)) (by decide) (by decide)
  exact ⟨_, _, _, (sendCmd_accepted_iff (by decide)).1 hcmd,
    .succ (h₁ _ rfl) (.succ (h₂ _ rfl) (.succ (h₃ _ rfl) (.zero _ _))),
    ready_at_once (show busyCard.reply (1587 + 1) = 0xFF by decide)⟩

/-- **Three sectors are read from it and three are written.** -/
theorem transfer_reported_busyCard :
    ∃ r w : Bus, diskRead busyCard ⟨0, CT_SD1⟩ ⟨0, false, []⟩ 7 3 = (.ok, busyBytes, r) ∧
      diskWrite busyCard ⟨0, CT_SD1⟩ ⟨0, false, []⟩ (List.replicate 1536 0xA5) 7 3 = (.ok, w) ∧
      stops r.log = 1 ∧ dataSent w.log = List.replicate 1536 0xA5 ∧ stopTokens w.log = 1 ∧
      r.selected = false ∧ w.selected = false := by
  generalize hbytes : List.replicate 1536 (0xA5 : UInt8) = buff
  have hlen : buff.length = 1536 := by rw [← hbytes, List.length_replicate]
  obtain ⟨hread, hwrite⟩ := @transfer_reported busyCard 0 false ⟨0, CT_SD1⟩ rfl 7 3 (by decide) buff
  obtain ⟨b₁, b', haccr, hrecv⟩ := busyCard_received
  obtain ⟨w₁, w', n', haccw, hwritten, hready⟩ := busyCard_written hlen
  have hrok := hread.result.2 ⟨b₁, haccr, _, b', hrecv⟩
  have hdata := hread.buff haccr hrecv
  have hstops := hread.stopped (by decide) ⟨b₁, haccr⟩
  have hrcs := hread.deselected
  have hwok := hwrite.result.2 ⟨w₁, haccw, w', hwritten, fun _ => ⟨n', hready⟩⟩
  have hsent := hwrite.sent hwok
  have hloop : writeLoop busyCard (3 - 1 : UInt32).toNat w₁ buff = (0, w') :=
    writeLoop_written hwritten
  have hstop := (hwrite.stopped (by decide) w₁ haccw).1
  rw [hloop] at hstop
  have htokens := hstop ⟨n', hready⟩
  have hwcs := hwrite.deselected
  rw [List.take_of_length_le (by rw [hlen]; decide)] at hsent
  generalize diskRead busyCard ⟨0, CT_SD1⟩ ⟨0, false, []⟩ 7 3 = read at hrok hdata hstops hrcs ⊢
  generalize diskWrite busyCard ⟨0, CT_SD1⟩ ⟨0, false, []⟩ buff 7 3 = write
    at hwok hsent htokens hwcs ⊢
  obtain ⟨res, bytes, r⟩ := read
  obtain ⟨res', w⟩ := write
  dsimp only at hrok hdata hstops hrcs hwok hsent htokens hwcs
  exact ⟨r, w, by rw [hrok, hdata], by rw [hwok], hstops, hsent, htokens, hrcs, hwcs⟩

end Pico.Sd
