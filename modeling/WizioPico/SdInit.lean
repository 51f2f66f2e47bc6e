/-
**Initialising an SD card.**

`disk_initialize` of `library/VFS/fatfs_sd.c`: a handshake with one branch for the cards that know
`CMD8` and one for those that do not, each with a loop that waits for the card to get ready.

* `Pico.Sd.acmd41Loop`, `Pico.Sd.initLoop` — the two loops, which end with the deadline;
* `Pico.Sd.initV2`, `Pico.Sd.initV1`, `Pico.Sd.diskInitialize` — the function;
* `Pico.Sd.Answered` — the card has answered 0 to the initialisation command, with time left at
  each look at the clock before;
* `Pico.Sd.Accepts` — the card has initialised in time, and is of a type;
* `Pico.Sd.diskInitialize_correct_iff` — **exactly such cards are accepted exactly if** the card
  is not one of the second branch that answers 0 to `CMD16`: that branch goes by the clock, and
  takes time that is left for time that is over.
-/

import WizioPico.SdCard

set_option relaxedAutoImplicit false
set_option autoImplicit false

namespace Pico.Sd

/-! ### The function -/

def STA_NOINIT : UInt8 := 0x01
def STA_PROTECT : UInt8 := 0x04

def CT_MMC : UInt8 := 0x01
def CT_SD1 : UInt8 := 0x02
def CT_SD2 : UInt8 := 0x04
def CT_SDC : UInt8 := CT_SD1 ||| CT_SD2
def CT_BLOCK : UInt8 := 0x08

/-- The argument of `ACMD41` that says that the host knows cards of high capacity. -/
def HCS : UInt32 := 0x40000000

/-- `FATFS_SD_Stat` and `FATFS_SD_CardType`. -/
structure Driver where
  stat : UInt8
  cardType : UInt8

variable (card : Card)

/-- The loop that sends `ACMD41(HCS)` until the card answers 0 or the time is up. -/
def acmd41Loop (timeoutTime : ℕ) (b : Bus) : Bus :=
  if (sendCmd card b ACMD41 HCS).1 = 0 then (sendCmd card b ACMD41 HCS).2
  else if card.clock.time (sendCmd card b ACMD41 HCS).2.n < timeoutTime then
    acmd41Loop timeoutTime ((sendCmd card b ACMD41 HCS).2.skip 1)
  else (sendCmd card b ACMD41 HCS).2.skip 1
termination_by card.clock.left timeoutTime b.n
decreasing_by
  have hlt := @lt_sendCmd card b ACMD41 HCS
  exact card.clock.left_lt ‹_ < timeoutTime› (Nat.le_of_lt hlt) (Nat.lt_succ_of_lt hlt)

/-- The loop that sends `ACMD41(0)` or `CMD1(0)`, as long as there is time. -/
def initLoop (timeoutTime : ℕ) (cmd : UInt8) (b : Bus) : Bus :=
  if card.clock.time b.n < timeoutTime then
    if (sendCmd card (b.skip 1) cmd 0).1 ≠ 0 then
      initLoop timeoutTime cmd (sendCmd card (b.skip 1) cmd 0).2
    else (sendCmd card (b.skip 1) cmd 0).2
  else b.skip 1
termination_by card.clock.left timeoutTime b.n
decreasing_by
  have hlt := @lt_sendCmd card (b.skip 1) cmd 0
  exact card.clock.left_lt ‹_ < timeoutTime› (Nat.le_refl _) (Nat.lt_of_succ_lt hlt)

/-- The branch for a card that has answered `CMD8`: the type, or 0. -/
def initV2 (b : Bus) : UInt8 × Bus :=
  let ocr := card.reply
  let b' := b.skip 4
  if ocr (b.n + 2) = 0x01 ∧ ocr (b.n + 3) = 0xAA then
    let timeoutTime := card.clock.time b'.n + 1000 * 1000 * 1000
    let r := sendCmd card (acmd41Loop card timeoutTime (b'.skip 1)) CMD58 0
    if r.1 = 0 then
      (if ocr r.2.n &&& 0x40 ≠ 0 then CT_SD2 ||| CT_BLOCK else CT_SD2, r.2.skip 4)
    else (0, r.2)
  else (0, b')

/-- The type and the initialisation command of a card that has not answered `CMD8`, by its answer
to `ACMD41`. -/
def oldType (res : UInt8) : UInt8 × UInt8 := if res ≤ 1 then (CT_SD1, ACMD41) else (CT_MMC, CMD1)

/-- The branch for such a card. -/
def initV1 (timeoutTime : ℕ) (b : Bus) : UInt8 × Bus :=
  let r := sendCmd card b ACMD41 0
  let b := initLoop card timeoutTime (oldType r.1).2 r.2
  if card.clock.time b.n < timeoutTime then (0, b.skip 1)
  else
    let r' := sendCmd card (b.skip 1) CMD16 512
    if r'.1 ≠ 0 then (0, r'.2) else ((oldType r.1).1, r'.2)

/-- The handshake. -/
def handshake (b : Bus) : UInt8 × Bus :=
  let r := sendCmd card b CMD0 0
  if r.1 = 1 then
    let timeoutTime := card.clock.time r.2.n + 1000 * 1000
    let r' := sendCmd card (r.2.skip 1) CMD8 0x1AA
    if r'.1 = 1 then initV2 card r'.2 else initV1 card timeoutTime r'.2
  else (0, r.2)

/-- `disk_initialize`, after the pins and the SPI have been set up: ten dummy bytes, the handshake,
and what the driver remembers. -/
def diskInitialize (d : Driver) (b : Bus) : Driver × Bus :=
  let r := handshake card ({ b with selected := false : Bus }.skip 10)
  let stat := if r.1 ≠ 0 then d.stat &&& ~~~STA_NOINIT else STA_NOINIT
  (⟨stat &&& ~~~STA_PROTECT, r.1⟩, deselectCard r.2)

/-! ### What a card is accepted for -/

/-- **The card answers 0** to the initialisation command at last, sent again and again while there
is time; the answer leaves the bus as in `b'`. -/
inductive Answered (timeoutTime : ℕ) (cmd : UInt8) : Bus → Bus → Prop
  | zero {b : Bus} : card.clock.time b.n < timeoutTime → (sendCmd card (b.skip 1) cmd 0).1 = 0 →
      Answered timeoutTime cmd b (sendCmd card (b.skip 1) cmd 0).2
  | busy {b b' : Bus} : card.clock.time b.n < timeoutTime →
      (sendCmd card (b.skip 1) cmd 0).1 ≠ 0 →
      Answered timeoutTime cmd (sendCmd card (b.skip 1) cmd 0).2 b' →
      Answered timeoutTime cmd b b'

/-- And the step in which that answer came was before the deadline. -/
def InTime (timeoutTime : ℕ) (cmd : UInt8) (b b' : Bus) : Prop :=
  Answered card timeoutTime cmd b b' ∧ card.clock.time (b'.n - 1) < timeoutTime

/-- A card that has answered `CMD8` is accepted: it echoes `01 AA`, and answers `CMD58`. -/
def AcceptsV2 (b : Bus) (ty : UInt8) : Prop :=
  let timeoutTime := card.clock.time (b.n + 4) + 1000 * 1000 * 1000
  let r := sendCmd card (acmd41Loop card timeoutTime (b.skip 5)) CMD58 0
  card.reply (b.n + 2) = 0x01 ∧ card.reply (b.n + 3) = 0xAA ∧ r.1 = 0 ∧
    ty = if card.reply r.2.n &&& 0x40 ≠ 0 then CT_SD2 ||| CT_BLOCK else CT_SD2

/-- A card that has not is accepted: it initialises in time, and then answers `CMD16`. -/
def AcceptsV1 (timeoutTime : ℕ) (b : Bus) (ty : UInt8) : Prop :=
  let r := sendCmd card b ACMD41 0
  (∃ b', InTime card timeoutTime (oldType r.1).2 r.2 b' ∧
    (sendCmd card (b'.skip 1) CMD16 512).1 = 0) ∧ ty = (oldType r.1).1

/-- **The card has initialised in time**, and is of this type. -/
def Accepts (b : Bus) (ty : UInt8) : Prop :=
  let r := sendCmd card b CMD0 0
  let timeoutTime := card.clock.time r.2.n + 1000 * 1000
  let r' := sendCmd card (r.2.skip 1) CMD8 0x1AA
  r.1 = 1 ∧ (r'.1 = 1 ∧ AcceptsV2 card r'.2 ty ∨ r'.1 ≠ 1 ∧ AcceptsV1 card timeoutTime r'.2 ty)

/-- What is asked of `disk_initialize`. -/
def InitCorrect (d : Driver) (b : Bus) : Prop :=
  let d' := (diskInitialize card d b).1
  let start : Bus := { b with selected := false : Bus }.skip 10
  (d'.stat &&& STA_NOINIT = 0 ↔ ∃ ty, Accepts card start ty) ∧
    (∀ ty, Accepts card start ty → d'.cardType = ty) ∧
    ((∀ ty, ¬Accepts card start ty) → d'.cardType = 0 ∧ d'.stat &&& STA_NOINIT ≠ 0)

/-- The card is not taken into the second branch, or answers `CMD16` with an error there, or the
deadline passes between its answer to the initialisation command and the next look at the
clock. -/
def InitHarmless (b : Bus) : Prop :=
  let r := sendCmd card ({ b with selected := false : Bus }.skip 10) CMD0 0
  let timeoutTime := card.clock.time r.2.n + 1000 * 1000
  let r' := sendCmd card (r.2.skip 1) CMD8 0x1AA
  r.1 = 1 → r'.1 ≠ 1 →
    let r₄₁ := sendCmd card r'.2 ACMD41 0
    let b' := initLoop card timeoutTime (oldType r₄₁.1).2 r₄₁.2
    (sendCmd card (b'.skip 1) CMD16 512).1 ≠ 0 ∨
      InTime card timeoutTime (oldType r₄₁.1).2 r₄₁.2 b' ∧ timeoutTime ≤ card.clock.time b'.n

/-! ### The loop that waits for an old card -/

variable {card} {timeoutTime : ℕ} {cmd : UInt8} {b b' : Bus}

/-- The loop ends with the answer, if it comes. -/
theorem initLoop_of_answered (h : Answered card timeoutTime cmd b b') :
    initLoop card timeoutTime cmd b = b' := by
  induction h with
  | zero htime hres => rw [initLoop, if_pos htime, if_neg (not_not_intro hres)]
  | busy htime hres _ ih => rw [initLoop, if_pos htime, if_pos hres, ih]

/-- Otherwise it ends with a look at the clock that finds no time left. -/
theorem answered_or_late (card : Card) (timeoutTime : ℕ) (cmd : UInt8) (b : Bus) :
    Answered card timeoutTime cmd b (initLoop card timeoutTime cmd b) ∨
      timeoutTime ≤ card.clock.time (initLoop card timeoutTime cmd b).n := by
  induction b using initLoop.induct card timeoutTime cmd with
  | case1 b htime hres ih =>
      rw [initLoop, if_pos htime, if_pos hres]
      exact ih.imp_left (Answered.busy htime hres)
  | case2 b htime hres =>
      rw [initLoop, if_pos htime, if_neg hres]
      exact .inl (Answered.zero htime (not_not.1 hres))
  | case3 b htime =>
      rw [initLoop, if_neg htime]
      refine .inr (Nat.le_trans (Nat.le_of_not_lt htime) ?_)
      exact card.clock.mono (Nat.le_succ b.n)

/-- With time left after the loop, the answer has come in time. -/
theorem inTime_of_left
    (h : card.clock.time (initLoop card timeoutTime cmd b).n < timeoutTime) :
    InTime card timeoutTime cmd b (initLoop card timeoutTime cmd b) := by
  have hanswered := (answered_or_late card timeoutTime cmd b).resolve_right (Nat.not_le_of_lt h)
  exact ⟨hanswered, Nat.lt_of_le_of_lt (card.clock.mono (Nat.sub_le _ 1)) h⟩

/-! ### The two branches -/

theorem ct_sd2_ne_zero (c : Prop) [Decidable c] : (if c then CT_SD2 ||| CT_BLOCK else CT_SD2) ≠ 0 := by
  split <;> decide

theorem oldType_ne_zero (res : UInt8) : (oldType res).1 ≠ 0 := by
  unfold oldType
  split <;> decide

/-- The first branch accepts what is to be accepted. -/
theorem acceptsV2_iff (ty : UInt8) :
    AcceptsV2 card b ty ↔ ty = (initV2 card b).1 ∧ ty ≠ 0 := by
  have htime : card.clock.time (b.n + 4) = card.clock.time (b.skip 4).n := rfl
  have hskip : b.skip 5 = (b.skip 4).skip 1 := rfl
  rw [AcceptsV2, initV2, htime, hskip]
  dsimp only
  by_cases hecho : card.reply (b.n + 2) = 0x01 ∧ card.reply (b.n + 3) = 0xAA
  · rw [if_pos hecho]
    by_cases hres : (sendCmd card (acmd41Loop card
        (card.clock.time (b.skip 4).n + 1000 * 1000 * 1000) ((b.skip 4).skip 1)) CMD58 0).1 = 0
    · rw [if_pos hres]
      constructor
      · rintro ⟨-, -, -, rfl⟩
        exact ⟨rfl, ct_sd2_ne_zero _⟩
      · rintro ⟨rfl, -⟩
        exact ⟨hecho.1, hecho.2, hres, rfl⟩
    · rw [if_neg hres]
      constructor
      · rintro ⟨-, -, h, -⟩
        exact absurd h hres
      · rintro ⟨rfl, h⟩
        exact absurd rfl h
  · rw [if_neg hecho]
    constructor
    · rintro ⟨h₁, h₂, -⟩
      exact absurd ⟨h₁, h₂⟩ hecho
    · rintro ⟨rfl, h⟩
      exact absurd rfl h

/-- The second branch, in its state after the loop: a card that has answered in time is to be
accepted if it then answers `CMD16`. -/
theorem acceptsV1_iff (ty : UInt8) :
    AcceptsV1 card timeoutTime b ty ↔
      let r := sendCmd card b ACMD41 0
      let b' := initLoop card timeoutTime (oldType r.1).2 r.2
      InTime card timeoutTime (oldType r.1).2 r.2 b' ∧
        (sendCmd card (b'.skip 1) CMD16 512).1 = 0 ∧ ty = (oldType r.1).1 := by
  rw [AcceptsV1]
  dsimp only
  constructor
  · rintro ⟨⟨b', hin, hres⟩, rfl⟩
    rw [initLoop_of_answered hin.1]
    exact ⟨hin, hres, rfl⟩
  · rintro ⟨hin, hres, rfl⟩
    exact ⟨⟨_, hin, hres⟩, rfl⟩

/-- **The second branch accepts what is to be accepted exactly if** the card answers `CMD16` with an
error, or the clock passes the deadline after the answer. -/
theorem initV1_iff :
    let r := sendCmd card b ACMD41 0
    let b' := initLoop card timeoutTime (oldType r.1).2 r.2
    (∀ ty, AcceptsV1 card timeoutTime b ty ↔ ty = (initV1 card timeoutTime b).1 ∧ ty ≠ 0) ↔
      (sendCmd card (b'.skip 1) CMD16 512).1 ≠ 0 ∨
        InTime card timeoutTime (oldType r.1).2 r.2 b' ∧ timeoutTime ≤ card.clock.time b'.n := by
  have hne := oldType_ne_zero (sendCmd card b ACMD41 0).1
  simp only [acceptsV1_iff]
  rw [initV1]
  dsimp only
  generalize hb' : initLoop card timeoutTime (oldType (sendCmd card b ACMD41 0).1).2
    (sendCmd card b ACMD41 0).2 = b'
  by_cases hres : (sendCmd card (b'.skip 1) CMD16 512).1 = 0
  · by_cases htime : card.clock.time b'.n < timeoutTime
    · -- the card has answered, and is refused
      have hin : InTime card timeoutTime (oldType (sendCmd card b ACMD41 0).1).2
          (sendCmd card b ACMD41 0).2 b' := by
        rw [← hb'] at htime ⊢
        exact inTime_of_left htime
      rw [if_pos htime]
      constructor
      · intro h
        have := ((h _).1 ⟨hin, hres, rfl⟩).1
        exact absurd this hne
      · rintro (h | h)
        · exact absurd hres h
        · exact absurd htime (Nat.not_lt_of_le h.2)
    · rw [if_neg htime, if_neg (not_not_intro hres)]
      constructor
      · intro h
        exact .inr ⟨((h _).2 ⟨rfl, hne⟩).1, Nat.le_of_not_lt htime⟩
      · rintro (h | h) ty
        · exact absurd hres h
        · exact ⟨fun hty => ⟨hty.2.2, hty.2.2 ▸ hne⟩, fun hty => ⟨h.1, hres, hty.1⟩⟩
  · have hzero : (if card.clock.time b'.n < timeoutTime then ((0 : UInt8), b'.skip 1)
        else if (sendCmd card (b'.skip 1) CMD16 512).1 ≠ 0 then
          (0, (sendCmd card (b'.skip 1) CMD16 512).2)
        else ((oldType (sendCmd card b ACMD41 0).1).1,
          (sendCmd card (b'.skip 1) CMD16 512).2)).1 = 0 := by
      rw [if_pos hres]
      split <;> rfl
    rw [hzero]
    constructor
    · intro _
      exact .inl hres
    · intro _ ty
      exact ⟨fun h => absurd h.2.1 hres, fun h => absurd h.1 h.2⟩

/-! ### The driver -/

/-- What is asked of `disk_initialize`, by the type that the handshake has determined. -/
theorem initCorrect_iff (card : Card) (d : Driver) (b : Bus) :
    InitCorrect card d b ↔
      ∀ ty, Accepts card ({ b with selected := false : Bus }.skip 10) ty ↔
        ty = (handshake card ({ b with selected := false : Bus }.skip 10)).1 ∧ ty ≠ 0 := by
  generalize hstart : ({ b with selected := false : Bus }.skip 10) = start
  have hstat : (diskInitialize card d b).1.stat &&& STA_NOINIT = 0 ↔
      (handshake card start).1 ≠ 0 := by
    rw [diskInitialize, hstart]
    dsimp only
    by_cases hty : (handshake card start).1 ≠ 0
    · have hmask : ~~~STA_NOINIT &&& (~~~STA_PROTECT &&& STA_NOINIT) = 0 := by decide
      rw [if_pos hty, UInt8.and_assoc, UInt8.and_assoc, hmask, UInt8.and_zero]
      exact iff_of_true rfl hty
    · rw [if_neg hty]
      exact iff_of_false (by decide) hty
  have htype : (diskInitialize card d b).1.cardType = (handshake card start).1 := by
    rw [diskInitialize, hstart]
  rw [InitCorrect, hstart, hstat, htype]
  constructor
  · rintro ⟨hiff, hty, -⟩ ty
    constructor
    · intro h
      obtain rfl := hty ty h
      exact ⟨rfl, hiff.2 ⟨_, h⟩⟩
    · rintro ⟨rfl, hne⟩
      obtain ⟨ty, h⟩ := hiff.1 hne
      rw [hty ty h]
      exact h
  · intro h
    refine ⟨⟨fun hne => ⟨_, (h _).2 ⟨rfl, hne⟩⟩, ?_⟩, fun ty hty => ((h ty).1 hty).1.symm, ?_⟩
    · rintro ⟨ty, hty⟩
      obtain ⟨rfl, hne⟩ := (h ty).1 hty
      exact hne
    · intro hnone
      have hzero : (handshake card start).1 = 0 := by
        by_contra hne
        exact hnone _ ((h _).2 ⟨rfl, hne⟩)
      exact ⟨hzero, fun hs => hstat.1 hs hzero⟩

/-- The status is that of a card that is ready, or only says that it is not initialised: the
write-protect pin is not connected. -/
theorem stat_diskInitialize {d : Driver} (h : d.stat = 0 ∨ d.stat = STA_NOINIT) (b : Bus) :
    (diskInitialize card d b).1.stat = 0 ∨ (diskInitialize card d b).1.stat = STA_NOINIT := by
  rw [diskInitialize]
  dsimp only
  split
  · rcases h with h | h
    · rw [h]
      exact .inl (by decide)
    · rw [h]
      exact .inl (by decide)
  · exact .inr (by decide)

/-- The handshake with a card that does not know `CMD8`. -/
theorem handshake_old {b₀ b₈ : Bus} {res : UInt8} (h0 : sendCmd card b CMD0 0 = (1, b₀))
    (h8 : sendCmd card (b₀.skip 1) CMD8 0x1AA = (res, b₈)) (hres : res ≠ 1) :
    handshake card b = initV1 card (card.clock.time b₀.n + 1000 * 1000) b₈ ∧
      ∀ ty, Accepts card b ty ↔
        AcceptsV1 card (card.clock.time b₀.n + 1000 * 1000) b₈ ty := by
  constructor
  · rw [handshake, h0, if_pos rfl, h8, if_neg hres]
  · intro ty
    rw [Accepts, h0, h8]
    simp [hres]

/-- **A card is accepted exactly if it has initialised in time**, if and only if the call does not
get as far as `CMD16` with a card that answers it in the branch for old cards; but for the case that
the deadline passes just behind the card's answer. -/
theorem diskInitialize_correct_iff (card : Card) (d : Driver) (b : Bus) :
    InitCorrect card d b ↔ InitHarmless card b := by
  rw [initCorrect_iff, InitHarmless]
  dsimp only
  generalize ({ b with selected := false : Bus }.skip 10) = start
  by_cases h0 : (sendCmd card start CMD0 0).1 = 1
  · by_cases h8 : (sendCmd card ((sendCmd card start CMD0 0).2.skip 1) CMD8 0x1AA).1 = 1
    · refine iff_of_true (fun ty => ?_) (fun _ h => absurd h8 h)
      rw [handshake, if_pos h0, if_pos h8, ← acceptsV2_iff, Accepts]
      simp [h0, h8]
    · obtain ⟨hshake, hty⟩ := @handshake_old card start _ _ _ (Prod.ext h0 rfl) rfl h8
      rw [hshake]
      simp only [hty]
      exact ⟨fun h _ _ => initV1_iff.1 h, fun h => initV1_iff.2 (h h0 h8)⟩
  · refine iff_of_true (fun ty => ?_) (fun h => absurd h h0)
    rw [handshake, if_neg h0, Accepts]
    constructor
    · rintro ⟨h, -⟩
      exact absurd h h0
    · rintro ⟨rfl, h⟩
      exact absurd rfl h

/-! ### A card that is refused -/

/-- A card of version 1, always ready, that answers at once: it does not know `CMD8`, and answers 0
to the second `ACMD41` and to `CMD16`.  A step takes a microsecond. -/
def oldCard : Card where
  reply n :=
    if n = 20 ∨ n = 43 ∨ n = 54 ∨ n = 66 then 0x01
    else if n = 32 then 0x05
    else if n = 77 ∨ n = 89 then 0x00
    else 0xFF
  clock := ⟨fun n => n, fun h => h, fun t => ⟨t, Nat.le_refl t⟩⟩

/-- **It is initialised after 77 microseconds, and refused.** -/
theorem diskInitialize_refuses_oldCard :
    ¬InitCorrect oldCard ⟨STA_NOINIT, 0⟩ ⟨0, false, []⟩ := by
  let b₀ : Bus := Bus.after ⟨10, false, []⟩ CMD0 0
  let b₈ : Bus := (b₀.skip 1).after CMD8 0x1AA
  let b₄₁ : Bus := (b₈.after CMD55 0).after 41 0
  let b' : Bus := ((b₄₁.skip 1).after CMD55 0).after 41 0
  have h0 : sendCmd oldCard ⟨10, false, []⟩ CMD0 0 = (0x01, b₀) :=
    sendCmd_at_once rfl (by decide) rfl rfl rfl
  have h8 : sendCmd oldCard (b₀.skip 1) CMD8 0x1AA = (0x05, b₈) :=
    sendCmd_at_once rfl (by decide) rfl rfl rfl
  have h41 : sendCmd oldCard b₈ ACMD41 0 = (0x01, b₄₁) :=
    sendCmd_acmd_at_once (by decide) (by decide) rfl rfl (by decide) (by decide) rfl rfl rfl
  have h41' : sendCmd oldCard (b₄₁.skip 1) ACMD41 0 = (0x00, b') :=
    sendCmd_acmd_at_once (by decide) (by decide) rfl rfl (by decide) (by decide) rfl rfl rfl
  have h16 : sendCmd oldCard (b'.skip 1) CMD16 512 = (0x00, (b'.skip 1).after CMD16 512) :=
    sendCmd_at_once rfl (by decide) rfl rfl rfl
  have hold : ∀ timeoutTime, 78 < timeoutTime →
      AcceptsV1 oldCard timeoutTime b₈ CT_SD1 ∧ (initV1 oldCard timeoutTime b₈).1 = 0 := by
    intro timeoutTime hlt
    have hloop : oldCard.clock.time b₄₁.n < timeoutTime :=
      Nat.lt_trans (by decide : 55 < 78) hlt
    have hlast : oldCard.clock.time (b'.n - 1) < timeoutTime :=
      Nat.lt_trans (by decide : 77 < 78) hlt
    have hans : Answered oldCard timeoutTime ACMD41 b₄₁ b' := by
      have hzero := @Answered.zero oldCard _ ACMD41 _ hloop (by rw [h41'])
      rwa [h41'] at hzero
    constructor
    · rw [AcceptsV1, h41]
      exact ⟨⟨b', ⟨hans, hlast⟩, by rw [h16]⟩, rfl⟩
    · have hend : initLoop oldCard timeoutTime (oldType 0x01).2 b₄₁ = b' :=
        initLoop_of_answered hans
      rw [initV1, h41]
      dsimp only
      rw [hend]
      exact congrArg Prod.fst (if_pos hlt)
  intro h
  obtain ⟨hshake, hty⟩ := handshake_old h0 h8 (by decide)
  have hlate := hold _ (Nat.lt_of_lt_of_le (by decide : 78 < 1000 * 1000)
    (Nat.le_add_left _ (oldCard.clock.time b₀.n)))
  have hsame : CT_SD1 = (handshake oldCard ⟨10, false, []⟩).1 :=
    (((initCorrect_iff oldCard _ _).1 h CT_SD1).1 ((hty _).2 hlate.1)).1
  rw [hshake] at hsame
  exact absurd (hsame.trans hlate.2) (by decide)

end Pico.Sd
