/-
**What a commit of the EEPROM does to the flash.**

Runs of the EEPROM in which every `begin` asks for the same number of bytes, a multiple of 256.
One flag, `_dirty`, stands for everything that has happened to the buffer: it is set by whatever
changes a byte or hands out a pointer to the array, and a commit writes the flash if it is set.

* `Pico.Eeprom.Session` — the EEPROM, and what has happened since the last `begin` and since the
  last successful commit: nothing of the source, this is what the flag is measured against;
* `Pico.Eeprom.Lawful` — a successful commit leaves the buffer in the flash, a `begin` reads back
  the buffer of the last one, and the flash is written exactly by the commits that have something
  to write;
* `Pico.Eeprom.Thrifty` — no commit is made while nothing has changed since the last one, unless
  nothing has changed since the last `begin`;
* `Pico.Eeprom.lawful_iff` — **along a run commits are lawful exactly if they are thrifty**:
  `commit` leaves the flag set.
-/

import WizioPico.Eeprom

set_option relaxedAutoImplicit false
set_option autoImplicit false

namespace Pico.Eeprom

/-! ### Writing the flash -/

/-- Programming an erased byte stores it. -/
theorem erased_and (b : UInt8) : 0xff &&& b = b := by
  apply UInt8.toBitVec_inj.1
  rw [UInt8.toBitVec_and]
  exact BitVec.allOnes_and

/-- **Erasing and programming stores the data** at the start of the sector. -/
theorem take_program_erase (f : Sector) {data : List UInt8} (h : data.length ≤ sectorSize) :
    (f.erase.program data).bytes.take data.length = data := by
  have hlen := (f.erase.program data).length_eq
  apply List.ext_getElem
  · rw [List.length_take, hlen]
    omega
  · intro i hi hi'
    simp [Sector.program, Sector.erase, erased_and, hi']

/-! ### Sessions -/

/-- The EEPROM with its history.  `saved` is the buffer at the last commit that returned true, and
at first what is in the flash; `sinceBegin` and `sinceCommit` say that since the last `begin`, or
since the later one of that and the last successful commit, a byte was changed or a pointer handed
out; `handed` says that a pointer may still be used. -/
structure Session where
  eeprom : EepromClass
  saved : List UInt8
  sinceBegin : Bool
  sinceCommit : Bool
  handed : Bool

/-- What a sketch does: a call, or a store through a pointer it was handed. -/
inductive Event where
  | call (c : Call)
  | store (i : ℕ) (value : UInt8)

/-- The call changed a byte of the buffer, or handed out a pointer to it. -/
def changes (s s' : EepromClass) : Call → Bool
  | .write _ _ | .put _ _ _ => decide (s'.data ≠ s.data)
  | .getDataPtr => s.data.isSome
  | _ => false

/-- The history after a call with the result `s'`; `r` is what a commit has returned. -/
def Session.after (s : Session) (c : Call) (s' : EepromClass) (r : Bool) : Session :=
  match c with
  | .begin _ _ => ⟨s', s.saved, false, false, false⟩
  | .commit =>
    ⟨s', if r then s.eeprom.data.getD [] else s.saved, s.sinceBegin, s.sinceCommit && !r, false⟩
  | .end_ =>
    ⟨s', if r then s.eeprom.data.getD [] else s.saved, false, s.sinceCommit && !r, false⟩
  | c =>
    let changed := changes s.eeprom s' c
    ⟨s', s.saved, s.sinceBegin || changed, s.sinceCommit || changed,
      s.handed || (match c with | .getDataPtr => s.eeprom.data.isSome | _ => false)⟩

/-- The result of a call that has one. -/
def result (s : EepromClass) : Call → Bool
  | .commit => (commit s).elim false Prod.snd
  | .end_ => (end_ s).elim false Prod.snd
  | _ => false

/-- One event, for a sketch that begins with `size` bytes and uses a pointer only for bytes of the
buffer and before the next commit, `begin` or `end`. -/
def next (size : ℕ) (s : Session) : Event → Option Session
  | .call (.begin n mem) =>
    if n = size then
      (step s.eeprom (.begin n mem)).map fun s' => s.after (.begin n mem) s' false
    else none
  | .call c => (step s.eeprom c).map fun s' => s.after c s' (result s.eeprom c)
  | .store i value =>
    if s.handed ∧ i < s.eeprom.size then
      s.eeprom.data.map fun data =>
        { s with eeprom := { s.eeprom with data := some (data.set i value) } }
    else none

/-- After construction. -/
def Session.start (f : Sector) (size : ℕ) : Session :=
  ⟨.constructed f, f.bytes.take size, false, false, false⟩

/-! ### The two laws -/

/-- What is expected of a call of `commit` or `end` that has the outcome `out`: if it returns true
the buffer is in the flash, and it erases and programs the flash once if something has changed,
and not at all otherwise. -/
def CommitLaw (s : Session) (out : Option (EepromClass × Bool)) : Prop :=
  ∃ s' r, out = some (s', r) ∧
    (r = true → ∃ data, s.eeprom.data = some data ∧
      s'.sector.bytes.take s.eeprom.size = data.take s.eeprom.size) ∧
    s'.sector.erases = s.eeprom.sector.erases + (if s.sinceCommit then 1 else 0) ∧
    s'.sector.programs = s.eeprom.sector.programs + if s.sinceCommit then 1 else 0

/-- **What is expected of an event.** -/
def Lawful (size : ℕ) (s : Session) : Event → Prop
  | .call (.begin n mem) =>
    n = size → ∃ s', begin s.eeprom n mem = some s' ∧ s'.sector = s.eeprom.sector ∧
      s'.data = some s.saved
  | .call .commit => CommitLaw s (commit s.eeprom)
  | .call .end_ => CommitLaw s (end_ s.eeprom)
  | .call c => ∃ s', step s.eeprom c = some s' ∧ s'.sector = s.eeprom.sector
  | .store _ _ => True

/-- **No commit for nothing**: if something has changed since the last `begin`, something has
changed since the last commit.  And a `begin` that allocates is given the memory. -/
def Thrifty (size : ℕ) (s : Session) : Event → Prop
  | .call (.begin n mem) => n = size → s.eeprom.data = none → mem.isSome
  | .call .commit | .call .end_ => s.sinceBegin → s.sinceCommit
  | _ => True

/-! ### The invariant -/

/-- The EEPROM has a buffer of `size` bytes, whose history the flag tells as far as it goes. -/
structure Open (size : ℕ) (s : Session) (data : List UInt8) : Prop where
  data_eq : s.eeprom.data = some data
  size_eq : s.eeprom.size = size
  length_eq : data.length = size
  dirty : s.eeprom.dirty = s.sinceBegin
  sinceBegin : s.sinceCommit → s.sinceBegin
  handed : s.handed → s.sinceCommit
  clean : s.sinceCommit = false → data = s.eeprom.sector.bytes.take size
  saved : s.saved = s.eeprom.sector.bytes.take size

/-- The EEPROM has no buffer. -/
structure Closed (size : ℕ) (s : Session) : Prop where
  data_eq : s.eeprom.data = none
  size_eq : s.eeprom.size = 0
  sinceBegin : s.sinceBegin = false
  sinceCommit : s.sinceCommit = false
  handed : s.handed = false
  saved : s.saved = s.eeprom.sector.bytes.take size

/-- **The invariant.** -/
def Sound (size : ℕ) (s : Session) : Prop := Closed size s ∨ ∃ data, Open size s data

theorem closed_start (f : Sector) (size : ℕ) : Closed size (.start f size) :=
  ⟨rfl, rfl, rfl, rfl, rfl, rfl⟩

/-! ### Commits -/

section Commits

variable {size : ℕ} {s : Session}

/-- Without a buffer nothing is committed. -/
theorem Closed.commit_eq (h : Closed size s) : commit s.eeprom = some (s.eeprom, false) :=
  commit_of_size_zero h.size_eq

theorem Closed.end_eq (h : Closed size s) : end_ s.eeprom = some (s.eeprom, false) :=
  if_pos h.size_eq

theorem Closed.commitLaw (h : Closed size s) : CommitLaw s (some (s.eeprom, false)) :=
  ⟨s.eeprom, false, rfl, by simp, by simp [h.sinceCommit], by simp [h.sinceCommit]⟩

variable {data : List UInt8}

/-- The sector a commit of the buffer `data` leaves. -/
def Session.written (s : Session) (data : List UInt8) : Sector :=
  if s.sinceBegin then s.eeprom.sector.erase.program data else s.eeprom.sector

theorem Open.take_size (h : Open size s data) : data.take s.eeprom.size = data := by
  rw [h.size_eq, List.take_of_length_le (Nat.le_of_eq h.length_eq)]

/-- With a buffer the flash is written if anything has changed since the last `begin`. -/
theorem Open.commit_eq (h : Open size s data) (h0 : 0 < size) :
    commit s.eeprom = some ({ s.eeprom with sector := s.written data }, true) := by
  have hlen : s.eeprom.size ≤ data.length := Nat.le_of_eq (h.size_eq.trans h.length_eq.symm)
  rw [Eeprom.commit_eq (by rw [h.size_eq]; exact h0) h.data_eq hlen, h.take_size,
    Session.written, ← h.dirty]
  split <;> rfl

theorem Open.end_eq (h : Open size s data) (h0 : 0 < size) :
    end_ s.eeprom = some (⟨s.written data, none, 0, false⟩, true) := by
  unfold end_
  rw [if_neg (by rw [h.size_eq]; omega), h.commit_eq h0]
  rfl

/-- **After a commit the buffer is in the flash.** -/
theorem Open.take_written (h : Open size s data) (h1 : size ≤ sectorSize) :
    (s.written data).bytes.take size = data := by
  unfold Session.written
  cases hb : s.sinceBegin with
  | true =>
      have hfit : data.length ≤ sectorSize := h.length_eq.symm ▸ h1
      have hread := take_program_erase s.eeprom.sector hfit
      rw [h.length_eq] at hread
      exact hread
  | false =>
      refine (h.clean ?_).symm
      cases hc : s.sinceCommit with
      | false => rfl
      | true => exact absurd (h.sinceBegin hc) (by simp [hb])

/-- **A commit is lawful exactly if it is thrifty**, whatever else it does to the EEPROM. -/
theorem Open.commitLaw_iff (h : Open size s data) (h1 : size ≤ sectorSize) {s' : EepromClass}
    (hs' : s'.sector = s.written data) :
    CommitLaw s (some (s', true)) ↔ (s.sinceBegin → s.sinceCommit) := by
  have hdur : s'.sector.bytes.take s.eeprom.size = data.take s.eeprom.size := by
    rw [hs', h.take_size, h.size_eq, h.take_written h1]
  constructor
  · rintro ⟨t, r, hout, -, he, -⟩ hb
    cases hout
    rw [hs', Session.written, if_pos hb] at he
    cases hc : s.sinceCommit with
    | true => rfl
    | false => simp [hc, Sector.program, Sector.erase] at he
  · intro hthrifty
    have hwear : s.sinceBegin = s.sinceCommit :=
      Bool.eq_iff_iff.2 ⟨hthrifty, h.sinceBegin⟩
    refine ⟨s', true, rfl, fun _ => ⟨data, h.data_eq, hdur⟩, ?_, ?_⟩
    · rw [hs', Session.written, hwear]
      cases s.sinceCommit <;> rfl
    · rw [hs', Session.written, hwear]
      cases s.sinceCommit <;> rfl

end Commits

/-! ### One event -/

section Events

variable {size : ℕ} {s : Session} {data : List UInt8}

/-- What a `begin` of the same size leaves, with the array it has or the one it is given. -/
theorem begin_of_dvd {e : EepromClass} (h0 : 0 < size) (h1 : size ≤ sectorSize)
    (hd : 256 ∣ size) {mem : Option (ℕ → UInt8)} {array : List UInt8}
    (ha : beginArray e size mem = some array) (hl : array.length = size) :
    begin e size mem =
      some { e with size := size, data := some (e.sector.bytes.take size), dirty := false } := by
  have hclamp : clamp size = size := by
    unfold clamp
    exact if_neg (by omega)
  have hround := (roundUp_eq_iff size).2 hd
  rw [begin_eq_some_iff, hclamp, hround]
  refine ⟨array, ha, by omega, ?_⟩
  rw [List.drop_of_length_le (Nat.le_of_eq hl), List.append_nil]

/-- The session is open after such a `begin`. -/
theorem open_after_begin (h1 : size ≤ sectorSize)
    (hsaved : s.saved = s.eeprom.sector.bytes.take size) (mem : Option (ℕ → UInt8)) (n : ℕ) :
    Open size (s.after (.begin n mem) { s.eeprom with
      size := size, data := some (s.eeprom.sector.bytes.take size), dirty := false } false)
      (s.eeprom.sector.bytes.take size) where
  data_eq := rfl
  size_eq := rfl
  length_eq := by rw [List.length_take, s.eeprom.sector.length_eq]; omega
  dirty := rfl
  sinceBegin := id
  handed := id
  clean := fun _ => rfl
  saved := hsaved

/-- **A `begin` reads the flash back**, if it is given memory when it asks for it. -/
theorem Sound.begin (h : Sound size s) (h0 : 0 < size) (h1 : size ≤ sectorSize)
    (hd : 256 ∣ size) {mem : Option (ℕ → UInt8)} (hmem : s.eeprom.data = none → mem.isSome) :
    s.saved = s.eeprom.sector.bytes.take size ∧
      begin s.eeprom size mem = some { s.eeprom with
        size := size, data := some (s.eeprom.sector.bytes.take size), dirty := false } := by
  have hround := (roundUp_eq_iff size).2 hd
  rcases h with h | ⟨data, h⟩
  · refine ⟨h.saved, ?_⟩
    obtain ⟨f, rfl⟩ := Option.isSome_iff_exists.1 (hmem h.data_eq)
    have harray : beginArray s.eeprom size (some f) = some ((List.range size).map f) := by
      simp [beginArray, h.data_eq, newArray]
    exact begin_of_dvd h0 h1 hd harray (by simp)
  · have harray : beginArray s.eeprom size mem = some data := by
      simp [beginArray, h.data_eq, hround]
    exact ⟨h.saved, begin_of_dvd h0 h1 hd harray h.length_eq⟩

/-- Without memory there is no buffer to read back into. -/
theorem begin_refused {e : EepromClass} (hd : e.data = none) (n : ℕ) : begin e n none = none := by
  simp [Eeprom.begin, hd, newArray]

/-- **A call that is neither `begin`, `commit` nor `end`** keeps the flash, and the session open or
closed as it is. -/
def Plain : Call → Prop
  | .begin _ _ | .commit | .end_ => False
  | _ => True

/-- Without a buffer such a call does nothing, apart from `getDataPtr`, which sets the flag. -/
theorem Closed.plain (h : Closed size s) {c : Call} (hc : Plain c) :
    ∃ s', step s.eeprom c = some s' ∧ s'.sector = s.eeprom.sector ∧
      Closed size (s.after c s' (result s.eeprom c)) := by
  have hsize := h.size_eq
  -- No history changes, so what is closed stays closed.
  have hkeep : ∀ (e : EepromClass) (b : Bool), e.data = none → e.size = 0 →
      e.sector = s.eeprom.sector → b = false →
        Closed size ⟨e, s.saved, s.sinceBegin || b, s.sinceCommit || b, s.handed || b⟩ := by
    intro e b hdata hsize hsector hb
    subst hb
    exact ⟨hdata, hsize, by simp [h.sinceBegin], by simp [h.sinceCommit], by simp [h.handed],
      by rw [hsector]; exact h.saved⟩
  have hlarge : Large s.eeprom := fun hpos => absurd hsize (Nat.ne_of_gt hpos)
  have hnone : ∀ {d}, s.eeprom.data = some d → False := fun hd => by
    rw [h.data_eq] at hd
    cases hd
  have hsame := hkeep s.eeprom false h.data_eq hsize rfl rfl
  cases c with
  | begin n mem => exact hc.elim
  | end_ => exact hc.elim
  | commit => exact hc.elim
  | read address =>
      obtain ⟨b, hread⟩ := read_of_large hlarge address
      exact ⟨s.eeprom, by rw [step, hread]; rfl, rfl, hsame⟩
  | get address n hn =>
      obtain ⟨out, hget⟩ := get_of_large hlarge address hn
      exact ⟨s.eeprom, by rw [step, hget]; rfl, rfl, hsame⟩
  | write address value =>
      rcases write_cases hlarge address value with hw | ⟨d, i, old, hd, -⟩
      · exact ⟨s.eeprom, hw, rfl, by simpa [Session.after, changes] using hsame⟩
      · exact (hnone hd).elim
  | put address t ht =>
      rcases put_cases hlarge address ht with hp | ⟨d, i, hd, -⟩
      · exact ⟨s.eeprom, hp, rfl, by simpa [Session.after, changes] using hsame⟩
      · exact (hnone hd).elim
  | getDataPtr =>
      exact ⟨_, rfl, rfl, hkeep (getDataPtr s.eeprom) s.eeprom.data.isSome h.data_eq hsize
        rfl (by rw [h.data_eq]; rfl)⟩

/-- The session stays open if the flag and the history record every change of the buffer. -/
theorem Open.after_plain (h : Open size s data) {e : EepromClass} {data' : List UInt8}
    {changed handed : Bool} (hdata : e.data = some data') (hsize : e.size = s.eeprom.size)
    (hsector : e.sector = s.eeprom.sector) (hlen : data'.length = data.length)
    (hdirty : e.dirty = (s.eeprom.dirty || changed)) (hkeep : changed = false → data' = data)
    (hhanded : handed → s.handed ∨ changed) :
    Open size ⟨e, s.saved, s.sinceBegin || changed, s.sinceCommit || changed, handed⟩ data' where
  data_eq := hdata
  size_eq := hsize.trans h.size_eq
  length_eq := hlen.trans h.length_eq
  dirty := by rw [hdirty, h.dirty]
  sinceBegin := by
    intro hc
    rcases Bool.or_eq_true_iff.1 hc with hc | hc
    · simp [h.sinceBegin hc]
    · simp [hc]
  handed := by
    intro hh
    rcases hhanded hh with hh | hc
    · simp [h.handed hh]
    · simp [hc]
  clean := by
    intro hc
    obtain ⟨hold, hnew⟩ := Bool.or_eq_false_iff.1 hc
    rw [hkeep hnew, hsector]
    exact h.clean hold
  saved := by rw [hsector]; exact h.saved

/-- Storing another value changes the array. -/
theorem set_ne {i : ℕ} {old value : UInt8} (h : data[i]? = some old) (hne : old ≠ value) :
    data.set i value ≠ data := by
  intro he
  obtain ⟨hi, hold⟩ := List.getElem?_eq_some_iff.1 h
  have := List.getElem_set_self (a := value) (by rw [List.length_set]; exact hi : i < _)
  simp only [he] at this
  exact hne (hold.symm.trans this)

/-- Copying an object with other bytes changes the array. -/
theorem splice_ne {i : ℕ} {t : List UInt8} (h : i + t.length ≤ data.length)
    (hne : (data.drop i).take t.length ≠ t) : splice data i t ≠ data := by
  intro he
  apply hne
  have hi : (data.take i).length = i := by
    rw [List.length_take]
    omega
  rw [← he, splice, List.append_assoc]
  nth_rewrite 1 [← hi]
  rw [List.drop_left, List.take_left]

/-- With a buffer, it changes bytes of the buffer and sets the flag. -/
theorem Open.plain (h : Open size s data) {c : Call} (hc : Plain c) :
    ∃ s' data', step s.eeprom c = some s' ∧ s'.sector = s.eeprom.sector ∧
      Open size (s.after c s' (result s.eeprom c)) data' := by
  have hlarge : Large s.eeprom := fun _ =>
    ⟨data, h.data_eq, Nat.le_of_eq (h.size_eq.trans h.length_eq.symm)⟩
  have hdata : ∀ {d}, s.eeprom.data = some d → data = d := fun hd =>
    Option.some.inj (h.data_eq.symm.trans hd)
  have hsame : Open size ⟨s.eeprom, s.saved, s.sinceBegin || false, s.sinceCommit || false,
      s.handed || false⟩ data :=
    h.after_plain h.data_eq rfl rfl rfl (by simp) (fun _ => rfl) (by simp)
  cases c with
  | begin n mem => exact hc.elim
  | end_ => exact hc.elim
  | commit => exact hc.elim
  | read address =>
      obtain ⟨b, hread⟩ := read_of_large hlarge address
      exact ⟨s.eeprom, data, by rw [step, hread]; rfl, rfl, hsame⟩
  | get address n hn =>
      obtain ⟨out, hget⟩ := get_of_large hlarge address hn
      exact ⟨s.eeprom, data, by rw [step, hget]; rfl, rfl, hsame⟩
  | write address value =>
      rcases write_cases hlarge address value with hw | ⟨d, i, old, hd, hold, hne, hw⟩
      · exact ⟨s.eeprom, data, hw, rfl, by simpa [Session.after, changes] using hsame⟩
      · obtain rfl := hdata hd
        have hch : changes s.eeprom { s.eeprom with
            data := some (data.set i value), dirty := true } (.write address value) = true := by
          simp [changes, h.data_eq, set_ne hold hne]
        refine ⟨_, data.set i value, hw, rfl, ?_⟩
        refine h.after_plain rfl rfl rfl List.length_set ?_ ?_ ?_ <;> simp [hch]
  | put address t ht =>
      rcases put_cases hlarge address ht with hp | ⟨d, i, hd, hfit, hne, hp⟩
      · exact ⟨s.eeprom, data, hp, rfl, by simpa [Session.after, changes] using hsame⟩
      · obtain rfl := hdata hd
        have hch : changes s.eeprom { s.eeprom with
            data := some (splice data i t), dirty := true } (.put address t ht) = true := by
          simp [changes, h.data_eq, splice_ne hfit hne]
        refine ⟨_, splice data i t, hp, rfl, ?_⟩
        refine h.after_plain rfl rfl rfl (length_splice hfit) ?_ ?_ ?_ <;> simp [hch]
  | getDataPtr =>
      refine ⟨getDataPtr s.eeprom, data, rfl, rfl, ?_⟩
      refine h.after_plain h.data_eq rfl rfl rfl ?_ (fun _ => rfl) ?_
      · simp [getDataPtr, changes, h.data_eq]
      · simp [changes, h.data_eq]

/-- **An event is lawful exactly if it is thrifty.** -/
theorem Sound.commits_iff (h : Sound size s) (h0 : 0 < size) (h1 : size ≤ sectorSize)
    (hd : 256 ∣ size) (ev : Event) : Lawful size s ev ↔ Thrifty size s ev := by
  -- Calls other than `begin`, `commit` and `end` are both.
  have hplain : ∀ c, Plain c → ∃ s', step s.eeprom c = some s' ∧ s'.sector = s.eeprom.sector := by
    intro c hc
    rcases h with h | ⟨data, h⟩
    · obtain ⟨s', hs', hsec, -⟩ := h.plain hc
      exact ⟨s', hs', hsec⟩
    · obtain ⟨s', -, hs', hsec, -⟩ := h.plain hc
      exact ⟨s', hs', hsec⟩
  cases ev with
  | store i value => exact Iff.rfl
  | call c =>
      cases c with
      | begin n mem =>
          refine forall_congr' fun hn => ?_
          subst hn
          constructor
          · rintro ⟨s', hs', -, -⟩ hnone
            cases mem with
            | none => rw [begin_refused hnone] at hs'; cases hs'
            | some f => rfl
          · intro hmem
            obtain ⟨hsaved, hbegin⟩ := h.begin h0 h1 hd hmem
            exact ⟨_, hbegin, rfl, congrArg some hsaved.symm⟩
      | commit =>
          rcases h with h | ⟨data, h⟩
          · simp only [Lawful, h.commit_eq]
            exact iff_of_true h.commitLaw fun hb => absurd hb (by simp [h.sinceBegin])
          · simp only [Lawful, h.commit_eq h0]
            exact h.commitLaw_iff h1 rfl
      | end_ =>
          rcases h with h | ⟨data, h⟩
          · simp only [Lawful, h.end_eq]
            exact iff_of_true h.commitLaw fun hb => absurd hb (by simp [h.sinceBegin])
          · simp only [Lawful, h.end_eq h0]
            exact h.commitLaw_iff h1 rfl
      | read address => exact iff_of_true (hplain _ trivial) trivial
      | write address value => exact iff_of_true (hplain _ trivial) trivial
      | get address n hn => exact iff_of_true (hplain _ trivial) trivial
      | put address t ht => exact iff_of_true (hplain _ trivial) trivial
      | getDataPtr => exact iff_of_true (hplain _ trivial) trivial

/-- A plain call leaves a sound session. -/
theorem Sound.plain (h : Sound size s) {c : Call} (hc : Plain c) {s' : EepromClass}
    (hs' : step s.eeprom c = some s') : Sound size (s.after c s' (result s.eeprom c)) := by
  rcases h with h | ⟨data, h⟩
  · obtain ⟨t, ht, -, hsound⟩ := h.plain hc
    cases ht.symm.trans hs'
    exact .inl hsound
  · obtain ⟨t, data', ht, -, hsound⟩ := h.plain hc
    cases ht.symm.trans hs'
    exact .inr ⟨data', hsound⟩

theorem Sound.next_plain (h : Sound size s) (c : Call) (hc : Plain c) {s' : Session}
    (hs' : next size s (.call c) = some s') : Sound size s' := by
  have hnext : next size s (.call c) =
      (step s.eeprom c).map fun e => s.after c e (result s.eeprom c) := by
    cases c <;> first | rfl | exact hc.elim
  rw [hnext] at hs'
  obtain ⟨e, he, rfl⟩ := Option.map_eq_some_iff.1 hs'
  exact h.plain hc he

/-- A commit leaves a sound session, thrifty or not. -/
theorem Sound.commit (h : Sound size s) (h0 : 0 < size) (h1 : size ≤ sectorSize)
    {s' : EepromClass} {r : Bool} (hs' : commit s.eeprom = some (s', r)) :
    Sound size (s.after .commit s' r) := by
  rcases h with h | ⟨data, h⟩
  · cases h.commit_eq.symm.trans hs'
    exact .inl ⟨h.data_eq, h.size_eq, h.sinceBegin, by simp [Session.after, h.sinceCommit], rfl,
      h.saved⟩
  · cases (h.commit_eq h0).symm.trans hs'
    have htake := (h.take_written h1).symm
    refine .inr ⟨data, h.data_eq, h.size_eq, h.length_eq, h.dirty, ?_, ?_, fun _ => htake, ?_⟩
    · simp [Session.after]
    · simp [Session.after]
    · simpa [Session.after, h.data_eq] using htake

theorem Sound.end_ (h : Sound size s) (h0 : 0 < size) (h1 : size ≤ sectorSize)
    {s' : EepromClass} {r : Bool} (hs' : end_ s.eeprom = some (s', r)) :
    Sound size (s.after .end_ s' r) := by
  rcases h with h | ⟨data, h⟩
  · cases h.end_eq.symm.trans hs'
    exact .inl ⟨h.data_eq, h.size_eq, rfl, by simp [Session.after, h.sinceCommit], rfl, h.saved⟩
  · cases (h.end_eq h0).symm.trans hs'
    have htake := (h.take_written h1).symm
    exact .inl ⟨rfl, rfl, rfl, by simp [Session.after], rfl,
      by simpa [Session.after, h.data_eq] using htake⟩

/-- A store through a pointer is to a buffer that counts as changed already. -/
theorem Sound.store (h : Sound size s) {i : ℕ} {value : UInt8} {data : List UInt8}
    (hhanded : s.handed) (hdata : s.eeprom.data = some data) :
    Sound size { s with eeprom := { s.eeprom with data := some (data.set i value) } } := by
  rcases h with h | ⟨data', h⟩
  · exact absurd hhanded (by simp [h.handed])
  · cases h.data_eq.symm.trans hdata
    have hc := h.handed hhanded
    exact .inr ⟨data.set i value, rfl, h.size_eq, by rw [List.length_set]; exact h.length_eq,
      h.dirty, h.sinceBegin, h.handed, fun hno => absurd (hc.symm.trans hno) (by simp), h.saved⟩

/-- **An event leaves a sound session**, whether it is thrifty or not. -/
theorem Sound.next (h : Sound size s) (h0 : 0 < size) (h1 : size ≤ sectorSize) (hd : 256 ∣ size)
    {ev : Event} {s' : Session} (hs' : next size s ev = some s') : Sound size s' := by
  cases ev with
  | store i value =>
      simp only [Eeprom.next] at hs'
      split at hs'
      · rename_i hin
        obtain ⟨data, hdata, rfl⟩ := Option.map_eq_some_iff.1 hs'
        exact h.store hin.1 hdata
      · cases hs'
  | call c =>
      cases c with
      | begin n mem =>
          simp only [Eeprom.next] at hs'
          split at hs'
          · rename_i hn
            subst hn
            obtain ⟨e, he, rfl⟩ := Option.map_eq_some_iff.1 hs'
            have hmem : s.eeprom.data = none → mem.isSome := by
              intro hnone
              cases mem with
              | none => rw [step, begin_refused hnone] at he; cases he
              | some f => rfl
            obtain ⟨hsaved, hbegin⟩ := h.begin h0 h1 hd hmem
            cases hbegin.symm.trans he
            exact .inr ⟨_, open_after_begin h1 hsaved mem n⟩
          · cases hs'
      | commit =>
          obtain ⟨e, he, rfl⟩ := Option.map_eq_some_iff.1 hs'
          obtain ⟨⟨e', r⟩, hcommit, rfl⟩ := Option.map_eq_some_iff.1 he
          simpa [result, hcommit] using h.commit h0 h1 hcommit
      | end_ =>
          obtain ⟨e, he, rfl⟩ := Option.map_eq_some_iff.1 hs'
          obtain ⟨⟨e', r⟩, hend, rfl⟩ := Option.map_eq_some_iff.1 he
          simpa [result, hend] using h.end_ h0 h1 hend
      | read address => exact h.next_plain (.read address) trivial hs'
      | write address value => exact h.next_plain (.write address value) trivial hs'
      | get address n hn => exact h.next_plain (.get address n hn) trivial hs'
      | put address t ht => exact h.next_plain (.put address t ht) trivial hs'
      | getDataPtr => exact h.next_plain (.getDataPtr) trivial hs'

end Events

/-! ### Runs -/

/-- **Along a run commits are durable and only write what has changed exactly if they are
thrifty.** -/
theorem lawful_iff (f : Sector) (size : ℕ) (h0 : 256 ≤ size) (h1 : size ≤ 4096)
    (hd : 256 ∣ size) (evs : List Event) :
    Runs.Every (next size) (Lawful size) (.start f size) evs ↔
      Runs.Every (next size) (Thrifty size) (.start f size) evs :=
  Runs.every_iff (P := Sound size) (fun s ev h => h.commits_iff (by omega) h1 hd ev)
    (fun s ev s' h _ hs' => h.next (by omega) h1 hd hs') evs (.inl (closed_start f size))

/-- **Commits are durable in every run**, thrifty or not. -/
theorem commit_durable {f : Sector} {size : ℕ} (h0 : 0 < size) (h1 : size ≤ sectorSize)
    (hd : 256 ∣ size) {s : Session} (h : Runs.Reach (next size) (.start f size) s)
    {data : List UInt8}
    (hdata : s.eeprom.data = some data) :
    ∃ s', commit s.eeprom = some (s', true) ∧ s'.sector.bytes.take size = data := by
  have hsound : Sound size s := h.invariant (.inl (closed_start f size))
    fun _ _ _ hs hs' => hs.next h0 h1 hd hs'
  rcases hsound with hc | ⟨data', ho⟩
  · rw [hc.data_eq] at hdata
    cases hdata
  · cases ho.data_eq.symm.trans hdata
    exact ⟨_, ho.commit_eq h0, ho.take_written h1⟩

/-- A run with a change and a commit. -/
def once : List Event :=
  [.call (.begin 256 (some fun _ => 0)), .call (.write 0 1), .call .commit]

/-- Its commit is thrifty, so it writes the flash once. -/
theorem lawful_once : Runs.Every (next 256) (Lawful 256) (.start blank 256) once := by
  refine (lawful_iff blank 256 (by decide) (by decide) (by decide) once).2 ?_
  have hflags : (Runs.exec (next 256) (.start blank 256) (once.take 2)).map
      (fun s => (s.sinceBegin, s.sinceCommit)) = some (true, true) := by decide +kernel
  refine ⟨fun _ _ => rfl, fun s₁ h₁ => ⟨trivial, fun s₂ h₂ => ⟨fun _ => ?_, fun _ _ => trivial⟩⟩⟩
  have hexec : Runs.exec (next 256) (.start blank 256) (once.take 2) = some s₂ := by
    rw [once, List.take, Runs.exec_cons, h₁, Option.bind_some]
    rw [List.take, Runs.exec_cons, h₂]
    rfl
  rw [hexec] at hflags
  exact congrArg Prod.snd (Option.some.inj hflags)

/-- A second commit writes the flash again. -/
theorem lawful_violated :
    ¬ ∀ (f : Sector) (size : ℕ), 256 ≤ size → size ≤ 4096 → 256 ∣ size → ∀ evs : List Event,
      Runs.Every (next size) (Lawful size) (.start f size) evs := by
  intro hall
  have h := hall blank 256 (by decide) (by decide) (by decide) (once ++ [.call .commit])
  have hflags : (Runs.exec (next 256) (.start blank 256) once).map
      (fun s => (s.sinceBegin, s.sinceCommit)) = some (true, false) := by decide +kernel
  obtain ⟨s, hs, hb⟩ := Option.map_eq_some_iff.1 hflags
  have hsound : Sound 256 s := Runs.exec_invariant (P := Sound 256)
    (fun _ _ _ h hs' => h.next (by decide) (by decide) (by decide) hs') once
    (.inl (closed_start blank 256)) hs
  have hlaw : Lawful 256 s (.call .commit) := (((Runs.every_append _ _ _).1 h).2 s hs).1
  have hthrifty := (hsound.commits_iff (by decide) (by decide) (by decide) _).1 hlaw
  obtain ⟨hbegin, hcommit⟩ := Prod.mk.inj hb
  exact absurd (hcommit.symm.trans (hthrifty hbegin)) (by decide)

end Pico.Eeprom
