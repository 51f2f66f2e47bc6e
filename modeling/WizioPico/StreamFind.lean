/-
**Looking for strings in a stream.**

`Stream::findMulti` of `arduino/Stream.cpp`, with `find` and `findUntil`, which call it.  It reads a
character at a time and keeps an index for each target.  On a character that does not go on, the
index walks back until the part that was found ends with a shorter one that does.

* `MultiTarget`, `timedRead`, `findMulti`, `find`, `findUntil` — the methods;
* `walkBack_spec` — where the index walks back to;
* `advance_spec`, `feed_spec` — a character, for one target and for all of them;
* `findMulti_reading` — **while no target has occurred, each index is the length of the longest
  proper prefix** of its target with which the characters read so far end;
* `findMulti_first` — the target whose occurrence is complete first is returned.
-/

import WizioPico.PrefixMatch
import WizioPico.Stream

set_option relaxedAutoImplicit false
set_option autoImplicit false

namespace Pico.Stream

open PrefixMatch

/-! ### The methods -/

/-- `struct MultiTarget`: the characters that are looked for, of which there are `len`, and the
index of the search. -/
structure MultiTarget where
  str : List UInt8
  index : ℕ

/-- `len`. -/
def MultiTarget.len (t : MultiTarget) : ℕ := t.str.length

/-- The loop of `timedRead`: a character is read if there is one, before the clock is looked at. -/
def timedReadLoop (timeout start : UInt32) :
    List UInt8 → List (UInt32 × List UInt8) → Option (ℤ × List UInt8 × List (UInt32 × List UInt8))
  | c :: buffered, polls => some (c.toNat, buffered, polls)
  | [], [] => none
  | [], (now, arrived) :: polls =>
    if now - start < timeout then timedReadLoop timeout start arrived polls
    else some (-1, arrived, polls)

/-- `timedRead`. -/
def timedRead (s : Stream) : Option (ℤ × Stream) :=
  match s.polls with
  | [] => none
  | (start, arrived) :: polls =>
    (timedReadLoop s.timeout start (s.buffered ++ arrived) polls).map fun r =>
      (r.1, ⟨s.timeout, r.2.1, r.2.2⟩)

/-- The loop over `i`, which compares the part that was found with itself, `diff` characters on. -/
def agreeing (str : List UInt8) (diff index i : ℕ) : ℕ :=
  if i < index then if str[i]? ≠ str[i + diff]? then i else agreeing str diff index (i + 1) else i
termination_by index - i

/-- The `do` loop, which begins by counting the index down: the index that it ends with. -/
def walkBack (str : List UInt8) (c : ℤ) (origIndex : ℕ) : ℕ → ℕ
  | 0 => 0
  | index + 1 =>
    if code str[index]? ≠ c then walkBack str c origIndex index
    else if index = 0 then 1
    else if agreeing str (origIndex - index) index 0 = index then index + 1
    else walkBack str c origIndex index

/-- A character for one target: whether it completes it, and the target with the new index. -/
def MultiTarget.advance (c : ℤ) (t : MultiTarget) : Option (Bool × MultiTarget) :=
  (t.str[t.index]?).map fun b =>
    if c = b.toNat then (t.index + 1 == t.len, { t with index := t.index + 1 })
    else if t.index = 0 then (false, t)
    else (false, { t with index := walkBack t.str c t.index t.index })

/-- A character for the targets in their order, up to the first that it completes. -/
def feed (c : ℤ) : List MultiTarget → Option (Option ℕ × List MultiTarget)
  | [] => some (none, [])
  | t :: ts =>
    (t.advance c).bind fun r =>
      if r.1 then some (some 0, r.2 :: ts)
      else (feed c ts).map fun q => (q.1.map (· + 1), r.2 :: q.2)

/-- The loop of `timedRead` is that of `timedPeek`, with the character taken that it has found. -/
theorem timedReadLoop_eq (timeout start : UInt32) (buffered : List UInt8)
    (polls : List (UInt32 × List UInt8)) :
    timedReadLoop timeout start buffered polls =
      (timedPeekLoop timeout start buffered polls).map fun r =>
        (r.1, if r.1 < 0 then r.2.1 else r.2.1.tail, r.2.2) := by
  induction polls generalizing buffered with
  | nil =>
      cases buffered with
      | nil => rfl
      | cons c buffered =>
          have hpos : ¬(c.toNat : ℤ) < 0 := Int.not_lt.2 (Int.natCast_nonneg _)
          rw [timedReadLoop, timedPeekLoop, Option.map_some, if_neg hpos, List.tail_cons]
  | cons p polls ih =>
      cases buffered with
      | nil =>
          rw [timedReadLoop, timedPeekLoop]
          split
          · exact ih p.2
          · rfl
      | cons c buffered =>
          have hpos : ¬(c.toNat : ℤ) < 0 := Int.not_lt.2 (Int.natCast_nonneg _)
          rw [timedReadLoop, timedPeekLoop, Option.map_some, if_neg hpos, List.tail_cons]

/-- Every wait looks at the clock. -/
theorem timedRead_lt {s s' : Stream} {c : ℤ} (h : s.timedRead = some (c, s')) :
    s'.polls.length < s.polls.length := by
  rw [timedRead] at h
  split at h
  · cases h
  · rename_i start arrived polls hpolls
    obtain ⟨⟨c', buffered', polls'⟩, hloop, heq⟩ := Option.map_eq_some_iff.1 h
    cases heq
    rw [timedReadLoop_eq] at hloop
    obtain ⟨⟨d, buffered, polls''⟩, hpeek, heq⟩ := Option.map_eq_some_iff.1 hloop
    cases heq
    rw [hpolls]
    exact Nat.lt_succ_of_le (timedPeekLoop_le hpeek)

/-- The loop of `findMulti`. -/
def findMultiLoop (targets : List MultiTarget) (s : Stream) :
    Option (ℤ × List MultiTarget × Stream) :=
  match _h : s.timedRead with
  | none => none
  | some (c, s') =>
    if c < 0 then some (-1, targets, s')
    else
      match feed c targets with
      | none => none
      | some (some i, targets) => some (i, targets, s')
      | some (none, targets) => findMultiLoop targets s'
termination_by s.polls.length
decreasing_by
  have hlt := timedRead_lt ‹s.timedRead = _›
  exact hlt

/-- **`findMulti`**: its result, and the targets and the stream that it leaves. -/
def findMulti (targets : List MultiTarget) (s : Stream) : Option (ℤ × List MultiTarget × Stream) :=
  match targets.findIdx? fun t => t.len = 0 with
  | some i => some (i, targets, s)
  | none => findMultiLoop targets s

/-- `findUntil`; without a terminator it is `find`. -/
def findUntil (target : List UInt8) (terminator : Option (List UInt8)) (s : Stream) :
    Option (Bool × Stream) :=
  let targets : List MultiTarget :=
    match terminator with
    | none => [⟨target, 0⟩]
    | some terminator => [⟨target, 0⟩, ⟨terminator, 0⟩]
  (findMulti targets s).map fun r => (r.1 == 0, r.2.2)

/-- `find`. -/
def find (target : List UInt8) (s : Stream) : Option (Bool × Stream) := findUntil target none s

/-! ### Reading a character -/

/-- A character that comes is read, and nothing is when the wait ends without one. -/
theorem Awaits.timedRead {s s' : Stream} {r : Option UInt8} (h : s.Awaits r s') :
    s.timedRead = some (code r, if r.isSome then s'.read else s') := by
  obtain ⟨htimeout, start, arrived, polls, hpolls, hawait⟩ := h
  rw [Stream.timedRead, hpolls]
  dsimp only
  rw [timedReadLoop_eq, timedPeekLoop_of_await hawait, ← htimeout]
  cases r with
  | none => rfl
  | some c =>
      have hpos : ¬code (some c) < 0 := Int.not_lt.2 (Int.natCast_nonneg _)
      rw [Option.map_some, Option.map_some, if_neg hpos]
      rfl

/-- Characters that come in time come in two parts. -/
theorem Arrives.split {x y : List UInt8} {s t : Stream} (h : Arrives s (x ++ y) t) :
    ∃ m, Arrives s x m ∧ Arrives m y t := by
  induction x generalizing s with
  | nil => exact ⟨s, Arrives.nil s, h⟩
  | cons c x ih =>
      cases h with
      | cons hawait hrest =>
          obtain ⟨m, hx, hy⟩ := ih hrest
          exact ⟨m, Arrives.cons hawait hx, hy⟩

theorem Arrives.trans {x y : List UInt8} {s m t : Stream} (h : Arrives s x m) (h' : Arrives m y t) :
    Arrives s (x ++ y) t := by
  induction h with
  | nil s => exact h'
  | cons hawait _ ih => exact Arrives.cons hawait (ih h')

/-! ### The index of a target -/

section

variable {str w : List UInt8} {u : UInt8} {diff index orig i : ℕ}

/-- The loop over `i` gets to the end exactly if everything agrees. -/
theorem agreeing_eq_iff (hi : i ≤ index) :
    agreeing str diff index i = index ↔ ∀ j, i ≤ j → j < index → str[j]? = str[j + diff]? := by
  obtain ⟨n, hn⟩ := Nat.exists_eq_add_of_le hi
  induction n generalizing i with
  | zero =>
      have hstop : ¬i < index := by omega
      rw [agreeing, if_neg hstop]
      exact iff_of_true (by omega) fun j hj hj' => absurd hj' (by omega)
  | succ n ih =>
      rw [agreeing, if_pos (by omega)]
      split
      · rename_i hne
        exact iff_of_false (by omega) fun hall => hne (hall i (Nat.le_refl i) (by omega))
      · rename_i heq
        rw [ih (by omega) (by omega)]
        constructor
        · intro hall j hj hj'
          rcases Nat.eq_or_lt_of_le hj with rfl | hlt
          · exact not_not.1 heq
          · exact hall j hlt hj'
        · exact fun hall j hj => hall j (by omega)

/-- A character of the target is the one that was read. -/
theorem code_eq_iff {r : Option UInt8} : code r = (u.toNat : ℤ) ↔ r = some u := by
  cases r with
  | none =>
      refine iff_of_false (fun h => ?_) (fun h => by cases h)
      have hneg : (-1 : ℤ) = u.toNat := h
      omega
  | some b =>
      rw [Option.some.injEq, ← UInt8.toNat_inj]
      exact Int.ofNat_inj

/-- **Where the index walks back to.** -/
theorem walkBack_spec (horig : orig ≤ str.length) (hindex : index ≤ orig) :
    FallsTo str u orig index (walkBack str u.toNat orig index) := by
  induction index with
  | zero => exact Or.inr ⟨rfl, fun i hi => absurd hi (Nat.not_lt_zero i)⟩
  | succ index ih =>
      have hrest := ih (by omega)
      rw [walkBack]
      by_cases hc : str[index]? = some u
      · rw [if_neg (not_not.2 (code_eq_iff.2 hc))]
        by_cases hzero : index = 0
        · subst hzero
          rw [if_pos rfl]
          exact fallsTo_succ ⟨hc, by rw [List.take_zero]; exact List.nil_suffix⟩
        · rw [if_neg hzero]
          have hagree : agreeing str (orig - index) index 0 = index ↔ _ :=
            agreeing_eq_iff (Nat.zero_le index)
          have hends := take_suffix_take_iff (p := str) (show index ≤ orig by omega) horig
          split
          · rename_i hall
            exact fallsTo_succ ⟨hc, hends.2 fun i hi => hagree.1 hall i (Nat.zero_le i) hi⟩
          · rename_i hnot
            exact hrest.pass fun h => hnot (hagree.2 fun i _ hi => hends.1 h.2 i hi)
      · rw [if_pos fun h => hc (code_eq_iff.1 h)]
        exact hrest.pass fun h => hc h.1

end

/-! ### A character for the targets -/

section

variable {w : List UInt8} {u : UInt8} {ts : List MultiTarget}

/-- The index is the length of the longest proper prefix with which a text ends. -/
def MultiTarget.Tracks (t : MultiTarget) (w : List UInt8) : Prop := Longest t.str w t.index

/-- **A character for one target** completes it, or leaves the index right for the longer text. -/
theorem advance_spec {t : MultiTarget} (ht : t.Tracks w) :
    ∃ done t', t.advance u.toNat = some (done, t') ∧ t'.str = t.str ∧
      (done = true ↔ t.str <:+ w ++ [u]) ∧ (done = false → t'.Tracks (w ++ [u])) := by
  have hlt := ht.lt
  have hcompletes := ht.completes_iff (c := u)
  have hchar : t.str[t.index]? = some t.str[t.index] := List.getElem?_eq_getElem hlt
  rw [MultiTarget.advance, hchar, Option.map_some]
  by_cases heq : (u.toNat : ℤ) = t.str[t.index].toNat
  · have hu : t.str[t.index]? = some u := by
      rw [hchar]
      exact congrArg some (UInt8.toNat.inj (Int.ofNat.inj heq)).symm
    rw [if_pos heq]
    refine ⟨_, _, rfl, rfl, ?_, fun hdone => ?_⟩
    · rw [hcompletes, beq_iff_eq]
      exact (and_iff_left hu).symm
    · have hne : t.index + 1 ≠ t.str.length := ne_of_beq_false hdone
      exact ht.extend hu (by omega)
  · have hu : t.str[t.index]? ≠ some u := fun h => heq (by
      rw [hchar] at h
      rw [Option.some.inj h])
    have hopen : ¬t.str <:+ w ++ [u] := fun h => hu (hcompletes.1 h).2
    rw [if_neg heq]
    split
    · rename_i hzero
      refine ⟨_, _, rfl, rfl, iff_of_false (by decide) hopen, fun _ => ?_⟩
      -- below the index 0 there is nothing to fall back to
      have hfall : FallsTo t.str u t.index t.index t.index := by
        rw [hzero]
        exact Or.inr ⟨rfl, fun i hi => absurd hi (Nat.not_lt_zero i)⟩
      exact ht.fall hu hfall
    · refine ⟨_, _, rfl, rfl, iff_of_false (by decide) hopen, fun _ => ?_⟩
      exact ht.fall hu (walkBack_spec (Nat.le_of_lt hlt) (Nat.le_refl _))

/-- **A character for all targets**: the first that it completes, or indices for the longer text. -/
theorem feed_spec (hts : ∀ t ∈ ts, t.Tracks w) :
    ∃ r ts', feed u.toNat ts = some (r, ts') ∧
      ts'.map MultiTarget.str = ts.map MultiTarget.str ∧
      match r with
      | some i => (∃ p, (ts.map MultiTarget.str)[i]? = some p ∧ p <:+ w ++ [u]) ∧
          ∀ j < i, ∀ p, (ts.map MultiTarget.str)[j]? = some p → ¬p <:+ w ++ [u]
      | none => (∀ t ∈ ts', t.Tracks (w ++ [u])) ∧
          ∀ p ∈ ts.map MultiTarget.str, ¬p <:+ w ++ [u] := by
  induction ts with
  | nil =>
      exact ⟨none, [], rfl, rfl, fun t ht => absurd ht List.not_mem_nil,
        fun p hp => absurd hp List.not_mem_nil⟩
  | cons t ts ih =>
      obtain ⟨done, t', hadvance, hstr, hdone, htracks⟩ :=
        advance_spec (u := u) (hts t List.mem_cons_self)
      obtain ⟨r, ts', hfeed, hstrs, hr⟩ := ih fun t ht => hts t (List.mem_cons_of_mem _ ht)
      rw [feed, hadvance, Option.bind_some]
      cases done with
      | true =>
          refine ⟨some 0, t' :: ts, rfl, by rw [List.map_cons, List.map_cons, hstr],
            ⟨t.str, rfl, hdone.1 rfl⟩, fun j hj => absurd hj (Nat.not_lt_zero j)⟩
      | false =>
          have hopen : ¬t.str <:+ w ++ [u] := fun h => Bool.false_ne_true (hdone.2 h)
          refine ⟨r.map (· + 1), t' :: ts', ?_, by rw [List.map_cons, List.map_cons, hstr, hstrs],
            ?_⟩
          · rw [if_neg Bool.false_ne_true, hfeed]
            rfl
          · cases r with
            | none =>
                refine ⟨fun q hq => ?_, fun p hp => ?_⟩
                · rcases List.mem_cons.1 hq with rfl | hq
                  · exact htracks rfl
                  · exact hr.1 q hq
                · rcases List.mem_cons.1 hp with rfl | hp
                  · exact hopen
                  · exact hr.2 p hp
            | some i =>
                obtain ⟨⟨p, hp, hsuffix⟩, hlow⟩ := hr
                refine ⟨⟨p, hp, hsuffix⟩, fun j hj q hq => ?_⟩
                cases j with
                | zero =>
                    cases hq
                    exact hopen
                | succ j => exact hlow j (Nat.lt_of_succ_lt_succ hj) q hq

end

/-! ### The loop -/

section

variable {targets ts : List MultiTarget} {s m : Stream}

/-- One turn of the loop. -/
theorem findMultiLoop_of_awaits (targets : List MultiTarget) {r : Option UInt8} :
    s.Awaits r m → findMultiLoop targets s =
      match r with
      | none => some (-1, targets, m)
      | some c =>
        (feed c.toNat targets).bind fun q =>
          match q.1 with
          | some i => some ((i : ℤ), q.2, m.read)
          | none => findMultiLoop q.2 m.read := by
  intro hawait
  have hread := hawait.timedRead
  rw [findMultiLoop]
  split
  · rename_i hnone
    rw [hread] at hnone
    cases hnone
  · rename_i c' s' hsome
    cases hread.symm.trans hsome
    cases r with
    | none => rfl
    | some c =>
        have hpos : ¬code (some c) < 0 := Int.not_lt.2 (Int.natCast_nonneg _)
        have hcode : code (some c) = c.toNat := rfl
        rw [if_neg hpos, hcode]
        dsimp only
        cases feed (c.toNat : ℤ) targets with
        | none => rfl
        | some q =>
            obtain ⟨answer, ts⟩ := q
            cases answer <;> rfl

/-- **Reading on while no target is complete**: the loop goes on behind the characters with indices
for the longer text. -/
theorem findMultiLoop_reading {w x : List UInt8} (hts : ∀ t ∈ targets, t.Tracks w)
    (hopen : ∀ n ≤ x.length, 0 < n →
      ∀ p ∈ targets.map MultiTarget.str, ¬p <:+ w ++ x.take n)
    (harr : Arrives s x m) :
    ∃ ts, findMultiLoop targets s = findMultiLoop ts m ∧
      ts.map MultiTarget.str = targets.map MultiTarget.str ∧ ∀ t ∈ ts, t.Tracks (w ++ x) := by
  induction x generalizing w s targets with
  | nil =>
      cases harr
      exact ⟨targets, rfl, rfl, by rwa [List.append_nil]⟩
  | cons c x ih =>
      cases harr with
      | cons hawait hrest =>
          obtain ⟨r, ts, hfeed, hstrs, hr⟩ := feed_spec (u := c) hts
          cases r with
          | some i =>
              obtain ⟨⟨p, hp, hsuffix⟩, -⟩ := hr
              have hnot := hopen 1 (Nat.succ_le_succ (Nat.zero_le _)) Nat.one_pos p
                (List.mem_of_getElem? hp)
              exact absurd hsuffix hnot
          | none =>
              have hopen' : ∀ n ≤ x.length, 0 < n →
                  ∀ p ∈ ts.map MultiTarget.str, ¬p <:+ (w ++ [c]) ++ x.take n := by
                intro n hn _ p hp
                rw [List.append_assoc, List.singleton_append, ← List.take_succ_cons]
                rw [hstrs] at hp
                exact hopen (n + 1) (Nat.succ_le_succ hn) (Nat.succ_pos n) p hp
              obtain ⟨ts', hloop, hstrs', htracks⟩ := ih hr.1 hopen' hrest
              have hturn := findMultiLoop_of_awaits targets hawait
              dsimp only at hturn
              rw [hfeed] at hturn
              refine ⟨ts', hturn.trans hloop, hstrs'.trans hstrs, ?_⟩
              rwa [List.append_assoc, List.singleton_append] at htracks

end

/-! ### Finding -/

section

variable {targets : List MultiTarget} {cs : List UInt8} {s t u : Stream}

/-- Targets as a caller passes them: none of them is empty, and all indices are 0. -/
def Fresh (targets : List MultiTarget) : Prop := ∀ t ∈ targets, t.str ≠ [] ∧ t.index = 0

theorem Fresh.tracks (h : Fresh targets) : ∀ t ∈ targets, t.Tracks [] := fun t ht => by
  obtain ⟨hne, hzero⟩ := h t ht
  rw [MultiTarget.Tracks, hzero]
  exact longest_nil hne

/-- Without an empty target `findMulti` is its loop. -/
theorem Fresh.findMulti_eq (h : Fresh targets) (s : Stream) :
    findMulti targets s = findMultiLoop targets s := by
  have hnone : (targets.findIdx? fun t => t.len = 0) = none :=
    List.findIdx?_eq_none_iff.2 fun t ht =>
      decide_eq_false fun hlen => (h t ht).1 (List.length_eq_zero_iff.1 hlen)
  rw [findMulti, hnone]

/-- **While no target has occurred**, `findMulti` goes on, and the index of each target is the
length of the longest proper prefix of the target with which the characters read so far end. -/
theorem findMulti_reading {m : Stream} (htargets : Fresh targets)
    (hopen : ∀ p ∈ targets.map MultiTarget.str, ¬p <:+: cs) (harr : Arrives s cs m) :
    ∃ ts, findMulti targets s = findMultiLoop ts m ∧
      ts.map MultiTarget.str = targets.map MultiTarget.str ∧ ∀ t ∈ ts, t.Tracks cs := by
  rw [htargets.findMulti_eq]
  refine findMultiLoop_reading htargets.tracks (fun n hn _ p hp hsuffix => ?_) harr
  exact hopen p hp (infix_iff.2 ⟨n, hn, hsuffix⟩)

/-- **The target that is complete first** is returned, and what is behind it is not read. -/
theorem findMulti_of_first {i n : ℕ} (htargets : Fresh targets)
    (hfirst : First (targets.map MultiTarget.str) cs i n) (harr : Arrives s cs t) :
    ∃ ts m, findMulti targets s = some ((i : ℤ), ts, m) ∧ Arrives s (cs.take n) m ∧
      Arrives m (cs.drop n) t := by
  obtain ⟨p, hp, hcomplete⟩ := hfirst.complete
  have hle := hfirst.le
  -- the target is not empty, so there is a last character
  have hpos : n ≠ 0 := by
    rintro rfl
    obtain ⟨q, hq, rfl⟩ := List.mem_map.1 (List.mem_of_getElem? hp)
    exact (htargets q hq).1 (List.suffix_nil.1 hcomplete)
  obtain ⟨k, rfl⟩ := Nat.exists_eq_succ_of_ne_zero hpos
  obtain ⟨c, hc⟩ : ∃ c, cs[k]? = some c := ⟨cs[k], List.getElem?_eq_getElem hle⟩
  have htake : cs.take (k + 1) = cs.take k ++ [c] := by
    rw [List.take_add_one, hc, Option.toList_some]
  have hcs : cs = cs.take k ++ c :: cs.drop (k + 1) := by
    rw [← List.singleton_append, ← List.append_assoc, ← htake, List.take_append_drop]
  rw [hcs] at harr
  obtain ⟨m, hfront, hrest⟩ := harr.split
  cases hrest with
  | cons hawait hrest =>
      rename_i m'
      have hopen : ∀ p ∈ targets.map MultiTarget.str, ¬p <:+: cs.take k := by
        intro p hp hin
        obtain ⟨j, hj, hsuffix⟩ := infix_iff.1 hin
        rw [List.length_take] at hj
        rw [List.take_take, Nat.min_eq_left (by omega)] at hsuffix
        exact hfirst.earliest j (by omega) p hp hsuffix
      obtain ⟨ts, hloop, hstrs, htracks⟩ := findMulti_reading htargets hopen hfront
      obtain ⟨r, ts', hfeed, -, hr⟩ := feed_spec (u := c) htracks
      rw [htake] at hcomplete
      have hlowest := hfirst.lowest
      rw [htake] at hlowest
      cases r with
      | none =>
          rw [hstrs] at hr
          exact absurd hcomplete (hr.2 p (List.mem_of_getElem? hp))
      | some j =>
          rw [hstrs] at hr
          obtain ⟨⟨q, hq, hsuffix⟩, hlow⟩ := hr
          have hij : j = i := by
            rcases Nat.lt_trichotomy j i with hlt | heq | hgt
            · exact absurd hsuffix (hlowest j hlt q hq)
            · exact heq
            · exact absurd hcomplete (hlow i hgt p hp)
          subst hij
          have hturn := findMultiLoop_of_awaits ts hawait
          dsimp only at hturn
          rw [hfeed] at hturn
          refine ⟨ts', m'.read, hloop.trans hturn, ?_, hrest⟩
          rw [htake]
          exact hfront.trans (Arrives.cons hawait (Arrives.nil _))

/-- **If no target occurs** everything is read, and -1 is returned. -/
theorem findMulti_of_none (htargets : Fresh targets)
    (hopen : ∀ p ∈ targets.map MultiTarget.str, ¬p <:+: cs) (harr : Arrives s cs t)
    (hend : t.Awaits none u) : ∃ ts, findMulti targets s = some (-1, ts, u) := by
  obtain ⟨ts, hloop, -⟩ := findMulti_reading htargets hopen harr
  exact ⟨ts, hloop.trans (findMultiLoop_of_awaits ts hend)⟩

/-- **What `findMulti` finds.**  For every stream of characters that come in time, with a timeout
behind them, and all targets that are not empty, with indices of 0: the result is `i` exactly if the
target `i` is complete first, the lowest of several, and the characters up to its end have been
read; it is -1 exactly if no target occurs, and everything has been read.  Whatever part of the
stream has been read without an occurrence, the loop goes on from there, with the length of the
longest proper prefix for the index of each target. -/
theorem findMulti_first (targets : List MultiTarget) (htargets : Fresh targets) (cs : List UInt8)
    (s t u : Stream) (harr : Arrives s cs t) (hend : t.Awaits none u) :
    (∃ r ts m, findMulti targets s = some (r, ts, m) ∧
      (∀ i : ℕ, r = i ↔ ∃ n, First (targets.map MultiTarget.str) cs i n) ∧
      (∀ i n, First (targets.map MultiTarget.str) cs i n →
        Arrives s (cs.take n) m ∧ Arrives m (cs.drop n) t) ∧
      (r = -1 ↔ ∀ p ∈ targets.map MultiTarget.str, ¬p <:+: cs) ∧ (r = -1 → m = u)) ∧
    ∀ w, w <+: cs → (∀ p ∈ targets.map MultiTarget.str, ¬p <:+: w) →
      ∃ ts m, Arrives s w m ∧ findMulti targets s = findMultiLoop ts m ∧
        ts.map MultiTarget.str = targets.map MultiTarget.str ∧
        ∀ t ∈ ts, Longest t.str w t.index := by
  constructor
  · by_cases hopen : ∀ p ∈ targets.map MultiTarget.str, ¬p <:+: cs
    · obtain ⟨ts, hfind⟩ := findMulti_of_none htargets hopen harr hend
      have hnever : ∀ i n, ¬First (targets.map MultiTarget.str) cs i n := fun i n hfirst => by
        obtain ⟨p, hp, hsuffix⟩ := hfirst.complete
        exact hopen p (List.mem_of_getElem? hp) (infix_iff.2 ⟨n, hfirst.le, hsuffix⟩)
      exact ⟨-1, ts, u, hfind, fun i => iff_of_false (by omega) fun ⟨n, hn⟩ => hnever i n hn,
        fun i n hn => absurd hn (hnever i n), iff_of_true rfl hopen, fun _ => rfl⟩
    · have hsome : ∃ p ∈ targets.map MultiTarget.str, ∃ n ≤ cs.length, p <:+ cs.take n := by
        by_contra hnone
        exact hopen fun p hp hin => hnone ⟨p, hp, infix_iff.1 hin⟩
      obtain ⟨i, n, hfirst⟩ := exists_first hsome
      obtain ⟨ts, m, hfind, hfront, hrest⟩ := findMulti_of_first htargets hfirst harr
      have hne : (i : ℤ) ≠ -1 := by omega
      refine ⟨i, ts, m, hfind, fun j => ⟨fun hj => ?_, ?_⟩, fun j n' hfirst' => ?_,
        iff_of_false hne hopen, fun h => absurd h hne⟩
      · obtain rfl : i = j := Int.ofNat.inj hj
        exact ⟨n, hfirst⟩
      · rintro ⟨n', hfirst'⟩
        rw [(hfirst.unique hfirst').1]
      · rw [← (hfirst.unique hfirst').2]
        exact ⟨hfront, hrest⟩
  · rintro w ⟨rest, rfl⟩ hopen
    obtain ⟨m, hfront, -⟩ := harr.split
    obtain ⟨ts, hloop, hstrs, htracks⟩ := findMulti_reading htargets hopen hfront
    exact ⟨ts, m, hfront, hloop, hstrs, htracks⟩

/-- **`find` returns true** exactly if the target occurs in what comes. -/
theorem find_eq {target : List UInt8} (htarget : target ≠ []) (harr : Arrives s cs t)
    (hend : t.Awaits none u) : ∃ m, find target s = some (decide (target <:+: cs), m) := by
  have hfresh : Fresh [⟨target, 0⟩] := fun t ht => by
    rw [List.mem_singleton.1 ht]
    exact ⟨htarget, rfl⟩
  rw [find, findUntil]
  by_cases hin : target <:+: cs
  · obtain ⟨i, n, hfirst⟩ := exists_first ⟨target, List.mem_singleton_self target, infix_iff.1 hin⟩
    obtain ⟨p, hp, -⟩ := hfirst.complete
    obtain rfl : i = 0 := by
      have hlt := (List.getElem?_eq_some_iff.1 hp).1
      exact Nat.lt_one_iff.1 hlt
    obtain ⟨ts, m, hfind, -⟩ := findMulti_of_first hfresh hfirst harr
    refine ⟨m, ?_⟩
    rw [hfind, decide_eq_true hin]
    rfl
  · obtain ⟨ts, hfind⟩ := findMulti_of_none hfresh (fun p hp => by
      rw [List.mem_singleton.1 hp]
      exact hin) harr hend
    refine ⟨u, ?_⟩
    rw [hfind, decide_eq_false hin]
    rfl

end

/-- `"1112"`, and `"12"`, in the stream `"11112"`: both are complete with the last character, and
the first is returned. -/
theorem findMulti_overlap :
    ∃ r ts m, findMulti [⟨[49, 49, 49, 50], 0⟩, ⟨[49, 50], 0⟩]
      ⟨1000, [49, 49, 49, 49, 50], (List.replicate 5 (0, [])) ++ [(0, []), (1000, [])]⟩ =
        some (r, ts, m) ∧ r = 0 := by
  have harr := arrives_buffered 1000 [49, 49, 49, 49, 50] [] [(0, []), (1000, [])]
    (List.replicate 5 0) rfl
  have hend : Awaits ⟨1000, [], [(0, []), (1000, [])]⟩ none ⟨1000, [], []⟩ :=
    ⟨rfl, 0, [], [(1000, [])], rfl, Await.late (by decide)⟩
  have hfresh : Fresh [⟨[49, 49, 49, 50], 0⟩, ⟨[49, 50], 0⟩] := by
    intro t ht
    simp only [List.mem_cons, List.not_mem_nil, or_false] at ht
    rcases ht with rfl | rfl
    · exact ⟨List.cons_ne_nil _ _, rfl⟩
    · exact ⟨List.cons_ne_nil _ _, rfl⟩
  obtain ⟨⟨r, ts, m, hfind, hr, -⟩, -⟩ := findMulti_first _ hfresh _ _ _ _ harr hend
  exact ⟨r, ts, m, hfind, (hr 0).2 ⟨5, Nat.le_refl 5, ⟨_, rfl, [49], rfl⟩, by decide,
    fun j hj => absurd hj (Nat.not_lt_zero j)⟩⟩

end Pico.Stream
