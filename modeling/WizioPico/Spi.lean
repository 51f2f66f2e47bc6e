/-
**Transfers over an SPI port.**

`spi_write_read_blocking` of `SDK/hardware/spi.c` writes bytes to the queue of the port and reads
the replies from another one, while the port sends what it has got at its own pace.  Each queue has
room for eight bytes; a reply for which there is no room is lost.

* `Line` — the device at the other end, whose reply to a byte may depend on all bytes so far, and
  the pace of the port;
* `Port` — the two queues, and the bytes that have been on the wire;
* `spiWriteReadBlocking` — the function;
* `Sending` — what holds at each round of its loop: the bytes that are to be sent are the ones on
  the wire, the ones in the queue and the rest, and no reply is lost;
* `spiWriteReadBlocking_spec` — **the function returns**, with the bytes on the wire in their order
  and the replies stored in theirs, also if they are stored where the bytes come from.
-/

import Mathlib.Data.List.Basic
import Mathlib.Logic.Function.Iterate
import WizioPico.ByteMem
import WizioPico.Fuel

set_option relaxedAutoImplicit false
set_option autoImplicit false

namespace Pico.Spi

/-! ### The port -/

/-- The number of bytes that a queue of the port has room for. -/
def fifoDepth : ℕ := 8

/-- What is at the other end, and how many bytes go out between two looks at the port: now and then
there is one. -/
structure Line where
  reply : List UInt8 → UInt8
  pace : ℕ → ℕ
  goesOn : ∀ n, ∃ k, 0 < pace (n + k)

/-- The port: what is to be sent, what has come, the bytes on the wire so far, and the number of
looks at it. -/
structure Port where
  tx : List UInt8
  rx : List UInt8
  wire : List UInt8
  looks : ℕ

namespace Port

/-- Nothing is under way. -/
def Idle (p : Port) : Prop := p.tx = [] ∧ p.rx = []

/-- A byte goes out, and one comes in. -/
def shift (line : Line) (p : Port) : Port :=
  match p.tx with
  | [] => p
  | b :: tx =>
    { p with
      tx := tx
      wire := p.wire ++ [b]
      rx := if p.rx.length < fifoDepth then p.rx ++ [line.reply (p.wire ++ [b])] else p.rx }

/-- The time up to the next look at the port. -/
def look (line : Line) (p : Port) : Port :=
  { (shift line)^[line.pace p.looks] p with looks := p.looks + 1 }

/-- `spi_is_writable`. -/
def isWritable (p : Port) : Bool := p.tx.length < fifoDepth

/-- `spi_is_readable`. -/
def isReadable (p : Port) : Bool := !p.rx.isEmpty

end Port

/-! ### The function -/

/-- The variables of `spi_write_read_blocking`, with the memory and the port. -/
structure Blocking where
  src : ℕ
  dst : ℕ
  rxRemaining : ℕ
  txRemaining : ℕ
  mem : ByteMem
  port : Port

namespace Blocking

/-- A byte is written to the port, if there is room for it and for its reply. -/
def send (line : Line) (s : Blocking) : Blocking :=
  let port := s.port.look line
  if s.txRemaining ≠ 0 ∧ port.isWritable ∧ s.rxRemaining < s.txRemaining + fifoDepth then
    { s with
      src := s.src + 1
      txRemaining := s.txRemaining - 1
      port := { port with tx := port.tx ++ [s.mem s.src] } }
  else { s with port := port }

/-- A byte is read from the port, if there is one. -/
def receive (line : Line) (s : Blocking) : Blocking :=
  let port := s.port.look line
  if s.rxRemaining ≠ 0 ∧ port.isReadable then
    { s with
      dst := s.dst + 1
      rxRemaining := s.rxRemaining - 1
      mem := s.mem.blit s.dst 1 fun _ => port.rx.headD 0
      port := { port with rx := port.rx.tail } }
  else { s with port := port }

/-- The loop.  The fuel is the number of its rounds. -/
def loop (line : Line) : ℕ → Blocking → Option Blocking
  | 0, _ => none
  | fuel + 1, s =>
    if s.rxRemaining ≠ 0 ∨ s.txRemaining ≠ 0 then loop line fuel ((s.send line).receive line)
    else some s

end Blocking

/-- `spi_write_read_blocking`: the memory and the port afterwards. -/
def spiWriteReadBlocking (line : Line) (fuel : ℕ) (src dst len : ℕ) (mem : ByteMem) (port : Port) :
    Option (ByteMem × Port) :=
  (Blocking.loop line fuel ⟨src, dst, len, len, mem, port⟩).map fun s => (s.mem, s.port)

/-! ### What goes over the line -/

/-- The replies to bytes that go out one after the other. -/
def replies (line : Line) : List UInt8 → List UInt8 → List UInt8
  | _, [] => []
  | wire, b :: bytes => line.reply (wire ++ [b]) :: replies line (wire ++ [b]) bytes

@[simp] theorem length_replies (line : Line) (wire bytes : List UInt8) :
    (replies line wire bytes).length = bytes.length := by
  induction bytes generalizing wire with
  | nil => rfl
  | cons b bytes ih => simp [replies, ih]

theorem replies_append (line : Line) (wire p q : List UInt8) :
    replies line wire (p ++ q) = replies line wire p ++ replies line (wire ++ p) q := by
  induction p generalizing wire with
  | nil => simp [replies]
  | cons b p ih => simp [replies, ih]

/-- **What is under way**: some bytes have been on the wire, some are in the queue, and of the
replies some have been read and the others are in the other queue. -/
structure Carries (line : Line) (wire out queued got : List UInt8) (p : Port) : Prop where
  sent : p.wire = wire ++ out
  queue : p.tx = queued
  replied : replies line wire out = got ++ p.rx
  room : out.length + queued.length ≤ got.length + fifoDepth

section

variable {line : Line} {wire out queued got bytes : List UInt8} {p : Port} {b : UInt8}

theorem Carries.length_rx (h : Carries line wire out queued got p) :
    got.length + p.rx.length = out.length := by
  have hlen := congrArg List.length h.replied
  rw [length_replies, List.length_append] at hlen
  exact hlen.symm

/-- **A byte that goes out** is answered, and there is room for the answer. -/
theorem Carries.shift (h : Carries line wire out (b :: queued) got p) :
    Carries line wire (out ++ [b]) queued got (p.shift line) := by
  have hlen := h.length_rx
  have hroom := h.room
  rw [List.length_cons] at hroom
  have hrx : p.rx.length < fifoDepth := by omega
  have hshift : p.shift line = { p with
      tx := queued, wire := p.wire ++ [b], rx := p.rx ++ [line.reply (p.wire ++ [b])] } := by
    rw [Port.shift, h.queue]
    simp only [hrx, if_true]
  rw [hshift]
  refine ⟨by simp only [h.sent, List.append_assoc], rfl, ?_, ?_⟩
  · rw [replies_append, h.replied, h.sent]
    simp [replies]
  · simp only [List.length_append, List.length_singleton]
    omega

/-- Bytes that go out, at least one if there is one and time for it. -/
theorem Carries.shifts (h : Carries line wire out queued got p) (n : ℕ) :
    ∃ out' queued', out ++ queued = out' ++ queued' ∧
      Carries line wire out' queued' got ((Port.shift line)^[n] p) ∧
      out.length ≤ out'.length ∧ (queued ≠ [] → 0 < n → out.length < out'.length) := by
  induction n generalizing p out queued with
  | zero =>
      exact ⟨out, queued, rfl, h, Nat.le_refl _, fun _ hn => absurd hn (Nat.lt_irrefl 0)⟩
  | succ n ih =>
      rw [Function.iterate_succ_apply]
      cases queued with
      | nil =>
          have hidle : p.shift line = p := by rw [Port.shift, h.queue]
          obtain ⟨out', queued', hout, hcarries, hle, -⟩ := ih h
          rw [hidle]
          exact ⟨out', queued', hout, hcarries, hle, fun hne => absurd rfl hne⟩
      | cons b queued =>
          obtain ⟨out', queued', hout, hcarries, hle, -⟩ := ih h.shift
          rw [List.append_assoc] at hout
          rw [List.length_append, List.length_singleton] at hle
          exact ⟨out', queued', hout, hcarries, by omega, fun _ _ => by omega⟩

/-- The time up to a look. -/
theorem Carries.look (h : Carries line wire out queued got p) :
    ∃ out' queued', out ++ queued = out' ++ queued' ∧
      Carries line wire out' queued' got (p.look line) ∧ (p.look line).looks = p.looks + 1 ∧
      out.length ≤ out'.length ∧
      (queued ≠ [] → 0 < line.pace p.looks → out.length < out'.length) := by
  obtain ⟨out', queued', hout, hcarries, hle, hlt⟩ := h.shifts (line.pace p.looks)
  exact ⟨out', queued', hout, ⟨hcarries.sent, hcarries.queue, hcarries.replied, hcarries.room⟩,
    rfl, hle, hlt⟩

end

/-! ### The rounds of the loop -/

/-- **What holds at each round.**  The bytes that are to be sent are those that have been on the
wire, those in the queue, and `rest`; `got` are the replies that have been stored. -/
structure Sending (line : Line) (wire bytes : List UInt8) (mem : ByteMem) (src dst : ℕ)
    (out queued rest got : List UInt8) (s : Blocking) : Prop where
  parts : bytes = out ++ queued ++ rest
  port : Carries line wire out queued got s.port
  source : s.src = src + (out.length + queued.length)
  txLeft : s.txRemaining = rest.length
  target : s.dst = dst + got.length
  rxLeft : s.rxRemaining + got.length = bytes.length
  stored : s.mem = mem.blit dst got.length fun i => got.getD i 0

/-- Storing the replies does not change bytes that are still to be sent: the replies go somewhere
else, or to places that have been passed. -/
def Apart (src dst len : ℕ) : Prop := dst ≤ src ∨ src + len ≤ dst

section

variable {line : Line} {wire bytes out queued rest got : List UInt8} {mem : ByteMem} {src dst : ℕ}
  {s : Blocking}

theorem Sending.length_eq (h : Sending line wire bytes mem src dst out queued rest got s) :
    bytes.length = out.length + queued.length + rest.length := by
  rw [h.parts, List.length_append, List.length_append]

/-- **The time up to a look** at the port, in which the variables stay. -/
theorem Sending.look (h : Sending line wire bytes mem src dst out queued rest got s) :
    ∃ out' queued',
      Sending line wire bytes mem src dst out' queued' rest got
        { s with port := s.port.look line } ∧
      (s.port.look line).looks = s.port.looks + 1 ∧
      out.length + queued.length = out'.length + queued'.length ∧ out.length ≤ out'.length ∧
      (queued ≠ [] → 0 < line.pace s.port.looks → out.length < out'.length) := by
  obtain ⟨out', queued', hout, hcarries, hlooks, hle, hlt⟩ := h.port.look
  have hlen := congrArg List.length hout
  simp only [List.length_append] at hlen
  refine ⟨out', queued', ⟨by rw [h.parts, hout], hcarries, ?_, h.txLeft, h.target, h.rxLeft,
    h.stored⟩, hlooks, hlen, hle, hlt⟩
  rw [h.source, hlen]

/-- **Sending.**  If no byte goes to the queue, there is one in it, or a reply to one has come. -/
theorem Sending.send (h : Sending line wire bytes mem src dst out queued rest got s)
    (hbytes : ∀ i, (hi : i < bytes.length) → mem (src + i) = bytes[i])
    (hapart : Apart src dst bytes.length) :
    ∃ out' queued' rest',
      Sending line wire bytes mem src dst out' queued' rest' got (s.send line) ∧
      (s.send line).port.looks = s.port.looks + 1 ∧
      (rest'.length < rest.length ∨
        rest' = rest ∧ out.length + queued.length = out'.length + queued'.length ∧
          (s.rxRemaining ≠ 0 ∨ s.txRemaining ≠ 0 → got.length < out'.length + queued'.length) ∧
          (queued ≠ [] → 0 < line.pace s.port.looks → out.length < out'.length) ∧
          out.length ≤ out'.length) := by
  obtain ⟨out', queued', hlook, hlooks, hlen, hle, hlt⟩ := h.look
  have hcarries : Carries line wire out' queued' got (s.port.look line) := hlook.port
  have hall := hlook.length_eq
  have hrx := hcarries.length_rx
  have hrxLeft := h.rxLeft
  rw [Blocking.send]
  split
  · rename_i hcond
    obtain ⟨htx, hwritable, hwindow⟩ := hcond
    rw [h.txLeft] at htx hwindow
    have hne : rest ≠ [] := fun hnil => htx (List.length_eq_zero_iff.2 hnil)
    obtain ⟨b, rest, rfl⟩ := List.exists_cons_of_ne_nil hne
    rw [List.length_cons] at hwindow hall
    -- the byte that is read has not been overwritten by a reply
    have hb : s.mem s.src = b := by
      have hi : out.length + queued.length < bytes.length := by omega
      have hget : bytes[out.length + queued.length] = b := by
        simp only [h.parts, ← List.length_append]
        rw [List.getElem_append_right (Nat.le_refl _)]
        simp
      rw [h.source, h.stored, ByteMem.blit_of_not_mem, hbytes _ hi, hget]
      rcases hapart with hle' | hle'
      · omega
      · omega
    refine ⟨out', queued' ++ [b], rest, ⟨?_, ⟨hcarries.sent, ?_, hcarries.replied, ?_⟩, ?_, ?_,
      h.target, h.rxLeft, h.stored⟩, hlooks, .inl ?_⟩
    · rw [hlook.parts]
      simp
    · simp only [hcarries.queue, hb]
    · rw [List.length_append, List.length_singleton]
      omega
    · simp only [h.source, List.length_append, List.length_singleton]
      omega
    · simp only [h.txLeft, List.length_cons, Nat.add_sub_cancel]
    · rw [List.length_cons]
      exact Nat.lt_succ_self _
  · rename_i hcond
    refine ⟨out', queued', rest, hlook, hlooks, .inr ⟨rfl, hlen, fun hleft => ?_, hlt, hle⟩⟩
    rw [h.txLeft] at hcond hleft
    rw [Port.isWritable, hcarries.queue, decide_eq_true_eq] at hcond
    unfold fifoDepth at hcond
    omega

/-- **Receiving.**  If no reply is read, the bytes on the wire have all been answered. -/
theorem Sending.receive (h : Sending line wire bytes mem src dst out queued rest got s) :
    ∃ out' queued' got',
      Sending line wire bytes mem src dst out' queued' rest got' (s.receive line) ∧
      (s.receive line).port.looks = s.port.looks + 1 ∧
      (got.length < got'.length ∨
        got' = got ∧ got.length = out'.length ∧ out.length ≤ out'.length ∧
          (queued ≠ [] → 0 < line.pace s.port.looks → out.length < out'.length)) := by
  obtain ⟨out', queued', hlook, hlooks, hlen, hle, hlt⟩ := h.look
  have hcarries : Carries line wire out' queued' got (s.port.look line) := hlook.port
  have hall := hlook.length_eq
  have hrx := hcarries.length_rx
  have hrxLeft := h.rxLeft
  have hroom := hcarries.room
  rw [Blocking.receive]
  split
  · rename_i hcond
    obtain ⟨hleft, hreadable⟩ := hcond
    obtain ⟨b, replied, hcons⟩ : ∃ b replied, (s.port.look line).rx = b :: replied := by
      refine List.exists_cons_of_ne_nil fun hnil => ?_
      rw [Port.isReadable, hnil] at hreadable
      cases hreadable
    refine ⟨out', queued', got ++ [b], ⟨hlook.parts, ⟨hcarries.sent, hcarries.queue, ?_, ?_⟩,
      hlook.source, h.txLeft, ?_, ?_, ?_⟩, hlooks, .inl ?_⟩
    · rw [hcarries.replied, hcons]
      simp
    · rw [List.length_append, List.length_singleton]
      omega
    · simp only [h.target, List.length_append, List.length_singleton]
      omega
    · simp only [List.length_append, List.length_singleton]
      omega
    · simp only [h.stored, h.target, hcons, List.headD_cons]
      exact ByteMem.blit_concat mem dst got b
    · rw [List.length_append, List.length_singleton]
      exact Nat.lt_succ_self _
  · rename_i hcond
    refine ⟨out', queued', got, hlook, hlooks, .inr ⟨rfl, ?_, hle, hlt⟩⟩
    have hempty : (s.port.look line).rx = [] ∨ s.rxRemaining = 0 := by
      by_contra hne
      obtain ⟨hne, hzero⟩ := not_or.1 hne
      refine hcond ⟨hzero, ?_⟩
      rw [Port.isReadable, Bool.not_eq_true', List.isEmpty_eq_false_iff]
      exact hne
    rcases hempty with hempty | hzero
    · rw [hempty, List.length_nil] at hrx
      exact hrx
    · omega

/-- **A round** takes a byte on, or the port did not send anything meanwhile. -/
theorem Sending.round (h : Sending line wire bytes mem src dst out queued rest got s)
    (hbytes : ∀ i, (hi : i < bytes.length) → mem (src + i) = bytes[i])
    (hapart : Apart src dst bytes.length) (hleft : s.rxRemaining ≠ 0 ∨ s.txRemaining ≠ 0) :
    ∃ out' queued' rest' got' s', s' = (s.send line).receive line ∧
      Sending line wire bytes mem src dst out' queued' rest' got' s' ∧
      (s'.rxRemaining + s'.txRemaining < s.rxRemaining + s.txRemaining ∨
        s'.rxRemaining + s'.txRemaining = s.rxRemaining + s.txRemaining ∧
          s'.port.looks = s.port.looks + 2 ∧ line.pace s.port.looks = 0 ∧
          line.pace (s.port.looks + 1) = 0) := by
  obtain ⟨out₁, queued₁, rest₁, hsend, hlooks₁, hmoved₁⟩ := h.send hbytes hapart
  obtain ⟨out₂, queued₂, got₂, hreceive, hlooks₂, hmoved₂⟩ := hsend.receive
  refine ⟨out₂, queued₂, rest₁, got₂, _, rfl, hreceive, ?_⟩
  have htx := h.txLeft
  have hrx := h.rxLeft
  have htx₂ := hreceive.txLeft
  have hrx₂ := hreceive.rxLeft
  rcases hmoved₁ with hrest | ⟨rfl, hlen, hbusy, hpace₁, hle₁⟩
  · left
    rcases hmoved₂ with hgot | ⟨rfl, -⟩ <;> omega
  · rcases hmoved₂ with hgot | ⟨rfl, hanswered, hle₂, hpace₂⟩
    · left
      omega
    · have hgot := h.port.length_rx
      have hbusy' := hbusy hleft
      have hqueued₁ : queued₁ ≠ [] := by
        rintro rfl
        rw [List.length_nil] at hbusy'
        omega
      have hqueued : queued ≠ [] := by
        rintro rfl
        have := List.length_pos_iff.2 hqueued₁
        rw [List.length_nil] at hlen
        omega
      refine .inr ⟨by omega, by rw [hlooks₂, hlooks₁], ?_, ?_⟩
      · by_contra hpace
        have := hpace₁ hqueued (Nat.pos_of_ne_zero hpace)
        omega
      · by_contra hpace
        rw [← hlooks₁] at hpace
        have := hpace₂ hqueued₁ (Nat.pos_of_ne_zero hpace)
        omega

/-- **The loop ends**, with all bytes sent and all replies stored. -/
theorem Sending.loop {n k : ℕ} (h : Sending line wire bytes mem src dst out queued rest got s)
    (hbytes : ∀ i, (hi : i < bytes.length) → mem (src + i) = bytes[i])
    (hapart : Apart src dst bytes.length) (hn : s.rxRemaining + s.txRemaining = n)
    (hk : 0 < line.pace (s.port.looks + k)) :
    ∃ fuel out' queued' rest' got' s', Blocking.loop line fuel s = some s' ∧
      Sending line wire bytes mem src dst out' queued' rest' got' s' ∧
      s'.rxRemaining = 0 ∧ s'.txRemaining = 0 := by
  -- on what is left, and then on the looks up to the next byte that goes out
  induction n using Nat.strong_induction_on generalizing k s out queued rest got with
  | _ n ihn =>
      induction k using Nat.strong_induction_on generalizing s out queued rest got with
      | _ k ihk =>
          by_cases hleft : s.rxRemaining ≠ 0 ∨ s.txRemaining ≠ 0
          · obtain ⟨out₁, queued₁, rest₁, got₁, s₁, hs₁, hround, hmoved⟩ :=
              h.round hbytes hapart hleft
            obtain ⟨fuel, hend⟩ : ∃ fuel, ∃ out' queued' rest' got' s',
                Blocking.loop line fuel s₁ = some s' ∧
                Sending line wire bytes mem src dst out' queued' rest' got' s' ∧
                s'.rxRemaining = 0 ∧ s'.txRemaining = 0 := by
              rcases hmoved with hlt | ⟨heq, hlooks, hpace, hpace'⟩
              · obtain ⟨k', hk'⟩ := line.goesOn s₁.port.looks
                exact ihn _ (hn ▸ hlt) hround rfl hk'
              · match k with
                | 0 => exact absurd hk (by rw [Nat.add_zero, hpace]; exact Nat.lt_irrefl 0)
                | 1 => exact absurd hk (by rw [hpace']; exact Nat.lt_irrefl 0)
                | k + 2 =>
                    refine ihk k (by omega) hround (heq.trans hn) ?_
                    rwa [hlooks, Nat.add_assoc, Nat.add_comm 2 k]
            obtain ⟨out', queued', rest', got', s', hloop, hs'⟩ := hend
            refine ⟨fuel + 1, out', queued', rest', got', s', ?_, hs'⟩
            rw [Blocking.loop, if_pos hleft, ← hs₁, hloop]
          · obtain ⟨hrx, htx⟩ := not_or.1 hleft
            exact ⟨1, out, queued, rest, got, s, if_neg hleft, h, not_not.1 hrx, not_not.1 htx⟩

end

/-- More fuel does not change what the loop leaves. -/
theorem loop_mono {line : Line} {fuel fuel' : ℕ} {s s' : Blocking}
    (h : Blocking.loop line fuel s = some s') (hle : fuel ≤ fuel') :
    Blocking.loop line fuel' s = some s' := by
  induction fuel generalizing s fuel' with
  | zero => cases h
  | succ fuel ih =>
      obtain ⟨fuel', rfl⟩ := Nat.exists_eq_succ_of_ne_zero (show fuel' ≠ 0 by omega)
      rw [Blocking.loop] at h ⊢
      split
      · rename_i hleft
        rw [if_pos hleft] at h
        exact ih h (Nat.le_of_succ_le_succ hle)
      · rename_i hleft
        rwa [if_neg hleft] at h

/-- **`spi_write_read_blocking` returns**: the bytes have been on the wire one after the other, the
reply to each of them is stored, and nothing is under way. -/
theorem spiWriteReadBlocking_spec (line : Line) {src dst : ℕ} {mem : ByteMem} {port : Port}
    (bytes : List UInt8) (hidle : port.Idle)
    (hbytes : ∀ i, (hi : i < bytes.length) → mem (src + i) = bytes[i])
    (hapart : Apart src dst bytes.length) :
    ∃ port', Fuel.Returns (fun fuel =>
        spiWriteReadBlocking line fuel src dst bytes.length mem port)
          (mem.blit dst bytes.length fun i => (replies line port.wire bytes).getD i 0, port') ∧
      port'.Idle ∧ port'.wire = port.wire ++ bytes := by
  have hstart : Sending line port.wire bytes mem src dst [] [] bytes []
      ⟨src, dst, bytes.length, bytes.length, mem, port⟩ := by
    refine ⟨rfl, ⟨(List.append_nil _).symm, hidle.1, ?_, Nat.zero_le _⟩, rfl, rfl, rfl, rfl, ?_⟩
    · rw [hidle.2]
      rfl
    · exact (ByteMem.blit_zero mem dst _).symm
  obtain ⟨k, hk⟩ := line.goesOn port.looks
  obtain ⟨fuel, out, queued, rest, got, s, hloop, hs, hrx, htx⟩ :=
    hstart.loop hbytes hapart rfl hk
  -- nothing is left in the queues
  have hlen := hs.port.length_rx
  have hall := hs.length_eq
  have hgot := hs.rxLeft
  have hrest := hs.txLeft
  have hport : s.port.rx = [] := List.length_eq_zero_iff.1 (by omega)
  obtain rfl : queued = [] := List.length_eq_zero_iff.1 (by omega)
  obtain rfl : rest = [] := List.length_eq_zero_iff.1 (by omega)
  have hout : bytes = out := by rw [hs.parts, List.append_nil, List.append_nil]
  have hreplies : got = replies line port.wire bytes := by
    rw [hout, hs.port.replied, hport, List.append_nil]
  refine ⟨s.port, ?_, ⟨hs.port.queue, hport⟩, by rw [hs.port.sent, ← hout]⟩
  have hreturns : Fuel.Returns
      (fun fuel => Blocking.loop line fuel ⟨src, dst, bytes.length, bytes.length, mem, port⟩) s :=
    ⟨fuel, fun _ hle => loop_mono hloop hle⟩
  have hmem : s.mem = mem.blit dst bytes.length
      fun i => (replies line port.wire bytes).getD i 0 := by
    rw [hs.stored, hreplies, length_replies]
  rw [← hmem]
  exact hreturns.map fun s => (s.mem, s.port)

end Pico.Spi
