/-
**Several files of FatFs that are open.**

The file objects of one volume share its window, its FAT and the number of its free clusters, and
each of them has a buffer of its own.  What the calls of `f_read`, `f_write` and `f_lseek` do, in
any order and on any of the files, is what they would do to so many lists of bytes.

Main definitions:

* `Pico.Fat.Call`, `Pico.Fat.Reply` — calls, and what they return;
* `Pico.Fat.Content`, `Pico.Fat.Content.Step` — a list of bytes with a position, and what a call
  does to it;
* `Pico.Fat.Content.Runs` — runs of so many lists of bytes, each by itself;
* `Pico.Fat.Opened` — file objects on a volume, and `Pico.Fat.Shared`, what is asked of them.

Main results:

* `Pico.Fat.call_spec` — a call does to the file what it does to a list of bytes;
* `Pico.Fat.Open.bystander` — other files are left alone;
* `Pico.Fat.exec_refines` — **any run on the volume is one of so many lists of bytes**.
-/

import WizioPico.FatFollow
import WizioPico.Posix

set_option relaxedAutoImplicit false
set_option autoImplicit false

namespace Pico.Fat

open Pico.Vfs Chains
open FRESULT FsType

/-! ### Calls -/

/-- A call of `f_read`, `f_write` or `f_lseek`. -/
inductive Call where
  | read (btr : UInt32)
  | write (bytes : List UInt8) (size : bytes.length < 2 ^ 32)
  | seek (ofs : UInt32)

/-- What is returned, with the bytes that are read, or how many are written. -/
inductive Reply where
  | read (res : FRESULT) (bytes : List UInt8)
  | write (res : FRESULT) (bw : ℕ)
  | seek (res : FRESULT)
  deriving DecidableEq

/-- **A file, as it is for its user**: its bytes and the file pointer, and how it has been opened.
-/
@[ext] structure Content where
  readable : Bool
  writable : Bool
  data : List UInt8
  pos : ℕ
  deriving DecidableEq

/-- How many bytes can be written: `f_write` does not go further than a size can. -/
def Content.room (c : Content) (n : ℕ) : ℕ := min n (2 ^ 32 - 1 - c.pos)

/-- The position that `f_lseek` goes for. -/
def Content.target (c : Content) (ofs : ℕ) : ℕ :=
  if c.data.length < ofs ∧ c.writable = false then c.data.length else ofs

/-- **What a call does to a file.**  Less than what is asked for is done only if the volume is full,
and then `f_lseek` does not go back behind the end of the file; what it makes a file longer with is
not said. -/
inductive Content.Step (full : Prop) : Content → Call → Reply → Content → Prop
  | read {c : Content} {btr : UInt32} (open_read : c.readable = true) :
      Step full c (.read btr) (.read FR_OK ((c.data.drop c.pos).take btr.toNat))
        { c with pos := c.pos + min btr.toNat (c.data.length - c.pos) }
  | noRead {c : Content} {btr : UInt32} (closed : c.readable = false) :
      Step full c (.read btr) (.read FR_DENIED []) c
  | write {c : Content} {bytes : List UInt8} {size : bytes.length < 2 ^ 32} {bw : ℕ}
      (open_write : c.writable = true) (le : bw ≤ c.room bytes.length)
      (short : bw < c.room bytes.length → full) :
      Step full c (.write bytes size) (.write FR_OK bw)
        { c with data := Posix.splice c.data c.pos (bytes.take bw), pos := c.pos + bw }
  | noWrite {c : Content} {bytes : List UInt8} {size : bytes.length < 2 ^ 32}
      (closed : c.writable = false) : Step full c (.write bytes size) (.write FR_DENIED 0) c
  | seek {c : Content} {ofs : UInt32} {pos : ℕ} {tail : List UInt8}
      (le : pos ≤ c.target ofs.toNat)
      (short : pos < c.target ofs.toNat → c.writable = true ∧ c.data.length ≤ pos ∧ full)
      (length : tail.length = pos - c.data.length) :
      Step full c (.seek ofs) (.seek FR_OK) { c with data := c.data ++ tail, pos := pos }

theorem Content.Step.imp {full full' : Prop} {c c' : Content} {call : Call} {reply : Reply}
    (h : Step full c call reply c') (hfull : full → full') : Step full' c call reply c' := by
  cases h with
  | read hread => exact .read hread
  | noRead hclosed => exact .noRead hclosed
  | write hwrite hle hshort => exact .write hwrite hle fun hlt => hfull (hshort hlt)
  | noWrite hclosed => exact .noWrite hclosed
  | seek hle hshort hlength =>
      exact .seek hle (fun hlt => (hshort hlt).imp_right (And.imp_right hfull)) hlength

section

variable {ι δ : Type*} (dr : Disk δ) (g : Geometry)

/-- A call on a file object. -/
def Handle.call (h : Handle δ) : Call → Option (Reply × Handle δ)
  | .read btr => (fRead dr g (btr.toNat + 1) btr h).map fun r => (.read r.1.1 r.1.2, r.2)
  | .write bytes _ =>
    (fWrite dr g (bytes.length + 1) bytes (UInt32.ofNat bytes.length) h).map fun r =>
      (.write r.1.1 r.1.2, r.2)
  | .seek ofs =>
    let r := h.seek dr g ofs
    some (.seek r.1, r.2)

/-- What the user of a file object sees of it. -/
def Handle.content (l : List UInt32) (h : Handle δ) : Content where
  readable := h.fil.flag &&& FA_READ != 0
  writable := h.fil.flag &&& FA_WRITE != 0
  data := h.slice dr g l 0 h.fil.objsize.toNat
  pos := h.fil.fptr.toNat

end

section

variable {δ : Type*} {dr : Disk δ} {g : Geometry} {fat fat' fat'' : UInt32 → UInt32}
  {l l' l'' : List UInt32} {h h' h'' : Handle δ}

/-! ### One file -/

/-- **A call has done what it is for.** -/
structure Called (dr : Disk δ) (g : Geometry) (fat : UInt32 → UInt32) (l : List UInt32)
    (h : Handle δ) (call : Call) (reply : Reply) (fat' : UInt32 → UInt32) (l' : List UInt32)
    (h' : Handle δ) : Prop where
  grown : Grown g fat l fat' l'
  elsewhere : Elsewhere dr g l' h.fs h'.fs
  opened : Open dr g fat' l' h'
  mounted : h'.fil.mounted = true
  err : h'.fil.err = FR_OK
  step : Content.Step (Full g fat' h'.fs) (h.content dr g l) call reply (h'.content dr g l')

/-- Bytes in the middle. -/
theorem slice_drop_take (h : Handle δ) (l : List UInt32) {a n size : ℕ} (hle : a + n ≤ size) :
    ((h.slice dr g l 0 size).drop a).take n = h.slice dr g l a n := by
  refine List.ext_getElem (by simp; omega) fun i hi hi' => ?_
  simp [Handle.slice]

/-- The access mode is what it has been. -/
theorem access_of_mode {flag flag' : UInt8} (h : flag' &&& 0x3F = flag &&& 0x3F) :
    flag' &&& FA_READ = flag &&& FA_READ ∧ flag' &&& FA_WRITE = flag &&& FA_WRITE := by
  have hpart : ∀ bit : UInt8, 0x3F &&& bit = bit → flag' &&& bit = flag &&& bit := by
    intro bit hbit
    rw [← hbit, ← UInt8.and_assoc, h, UInt8.and_assoc]
  exact ⟨hpart FA_READ rfl, hpart FA_WRITE rfl⟩

/-- On a drive that does not fail, and with a FAT that is sane, nothing fails. -/
theorem not_failing {res : FRESULT} (hrel : dr.Reliable) (hsane : ∀ c, g.Valid c → fat c ≠ 1) :
    ¬Failing dr g fat res := by
  rintro (⟨-, hfailed⟩ | ⟨-, c, hc, hone⟩)
  · exact hfailed hrel
  · exact hsane c hc hone

/-- Nothing has happened. -/
theorem Called.refl {call : Call} {reply : Reply} (hopen : Open dr g fat l h)
    (hm : h.fil.mounted = true) (he : h.fil.err = FR_OK)
    (hstep : Content.Step (Full g fat h.fs) (h.content dr g l) call reply (h.content dr g l)) :
    Called dr g fat l h call reply fat l h :=
  ⟨Grown.refl fat l, Elsewhere.refl _, hopen, hm, he, hstep⟩

/-- The file pointer is in the file, and can be used. -/
theorem validate_ok (hrel : dr.Reliable) (hm : h.fil.mounted = true) (he : h.fil.err = FR_OK) :
    h.validate dr = FR_OK := by
  rw [Handle.validate, hm, hrel.noInit, if_pos (by rfl)]
  exact he

/-- `f_read` reads from a list of bytes. -/
theorem read_called {btr : UInt32} (hrel : dr.Reliable) (hopen : Open dr g fat l h)
    (hm : h.fil.mounted = true) (he : h.fil.err = FR_OK) :
    ∃ reply h', h.call dr g (.read btr) = some (reply, h') ∧
      Called dr g fat l h (.read btr) reply fat l h' := by
  have hvalid := validate_ok hrel hm he
  by_cases hflag : h.fil.flag &&& FA_READ = 0
  · have hr : fRead dr g (btr.toNat + 1) btr h = some ((FR_DENIED, []), h) := by
      rw [fRead]
      dsimp only
      rw [hvalid, if_neg (by simp), if_pos hflag]
    refine ⟨_, _, by rw [Handle.call, hr]; rfl, Called.refl hopen hm he (.noRead ?_)⟩
    change (h.fil.flag &&& FA_READ != 0) = false
    rw [hflag]
    rfl
  · obtain ⟨n, r, hn, hr, hresult⟩ := fRead_result hopen hvalid hflag
      (Nat.lt_succ_self btr.toNat)
    have hok : r.1.1 = FR_OK := by
      by_contra hne
      exact (hresult.error hne).2.2 hrel
    obtain ⟨k, hk, hbytes, hall⟩ := hresult.read
    obtain rfl := hall hok
    have hfil := hresult.fil hok
    have hptr := hopen.positioned.fptr
    have hsize := hopen.ok.size
    have hbound := h.fil.objsize.toNat_lt
    obtain ⟨hread, hwrite⟩ := access_of_mode (mode_of_clear hfil.flag)
    refine ⟨_, _, by rw [Handle.call, hr]; rfl, Grown.refl fat l, hresult.elsewhere,
      hresult.opened hok, hfil.mounted.trans hm, hfil.err.trans he, ?_⟩
    have hdata : r.2.slice dr g l 0 r.2.fil.objsize.toNat =
        h.slice dr g l 0 h.fil.objsize.toNat := by
      rw [hfil.objsize]
      refine slice_congr fun i hi => bytes_congr hopen.ok.valid
        (fun s hs => hresult.data hok s hs.owned) ?_
      change i < h.fil.objsize.toNat at hi
      omega
    have hcontent : r.2.content dr g l = { h.content dr g l with
        pos := (h.content dr g l).pos + min btr.toNat
          ((h.content dr g l).data.length - (h.content dr g l).pos) } := by
      refine Content.ext ?_ ?_ hdata ?_
      · exact congrArg (· != 0) hread
      · exact congrArg (· != 0) hwrite
      · change r.2.fil.fptr.toNat = h.fil.fptr.toNat + min btr.toNat
          ((h.slice dr g l 0 h.fil.objsize.toNat).length - h.fil.fptr.toNat)
        rw [hfil.fptr, length_slice, ← hn, UInt32.toNat_add, Nat.mod_eq_of_lt (by omega)]
    have hend : h.fil.fptr.toNat + min btr.toNat (h.fil.objsize.toNat - h.fil.fptr.toNat) ≤
        h.fil.objsize.toNat := by omega
    have hreply : r.1.2 =
        ((h.content dr g l).data.drop (h.content dr g l).pos).take btr.toNat := by
      change r.1.2 = ((h.slice dr g l 0 h.fil.objsize.toNat).drop h.fil.fptr.toNat).take btr.toNat
      rw [hbytes, hn, ← slice_drop_take h l hend,
        List.take_eq_take_iff]
      simp
    rw [hcontent, hok, hreply]
    exact .read (by simpa [Handle.content] using hflag)

/-- Bytes that have been written are spliced into the others. -/
theorem slice_splice {bytes : List UInt8} {n p size : ℕ} (hp : p ≤ size) (hn : n ≤ bytes.length)
    (hwritten : ∀ i, p ≤ i → i < p + n → h'.bytes dr g l' i = bytes.getD (i - p) 0)
    (hkept : ∀ i < size, i < p ∨ p + n ≤ i → h'.bytes dr g l' i = h.bytes dr g l i) :
    h'.slice dr g l' 0 (max size (p + n)) =
      Posix.splice (h.slice dr g l 0 size) p (bytes.take n) := by
  have hlen : (bytes.take n).length = n := by rw [List.length_take]; omega
  have htake : ((h.slice dr g l 0 size).take p).length = p := by
    rw [List.length_take, length_slice]
    omega
  have hget : ∀ i (hi : i < (h.slice dr g l 0 size).length),
      (h.slice dr g l 0 size)[i] = h.bytes dr g l i := by
    intro i hi
    simp [Handle.slice]
  refine List.ext_getElem ?_ fun i hi hi' => ?_
  · rw [length_slice, Posix.splice, List.length_append, List.length_append, htake, hlen,
      List.length_drop, length_slice]
    omega
  · have hleft : (h'.slice dr g l' 0 (max size (p + n)))[i] = h'.bytes dr g l' i := by
      simp [Handle.slice]
    rw [hleft]
    rw [length_slice] at hi
    simp only [Posix.splice, List.append_assoc]
    by_cases hfirst : i < p
    · rw [List.getElem_append_left (by omega), List.getElem_take,
        hget i (by rw [length_slice]; omega)]
      exact hkept i (by omega) (Or.inl hfirst)
    · rw [List.getElem_append_right (by omega)]
      by_cases hmiddle : i < p + n
      · rw [List.getElem_append_left (by omega), List.getElem_take,
          hwritten i (by omega) hmiddle, List.getD_eq_getElem?_getD,
          List.getElem?_eq_getElem (by omega), Option.getD_some]
        congr 1
        omega
      · rw [List.getElem_append_right (by omega), List.getElem_drop, hkept i (by omega) (by omega),
          hget _ (by rw [length_slice]; omega)]
        congr 1
        omega

/-- `f_write` writes to a list of bytes. -/
theorem write_called {bytes : List UInt8} {size : bytes.length < 2 ^ 32} (hrel : dr.Reliable)
    (hsane : ∀ c, g.Valid c → fat c ≠ 1) (hopen : Open dr g fat l h)
    (hm : h.fil.mounted = true) (he : h.fil.err = FR_OK) :
    ∃ reply h' fat' l', h.call dr g (.write bytes size) = some (reply, h') ∧
      Called dr g fat l h (.write bytes size) reply fat' l' h' := by
  have hvalid := validate_ok hrel hm he
  have hlen : (UInt32.ofNat bytes.length).toNat = bytes.length := UInt32.toNat_ofNat_of_lt' size
  by_cases hflag : h.fil.flag &&& FA_WRITE = 0
  · have hr : fWrite dr g (bytes.length + 1) bytes (UInt32.ofNat bytes.length) h =
        some ((FR_DENIED, 0), h) := by
      rw [fWrite]
      dsimp only
      rw [hvalid, if_neg (by simp), if_pos hflag]
    refine ⟨_, _, _, _, by rw [Handle.call, hr]; rfl, Called.refl hopen hm he (.noWrite ?_)⟩
    change (h.fil.flag &&& FA_WRITE != 0) = false
    rw [hflag]
    rfl
  · have hfuel : (UInt32.ofNat bytes.length).toNat < bytes.length + 1 := by omega
    obtain ⟨r, hr, hresult, -⟩ := fWrite_result bytes hopen hvalid hflag hfuel
    have hok : r.1.1 = FR_OK := by
      by_contra hne
      exact not_failing hrel hsane (hresult.error hne).2
    obtain ⟨fat', l', hwrote, hfull⟩ := hresult.wrote hok
    have hcount := hresult.count
    rw [hlen] at hcount hfull
    have hptr := hopen.positioned.fptr
    obtain ⟨hread, hwrite⟩ := access_of_mode hwrote.mode
    refine ⟨_, _, fat', l', by rw [Handle.call, hr]; rfl, hwrote.grown, hwrote.elsewhere,
      hwrote.opened, hwrote.mounted.trans hm, hwrote.err.trans he, ?_⟩
    have hcontent : r.2.content dr g l' = { h.content dr g l with
        data := Posix.splice (h.content dr g l).data (h.content dr g l).pos (bytes.take r.1.2)
        pos := (h.content dr g l).pos + r.1.2 } := by
      refine Content.ext (congrArg (· != 0) hread) (congrArg (· != 0) hwrite) ?_ hwrote.fptr
      change r.2.slice dr g l' 0 r.2.fil.objsize.toNat = Posix.splice _ _ _
      rw [hwrote.objsize]
      exact slice_splice hptr (by omega) hwrote.written hwrote.kept
    rw [hcontent, hok]
    exact .write (by simpa [Handle.content] using hflag) hcount hfull

/-- `f_lseek` seeks in a list of bytes. -/
theorem seek_called {ofs : UInt32} (hrel : dr.Reliable) (hsane : ∀ c, g.Valid c → fat c ≠ 1)
    (hopen : Open dr g fat l h) (hm : h.fil.mounted = true) (he : h.fil.err = FR_OK) :
    ∃ reply h' fat' l', h.call dr g (.seek ofs) = some (reply, h') ∧
      Called dr g fat l h (.seek ofs) reply fat' l' h' := by
  have hresult := seek_result hopen (validate_ok hrel hm he) ofs
  have hok : (h.seek dr g ofs).1 = FR_OK := by
    by_contra hne
    exact not_failing hrel hsane (hresult.error hne).2
  obtain ⟨fat', l', pos, hmoved, hpos⟩ := hresult.sought hok
  obtain ⟨hread, hwrite⟩ := access_of_mode hmoved.mode
  have hclip : (h.fil.clip ofs).toNat = (h.content dr g l).target ofs.toNat := by
    have hlen : (h.content dr g l).data.length = h.fil.objsize.toNat := length_slice _ _ _ _
    have hwrites : (h.content dr g l).writable = h.fil.writes := rfl
    rw [Fil.clip, Content.target, hlen, hwrites]
    by_cases hcond : h.fil.objsize < ofs ∧ (!h.fil.writes) = true
    · rw [if_pos hcond, if_pos ⟨UInt32.lt_iff_toNat_lt.1 hcond.1, by simpa using hcond.2⟩]
    · rw [if_neg hcond, if_neg fun hand => hcond ⟨UInt32.lt_iff_toNat_lt.2 hand.1, by
        simpa using hand.2⟩]
  rw [hclip] at hpos
  refine ⟨_, _, fat', l', rfl, hmoved.grown, hmoved.elsewhere, hmoved.opened,
    hmoved.mounted.trans hm, hmoved.err.trans he, ?_⟩
  -- what the file has got is behind what has been in it
  have hcontent : (h.seek dr g ofs).2.content dr g l' = { h.content dr g l with
      data := (h.content dr g l).data ++ (h.seek dr g ofs).2.slice dr g l' h.fil.objsize.toNat
        (pos - h.fil.objsize.toNat)
      pos := pos } := by
    refine Content.ext (congrArg (· != 0) hread) (congrArg (· != 0) hwrite) ?_ hmoved.fptr
    change (h.seek dr g ofs).2.slice dr g l' 0 (h.seek dr g ofs).2.fil.objsize.toNat =
      h.slice dr g l 0 h.fil.objsize.toNat ++ _
    have hfront : (h.seek dr g ofs).2.slice dr g l' 0 h.fil.objsize.toNat =
        h.slice dr g l 0 h.fil.objsize.toNat := by
      refine slice_congr fun i hi => ?_
      rw [Nat.zero_add]
      exact hmoved.kept i hi
    rw [hmoved.objsize, ← hfront]
    have happ : (h.seek dr g ofs).2.slice dr g l' 0 h.fil.objsize.toNat ++
        (h.seek dr g ofs).2.slice dr g l' (0 + h.fil.objsize.toNat) (pos - h.fil.objsize.toNat) =
          _ := slice_append _ _ _ _ _
    rw [Nat.zero_add] at happ
    rw [happ]
    congr 1
    omega
  rw [hcontent, hok]
  refine .seek ?_ (fun hlt => ?_) (by simp [Handle.content])
  · rcases hpos with heq | ⟨hlt, -⟩
    · exact Nat.le_of_eq heq
    · exact Nat.le_of_lt hlt
  · rcases hpos with heq | ⟨-, hend, hwrites, hfull⟩
    · exact absurd heq (Nat.ne_of_lt hlt)
    · have hlen : (h.content dr g l).data.length = h.fil.objsize.toNat := length_slice _ _ _ _
      have hsize := hopen.ok.size
      have hle := hmoved.grown.length_le
      exact ⟨hwrites, by omega, hfull⟩

/-- **A call does to the file what it does to a list of bytes.** -/
theorem call_spec (hrel : dr.Reliable) (hsane : ∀ c, g.Valid c → fat c ≠ 1)
    (hopen : Open dr g fat l h) (hm : h.fil.mounted = true) (he : h.fil.err = FR_OK)
    (call : Call) :
    ∃ reply h' fat' l', h.call dr g call = some (reply, h') ∧
      Called dr g fat l h call reply fat' l' h' := by
  cases call with
  | read btr =>
      obtain ⟨reply, h', hcall, hcalled⟩ := read_called hrel hopen hm he
      exact ⟨reply, h', fat, l, hcall, hcalled⟩
  | write bytes size => exact write_called hrel hsane hopen hm he
  | seek ofs => exact seek_called hrel hsane hopen hm he

/-! ### The other files -/

/-- The window shows no sector of a file that is open, or of a free cluster, after one of another
file has been written. -/
theorem window_apart {fs fs' : Fatfs δ} {lj : List UInt32} (hwin : ¬g.Owned fat lj fs.winsect)
    (hg : Grown g fat l fat' l') (he : Elsewhere dr g l' fs fs') :
    ¬g.Owned fat' lj fs'.winsect := by
  rintro ⟨c, hc, hin⟩
  have heq := he.window hin.apart.1 hin.apart.2.1
  refine hwin ⟨c, hc.imp_right (hg.free c), ?_⟩
  rwa [← heq]

/-- **Other files are left alone**, with what is in their buffers. -/
theorem Open.bystander {fil : Fil} {buf : Sector} {fs fs' : Fatfs δ} {lj : List UInt32}
    (hj : Open dr g fat lj ⟨fil, buf, fs⟩) (hg : Grown g fat l fat' l')
    (he : Elsewhere dr g l' fs fs') (hfat : HasFat dr.toDrive g fs' fat')
    (hdisj : lj.Disjoint l) (hused : ∀ c ∈ l', fat' c ≠ 0) :
    Open dr g fat' lj ⟨fil, buf, fs'⟩ ∧
      (⟨fil, buf, fs'⟩ : Handle δ).content dr g lj =
        (⟨fil, buf, fs⟩ : Handle δ).content dr g lj := by
  obtain ⟨ok, hp⟩ := hj
  have hwin := window_apart ok.window hg he
  have hlj : ∀ c ∈ lj, c ∉ l' := by
    intro c hc hin
    rcases hg.fresh c hin with hold | hfree
    · exact hdisj hc hold
    · exact ok.used hc hfree
  -- what the drive has in sectors of the file, and in those that are still free
  have hcontents : ∀ s, g.Owned fat' lj s →
      dr.contents fs'.drive s = dr.contents fs.drive s := by
    rintro s ⟨c, hc, hin⟩
    have hout : ¬g.InFile l' s := by
      rintro ⟨c', hc', hin'⟩
      obtain rfl := hin.unique hin'
      rcases hc with hc | hc
      · exact hlj c hc hc'
      · exact hused c hc' hc
    have hview := he.frame s hin.apart.1 hin.apart.2.1 hout
    have hne : s ≠ fs.winsect := by
      rintro rfl
      exact ok.window ⟨c, hc.imp_right (hg.free c), hin⟩
    have hne' : s ≠ fs'.winsect := by
      rintro rfl
      exact hwin ⟨c, hc, hin⟩
    rwa [view_of_ne _ hne, view_of_ne _ hne'] at hview
  have hdata : ∀ s, g.InFile lj s → (⟨fil, buf, fs'⟩ : Handle δ).data dr s =
      (⟨fil, buf, fs⟩ : Handle δ).data dr s := by
    intro s hs
    by_cases heq : s = fil.sect
    · subst heq
      exact (data_sect (⟨fil, buf, fs'⟩ : Handle δ)).trans
        (data_sect (⟨fil, buf, fs⟩ : Handle δ)).symm
    · rw [data_of_ne _ (by exact heq), data_of_ne _ (by exact heq)]
      exact hcontents s hs.owned
  refine ⟨⟨⟨hfat, fun hne => ?_, ok.valid, hwin, ok.sclust, ok.size, ok.dirty,
    fun hclean hown => ?_⟩, hp⟩, ?_⟩
  · refine (ok.chain hne).congr fun c hc => next_congr ?_
    exact hg.kept c (ok.used hc) fun hin => hdisj hc hin
  · have hown' : g.Owned fat lj fil.sect := by
      obtain ⟨c, hc, hin⟩ := hown
      exact ⟨c, hc.imp_right (hg.free c), hin⟩
    exact (ok.clean hclean hown').trans (hcontents _ hown).symm
  · have hsize := ok.size
    refine Content.ext rfl rfl (slice_congr fun i hi => bytes_congr ok.valid hdata ?_) rfl
    change i < fil.objsize.toNat at hi
    change fil.objsize.toNat ≤ _ at hsize
    omega

end

/-! ### Runs -/

section

variable {ι δ : Type*}

/-- The file objects on a volume, and the volume. -/
structure Opened (ι δ : Type*) where
  fil : ι → Fil
  buf : ι → Sector
  fs : Fatfs δ

def Opened.handle (s : Opened ι δ) (i : ι) : Handle δ := ⟨s.fil i, s.buf i, s.fs⟩

/-- What the users of the files see of them. -/
def Opened.content (dr : Disk δ) (g : Geometry) (l : ι → List UInt32) (s : Opened ι δ) (i : ι) :
    Content := (s.handle i).content dr g (l i)

/-- **What is asked of files that share a volume**: their chains do not meet, and what is known of
the number of free clusters is right. -/
structure Shared (dr : Disk δ) (g : Geometry) (fat : UInt32 → UInt32) (l : ι → List UInt32)
    (s : Opened ι δ) : Prop where
  opened : ∀ i, Open dr g fat (l i) (s.handle i)
  apart : ∀ i j, i ≠ j → (l i).Disjoint (l j)
  mounted : ∀ i, (s.fil i).mounted = true
  err : ∀ i, (s.fil i).err = FR_OK
  sane : ∀ c, g.Valid c → fat c ≠ 1
  count : CountOk dr.toDrive g s.fs

/-- **What is not of these files is as before**: what the FAT says of the clusters of others, and
what is in sectors that these files have not got. -/
structure Untouched (dr : Disk δ) (g : Geometry) (fat : UInt32 → UInt32) (l : ι → List UInt32)
    (fs : Fatfs δ) (fat' : UInt32 → UInt32) (l' : ι → List UInt32) (fs' : Fatfs δ) : Prop where
  front : ∀ i, l i <+: l' i
  fresh : ∀ i, ∀ c ∈ l' i, c ∈ l i ∨ fat c = 0
  free : ∀ c, fat' c = 0 → fat c = 0
  kept : ∀ c, fat c ≠ 0 → (∀ i, c ∉ l i) → fat' c = fat c
  frame : ∀ s, g.Ordinary s → ¬s - g.fatbase < g.fsize → (∀ i, ¬g.InFile (l' i) s) →
    fs'.view dr.toDrive s = fs.view dr.toDrive s

variable {dr : Disk δ} {g : Geometry} {fat fat' fat'' : UInt32 → UInt32}
  {l l' l'' : ι → List UInt32} {s : Opened ι δ}

theorem Untouched.trans {fs fs' fs'' : Fatfs δ} (h : Untouched dr g fat l fs fat' l' fs')
    (h' : Untouched dr g fat' l' fs' fat'' l'' fs'') : Untouched dr g fat l fs fat'' l'' fs'' where
  front i := (h.front i).trans (h'.front i)
  fresh i c hc := by
    rcases h'.fresh i c hc with hin | hfree
    · exact h.fresh i c hin
    · exact Or.inr (h.free c hfree)
  free c hc := h.free c (h'.free c hc)
  kept c hused hout := by
    have hkept := h.kept c hused hout
    rw [← hkept]
    refine h'.kept c (by rwa [hkept]) fun i hin => ?_
    exact (h.fresh i c hin).elim (hout i) hused
  frame t ht hfat hout := by
    rw [h'.frame t ht hfat hout, h.frame t ht hfat fun i hin => hout i ?_]
    obtain ⟨c, hc, hin⟩ := hin
    exact ⟨c, (h'.front i).subset hc, hin⟩

variable [DecidableEq ι]

/-- A file object after a call, and the volume after it. -/
def Opened.put (s : Opened ι δ) (i : ι) (h : Handle δ) : Opened ι δ :=
  ⟨Function.update s.fil i h.fil, Function.update s.buf i h.buf, h.fs⟩

/-- Calls on the files, one after the other. -/
def Opened.exec (dr : Disk δ) (g : Geometry) :
    Opened ι δ → List (ι × Call) → Option (List Reply × Opened ι δ)
  | s, [] => some ([], s)
  | s, (i, call) :: calls =>
    ((s.handle i).call dr g call).bind fun r =>
      (Opened.exec dr g (s.put i r.2) calls).map fun t => (r.1 :: t.1, t.2)

/-- **Runs of so many lists of bytes**, of which none knows of the others. -/
inductive Content.Runs (full : Prop) :
    (ι → Content) → List (ι × Call) → List Reply → (ι → Content) → Prop
  | nil (c : ι → Content) : Content.Runs full c [] [] c
  | cons {c c' : ι → Content} {i : ι} {call : Call} {reply : Reply} {x : Content}
      {calls : List (ι × Call)} {replies : List Reply} (step : Content.Step full (c i) call reply x)
      (rest : Content.Runs full (Function.update c i x) calls replies c') :
      Content.Runs full c ((i, call) :: calls) (reply :: replies) c'

/-- One of the files has been worked on. -/
theorem untouched_of_grown {fs fs' : Fatfs δ} {i : ι} {li : List UInt32}
    (hg : Grown g fat (l i) fat' li) (he : Elsewhere dr g li fs fs') :
    Untouched dr g fat l fs fat' (Function.update l i li) fs' where
  front j := by
    by_cases hj : j = i
    · subst hj
      rw [Function.update_self]
      exact hg.front
    · rw [Function.update_of_ne hj]
  fresh j c hc := by
    by_cases hj : j = i
    · subst hj
      rw [Function.update_self] at hc
      exact hg.fresh c hc
    · rw [Function.update_of_ne hj] at hc
      exact Or.inl hc
  free := hg.free
  kept c hused hout := hg.kept c hused (hout i)
  frame t ht hfat hout := he.frame t ht hfat (by
    have h := hout i
    rwa [Function.update_self] at h)

/-- Nothing is free if the volume is full. -/
theorem Full.none_free {fs : Fatfs δ} (hfull : Full g fat fs) (hfat : HasFat dr.toDrive g fs fat)
    (hcount : CountOk dr.toDrive g fs) : ∀ c, g.Valid c → fat c ≠ 0 := by
  rcases hfull with hzero | hall
  · have hthree := g.clusters.1
    rw [CountOk, hzero, hfat.freeClusters_eq] at hcount
    rcases hcount with hcount | hcount
    · intro c hc hfree
      have hmem := (mem_free_toNat hc).2 hfree
      rw [Finset.card_eq_zero.1 hcount.symm] at hmem
      cases hmem
    · change g.nFatent.toNat - 2 < 0 at hcount
      omega
  · exact hall

/-- **A call on one of the files.** -/
theorem Shared.call (hrel : dr.Reliable) (hs : Shared dr g fat l s) (i : ι) (call : Call) :
    ∃ reply h fat' li, (s.handle i).call dr g call = some (reply, h) ∧
      Shared dr g fat' (Function.update l i li) (s.put i h) ∧
      Untouched dr g fat l s.fs fat' (Function.update l i li) h.fs ∧
      Content.Step (∀ c, g.Valid c → fat' c ≠ 0) (s.content dr g l i) call reply
        (h.content dr g li) ∧
      (s.put i h).content dr g (Function.update l i li) =
        Function.update (s.content dr g l) i (h.content dr g li) := by
  obtain ⟨reply, h, fat', li, hcall, hcalled⟩ :=
    call_spec hrel hs.sane (hs.opened i) (hs.mounted i) (hs.err i) call
  have hfat := (hs.opened i).ok.hasFat
  have hfat' := hcalled.opened.ok.hasFat
  obtain ⟨hsane, hcount⟩ := hcalled.elsewhere.tally hrel.drive (hfat.sane_iff.2 hs.sane) hs.count
  have hother : ∀ j, j ≠ i → Open dr g fat' (l j) ⟨s.fil j, s.buf j, h.fs⟩ ∧
      (⟨s.fil j, s.buf j, h.fs⟩ : Handle δ).content dr g (l j) = s.content dr g l j :=
    fun j hj => (hs.opened j).bystander hcalled.grown hcalled.elsewhere hfat' (hs.apart j i hj)
      fun c hc => hcalled.opened.ok.used hc
  have hself : (s.put i h).handle i = h := by
    rw [Opened.handle, Opened.put]
    simp only [Function.update_self]
  have hput : ∀ j, j ≠ i → (s.put i h).handle j = ⟨s.fil j, s.buf j, h.fs⟩ := by
    intro j hj
    rw [Opened.handle, Opened.put]
    simp only [Function.update_of_ne hj]
  have hnew : ∀ j, j ≠ i → li.Disjoint (l j) := by
    intro j hj c hc hin
    rcases hcalled.grown.fresh c hc with hold | hfree
    · exact hs.apart i j (Ne.symm hj) hold hin
    · exact (hs.opened j).ok.used hin hfree
  refine ⟨reply, h, fat', li, hcall, ⟨fun j => ?_, fun j k hjk => ?_, fun j => ?_, fun j => ?_,
    hfat'.sane_iff.1 hsane, hcount⟩, untouched_of_grown hcalled.grown hcalled.elsewhere,
    hcalled.step.imp fun hfull => hfull.none_free hfat' hcount, ?_⟩
  · by_cases hj : j = i
    · subst hj
      rw [hself, Function.update_self]
      exact hcalled.opened
    · rw [hput j hj, Function.update_of_ne hj]
      exact (hother j hj).1
  · by_cases hj : j = i
    · subst hj
      rw [Function.update_self, Function.update_of_ne (Ne.symm hjk)]
      exact hnew k (Ne.symm hjk)
    · rw [Function.update_of_ne hj]
      by_cases hk : k = i
      · subst hk
        rw [Function.update_self]
        exact (hnew j hj).symm
      · rw [Function.update_of_ne hk]
        exact hs.apart j k hjk
  · change (Function.update s.fil i h.fil j).mounted = true
    by_cases hj : j = i
    · subst hj
      rw [Function.update_self]
      exact hcalled.mounted
    · rw [Function.update_of_ne hj]
      exact hs.mounted j
  · change (Function.update s.fil i h.fil j).err = FR_OK
    by_cases hj : j = i
    · subst hj
      rw [Function.update_self]
      exact hcalled.err
    · rw [Function.update_of_ne hj]
      exact hs.err j
  · funext j
    rw [Opened.content]
    by_cases hj : j = i
    · subst hj
      rw [hself, Function.update_self, Function.update_self]
    · rw [hput j hj, Function.update_of_ne hj, Function.update_of_ne hj]
      exact (hother j hj).2

/-- Less than what is asked for is done only if nothing is free. -/
theorem Content.Runs.imp {full full' : Prop} {c c' : ι → Content} {calls : List (ι × Call)}
    {replies : List Reply} (h : Content.Runs full c calls replies c') (hfull : full → full') :
    Content.Runs full' c calls replies c' := by
  induction h with
  | nil c => exact .nil c
  | cons step rest ih => exact .cons (step.imp hfull) ih

/-- **Any run on the volume is one of so many lists of bytes**: on a drive that does not fail, every
call on any of the files comes to its end, none of them is in the way of another one, and less than
what is asked for is done only on a volume of which no cluster is free in the end. -/
theorem exec_refines (hrel : dr.Reliable) (hs : Shared dr g fat l s) (calls : List (ι × Call)) :
    ∃ replies s' fat' l', s.exec dr g calls = some (replies, s') ∧ Shared dr g fat' l' s' ∧
      Untouched dr g fat l s.fs fat' l' s'.fs ∧
      Content.Runs (∀ c, g.Valid c → fat' c ≠ 0) (s.content dr g l) calls replies
        (s'.content dr g l') := by
  induction calls generalizing s fat l with
  | nil =>
      refine ⟨[], s, fat, l, rfl, hs, ⟨fun i => List.prefix_rfl, fun i c hc => Or.inl hc,
        fun _ hc => hc, fun _ _ _ => rfl, fun _ _ _ _ => rfl⟩, .nil _⟩
  | cons head calls ih =>
      obtain ⟨i, call⟩ := head
      obtain ⟨reply, h, fat₁, li, hcall, hshared, huntouched, hstep, hcontent⟩ :=
        hs.call hrel i call
      obtain ⟨replies, s', fat', l', hexec, hshared', huntouched', hruns⟩ := ih hshared
      refine ⟨reply :: replies, s', fat', l', ?_, hshared', huntouched.trans huntouched', ?_⟩
      · rw [Opened.exec, hcall, Option.bind_some, hexec]
        rfl
      · rw [hcontent] at hruns
        refine .cons (hstep.imp fun hnone c hc hfree => ?_) hruns
        exact hnone c hc (huntouched'.free c hfree)

end

/-- Two files of an empty volume that are still empty. -/
def emptyFiles : Opened Bool (UInt32 → Sector) where
  fil _ := emptyFile.fil
  buf _ := emptyFile.buf
  fs := emptyFatfs

theorem emptyFiles_shared : Shared ramDisk smallGeometry (fun _ => 0) (fun _ => []) emptyFiles where
  opened _ := emptyFile_open smallGeometry
  apart _ _ _ := List.disjoint_nil_left []
  mounted _ := rfl
  err _ := rfl
  sane _ _ h := by cases h
  count := Or.inr (by decide)

/-- Both are written to, and what is in them is read. -/
theorem exec_refines_empty : ∃ replies s' fat' l',
    emptyFiles.exec ramDisk smallGeometry [(false, .write [1, 2, 3] (by decide)),
      (true, .write [4] (by decide)), (false, .seek 1), (false, .read 5)] = some (replies, s') ∧
    Shared ramDisk smallGeometry fat' l' s' ∧
    Untouched ramDisk smallGeometry (fun _ => 0) (fun _ => []) emptyFatfs fat' l' s'.fs ∧
    Content.Runs (∀ c, smallGeometry.Valid c → fat' c ≠ 0)
      (emptyFiles.content ramDisk smallGeometry fun _ => [])
      [(false, .write [1, 2, 3] (by decide)), (true, .write [4] (by decide)), (false, .seek 1),
        (false, .read 5)] replies (s'.content ramDisk smallGeometry l') :=
  exec_refines ramDisk_reliable emptyFiles_shared _

end Pico.Fat
