/-
# `AdvVcom.Driver.Faults` — what a failing ioctl leaves behind

`adv_proc_ioctl` refuses a command word or a pointer before it touches the port, but
the `switch` acts first and copies later, or goes on after a failed copy with the zero
that `__get_user` leaves in `tmp`.  So the five commands that read the user's `int` are
carried out with 0, and the attribute pointer is flipped before it is handed over:

    IOCGATTRPTR   the other slot is filled and becomes the current one
    IOCSTXTAIL    the tail moves by 0, and then the tty is served
    IOCSRXHEAD    the head moves by 0, or to the tail if CLEAN is set
    IOCSMCTRL     the modem inputs become 0, and every one that was set is counted
    IOCSINTER, IOCSCLR   no bit of the mask is set: nothing

**Proved here.**

    serving the tty changes nothing exactly if it takes nothing   (`recvChars_unchanged_iff`)
    a failed ioctl changes nothing exactly if it is harmless      (`failed_ioctl_unchanged_iff`)
    the four that are not                                         (`failed_ioctl_acts`)
-/
import AdvVcom.Driver.Range

namespace AdvVcom

open Lib.Ring

variable {β : Type}

/-! ## What is asked, and when it holds -/

/-- All the tty was given so far. -/
def Vcom.input (v : Vcom β) : List β := v.log.flatMap Access.inserted

/-- Both rings, the attributes with both slots and the modem inputs, the counters and
the tty's input are the same. -/
structure Vcom.Unchanged (v v' : Vcom β) : Prop where
  tx : v'.tx = v.tx
  rx : v'.rx = v.rx
  attr : v'.attr = v.attr
  icount : v'.icount = v.icount
  input : v'.input = v.input

/-- The tty takes nothing out of the TX ring: it is throttled, the ring is off or
empty, or the tty has no room. -/
def Vcom.TakesNone (accept : List Nat) (v : Vcom β) : Prop :=
  v.attr.throttled = true ∨ v.tx.enabled = false ∨ getRbLength v.tx.toRingBuf ≤ 0 ∨
    ttyInsert (accept.headD 0) (getRbLlength v.tx.toRingBuf) = 0

/-- The commands that may fail in a state without leaving a trace. -/
def Ioc.Harmless (accept : List Nat) (v : Vcom β) : Ioc → Prop
  | .gAttrPtr => False
  | .sTxTail => (int32 v.tx.tail).tmod v.tx.size = v.tx.tail ∧ v.TakesNone accept
  | .sRxHead => v.rx.clean = false ∧ (int32 v.rx.head).tmod v.rx.size = v.rx.head
  | .sMCtrl => v.attr.mctrl = 0
  | _ => True

theorem Vcom.Unchanged.refl (v : Vcom β) : v.Unchanged v := ⟨rfl, rfl, rfl, rfl, rfl⟩

/-! ## Serving the tty -/

theorem Vcom.input_append (v : Vcom β) (a : Access β) :
    { v with log := v.log ++ [a] }.input = v.input ++ a.inserted := by
  simp [Vcom.input]

/-- The loop adds to the tty's input. -/
theorem recvLoop_input (maxRetry : Nat) (accept : List Nat) (count : Int) (v : Vcom β) :
    v.input <+: (recvLoop maxRetry accept count v).input := by
  induction maxRetry generalizing accept count v with
  | zero => exact List.prefix_refl _
  | succ maxRetry ih =>
      simp only [recvLoop]
      split
      · split
        · refine List.IsPrefix.trans ?_ (ih _ _ _)
          exact ⟨_, (Vcom.input_append v _).symm⟩
        · exact ⟨_, (Vcom.input_append v _).symm⟩
      · exact List.prefix_refl _

/-- An attempt at which the tty takes something adds that to its input. -/
theorem recvLoop_input_lt (maxRetry : Nat) {accept : List Nat} {count : Int} {v : Vcom β}
    (hcount : 0 < count)
    (htake : ttyInsert (accept.headD 0) (getRbLlength v.tx.toRingBuf) ≠ 0) :
    v.input.length < (recvLoop (maxRetry + 1) accept count v).input.length := by
  have hgrows {v' : Vcom β} (hv' : v'.input = v.input ++ cells v.tx.data
      (getRbHead v.tx.toRingBuf) (ttyInsert (accept.headD 0) (getRbLlength v.tx.toRingBuf))) :
      v.input.length < v'.input.length := by
    rw [hv', List.length_append, length_cells]
    exact Nat.lt_add_of_pos_right (Nat.pos_of_ne_zero htake)
  simp only [recvLoop, if_pos hcount]
  split
  · exact Nat.lt_of_lt_of_le (hgrows (Vcom.input_append v _)) (recvLoop_input _ _ _ _).length_le
  · exact hgrows (Vcom.input_append v _)

/-- An attempt at which it takes nothing is the last one. -/
theorem recvLoop_none {maxRetry : Nat} {accept : List Nat} {count : Int} {v : Vcom β}
    (hnone : ttyInsert (accept.headD 0) (getRbLlength v.tx.toRingBuf) = 0) :
    v.Unchanged (recvLoop (maxRetry + 1) accept count v) := by
  simp only [recvLoop, hnone]
  split
  · rw [if_neg (by decide)]
    refine ⟨rfl, rfl, rfl, rfl, (Vcom.input_append v _).trans ?_⟩
    simp [Access.inserted, cells]
  · exact .refl v

/-- **Serving the tty changes nothing exactly if the tty takes nothing.** -/
theorem recvChars_unchanged_iff (accept : List Nat) (v : Vcom β) :
    v.Unchanged (advUartRecvChars accept v) ↔ v.TakesNone accept := by
  by_cases hthr : v.attr.throttled = true
  · rw [advUartRecvChars, if_pos hthr]
    exact iff_of_true (.refl v) (.inl hthr)
  rw [advUartRecvChars, if_neg hthr, recvCharsLocked]
  by_cases hon : v.tx.enabled = true
  · rw [if_pos hon]
    by_cases hlen : getRbLength v.tx.toRingBuf ≤ 0
    · have hsame : recvLoop 3 accept (getRbLength v.tx.toRingBuf) v = v := by
        rw [recvLoop, if_neg (Int.not_lt.mpr hlen)]
      rw [hsame]
      exact iff_of_true (.refl v) (.inr (.inr (.inl hlen)))
    by_cases hnone : ttyInsert (accept.headD 0) (getRbLlength v.tx.toRingBuf) = 0
    · exact iff_of_true (recvLoop_none hnone) (.inr (.inr (.inr hnone)))
    · refine iff_of_false (fun h => ?_) ?_
      · have hlt := recvLoop_input_lt 2 (Int.not_le.mp hlen) hnone
        rw [h.input] at hlt
        exact Nat.lt_irrefl _ hlt
      · rintro (h | h | h | h)
        · exact hthr h
        · exact Bool.false_ne_true (h.symm.trans hon)
        · exact hlen h
        · exact hnone h
  · rw [if_neg hon]
    exact iff_of_true (.refl v) (.inr (.inl (Bool.eq_false_iff.mpr hon)))

/-! ## The commands -/

section
variable {accept : List Nat} {arg : UserInt} {v : Vcom β}

/-- Flipping the attribute buffer is never without effect. -/
theorem flushAttrInfo_ne (a : PortAtt) : (flushAttrInfo a).2 ≠ a := by
  intro h
  cases hnew : a.newbie with
  | true =>
      have hold : (flushAttrInfo a).2.newbie = false := by simp [flushAttrInfo, hnew]
      rw [h, hnew] at hold
      exact nomatch hold
  | false =>
      have hptr : (flushAttrInfo a).2.usrPtr = (a.usrPtr + 1) % ADV_ATTRBUF_NUM := by
        simp [flushAttrInfo, hnew]
      rw [h] at hptr
      unfold ADV_ATTRBUF_NUM at hptr
      omega

/-- The tail moved by nothing, and then the tty served. -/
theorem stxTail_zero_unchanged_iff :
    v.Unchanged (advUartRecvChars accept { v with tx := moveRbTail v.tx 0 }) ↔
      Ioc.Harmless accept v .sTxTail := by
  by_cases hplace : (int32 v.tx.tail).tmod v.tx.size = v.tx.tail
  · have hmove : moveRbTail v.tx 0 = v.tx := by
      unfold moveRbTail
      rw [Int.add_zero, hplace]
    rw [hmove]
    exact (recvChars_unchanged_iff accept v).trans ⟨fun h => ⟨hplace, h⟩, fun h => h.2⟩
  · refine iff_of_false (fun h => hplace ?_) fun h => hplace h.1
    -- serving the tty does not move the tail back
    have htail := advUartRecvChars_tail accept { v with tx := moveRbTail v.tx 0 }
    rw [h.tx] at htail
    simp only [moveRbTail, Int.add_zero] at htail
    exact htail.symm

theorem srxHead_zero_unchanged_iff :
    v.Unchanged { v with rx := moveRbHead v.rx 0 } ↔ Ioc.Harmless accept v .sRxHead := by
  cases hclean : v.rx.clean with
  | true =>
      refine iff_of_false (fun h => ?_) fun h => ?_
      · have hflag : (moveRbHead v.rx 0).clean = false := by simp [moveRbHead, hclean]
        rw [show moveRbHead v.rx 0 = v.rx from h.rx] at hflag
        exact Bool.false_ne_true (hflag.symm.trans hclean)
      · exact Bool.false_ne_true (h.1.symm.trans hclean)
  | false =>
      have hmove : moveRbHead v.rx 0 =
          { v.rx with head := (int32 v.rx.head).tmod v.rx.size } := by
        simp [moveRbHead, hclean]
      rw [hmove]
      constructor
      · intro h
        exact ⟨hclean, congrArg (fun r : KRing β => r.head) h.rx⟩
      · rintro ⟨-, hplace⟩
        rw [hplace]
        exact .refl v

theorem advUartMs_zero_unchanged_iff : v.Unchanged (advUartMs 0 v) ↔ v.attr.mctrl = 0 := by
  constructor
  · intro h
    exact (congrArg PortAtt.mctrl h.attr).symm
  · intro hzero
    have hattr : { v.attr with mctrl := 0 } = v.attr := by rw [← hzero]
    refine ⟨rfl, rfl, hattr, ?_, rfl⟩
    simp [advUartMs, hzero]

/-- With no bit of the mask set, neither ring is looked at. -/
theorem advMainInterrupt_zero : advMainInterrupt accept 0 v = v := by
  have hrx : hasFlag 0 ADV_INT_RX = false := by decide
  have htx : hasFlag 0 ADV_INT_TX = false := by decide
  simp [advMainInterrupt, hrx, htx]

theorem advMainClear_zero : advMainClear 0 v = v := by
  have hrx : hasFlag 0 ADV_CLR_RX = false := by decide
  have htx : hasFlag 0 ADV_CLR_TX = false := by decide
  simp [advMainClear, hrx, htx]

/-- A command that reads the user's `int` fails only if the copy does. -/
theorem getUser_failed (h : (getUser arg).1 < 0) : getUser arg = (-EFAULT, 0) := by
  unfold getUser at h ⊢
  cases hval : arg.value with
  | none => rfl
  | some n =>
      rw [hval] at h
      exact absurd h (Int.lt_irrefl 0)

/-- One command of the `switch`, when it returns an error. -/
theorem iocSwitch_unchanged_iff {c : Ioc} (hfail : (iocSwitch accept arg v c).ret < 0) :
    v.Unchanged (iocSwitch accept arg v c).vcom ↔ c.Harmless accept v := by
  cases c with
  | gAttrPtr =>
      refine iff_of_false (fun h => ?_) id
      have hattr : (flushAttrInfo v.attr).2 = v.attr := by
        have hattr := h.attr
        simp only [iocSwitch, putUser_vcom] at hattr
        exact hattr
      exact flushAttrInfo_ne v.attr hattr
  | sTxTail =>
      simp only [iocSwitch] at hfail ⊢
      rw [getUser_failed hfail]
      exact stxTail_zero_unchanged_iff
  | sRxHead =>
      simp only [iocSwitch] at hfail ⊢
      rw [getUser_failed hfail]
      exact srxHead_zero_unchanged_iff
  | sInter =>
      simp only [iocSwitch] at hfail ⊢
      rw [getUser_failed hfail, advMainInterrupt_zero]
      exact iff_of_true (.refl v) trivial
  | sMCtrl =>
      simp only [iocSwitch] at hfail ⊢
      rw [getUser_failed hfail]
      exact advUartMs_zero_unchanged_iff
  | sClr =>
      simp only [iocSwitch] at hfail ⊢
      rw [getUser_failed hfail, advMainClear_zero]
      exact iff_of_true (.refl v) trivial
  | gTxHead | gTxTail | gTxSize | gTxBegin | gRxHead | gRxTail | gRxSize | gRxBegin | gAttrBegin =>
      simp only [iocSwitch, putUser_vcom]
      exact iff_of_true (.refl v) trivial

end

/-- **A failing ioctl changes nothing exactly if its command is harmless.**  For every
command word, pointer and state: a refused word or pointer leaves everything as it was,
and a command that fails later does so if and only if it is harmless in that state. -/
theorem failed_ioctl_unchanged_iff (accept : List Nat) (cmd : CmdWord) (arg : UserInt)
    (v : Vcom β) (hfail : (advProcIoctl accept cmd arg v).ret < 0) :
    v.Unchanged (advProcIoctl accept cmd arg v).vcom ↔
      ∀ c : Ioc, cmd = c.word → arg.accessOk = true → c.Harmless accept v := by
  by_cases hknown : ∃ c : Ioc, cmd = c.word
  · obtain ⟨c, rfl⟩ := hknown
    rw [advProcIoctl_word] at hfail ⊢
    cases hok : arg.accessOk with
    | false => exact iff_of_true (.refl v) fun _ _ h => nomatch h
    | true =>
        rw [hok, if_pos rfl] at hfail
        rw [if_pos rfl, iocSwitch_unchanged_iff hfail]
        constructor
        · intro h d hd _
          rw [← Ioc.word_inj.mp hd]
          exact h
        · exact fun h => h c rfl rfl
  · have hother : ∀ c : Ioc, cmd ≠ c.word := fun c hc => hknown ⟨c, hc⟩
    rw [advProcIoctl_other hother]
    exact iff_of_true (.refl v) fun c hc => absurd hc (hother c)

/-! ## The commands that act -/

/-- An `int` that can be neither read nor written, at an address `access_ok` accepts. -/
def badInt : UserInt := { accessOk := true, value := none, writable := false }

/-- A port that is open, with the CTS line up, one byte in the TX ring that the tty had
no room for, and a clear of the RX ring pending. -/
def busyPort : Vcom UInt8 :=
  let v := advUartStartup freshPort
  let v := (advProcIoctl [] (Ioc.word .sMCtrl) (ownInt ADV_MS_CTS.toNat) v).vcom
  let v := (advProcIoctl [] (Ioc.word .sTxTail) (ownInt 1) v).vcom
  (advProcIoctl [] (Ioc.word .sClr) (ownInt ADV_CLR_RX) v).vcom

/-- The port after `c` has failed on it with `-EFAULT`; the tty has room for a byte. -/
def busyAfter (c : Ioc) : IoctlResult UInt8 := advProcIoctl [1] c.word badInt busyPort

/-- **Four commands that fail and act**: the attribute pointer is no longer new, the
modem inputs are gone and one is counted, the tty was given a byte, the clear is done. -/
theorem failed_ioctl_acts :
    ((busyAfter .gAttrPtr).ret = -EFAULT ∧ busyPort.attr.newbie = true ∧
      (busyAfter .gAttrPtr).vcom.attr.newbie = false) ∧
    ((busyAfter .sMCtrl).ret = -EFAULT ∧ busyPort.attr.mctrl = ADV_MS_CTS ∧
      (busyAfter .sMCtrl).vcom.attr.mctrl = 0 ∧
      (busyAfter .sMCtrl).vcom.icount.cts = busyPort.icount.cts + 1) ∧
    ((busyAfter .sTxTail).ret = -EFAULT ∧ busyPort.input = [] ∧
      (busyAfter .sTxTail).vcom.input = [0]) ∧
    ((busyAfter .sRxHead).ret = -EFAULT ∧ busyPort.rx.clean = true ∧
      (busyAfter .sRxHead).vcom.rx.clean = false) ∧
    ∀ c ∈ [Ioc.gAttrPtr, .sMCtrl, .sTxTail, .sRxHead],
      ¬ busyPort.Unchanged (busyAfter c).vcom := by
  refine ⟨by decide, by decide, by decide, by decide, ?_⟩
  intro c hc h
  simp only [List.mem_cons, List.not_mem_nil, or_false] at hc
  rcases hc with rfl | rfl | rfl | rfl
  · exact absurd (congrArg PortAtt.newbie h.attr) (by decide)
  · exact absurd (congrArg PortAtt.mctrl h.attr) (by decide)
  · exact absurd h.input (by decide)
  · exact absurd (congrArg KRing.clean h.rx) (by decide)

/-- A mask that cannot be read: no bit is taken to be set. -/
theorem failed_sinter_unchanged :
    (busyAfter .sInter).ret < 0 ∧ busyPort.Unchanged (busyAfter .sInter).vcom := by
  have hfail : (advProcIoctl [1] (Ioc.word .sInter) badInt busyPort).ret < 0 := by decide
  refine ⟨hfail, (failed_ioctl_unchanged_iff [1] _ badInt busyPort hfail).mpr ?_⟩
  intro c hc _
  rw [← Ioc.word_inj.mp hc]
  trivial

end AdvVcom
