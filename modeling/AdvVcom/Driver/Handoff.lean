/-
# `AdvVcom.Driver.Handoff` — how the daemon gets to see the attributes

The driver keeps the attributes of the port in `_attr` and hands them over through two
slots of a page that the daemon has mapped.  `flush_attr_info` copies `_attr` to the other
slot and tells the daemon its number; the very first call uses slot 0.  The daemon remembers
the number in `attr_ptr` and reads that slot until it asks again, which it does when
`adv_proc_poll` reports POLLPRI.

A `Handoff` is the port with the daemon's variable.  Between two calls of the daemon
anything may happen to the port; only IOCGATTRPTR is the daemon's alone.

**Proved here**, after every sequence of moves:

    the slot the daemon reads holds `_attr` as it was at its last flush, only a flush
    changes a slot or the pointer, a flush writes the slot that is not being read, and
    without POLLPRI the daemon sees `_attr`, or closed for closed   (`attribute_handoff`)
-/
import AdvVcom.Driver.Vcom

namespace AdvVcom

variable {β : Type}

/-- `attrPtr` is the daemon's variable, without a value until its first flush; `last` is
what `_attr` was at its last flush. -/
structure Handoff (β : Type) where
  port : Vcom β
  attrPtr : Option Nat
  last : PortInfo

/-- A call that does not hand over the attributes. -/
def Call.Elsewhere (c : Call β) : Prop :=
  ∀ accept arg, c ≠ .ioctl accept (Ioc.word .gAttrPtr) arg

inductive Move (β : Type) where
  | driver (c : Call β) (elsewhere : c.Elsewhere)
  | poll
  /-- IOCGATTRPTR with the daemon's own `attr_ptr`, which holds `n`. -/
  | flush (n : Int)

def Move.isFlush : Move β → Bool
  | .flush _ => true
  | _ => false

namespace Handoff

def init (mctrl : UInt32) (page : Int → β) (fifo : Kfifo β) : Handoff β :=
  ⟨advMainInit mctrl page fifo, none, .zero⟩

/-- `vc_buf_update` with VC_BUF_ATTR. -/
def flush (h : Handoff β) (n : Int) : Handoff β :=
  let r := advProcIoctl [] (Ioc.word .gAttrPtr) (ownInt n) h.port
  { port := r.vcom
    attrPtr := match r.put with
      | some ptr => some ptr.toNat
      | none => h.attrPtr
    last := h.port.attr.attr }

/-- `attr_p`: what the daemon reads. -/
def view (h : Handoff β) : Option PortInfo := h.attrPtr.map h.port.attr.slots

end Handoff

def Move.run : Move β → Handoff β → Handoff β
  | .driver c _, h => { h with port := c.run h.port }
  | .poll, h => h
  | .flush n, h => h.flush n

/-- One move after the other. -/
def Handoff.after (h : Handoff β) (ms : List (Move β)) : Handoff β :=
  ms.foldl (fun h m => m.run h) h

/-! ## Calls of the driver -/

/-- What no call touches except IOCGATTRPTR; and a port is closed or open. -/
structure Kept (a a' : PortAtt) : Prop where
  newbie : a'.newbie = a.newbie
  usrPtr : a'.usrPtr = a.usrPtr
  slots : a'.slots = a.slots
  isOpen : a.attr.isOpen = 0 ∨ a.attr.isOpen = 1 → a'.attr.isOpen = 0 ∨ a'.attr.isOpen = 1

theorem Kept.of_eq {a a' : PortAtt} (h : a' = a) : Kept a a' := by
  subst h
  exact ⟨rfl, rfl, rfl, id⟩

theorem xmitLoop_attr (fuel : Nat) (v : Vcom β) : (xmitLoop fuel v).attr = v.attr := by
  induction fuel generalizing v with
  | zero => rfl
  | succ fuel ih =>
      simp only [xmitLoop]
      split
      · rfl
      split
      · rfl
      split
      · rfl
      · exact ih _

theorem advUartXmit_attr (v : Vcom β) : (advUartXmit v).attr = v.attr := by
  unfold advUartXmit
  split
  · rfl
  · exact xmitLoop_attr _ v

theorem advUartUpdateXmit_attr (v : Vcom β) : (advUartUpdateXmit v).attr = v.attr := by
  unfold advUartUpdateXmit
  split
  · split
    · exact advUartXmit_attr v
    · rfl
  · rfl

theorem recvLoop_attr (retry : Nat) (accept : List Nat) (count : Int) (v : Vcom β) :
    (recvLoop retry accept count v).attr = v.attr := by
  induction retry generalizing accept count v with
  | zero => rfl
  | succ retry ih =>
      simp only [recvLoop]
      split
      · split
        · exact ih _ _ _
        · rfl
      · rfl

theorem recvCharsLocked_attr (accept : List Nat) (v : Vcom β) :
    (recvCharsLocked accept v).attr = v.attr := by
  unfold recvCharsLocked
  split
  · exact recvLoop_attr _ _ _ v
  · rfl

theorem advUartRecvChars_attr (accept : List Nat) (v : Vcom β) :
    (advUartRecvChars accept v).attr = v.attr := by
  unfold advUartRecvChars
  split
  · rfl
  · exact recvCharsLocked_attr accept v

theorem advMainInterrupt_attr (accept : List Nat) (mask : Int) (v : Vcom β) :
    (advMainInterrupt accept mask v).attr = v.attr := by
  have hrx : (if hasFlag mask ADV_INT_RX then advUartUpdateXmit v else v).attr = v.attr := by
    split
    · exact advUartUpdateXmit_attr v
    · rfl
  simp only [advMainInterrupt]
  split
  · rw [advUartRecvChars_attr, hrx]
  · exact hrx

theorem advMainClear_attr (mask : Int) (v : Vcom β) : (advMainClear mask v).attr = v.attr := by
  have hrx : (if hasFlag mask ADV_CLR_RX then { v with rx := { v.rx with clean := true } }
      else v).attr = v.attr := by
    split
    · rfl
    · rfl
  simp only [advMainClear]
  split
  · exact hrx
  · exact hrx

theorem iocSwitch_kept {c : Ioc} (hc : c ≠ .gAttrPtr) (accept : List Nat) (arg : UserInt) (v : Vcom β) :
    Kept v.attr (iocSwitch accept arg v c).vcom.attr := by
  cases c with
  | gAttrPtr => exact absurd rfl hc
  | gTxHead | gTxTail | gTxSize | gTxBegin | gRxHead | gRxTail | gRxSize | gRxBegin | gAttrBegin =>
      exact Kept.of_eq (congrArg Vcom.attr (putUser_vcom arg _ v))
  | sTxTail => exact Kept.of_eq (advUartRecvChars_attr accept _)
  | sRxHead => exact Kept.of_eq rfl
  | sInter => exact Kept.of_eq (advMainInterrupt_attr accept _ v)
  | sMCtrl => exact ⟨rfl, rfl, rfl, id⟩
  | sClr => exact Kept.of_eq (advMainClear_attr _ v)

theorem Call.run_kept {c : Call β} (hc : c.Elsewhere) (v : Vcom β) : Kept v.attr (c.run v).attr := by
  cases c with
  | ioctl accept cmd arg =>
      by_cases hword : ∃ c : Ioc, cmd = c.word
      · obtain ⟨c, rfl⟩ := hword
        have hne : c ≠ .gAttrPtr := by
          rintro rfl
          exact hc accept arg rfl
        simp only [Call.run, advProcIoctl_word]
        split
        · exact iocSwitch_kept hne accept arg v
        · exact Kept.of_eq rfl
      · refine Kept.of_eq (congrArg Vcom.attr (advProcIoctl_other ?_))
        exact fun c h => hword ⟨c, h⟩
  | pokeTx | pokeRx | ttyFifo | stopTx | stopRx => exact Kept.of_eq rfl
  | xmit => exact Kept.of_eq (advUartXmit_attr v)
  | startTx => exact Kept.of_eq (advUartXmit_attr _)
  | updateXmit => exact Kept.of_eq (advUartUpdateXmit_attr v)
  | recvChars accept => exact Kept.of_eq (advUartRecvChars_attr accept v)
  | recvLocked accept => exact Kept.of_eq (recvCharsLocked_attr accept v)
  | throttle | setMctrl | setTermios => exact ⟨rfl, rfl, rfl, id⟩
  | unthrottle accept =>
      have h := advUartRecvChars_attr accept { v with attr := { v.attr with throttled := false } }
      simp only [Call.run, advUartUnthrottle, h]
      exact ⟨rfl, rfl, rfl, id⟩
  | startup => exact ⟨rfl, rfl, rfl, fun _ => Or.inr rfl⟩
  | shutdown => exact ⟨rfl, rfl, rfl, fun _ => Or.inl rfl⟩

/-! ## The invariant -/

structure Handoff.Sound (h : Handoff β) : Prop where
  slot : h.port.attr.usrPtr < ADV_ATTRBUF_NUM
  isOpen : h.port.attr.attr.isOpen = 0 ∨ h.port.attr.attr.isOpen = 1
  lastOpen : h.last.isOpen = 0 ∨ h.last.isOpen = 1
  reading : ∀ i, h.attrPtr = some i →
    h.port.attr.newbie = false ∧ i = h.port.attr.usrPtr ∧ h.port.attr.slots i = h.last

namespace Handoff

variable {h : Handoff β}

theorem flush_eq (h : Handoff β) (n : Int) :
    h.flush n =
      { port := { h.port with attr := (flushAttrInfo h.port.attr).2 }
        attrPtr := some (flushAttrInfo h.port.attr).1
        last := h.port.attr.attr } := by
  simp [flush, advProcIoctl_word, ownInt, iocSwitch, putUser]

theorem sound_init (mctrl : UInt32) (page : Int → β) (fifo : Kfifo β) : (init mctrl page fifo).Sound where
  slot := Nat.two_pos
  isOpen := Or.inl rfl
  lastOpen := Or.inl rfl
  reading := by
    intro i hi
    cases hi

theorem Sound.flush (hs : h.Sound) (n : Int) : (h.flush n).Sound := by
  rw [flush_eq]
  have hslot := hs.slot
  refine ⟨?_, ?_, hs.isOpen, ?_⟩
  · simp only [flushAttrInfo]
    split
    · exact hslot
    · exact Nat.mod_lt _ (by decide)
  · simp only [flushAttrInfo]
    split
    · exact hs.isOpen
    · exact hs.isOpen
  · rintro i hi
    cases hi
    simp only [flushAttrInfo]
    split
    · simp
    · rename_i hold
      simpa using hold

theorem Sound.move (hs : h.Sound) (m : Move β) : (m.run h).Sound := by
  cases m with
  | poll => exact hs
  | flush n => exact hs.flush n
  | driver c hc =>
      have hkept := Call.run_kept hc h.port
      refine ⟨hkept.usrPtr ▸ hs.slot, hkept.isOpen hs.isOpen, hs.lastOpen, fun i hi => ?_⟩
      obtain ⟨hnew, hptr, hslot⟩ := hs.reading i hi
      exact ⟨hkept.newbie.trans hnew, hptr.trans hkept.usrPtr.symm,
        (congrFun hkept.slots i).trans hslot⟩

theorem Sound.after (hs : h.Sound) (ms : List (Move β)) : (h.after ms).Sound := by
  induction ms generalizing h with
  | nil => exact hs
  | cons m ms ih => exact ih (hs.move m)

/-- A daemon has its pointer from its first flush on. -/
theorem after_isSome (h : Handoff β) (ms : List (Move β)) :
    (h.after ms).attrPtr.isSome = (h.attrPtr.isSome || ms.any Move.isFlush) := by
  induction ms generalizing h with
  | nil => exact (Bool.or_false _).symm
  | cons m ms ih =>
      rw [List.any_cons, ← Bool.or_assoc]
      refine (ih (m.run h)).trans (congrArg (· || ms.any Move.isFlush) ?_)
      cases m with
      | driver c hc => exact (Bool.or_false _).symm
      | poll => exact (Bool.or_false _).symm
      | flush n =>
          have hflush : (h.flush n).attrPtr.isSome = true := by
            rw [flush_eq]
            rfl
          exact hflush.trans (Bool.or_true _).symm

/-- A flush leaves the slot alone that the daemon is reading. -/
theorem Sound.flush_other (hs : h.Sound) {i : Nat} (hi : h.attrPtr = some i) (n : Int) :
    ∃ j, j ≠ i ∧ ∀ k, k ≠ j → (h.flush n).port.attr.slots k = h.port.attr.slots k := by
  obtain ⟨hnew, hptr, -⟩ := hs.reading i hi
  refine ⟨(h.port.attr.usrPtr + 1) % ADV_ATTRBUF_NUM, ?_, fun k hk => ?_⟩
  · have hslot := hs.slot
    simp only [ADV_ATTRBUF_NUM] at hslot ⊢
    omega
  · rw [flush_eq]
    simp only [flushAttrInfo, hnew, Bool.false_eq_true, if_false]
    exact Function.update_of_ne hk _ _

/-- Without POLLPRI there is nothing to ask for. -/
theorem Sound.quiet (hs : h.Sound) {x : PortInfo} (hx : h.view = some x)
    (hpoll : (advProcPoll h.port).pollpri = false) :
    x = h.port.attr.attr ∨ x.isOpen = 0 ∧ h.port.attr.attr.isOpen = 0 := by
  obtain ⟨i, hi, rfl⟩ := Option.map_eq_some_iff.mp hx
  obtain ⟨-, hptr, hslot⟩ := hs.reading i hi
  by_cases hsame : h.port.attr.attr = h.port.attr.slots i
  · exact Or.inl hsame.symm
  · have hquiet : h.port.attr.attr.isOpen ≠ 1 ∧
        h.port.attr.attr.isOpen = (h.port.attr.slots i).isOpen := by
      simpa [advProcPoll, ← hptr, hsame] using hpoll
    have hclosed := hs.isOpen.resolve_right hquiet.1
    exact Or.inr ⟨hquiet.2.symm.trans hclosed, hclosed⟩

end Handoff

/-- **The hand-off.**  After any moves `ms`:  from its first flush on the daemon reads a slot
that holds `_attr` as of its last flush; any other move leaves its pointer and both slots as
they are; its next flush writes only the slot it is not reading; and as long as
`adv_proc_poll` does not report POLLPRI, it sees `_attr`, or the port is closed for both. -/
theorem attribute_handoff (mctrl : UInt32) (page : Int → β) (fifo : Kfifo β) (ms : List (Move β)) :
    let h := (Handoff.init mctrl page fifo).after ms
    (ms.any Move.isFlush = true → h.view = some h.last) ∧
      (∀ m : Move β, m.isFlush = false → (m.run h).attrPtr = h.attrPtr ∧
        (m.run h).last = h.last ∧ (m.run h).port.attr.usrPtr = h.port.attr.usrPtr ∧
        (m.run h).port.attr.slots = h.port.attr.slots) ∧
      (∀ n i, h.attrPtr = some i →
        ∃ j, j ≠ i ∧ ∀ k, k ≠ j → (h.flush n).port.attr.slots k = h.port.attr.slots k) ∧
      (∀ x, h.view = some x → (advProcPoll h.port).pollpri = false →
        x = h.port.attr.attr ∨ x.isOpen = 0 ∧ h.port.attr.attr.isOpen = 0) := by
  intro h
  have hs : h.Sound := (Handoff.sound_init mctrl page fifo).after ms
  refine ⟨?_, ?_, fun n i hi => hs.flush_other hi n, fun x hx hpoll => hs.quiet hx hpoll⟩
  · intro hflush
    have hsome : h.attrPtr.isSome = true := by
      rw [Handoff.after_isSome, hflush, Bool.or_true]
    obtain ⟨i, hi⟩ := Option.isSome_iff_exists.mp hsome
    rw [Handoff.view, hi, Option.map_some, (hs.reading i hi).2.2]
  · intro m hm
    cases m with
    | poll => exact ⟨rfl, rfl, rfl, rfl⟩
    | flush n => cases hm
    | driver c hc =>
        have hkept := Call.run_kept hc h.port
        exact ⟨rfl, rfl, hkept.usrPtr, hkept.slots⟩

/-- Opened, handed over and closed again: the daemon still reads what it was given, and is told
to ask. -/
example :
    let h := (Handoff.init 0 (fun _ => 0) (⟨[], 0, 1, by decide⟩ : Kfifo Nat)).after
      [.driver .startup (by intro _ _ h; cases h), .flush 0, .driver .shutdown (by intro _ _ h; cases h)]
    h.view.map PortInfo.isOpen = some 1 ∧ (advProcPoll h.port).pollpri = true := by
  decide

end AdvVcom
