/-
# `AdvVcom.System.Pages` — the mapped pages, with any number of users

`Range` says what an ioctl has to satisfy so that the driver keeps its indices in the
page; `System.Runs` has the daemon alone with the proc file.  Here the proc file is
shared: while the daemon is paused, the tty and any other user of the file may make any
call that meets the condition of `Range`, and may store anything anywhere in the two
rings' pages.  The indices the daemon reads are then whatever the others left, its
snapshots go stale, and what it reads and stores is worth nothing; but it stays inside.

The three pages are one mapping, TX first, then RX, then the attributes
(`adv_vma_nopage`), and the daemon computes addresses in it: the ring's beginning, as
`vc_buf_setup` got it from the driver, and an offset.  A wrong offset would not fault, it
would land in the next ring.

**Proved here.** In every state of every run

    the driver's indices and accesses are in range, and
    every store and every load of the daemon lands in the ring it is meant for,
    at the offset it is meant for, and
    every ioctl of the daemon meets the condition asked of the others   (`daemon_stays_in_pages`)

so that any number of daemons can share a port without one breaking another's pages.
-/
import AdvVcom.System.Runs

namespace AdvVcom

open Lib Lib.Ring

/-! ## The mapping (`adv_mmap.c`) -/

inductive Page where
  | tx | rx | attr
  deriving DecidableEq, Repr

section
variable {β : Type}

/-- `adv_vma_nopage`: the page behind an offset of the mapping.  The attributes' page
begins at `2 * PAGE_SIZE` and is a page long. -/
def advVmaNopage (v : Vcom β) (offset : Int) : Option Page :=
  if offset < v.tx.size + v.tx.begin then some .tx
  else if offset < v.rx.size + v.rx.begin then some .rx
  else if offset < PAGE_SIZE + 2 * PAGE_SIZE then some .attr
  else none

/-- The byte at an address of the mapping: the kernel asks for the page by the address of
its first byte. -/
def byteAt (v : Vcom β) (addr : Int) : Option (Page × Int) :=
  (advVmaNopage v (addr - addr % PAGE_SIZE)).map fun page => (page, addr % PAGE_SIZE)

/-! ## The driver -/

/-- In range, with the rings where `adv_main_init` puts them and `is_open` one of its two
values. -/
structure Vcom.Placed (v : Vcom β) : Prop where
  sound : v.Sound
  txBegin : v.tx.begin = 0
  rxBegin : v.rx.begin = PAGE_SIZE
  isOpen : v.attr.attr.isOpen = 0 ∨ v.attr.attr.isOpen = 1

variable {v v' : Vcom β}

theorem Vcom.Placed.byteAt_tx (h : v.Placed) {i : Int} (hlo : 0 ≤ i) (hhi : i < PAGE_SIZE) :
    byteAt v (v.tx.begin + i) = some (.tx, i) := by
  have hmod : i % PAGE_SIZE = i := Int.emod_eq_of_lt hlo hhi
  have hpage : advVmaNopage v 0 = some .tx := by
    rw [advVmaNopage, h.sound.tx.size_eq, h.txBegin]
    rfl
  simp only [byteAt, h.txBegin, Int.zero_add, hmod, Int.sub_self, hpage, Option.map_some]

theorem Vcom.Placed.byteAt_rx (h : v.Placed) {i : Int} (hlo : 0 ≤ i) (hhi : i < PAGE_SIZE) :
    byteAt v (v.rx.begin + i) = some (.rx, i) := by
  have hmod : (PAGE_SIZE + i) % PAGE_SIZE = i := by
    rw [Int.add_emod_left]
    exact Int.emod_eq_of_lt hlo hhi
  have hpage : advVmaNopage v PAGE_SIZE = some .rx := by
    rw [advVmaNopage, h.sound.tx.size_eq, h.txBegin, h.sound.rx.size_eq, h.rxBegin]
    rfl
  simp only [byteAt, h.rxBegin, hmod, Int.add_sub_cancel, hpage, Option.map_some]

theorem advMainInit_placed (mctrl : UInt32) (page : Int → β) (fifo : Kfifo β) : (advMainInit mctrl page fifo).Placed :=
  ⟨advMainInit_sound mctrl page fifo, rfl, rfl, Or.inl rfl⟩

theorem Appends.placed {xs : List β} (h : Appends v v' xs) (hv : v.Placed) : v'.Placed where
  sound := h.sound hv.sound
  txBegin := by rw [h.tx]; exact hv.txBegin
  rxBegin := h.begin.trans hv.rxBegin
  isOpen := by rw [h.attr]; exact hv.isOpen

theorem Drains.placed {xs : List β} (h : Drains v v' xs) (hv : v.Placed) : v'.Placed where
  sound := h.sound hv.sound
  txBegin := h.begin.trans hv.txBegin
  rxBegin := by rw [h.rx]; exact hv.rxBegin
  isOpen := by rw [h.attr]; exact hv.isOpen

theorem advUartXmit_placed (hv : v.Placed) : (advUartXmit v).Placed := by
  obtain ⟨xs, h⟩ := advUartXmit_appends hv.sound.rx
  exact h.placed hv

theorem advUartUpdateXmit_placed (hv : v.Placed) : (advUartUpdateXmit v).Placed := by
  unfold advUartUpdateXmit
  split
  · split
    · exact advUartXmit_placed hv
    · exact hv
  · exact hv

theorem advUartRecvChars_placed {accept : List Nat} (hv : v.Placed) :
    (advUartRecvChars accept v).Placed := by
  obtain ⟨xs, h⟩ : ∃ xs, Drains v (advUartRecvChars accept v) xs :=
    advUartRecvChars_drains hv.sound.tx hv.sound.clean
  exact h.placed hv

theorem advMainInterrupt_placed {accept : List Nat} {mask : Int} (hv : v.Placed) :
    (advMainInterrupt accept mask v).Placed := by
  have hrx : (if hasFlag mask ADV_INT_RX then advUartUpdateXmit v else v).Placed := by
    split
    · exact advUartUpdateXmit_placed hv
    · exact hv
  unfold advMainInterrupt
  simp only
  split
  · exact advUartRecvChars_placed hrx
  · exact hrx

theorem advMainClear_placed {mask : Int} (hv : v.Placed) : (advMainClear mask v).Placed := by
  have hsame : (advMainClear mask v).tx.begin = v.tx.begin ∧
      (advMainClear mask v).rx.begin = v.rx.begin ∧ (advMainClear mask v).attr = v.attr := by
    unfold advMainClear
    cases hasFlag mask ADV_CLR_RX with
    | true => cases hasFlag mask ADV_CLR_TX with
      | true => exact ⟨rfl, rfl, rfl⟩
      | false => exact ⟨rfl, rfl, rfl⟩
    | false => cases hasFlag mask ADV_CLR_TX with
      | true => exact ⟨rfl, rfl, rfl⟩
      | false => exact ⟨rfl, rfl, rfl⟩
  obtain ⟨htx, hrx, hattr⟩ := hsame
  refine ⟨advMainClear_sound hv.sound, htx.trans hv.txBegin, hrx.trans hv.rxBegin, ?_⟩
  rw [hattr]
  exact hv.isOpen

/-- Two commands have a condition to meet. -/
theorem Ioc.meets_of_ne {arg : UserInt} {c : Ioc} (htx : c ≠ .sTxTail) (hrx : c ≠ .sRxHead) :
    c.Meets arg v :=
  ⟨fun h => absurd h htx, fun h => absurd h hrx⟩

theorem iocSwitch_placed {accept : List Nat} {arg : UserInt} {c : Ioc} (hv : v.Placed)
    (hm : c.Meets arg v) : (iocSwitch accept arg v c).vcom.Placed := by
  have hsound : (iocSwitch accept arg v c).vcom.Sound := iocSwitch_sound hv.sound hm
  have hput (x : Int) : (putUser arg x v).vcom.Placed := by
    rw [putUser_vcom]
    exact hv
  cases c with
  | sTxTail =>
      have htail := (moveRbTail_inRange_iff hv.sound.tx (getUser arg).2).mpr (hm.1 rfl)
      exact advUartRecvChars_placed ⟨⟨⟨htail, hv.sound.rx, hv.sound.log⟩, hv.sound.clean⟩,
        hv.txBegin, hv.rxBegin, hv.isOpen⟩
  | sRxHead =>
      have hbegin : (moveRbHead v.rx (getUser arg).2).begin = v.rx.begin := by
        unfold moveRbHead
        split <;> rfl
      exact ⟨hsound, hv.txBegin, hbegin.trans hv.rxBegin, hv.isOpen⟩
  | sInter => exact advMainInterrupt_placed hv
  | sClr => exact advMainClear_placed hv
  | sMCtrl => exact ⟨hsound, hv.txBegin, hv.rxBegin, hv.isOpen⟩
  | gAttrPtr =>
      have hflush : ((flushAttrInfo v.attr).2).attr = v.attr.attr := by
        unfold flushAttrInfo
        simp only
        split <;> rfl
      show (putUser arg _ { v with attr := (flushAttrInfo v.attr).2 }).vcom.Placed
      rw [putUser_vcom]
      refine ⟨hv.sound.withAttr _, hv.txBegin, hv.rxBegin, ?_⟩
      rw [hflush]
      exact hv.isOpen
  | gTxHead | gTxTail | gTxSize | gTxBegin | gRxHead | gRxTail | gRxSize | gRxBegin | gAttrBegin =>
      exact hput _

/-- **One call of anyone.** -/
theorem Call.run_placed (hv : v.Placed) {c : Call β} (hm : c.Meets v) : (c.run v).Placed := by
  have hsound := Call.run_sound hv.sound hm
  cases c with
  | ioctl accept cmd arg =>
      by_cases hc : ∃ c : Ioc, cmd = c.word
      · obtain ⟨c, rfl⟩ := hc
        show (advProcIoctl accept c.word arg v).vcom.Placed
        rw [advProcIoctl_word]
        split
        · rename_i harg
          exact iocSwitch_placed hv (Call.meets_ioctl_iff.mp hm harg)
        · exact hv
      · show (advProcIoctl accept cmd arg v).vcom.Placed
        rw [advProcIoctl_other fun c h => hc ⟨c, h⟩]
        exact hv
  | xmit => exact advUartXmit_placed hv
  | startTx =>
      exact advUartXmit_placed ⟨⟨⟨hv.sound.tx, hv.sound.rx, hv.sound.log⟩, hv.sound.clean⟩,
        hv.txBegin, hv.rxBegin, hv.isOpen⟩
  | updateXmit => exact advUartUpdateXmit_placed hv
  | recvChars accept => exact advUartRecvChars_placed hv
  | recvLocked accept =>
      obtain ⟨xs, h⟩ : ∃ xs, Drains v (recvCharsLocked accept v) xs :=
        recvCharsLocked_drains hv.sound.tx hv.sound.clean
      exact h.placed hv
  | unthrottle accept =>
      exact advUartRecvChars_placed
        ⟨hv.sound.withAttr { v.attr with throttled := false }, hv.txBegin, hv.rxBegin, hv.isOpen⟩
  | startup => exact ⟨hsound, hv.txBegin, hv.rxBegin, Or.inr rfl⟩
  | shutdown => exact ⟨hsound, hv.txBegin, hv.rxBegin, Or.inl rfl⟩
  | pokeTx | pokeRx | ttyFifo | stopTx | stopRx | throttle | setMctrl | setTermios =>
      exact ⟨hsound, hv.txBegin, hv.rxBegin, hv.isOpen⟩

end

/-! ## The daemon and everyone else -/

/-- What the daemon does to the pages and the indices: it stores into the TX page, loads
from the RX page, and makes ioctls. -/
inductive Touch where
  | store (off : Int) (len : Nat)
  | load (off len : Int)
  | call (v : Vcom Cell) (c : Call Cell)

def Touch.of (v : Vcom Cell) : Req → List Touch
  | .copyTx off bs => [.store off bs.length]
  | .readRx off len => [.load off len]
  | .ioctl c n => [.call v (.ioctl [] c.word (ownInt n))]
  | _ => []

/-- Every byte touched is the byte meant, with the beginnings of the rings in the
daemon's variables; an ioctl is one that `Range` allows. -/
def Touch.Lands (s : VcAttr) (v : Vcom Cell) : Touch → Prop
  | .store off len => ∀ i, off ≤ i → i < off + len → byteAt v (s.tx.begin + i) = some (.tx, i)
  | .load off len => 0 ≤ len ∧
      ∀ i, off ≤ i → i < off + len → byteAt v (s.rx.begin + i) = some (.rx, i)
  | .call v c => c.Meets v

/-- The same without the addresses. -/
def Touch.Fine : Touch → Prop
  | .store off len => 0 ≤ off ∧ off + len ≤ PAGE_SIZE
  | .load off len => 0 ≤ off ∧ 0 ≤ len ∧ off + len ≤ PAGE_SIZE
  | .call v c => c.Meets v

/-- The driver, and a record that nothing reads: what the daemon has touched. -/
structure PortUse where
  v : Vcom Cell
  touched : List Touch

/-- The daemon on a proc file that others use too: each of their calls meets its
condition, and so do the tty's, which have none. -/
abbrev sharing : Env VcSig VcAttr where
  World := PortUse
  answers := fun w e r w' =>
    driverAnswers (⟨·, 0, false⟩) w.v e r w'.v ∧ w'.touched = w.touched ++ Touch.of w.v e
  drift := fun _ w w' => ∃ c : Call Cell, c.Meets w.v ∧ w' = { w with v := c.run w.v }

theorem driverAnswers.placed {fresh : UInt8 → Cell} {v v' : Vcom Cell} {e : Req} {r : e.Rep}
    (hr : driverAnswers fresh v e r v') (hv : v.Placed) (hfine : ∀ t ∈ Touch.of v e, t.Fine) :
    v'.Placed := by
  cases e with
  | ioctl c n =>
      obtain ⟨accept, -, rfl⟩ := hr
      exact Call.run_placed (c := .ioctl accept c.word (ownInt n)) hv
        (hfine _ (List.mem_singleton_self _))
  | attrPtr =>
      rw [hr.2]
      exact Call.run_placed (c := .ioctl [] (Ioc.word .gAttrPtr) (ownInt 0)) hv
        (Call.meets_ioctl_iff.mpr fun _ => Ioc.meets_of_ne (by decide) (by decide))
  | copyTx off bs =>
      rw [show v' = _ from hr]
      exact Call.run_placed (c := .pokeTx off (bs.map fresh)) hv trivial
  | readRx =>
      rw [hr.2]
      exact hv
  | _ =>
      rw [show v' = v from hr]
      exact hv

theorem driverAnswers.reads {fresh : UInt8 → Cell} {v v' : Vcom Cell} {c : Ioc} {n x : Int}
    {r : Option Int} (hr : driverAnswers fresh v (.ioctl c n) r v') (hx : c.reads v = some x) :
    r = some x := by
  obtain ⟨accept, hret, -⟩ := hr
  rw [advProcIoctl_own] at hret
  cases c with
  | gTxHead | gTxTail | gTxSize | gTxBegin | gRxHead | gRxTail | gRxSize | gRxBegin | gAttrBegin =>
      cases hx
      exact hret
  | _ => cases hx

theorem driverAnswers.view {fresh : UInt8 → Cell} {v v' : Vcom Cell} {r : Option PortInfo}
    (hr : driverAnswers fresh v .attrPtr r v') (hv : v.Placed) :
    ∃ view, r = some view ∧ (view.isOpen = 0 ∨ view.isOpen = 1) := by
  obtain ⟨hret, -⟩ := hr
  rw [advProcIoctl_own] at hret
  refine ⟨v.attr.attr, ?_, hv.isOpen⟩
  rw [hret]
  show some (((flushAttrInfo v.attr).2).slots (((flushAttrInfo v.attr).1 : Int)).toNat) = _
  unfold flushAttrInfo
  simp only [Int.toNat_natCast, Function.update_self]
  split <;> rfl

/-! ## What is recorded -/

/-- The driver is in range, and everything touched so far is of a kind. -/
structure Logged (K : Touch → Prop) (w : PortUse) : Prop where
  placed : w.v.Placed
  touched : ∀ t ∈ w.touched, K t

/-- A kind that has every ioctl `Range` allows, and nothing that leaves its page. -/
structure Kindly (K : Touch → Prop) : Prop where
  call : ∀ {v c}, c.Meets v → K (.call v c)
  fine : ∀ {t}, K t → t.Fine

/-- The daemon has made ioctls so far, and nothing else. -/
def Touch.IsCall : Touch → Prop
  | .call v c => c.Meets v
  | _ => False

theorem fine_kindly : Kindly Touch.Fine := ⟨fun h => h, fun h => h⟩

theorem isCall_kindly : Kindly Touch.IsCall where
  call := fun h => h
  fine := by
    intro t h
    cases t with
    | call => exact h
    | store | load => exact h.elim

/-- What is claimed of a state of a run. -/
structure InPages (s : VcAttr) (w : PortUse) : Prop where
  placed : w.v.Placed
  lands : ∀ t ∈ w.touched, t.Lands s w.v

theorem Touch.Fine.lands {t : Touch} {s : VcAttr} {v : Vcom Cell} (h : t.Fine) (hv : v.Placed)
    (htx : s.tx.begin = 0) (hrx : s.rx.begin = PAGE_SIZE) : t.Lands s v := by
  cases t with
  | store off len =>
      obtain ⟨hlo, hhi⟩ := h
      intro i hi hi'
      rw [htx, ← hv.txBegin]
      exact hv.byteAt_tx (by omega) (by omega)
  | load off len =>
      obtain ⟨hlo, hlen, hhi⟩ := h
      refine ⟨hlen, fun i hi hi' => ?_⟩
      rw [hrx, ← hv.rxBegin]
      exact hv.byteAt_rx (by omega) (by omega)
  | call => exact h

section
variable {K : Touch → Prop} {s : VcAttr} {w w' : PortUse}

theorem Logged.answer (h : Logged K w) (hK : Kindly K) {e : Req} {r : e.Rep}
    (hr : sharing.answers w e r w') (he : ∀ t ∈ Touch.of w.v e, K t) : Logged K w' where
  placed := hr.1.placed h.placed fun t ht => hK.fine (he t ht)
  touched := by
    intro t ht
    rw [hr.2] at ht
    rcases List.mem_append.mp ht with ht | ht
    · exact h.touched t ht
    · exact he t ht

theorem Logged.drift (h : Logged K w) (hd : sharing.drift s w w') : Logged K w' := by
  obtain ⟨c, hm, rfl⟩ := hd
  exact ⟨Call.run_placed h.placed hm, h.touched⟩

/-- The variables go with the kind of things recorded. -/
def Suits (K : Touch → Prop) (s : VcAttr) : Prop := ∀ w, Logged K w → InPages s w

theorem suits_isCall (s : VcAttr) : Suits Touch.IsCall s := by
  intro w h
  refine ⟨h.placed, fun t ht => ?_⟩
  have hcall := h.touched t ht
  cases t with
  | call => exact hcall
  | store | load => exact hcall.elim

theorem suits_fine (htx : s.tx.begin = 0) (hrx : s.rx.begin = PAGE_SIZE) : Suits Touch.Fine s :=
  fun _ h => ⟨h.placed, fun t ht => (h.touched t ht).lands h.placed htx hrx⟩

/-- **A request.** -/
theorem wp_logged (hK : Kindly K) (hs : Suits K s) {e : Req} {Q : e.Rep → VcAttr → PortUse → Prop}
    (he : ∀ v : Vcom Cell, v.Placed → ∀ t ∈ Touch.of v e, K t) (h : Logged K w)
    (hQ : ∀ r w w', Logged K w → sharing.answers w e r w' → Logged K w' → Q r s w') :
    (Act.request (S := VcSig) e : M e.Rep).wp sharing InPages Q s w :=
  Act.wp_request_of (𝓔 := sharing) (Logged K) h (fun _ _ h hd => h.drift (s := s) hd) hs
    fun w r w' h hr => hQ r w w' h hr (h.answer hK hr (he w.v h.placed))

/-- An ioctl that meets its condition on every port in range. -/
theorem touch_ioctl (hK : Kindly K) {c : Ioc} {n : Int}
    (hm : ∀ v : Vcom Cell, v.Placed → c.Meets (ownInt n) v) :
    ∀ v : Vcom Cell, v.Placed → ∀ t ∈ Touch.of v (.ioctl c n), K t := by
  intro v hv t ht
  rw [List.mem_singleton.mp ht]
  exact hK.call (Call.meets_ioctl_iff.mpr fun _ => hm v hv)

/-- An ioctl that reads one of the driver's numbers. -/
theorem wp_reads (hK : Kindly K) (hs : Suits K s) {c : Ioc} {P : Int → Prop}
    {Q : Option Int → VcAttr → PortUse → Prop}
    (hx : ∀ v : Vcom Cell, v.Placed → ∃ x, c.reads v = some x ∧ P x) (h : Logged K w)
    (hQ : ∀ x w', P x → Logged K w' → Q (some x) s w') :
    (ioctl c 0).wp sharing InPages Q s w := by
  refine wp_logged hK hs (touch_ioctl hK fun v hv => ?_) h fun r w₁ w₂ h₁ hr h₂ => ?_
  · obtain ⟨x, hread, -⟩ := hx v hv
    refine Ioc.meets_of_ne ?_ ?_
    · rintro rfl
      cases hread
    · rintro rfl
      cases hread
  · obtain ⟨x, hread, hp⟩ := hx w₁.v h₁.placed
    rw [hr.1.reads hread]
    exact hQ x w₂ hp h₂

/-! ## Snapshots -/

/-- Whenever the two indices are read, each is in the page. -/
theorem wp_updateTx (hK : Kindly K) (hs : Suits K s) (hsize : s.tx.size = PAGE_SIZE)
    (h : Logged K w) : vcBufUpdateTx.wp sharing InPages
      (fun _ s' w' => (∃ tx, s' = { s with tx := tx } ∧ tx.InRange ∧ tx.begin = s.tx.begin) ∧
        Logged K w') s w := by
  simp only [vcBufUpdateTx, Act.wp_bind]
  refine wp_reads hK hs (P := fun x => 0 ≤ x ∧ x < PAGE_SIZE)
    (fun v hv => ⟨_, rfl, hv.sound.tx.head_nonneg, hv.sound.tx.head_lt⟩) h fun head w₁ hhead h₁ => ?_
  simp only [Act.wp_bind]
  refine wp_reads hK hs (P := fun x => 0 ≤ x ∧ x < PAGE_SIZE)
    (fun v hv => ⟨_, rfl, hv.sound.tx.tail_nonneg, hv.sound.tx.tail_lt⟩) h₁ fun tail w₂ htail h₂ => ?_
  exact ⟨⟨_, rfl, ⟨hsize, hhead.1, hhead.2, htail.1, htail.2⟩, rfl⟩, h₂⟩

theorem wp_updateRx (hK : Kindly K) (hs : Suits K s) (hsize : s.rx.size = PAGE_SIZE)
    (h : Logged K w) : vcBufUpdateRx.wp sharing InPages
      (fun _ s' w' => (∃ rx, s' = { s with rx := rx } ∧ rx.InRange ∧ rx.begin = s.rx.begin) ∧
        Logged K w') s w := by
  simp only [vcBufUpdateRx, Act.wp_bind]
  refine wp_reads hK hs (P := fun x => 0 ≤ x ∧ x < PAGE_SIZE)
    (fun v hv => ⟨_, rfl, hv.sound.rx.head_nonneg, hv.sound.rx.head_lt⟩) h fun head w₁ hhead h₁ => ?_
  simp only [Act.wp_bind]
  refine wp_reads hK hs (P := fun x => 0 ≤ x ∧ x < PAGE_SIZE)
    (fun v hv => ⟨_, rfl, hv.sound.rx.tail_nonneg, hv.sound.rx.tail_lt⟩) h₁ fun tail w₂ htail h₂ => ?_
  exact ⟨⟨_, rfl, ⟨hsize, hhead.1, hhead.2, htail.1, htail.2⟩, rfl⟩, h₂⟩

/-- The attributes are the driver's, so the tty is open or it is not. -/
theorem wp_updateAttr (hK : Kindly K) (hs : Suits K s) (h : Logged K w) :
    vcBufUpdateAttr.wp sharing InPages
      (fun _ s' w' => (∃ v, s' = { s with view := v }) ∧ Legal s' ∧ Logged K w') s w := by
  simp only [vcBufUpdateAttr, Act.wp_bind]
  refine wp_logged (e := .attrPtr) hK hs (fun _ _ t ht => absurd ht (List.not_mem_nil)) h
    fun (r : Option PortInfo) w₁ w₂ h₁ hr h₂ => ?_
  obtain ⟨view, rfl, hlegal⟩ := hr.1.view h₁.placed
  exact ⟨⟨view, rfl⟩, hlegal, h₂⟩

end

/-! ## The daemon's variables -/

/-- Both snapshots are in range and know where their page begins, and what is waiting for
its answer is no more than a WRITE carries. -/
structure Snug (s : VcAttr) : Prop where
  tx : s.tx.InRange
  rx : s.rx.InRange
  txBegin : s.tx.begin = 0
  rxBegin : s.rx.begin = PAGE_SIZE
  pending : 0 ≤ s.xmitPending ∧ s.xmitPending ≤ XMIT_LEN

def Housed (s : VcAttr) (w : PortUse) : Prop := Snug s ∧ Logged Touch.Fine w

section
variable {s s' : VcAttr} {w w' : PortUse} {st : St} {top : List St}

theorem Snug.of_eq (h : Snug s) (htx : s'.tx = s.tx) (hrx : s'.rx = s.rx)
    (hpend : s'.xmitPending = s.xmitPending) : Snug s' where
  tx := by rw [htx]; exact h.tx
  rx := by rw [hrx]; exact h.rx
  txBegin := by rw [htx]; exact h.txBegin
  rxBegin := by rw [hrx]; exact h.rxBegin
  pending := by rw [hpend]; exact h.pending

theorem Snug.idle (h : Snug s) : Snug { s with xmitPending := 0 } :=
  ⟨h.tx, h.rx, h.txBegin, h.rxBegin, Int.le_refl 0, show (0 : Int) ≤ XMIT_LEN by decide⟩

theorem Snug.suits (h : Snug s) : Suits Touch.Fine s := suits_fine h.txBegin h.rxBegin

theorem Housed.inPages (s : VcAttr) (w : PortUse) (h : Housed s w) : InPages s w :=
  h.1.suits w h.2

/-- A request that touches nothing. -/
theorem Housed.answer (h : Housed s w) {e : Req} {r : e.Rep} (hr : sharing.answers w e r w')
    (he : Touch.of w.v e = []) : Housed s w' := by
  refine ⟨h.1, h.2.answer fine_kindly hr fun t ht => ?_⟩
  rw [he] at ht
  cases ht

theorem Housed.sends {ps : List Pkt} {ok : Bool} (h : Housed s w) (hs : Sends sharing w ps ok w') :
    Housed s w' := by
  rcases hs with hr | ⟨r, hr, -⟩
  · exact h.answer (e := .send ps) hr rfl
  · exact h.answer (e := .sslSend ps) hr rfl

theorem housed_waits : Waits sharing Housed where
  drift := fun {s _ _} h hd => ⟨h.1, h.2.drift (s := s) hd⟩
  quiet := by
    intro s w w' e r he h hr
    cases e with
    | ioctl c n =>
        refine ⟨h.1, h.2.answer fine_kindly hr (touch_ioctl fine_kindly (fun v _ => ?_) w.v h.2.placed)⟩
        rcases he with rfl | rfl
        · exact Ioc.meets_of_ne (by decide) (by decide)
        · exact Ioc.meets_of_ne (by decide) (by decide)
    | fdcheck | selRd | sslNew | sslSetFd | sslConnect | sslErrStr | sslPending | sslShutdown
    | sslFree | select => exact h.answer hr rfl
    | _ => exact absurd he id
  ssl := fun h _ _ => ⟨h.1.of_eq rfl rfl rfl, h.2⟩
  stk := fun h _ => ⟨h.1.of_eq rfl rfl rfl, h.2⟩
  wire := by
    intro s w w' e r he h hr
    cases e with
    | recv | sslRecv | sslRecvSimple => exact h.answer hr rfl
    | _ => exact absurd he id

theorem housed_stable : Stable sharing Housed := housed_waits.toStable

theorem housed_updTx (h : Housed s w) : vcBufUpdateTx.wp sharing InPages
    (fun _ s' w' => (∃ tx, s' = { s with tx := tx }) ∧ Housed s' w') s w := by
  refine Act.wp_mono (wp_updateTx fine_kindly h.1.suits h.1.tx.size_eq h.2) ?_
  rintro _ _ w' ⟨⟨tx, rfl, hrange, hbegin⟩, hlog⟩
  exact ⟨⟨tx, rfl⟩, ⟨hrange, h.1.rx, hbegin.trans h.1.txBegin, h.1.rxBegin, h.1.pending⟩, hlog⟩

theorem housed_updRx (h : Housed s w) : vcBufUpdateRx.wp sharing InPages
    (fun _ s' w' => (∃ rx, s' = { s with rx := rx }) ∧ Housed s' w') s w := by
  refine Act.wp_mono (wp_updateRx fine_kindly h.1.suits h.1.rx.size_eq h.2) ?_
  rintro _ _ w' ⟨⟨rx, rfl, hrange, hbegin⟩, hlog⟩
  exact ⟨⟨rx, rfl⟩, ⟨h.1.tx, hrange, h.1.txBegin, hbegin.trans h.1.rxBegin, h.1.pending⟩, hlog⟩

theorem housed_updAttr (h : Housed s w) : vcBufUpdateAttr.wp sharing InPages
    (fun _ s' w' => (∃ v, s' = { s with view := v }) ∧ Legal s' ∧ Housed s' w') s w := by
  refine Act.wp_mono (wp_updateAttr fine_kindly h.1.suits h.2) ?_
  rintro _ _ w' ⟨⟨v, rfl⟩, hlegal, hlog⟩
  exact ⟨⟨v, rfl⟩, hlegal, h.1.of_eq rfl rfl rfl, hlog⟩

/-! ## Moves of an index -/

/-- A move forwards by no more than a page. -/
theorem admits_forward {i n : Int} (hi : 0 ≤ i) (hi' : i < PAGE_SIZE) (hn : 0 ≤ n)
    (hn' : n ≤ PAGE_SIZE) : Admits i (int32 n) := by
  simp only [PAGE_SIZE] at hi' hn'
  rw [int32_eq (by omega) (by omega)]
  refine Or.inl ?_
  rw [int32_eq (by omega) (by omega)]
  omega

theorem meets_sRxHead {n : Int} (hn : 0 ≤ n) (hn' : n ≤ PAGE_SIZE) (v : Vcom Cell) (hv : v.Placed) :
    Ioc.Meets (ownInt n) v .sRxHead :=
  ⟨fun h => (by cases h), fun _ _ =>
    admits_forward hv.sound.rx.head_nonneg hv.sound.rx.head_lt hn hn'⟩

theorem meets_sTxTail {n : Int} (hn : 0 ≤ n) (hn' : n ≤ PAGE_SIZE) (v : Vcom Cell) (hv : v.Placed) :
    Ioc.Meets (ownInt n) v .sTxTail :=
  ⟨fun _ => admits_forward hv.sound.tx.tail_nonneg hv.sound.tx.tail_lt hn hn',
    fun h => (by cases h)⟩

/-- An ioctl whose answer is not looked at. -/
theorem housed_ioctl {c : Ioc} {n : Int} {Q : Option Int → VcAttr → PortUse → Prop}
    (hm : ∀ v : Vcom Cell, v.Placed → c.Meets (ownInt n) v) (h : Housed s w)
    (hQ : ∀ r w', Housed s w' → Q r s w') : (ioctl c n).wp sharing InPages Q s w :=
  wp_logged fine_kindly h.1.suits (touch_ioctl fine_kindly hm) h.2 fun r _ w' _ _ h' =>
    hQ r w' ⟨h.1, h'⟩

theorem housed_clear (clrflags : Int) (h : Housed s w) : (vcBufClear clrflags).wp sharing InPages
    (fun _ s' w' => (∃ rx tx, s' = { s with rx := rx, tx := tx }) ∧ Housed s' w') s w := by
  have htx {rx : RingBuf} {w : PortUse} (h : Housed { s with rx := rx } w) :
      vcBufUpdateTx.wp sharing InPages
        (fun _ s' w' => (∃ rx tx, s' = { s with rx := rx, tx := tx }) ∧ Housed s' w')
        { s with rx := rx } w := by
    refine Act.wp_mono (housed_updTx h) ?_
    rintro _ _ w' ⟨⟨tx, rfl⟩, h'⟩
    exact ⟨⟨rx, tx, rfl⟩, h'⟩
  simp only [vcBufClear, Act.wp_bind]
  refine housed_ioctl (fun _ _ => Ioc.meets_of_ne (by decide) (by decide)) h fun r w₁ h₁ => ?_
  cases r with
  | none => exact ⟨⟨s.rx, s.tx, rfl⟩, h₁⟩
  | some v =>
      simp only [Act.wp_bind, Act.wp_ite, Act.wp_pure]
      split
      · refine housed_ioctl (meets_sRxHead (Int.le_refl 0) (by decide)) h₁ fun _ w₂ h₂ => ?_
        refine Act.wp_mono (housed_updRx h₂) ?_
        rintro _ _ w₃ ⟨⟨rx, rfl⟩, h₃⟩
        split
        · exact htx h₃
        · exact ⟨⟨rx, s.tx, rfl⟩, h₃⟩
      · split
        · exact @htx s.rx _ h₁
        · exact ⟨⟨s.rx, s.tx, rfl⟩, h₁⟩

/-! ## Loads -/

/-- What a WRITE carries is no more than `XMIT_LEN`, and its first part ends in the page. -/
theorem Snug.xmit_lengths (h : Snug s) {llen len : Int}
    (hllen : llen = if getRbLlength s.rx > XMIT_LEN then XMIT_LEN else getRbLlength s.rx)
    (hlen : len = if getRbLength s.rx > XMIT_LEN then XMIT_LEN else getRbLength s.rx) :
    0 ≤ llen ∧ s.rx.head + llen ≤ PAGE_SIZE ∧ llen ≤ len ∧ len ≤ XMIT_LEN := by
  have hnonneg := h.rx.llength_nonneg
  have hfit := h.rx.head_add_llength_le
  have hle : getRbLlength s.rx ≤ getRbLength s.rx := by
    rw [h.rx.llength_eq, h.rx.length_eq]
    exact Int.min_le_right _ _
  have hmax : XMIT_LEN = 1024 := rfl
  rw [hllen, hlen]
  split <;> split <;> omega

theorem housed_load {off len : Int} {Q : List UInt8 → VcAttr → PortUse → Prop} (hoff : 0 ≤ off)
    (hlen : 0 ≤ len) (hfit : off + len ≤ PAGE_SIZE) (h : Housed s w)
    (hQ : ∀ r w', Housed s w' → Q r s w') : (readRx off len).wp sharing InPages Q s w := by
  refine wp_logged fine_kindly h.1.suits (fun v _ t ht => ?_) h.2 fun r _ w' _ _ h' =>
    hQ r w' ⟨h.1, h'⟩
  rw [List.mem_singleton.mp ht]
  exact ⟨hoff, hlen, hfit⟩

theorem housed_readXmit {llen len : Int} (hlo : 0 ≤ llen) (hfit : s.rx.head + llen ≤ PAGE_SIZE)
    (hle : llen ≤ len) (hmax : len ≤ XMIT_LEN) (h : Housed s w) :
    (readXmit s.rx llen len).wp sharing InPages (fun _ s' w' => s' = s ∧ Housed s' w') s w := by
  have hhead : 0 ≤ getRbHead s.rx := h.1.rx.head_nonneg
  simp only [readXmit, Act.wp_ite, Act.wp_bind, Act.wp_pure]
  split
  · exact housed_load hhead hlo hfit h fun _ w' h' => ⟨rfl, h'⟩
  · refine housed_load hhead hlo hfit h fun _ w₁ h₁ => ?_
    have hpage : (0 : Int) + (len - llen) ≤ PAGE_SIZE := by
      simp only [XMIT_LEN] at hmax
      simp only [PAGE_SIZE]
      omega
    exact housed_load (Int.le_refl 0) (by omega) hpage h₁ fun _ w' h' => ⟨rfl, h'⟩

theorem housed_xmitSend (hup : Up st [] s) (h : Housed s w) :
    xmitSend.wp sharing InPages (Went Housed Housed st []) s w := by
  obtain ⟨hlo, hfit, hle, hmax⟩ := h.1.xmit_lengths rfl rfl
  simp only [xmitSend, Act.wp_bind, wp_getAttr]
  refine Act.wp_mono (housed_readXmit hlo hfit hle hmax h) ?_
  rintro data _ w₁ ⟨rfl, h₁⟩
  generalize (if getRbLength _ > XMIT_LEN then XMIT_LEN else getRbLength _) = len at hle hmax
  simp only [Act.wp_ite, Act.wp_pure, Act.wp_bind]
  split
  · exact ⟨hup.raised, h₁⟩
  refine wp_vcCheckSend (housed_stable.yields housed_stable fun _ _ h => h) Housed.inPages
    hup.raised.ne_nil hup.2.2.1 h₁ ?_ ?_ ?_
  · intro w₂ w₃ x _ h₂ hs
    have h₃ := h₂.sends hs
    exact ⟨hup, ⟨h₃.1.tx, h₃.1.rx, h₃.1.txBegin, h₃.1.rxBegin, Int.le_trans hlo hle, hmax⟩, h₃.2⟩
  · intro w₂ w₃ h₂ hs
    exact h₂.sends hs
  · intro w₂ x h₂
    exact ⟨hup.raised, h₂⟩

/-! ## Stores -/

theorem housed_store {off : Int} {bs : List UInt8} {Q : Unit → VcAttr → PortUse → Prop}
    (hoff : 0 ≤ off) (hfit : off + bs.length ≤ PAGE_SIZE) (h : Housed s w)
    (hQ : ∀ w', Housed s w' → Q () s w') : (copyTx off bs).wp sharing InPages Q s w := by
  refine wp_logged fine_kindly h.1.suits (fun v _ t ht => ?_) h.2 fun _ _ w' _ _ h' =>
    hQ w' ⟨h.1, h'⟩
  rw [List.mem_singleton.mp ht]
  exact ⟨hoff, hfit⟩

theorem housed_recvData (buf : Mem) (hup : Up st [] s) (h : Housed s w) :
    (recvData buf).wp sharing InPages (Went Housed Housed st []) s w := by
  have htail : 0 ≤ getRbTail s.tx := h.1.tx.tail_nonneg
  have hlroom := h.1.tx.lroom_nonneg
  have hpiece : getRbTail s.tx + getRbLroom s.tx ≤ PAGE_SIZE := h.1.tx.tail_add_lroom_le
  have hroom : getRbRoom s.tx < PAGE_SIZE := by
    have hd := dist_nonneg h.1.tx.head_lt h.1.tx.tail_nonneg
    rw [h.1.tx.room_eq]
    omega
  simp only [recvData, Act.wp_bind, wp_getAttr]
  cases hd : vcCheckRecv buf with
  | none => exact ⟨hup.raised, h⟩
  | some d =>
      have hlen := vcCheckRecv_eq hd
      have hmoved {w : PortUse} (h : Housed s w) (hd : d ≤ getRbRoom s.tx) :
          (do let _ ← ioctl .sTxTail d
              pure true : M Bool).wp sharing InPages (Went Housed Housed st []) s w := by
        rw [Act.wp_bind]
        exact housed_ioctl (meets_sTxTail (by omega) (by omega)) h fun _ _ h' => ⟨hup, h'⟩
      simp only [Act.wp_ite, Act.wp_bind, Act.wp_pure]
      split
      · exact ⟨hup.raised, h⟩
      rename_i hfits
      have hfits' : d ≤ getRbRoom s.tx := Int.not_lt.mp hfits
      split
      · refine housed_store htail ?_ h fun w₁ h₁ => ?_
        · rw [Mem.length_slice]
          omega
        · simpa only [Act.wp_bind, Act.wp_pure] using hmoved h₁ hfits'
      · refine housed_store htail ?_ h fun w₁ h₁ => ?_
        · rw [Mem.length_slice]
          omega
        · refine housed_store (Int.le_refl 0) ?_ h₁ fun w₂ h₂ => ?_
          · rw [Mem.length_slice]
            omega
          · simpa only [Act.wp_bind, Act.wp_pure] using hmoved h₂ hfits'

theorem housed_recvWrite (buf : Mem) (len : Int) (hup : Up st [] s) (h : Housed s w) :
    (recvWrite buf len).wp sharing InPages (Went Housed Housed st []) s w := by
  have hidle : Housed { s with xmitPending := 0 } w := ⟨h.1.idle, h.2⟩
  have hmax : s.xmitPending ≤ PAGE_SIZE := Int.le_trans h.1.pending.2 (by decide)
  simp only [recvWrite, Act.wp_bind, wp_getAttr, wp_modifyAttr, Act.wp_ite, Act.wp_pure]
  split
  · refine housed_ioctl (meets_sRxHead h.1.pending.1 hmax) hidle fun _ w₁ h₁ => ?_
    refine Act.wp_mono (housed_updRx h₁) ?_
    rintro _ _ w₂ ⟨⟨rx, rfl⟩, h₂⟩
    exact ⟨hup, h₂⟩
  · cases vcCheckXmit buf s.xmitPending STATUS_DEVICE_BUSY len with
    | true => exact ⟨hup, hidle⟩
    | false => exact ⟨hup.raised, hidle⟩

/-! ## Sends -/

/-- A step that only tunes. -/
theorem housed_tuned {α : Type} {m : M α} {f : α → Bool}
    (hm : m.Always (Tuning s) (fun _ => Steady s) s) (hup : Up st top s) (h : Housed s w) :
    m.wp sharing InPages (fun a => Went Housed Housed st top (f a)) s w := by
  have hsteady {s' : VcAttr} {w : PortUse} (hs : Steady s s') (h : Housed s w) : Housed s' w :=
    ⟨h.1.of_eq (by rw [hs.1]) (by rw [hs.1]) (by rw [hs.1]), h.2⟩
  refine Act.wp_mono (Act.Always.wp hm (Housed s) h ?_ ?_ ?_) ?_
  · intro s' e w w' _ h hd
    exact housed_stable.drift (s := s) h hd
  · intro s' e w ha h
    exact (hsteady ha.1 h).inPages
  · intro s' e r w w' ha h hr
    rcases ha.2.cases with ⟨ps, rfl | rfl, -⟩ | hquiet
    · exact h.answer hr rfl
    · exact h.answer hr rfl
    · exact housed_stable.quiet hquiet h hr
  · rintro a s' w' ⟨hs, h'⟩
    cases f a with
    | true => exact ⟨hs.up hup, hsteady hs h'⟩
    | false => exact ⟨(hs.up hup).raised, hsteady hs h'⟩

/-- One packet, whether it goes out or not. -/
theorem housed_packSend {p : Pkt} (hlen : 0 < p.plen 1024) (hs : Raised s) (h : Housed s w) :
    (packSend p 1024).wp sharing InPages
      (fun _ s' w' => (∃ x, s' = { s with ssl := x }) ∧ Housed s' w') s w := by
  refine wp_packSend hlen (wp_vcCheckSend (housed_stable.yields housed_stable fun _ _ h => h)
    Housed.inPages hs.ne_nil hs.2.1 h ?_ ?_ ?_)
  · intro w w' x hx h hsent
    exact ⟨⟨x, rfl⟩, housed_stable.ssl (h.sends hsent) x hx⟩
  · intro w w' h hsent
    exact h.sends hsent
  · intro w x h
    exact ⟨⟨x, rfl⟩, h⟩

theorem housed_purge (pflags : UInt32) (hs : Raised s) (h : Housed s w) :
    (vcCommonPurge pflags).wp sharing InPages (fun _ s w => Raised s ∧ Housed s w) s w := by
  simp only [vcCommonPurge, Act.wp_bind, wp_getAttr]
  refine Act.wp_mono (housed_packSend (by simp) hs h) ?_
  rintro ok _ w' ⟨⟨x, rfl⟩, h'⟩
  cases ok with
  | true => exact ⟨hs, h'.1.of_eq rfl rfl rfl, h'.2⟩
  | false => exact ⟨hs, h'⟩

theorem housed_closeSend (hs : Raised s) (h : Housed s w) :
    closeSend.wp sharing InPages (fun _ s w => Raised s ∧ Housed s w) s w := by
  simp only [closeSend, Act.wp_bind, wp_getAttr, wp_modifyAttr]
  refine Act.wp_mono (housed_packSend (by simp) (by exact hs) ⟨h.1.of_eq rfl rfl rfl, h.2⟩) ?_
  rintro ok _ w' ⟨⟨x, rfl⟩, h'⟩
  cases ok with
  | true => exact ⟨hs, h'.1.of_eq rfl rfl rfl, h'.2⟩
  | false => exact ⟨hs, h'⟩

theorem housed_closing (hs : Raised s) (h : Housed s w) :
    closing.wp sharing InPages (fun _ s w => Raised s ∧ Housed s w) s w := by
  simp only [closing, Act.wp_bind]
  refine Act.wp_mono (housed_clear _ h) ?_
  rintro _ _ w₁ ⟨⟨rx, tx, rfl⟩, h₁⟩
  refine Act.wp_mono (housed_purge _ (by exact hs) h₁) ?_
  rintro _ _ w₂ ⟨hs₂, h₂⟩
  exact housed_closeSend hs₂ h₂

/-! ## Every run -/

theorem sharing_keeps : Keeps sharing InPages Housed Housed Housed (fun _ _ => Housed) where
  stableJ := housed_stable
  stableS := housed_stable
  stableB := housed_stable
  stkH := fun h l => housed_stable.stk h l
  weakJ := fun _ _ h => h
  weakS := fun _ _ h => h
  pause := Housed.inPages
  close := fun _ h hr => ⟨h.1.idle.of_eq rfl rfl rfl, (h.answer (e := .close) hr rfl).2⟩
  refused := fun _ h hr _ => h.answer (e := .connect) hr rfl
  dialed := fun _ h hr _ => ⟨h.1.of_eq rfl rfl rfl, (h.answer (e := .connect) hr rfl).2⟩
  opened := fun _ h hs => ⟨h.1.of_eq rfl rfl rfl, (h.sends hs).2⟩
  unsent := fun _ h hs => h.sends hs
  plain := fun _ h _ hs => ⟨h.1.of_eq rfl rfl rfl, (h.sends hs).2⟩
  synced := fun hup h => ⟨housed_tuned (f := id) (syncAll_steady hup.raised.ne_nil) hup h⟩
  updated := fun hup h =>
    ⟨housed_tuned (f := (· != some false)) (ioctlSend_steady hup.raised.ne_nil) hup h⟩
  transmitted := fun hup h _ _ => ⟨housed_xmitSend hup h⟩
  updRx := fun _ h => ⟨housed_updRx h⟩
  updTx := fun _ h => ⟨housed_updTx h⟩
  updAttr := fun _ h => ⟨housed_updAttr h⟩
  clearDown := by
    intro s w hdown h
    refine ⟨Act.wp_mono (housed_clear _ h) ?_⟩
    rintro _ _ w' ⟨⟨rx, tx, rfl⟩, h'⟩
    exact ⟨hdown, h'⟩
  clearIdle := by
    intro st s w hup h
    refine ⟨Act.wp_mono (housed_clear _ h) ?_⟩
    rintro _ _ w' ⟨⟨rx, tx, rfl⟩, h'⟩
    exact ⟨hup.raised, h'⟩
  closed := fun hup h _ => ⟨housed_closing hup.raised h⟩
  received := fun buf hup h =>
    ⟨came_of_waits housed_waits housed_waits (fun _ _ h => h) Housed.inPages
      (fun _ h => Act.wp_mono (housed_updTx h) fun _ _ _ hq => ⟨hq.1, hq.2, hq.2⟩)
      (fun _ h _ hr _ => h.answer (e := .hand _) hr rfl) hup h buf⟩
  passed := fun _ h _ _ => h
  stored := fun {_ _ _ buf _} hup h _ => ⟨housed_recvData buf hup h⟩
  answered := fun {_ _ _ buf len} hup h _ => ⟨housed_recvWrite buf len hup h⟩

theorem wp_setupTx_page (h : Logged Touch.IsCall w) : vcBufSetupTx.wp sharing InPages
    (fun _ s' w' => (∃ tx, s' = { s with tx := tx } ∧ tx.InRange ∧ tx.begin = 0) ∧
      Logged Touch.IsCall w') s w := by
  simp only [vcBufSetupTx, Act.wp_bind]
  refine wp_reads isCall_kindly (suits_isCall s) (P := (· = 0))
    (fun v hv => ⟨_, rfl, hv.txBegin⟩) h fun begin w₁ hbegin h₁ => ?_
  simp only [Act.wp_bind]
  refine wp_reads isCall_kindly (suits_isCall s) (P := (· = PAGE_SIZE))
    (fun v hv => ⟨_, rfl, hv.sound.tx.size_eq⟩) h₁ fun size w₂ hsize h₂ => ?_
  simp only [Act.wp_bind, wp_modifyAttr]
  refine Act.wp_mono (wp_updateTx isCall_kindly (suits_isCall _) hsize h₂) ?_
  rintro _ _ w₃ ⟨⟨tx, rfl, htx, htxBegin⟩, h₃⟩
  exact ⟨⟨tx, rfl, htx, htxBegin.trans hbegin⟩, h₃⟩

theorem wp_setupRx_page (h : Logged Touch.IsCall w) : vcBufSetupRx.wp sharing InPages
    (fun _ s' w' => (∃ rx, s' = { s with rx := rx } ∧ rx.InRange ∧ rx.begin = PAGE_SIZE) ∧
      Logged Touch.IsCall w') s w := by
  simp only [vcBufSetupRx, Act.wp_bind]
  refine wp_reads isCall_kindly (suits_isCall s) (P := (· = PAGE_SIZE))
    (fun v hv => ⟨_, rfl, hv.rxBegin⟩) h fun begin w₁ hbegin h₁ => ?_
  simp only [Act.wp_bind]
  refine wp_reads isCall_kindly (suits_isCall s) (P := (· = PAGE_SIZE))
    (fun v hv => ⟨_, rfl, hv.sound.rx.size_eq⟩) h₁ fun size w₂ hsize h₂ => ?_
  simp only [Act.wp_bind, wp_modifyAttr]
  refine Act.wp_mono (wp_updateRx isCall_kindly (suits_isCall _) hsize h₂) ?_
  rintro _ _ w₃ ⟨⟨rx, rfl, hrx, hrxBegin⟩, h₃⟩
  exact ⟨⟨rx, rfl, hrx, hrxBegin.trans hbegin⟩, h₃⟩

/-- The set-up learns where the pages begin and how long they are; until it is through the
daemon makes ioctls only. -/
theorem wp_setup_housed (hs : Fresh s) (h : Logged Touch.IsCall w) :
    setup.wp sharing InPages (fun _ s w => Ready (𝓔 := sharing) Housed s w) s w := by
  simp only [setup, Act.wp_bind]
  refine Act.wp_mono (wp_setupTx_page h) ?_
  rintro _ _ w₁ ⟨⟨tx, rfl, htx, htxBegin⟩, h₁⟩
  refine Act.wp_mono (wp_setupRx_page h₁) ?_
  rintro _ _ w₂ ⟨⟨rx, rfl, hrx, hrxBegin⟩, h₂⟩
  simp only [vcBufSetupAttr, Act.wp_bind]
  refine wp_reads isCall_kindly (suits_isCall _) (P := fun _ => True)
    (fun v hv => ⟨_, rfl, trivial⟩) h₂ fun _ w₃ _ h₃ => ?_
  refine Act.wp_mono (wp_updateAttr isCall_kindly (suits_isCall _) h₃) ?_
  rintro _ _ w₄ ⟨⟨view, rfl⟩, hlegal, h₄⟩
  refine ⟨hs.1, hs.2.1, hlegal, ?_, h₄.placed, fun t ht => isCall_kindly.fine (h₄.touched t ht)⟩
  exact ⟨htx, hrx, htxBegin, hrxBegin, Int.le_refl 0, show (0 : Int) ≤ XMIT_LEN by decide⟩

/-- **Nobody leaves the pages.**  The daemon shares the proc file with anyone who keeps to
the condition of `Range`.  In every state of every run it has not died, the driver's
indices and accesses are in range, and so is all the daemon has touched: every byte it
stored or loaded is the byte of the ring it meant, and every ioctl it made keeps to the
condition asked of the others. -/
theorem daemon_stays_in_pages {mctrl : UInt32} {page : Int → Cell} {fifo : Kfifo Cell} {buf : Mem} {s₀ : VcAttr}
    (hs : Fresh s₀) {p : Proc VcSig VcAttr (Option LoopState)}
    (hreach : sharing.Reach iteration (mainStart buf s₀) ⟨advMainInit mctrl page fifo, []⟩ p w) :
    ∃ s, p.state? = some s ∧ w.v.InRange ∧ ∀ t ∈ w.touched, t.Lands s w.v := by
  have hinit : Logged Touch.IsCall ⟨advMainInit mctrl page fifo, []⟩ :=
    ⟨advMainInit_placed mctrl page fifo, fun _ ht => absurd ht List.not_mem_nil⟩
  have hwp := sharing_keeps.run (wp_setup_housed hs hinit) hreach
  cases p with
  | done ls s =>
      have hin := hwp.2.inPages
      exact ⟨s, rfl, hin.placed.sound.toInRange, hin.lands⟩
  | fault f => exact absurd hwp id
  | pause s e k =>
      have hin := hwp.pause
      exact ⟨s, rfl, hin.placed.sound.toInRange, hin.lands⟩

end

/-- Where in which page. -/
def Touch.extent : Touch → Option (Page × Int × Int)
  | .store off len => some (.tx, off, len)
  | .load off len => some (.rx, off, len)
  | .call _ _ => none

/-- The driver with a tty that takes nothing, and a network that answers by `net`. -/
def portReply (net : (e : Req) → Option e.Rep) (w : PortUse) (e : Req) : Option (e.Rep × PortUse) :=
  (sysReply net { idleSys with v := w.v } e).map fun r =>
    (r.1, ⟨r.2.v, w.touched ++ Touch.of w.v e⟩)

theorem portReply_legal {net : (e : Req) → Option e.Rep} {w w' : PortUse} {e : Req} {r : e.Rep}
    (h : portReply net w e = some (r, w')) : sharing.answers w e r w' := by
  obtain ⟨⟨r', v'⟩, hr, heq⟩ := Option.map_eq_some_iff.mp h
  cases heq
  exact ⟨(sysReply_legal hr).driver, rfl⟩

/-- `IOCSRXHEAD` by another user, to the last cell of the page. -/
def othersMove : Call Cell := .ioctl [] (Ioc.word .sRxHead) (ownInt 4095)

/-- The tty is opened and a byte written, and then the head is moved behind it: the ring
shows two bytes, around the end of the page. -/
def disturbed : List (Call Cell) :=
  [.startup, .ttyFifo ⟨[⟨65, 0, false⟩], 0, 4096, fifo_size_pos⟩, .xmit, othersMove]

def disturbedPort : PortUse := ⟨disturbed.foldl (fun v c => c.run v) idleSys.v, []⟩

/-- Calls of others while the daemon is paused. -/
theorem reach_others {p p₀ : Proc VcSig VcAttr (Option LoopState)} {s : VcAttr} {w₀ : PortUse}
    (hshow : p.state? = some s) (cs : List (Call Cell)) (v : Vcom Cell) (touched : List Touch)
    (hm : AllMeet cs v) (h : sharing.Reach iteration p₀ w₀ p ⟨v, touched⟩) :
    sharing.Reach iteration p₀ w₀ p ⟨cs.foldl (fun v c => c.run v) v, touched⟩ := by
  induction cs generalizing v with
  | nil => exact h
  | cons c cs ih => exact ih (c.run v) hm.2 (h.step (.drift hshow ⟨c, hm.1, rfl⟩))

theorem disturbedRun_touched :
    (((mainStart (fun _ => 0) freshAttr).bind (rounds iteration 1)).exec
      (portReply (sendingNet 66)) disturbedPort).map (fun r => r.2.2.touched.filterMap Touch.extent) =
      some [(.rx, 4095, 1), (.rx, 0, 1), (.tx, 0, 1)] := by
  decide +kernel

theorem disturbed_meets : AllMeet disturbed idleSys.v := by
  refine ⟨trivial, trivial, trivial, ?_, trivial⟩
  refine Call.meets_ioctl_iff.mpr fun _ => ⟨fun h => (by cases h), fun _ _ => ?_⟩
  exact Or.inl (by decide +kernel)

/-- A WRITE around the end of the page, and a byte from the device. -/
theorem daemon_stays_in_pages_disturbed : Fresh freshAttr ∧ ∃ ls s w,
    sharing.Reach iteration (mainStart (fun _ => 0) freshAttr) ⟨idleSys.v, []⟩ (.done ls s) w ∧
      w.touched.filterMap Touch.extent = [(.rx, 4095, 1), (.rx, 0, 1), (.tx, 0, 1)] ∧
      w.v.InRange ∧ ∀ t ∈ w.touched, t.Lands s w.v := by
  have hfresh : Fresh freshAttr := ⟨rfl, rfl, Or.inl rfl⟩
  obtain ⟨⟨ls, s, w⟩, hrun, htouched⟩ := Option.map_eq_some_iff.mp disturbedRun_touched
  have hmoved : sharing.Reach iteration (mainStart (fun _ => 0) freshAttr) ⟨idleSys.v, []⟩
      (mainStart (fun _ => 0) freshAttr) disturbedPort :=
    reach_others rfl disturbed idleSys.v [] disturbed_meets .start
  have hreach := Env.Reach.rounds (𝓔 := sharing) portReply_legal 1 hmoved hrun
  obtain ⟨s', hshow, hin, hlands⟩ := @daemon_stays_in_pages w 0 (fun _ => ⟨0, 0, false⟩)
    ⟨[], 0, 4096, fifo_size_pos⟩ (fun _ => 0) freshAttr hfresh _ hreach
  cases hshow
  exact ⟨hfresh, ls, s, w, hreach, htouched, hin, hlands⟩

end AdvVcom
