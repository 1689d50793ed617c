/-
# `AdvVcom.Driver.Range` — the ring indices under arbitrary ioctls

Anyone may open the proc file and issue ioctls with any argument.  Two commands
move an index by that argument, unchecked: `IOCSTXTAIL` the tail of `tx` and
`IOCSRXHEAD` the head of `rx`.  C's `%` truncates towards zero, so the sum
`index + n` (wrapped to 32 bits) gives an index below the page exactly when it is
negative and not a multiple of the page size.  That is the only way out of the
page:

    every state is in range  ⟺  every such ioctl meets `Admits`     (`inRange_always_iff`)
    IOCSRXHEAD with −1 on a fresh port gives head = −1               (`rxHead_below_page`)

"In range" includes the accesses: every length handed to `memcpy` or
`tty_insert_flip_string` is non-negative and ends inside the page.
-/
import AdvVcom.Driver.Flow

namespace AdvVcom

open Lib.Ring

variable {β : Type}

/-! ## The invariant and the condition -/

/-- Both rings have their indices in the page, and no access left its page. -/
structure Vcom.InRange (v : Vcom β) : Prop where
  tx : v.tx.InRange
  rx : v.rx.InRange
  log : ∀ a ∈ v.log, a.InPage

/-- Moving an index at `i` by `n` does not leave the page: as a C `int` the sum is
not negative, or it is a multiple of the page size. -/
def Admits (i n : Int) : Prop := 0 ≤ int32 (i + n) ∨ PAGE_SIZE ∣ i + n

/-- What a call has to satisfy in the state it is made in. -/
def Call.Meets : Call β → Vcom β → Prop
  | .ioctl _ cmd arg, v =>
      arg.accessOk = true →
        (cmd = Ioc.word .sTxTail → Admits v.tx.tail (getUser arg).2) ∧
        (cmd = Ioc.word .sRxHead → v.rx.clean = false → Admits v.rx.head (getUser arg).2)
  | _, _ => True

/-- `P` holds now and after each of the calls. -/
def AllStates (P : Vcom β → Prop) : List (Call β) → Vcom β → Prop
  | [], v => P v
  | c :: cs, v => P v ∧ AllStates P cs (c.run v)

/-- Each call meets its condition when it is made. -/
def AllMeet : List (Call β) → Vcom β → Prop
  | [], _ => True
  | c :: cs, v => c.Meets v ∧ AllMeet cs (c.run v)

theorem page_dvd_int32 (x : Int) : PAGE_SIZE ∣ int32 x ↔ PAGE_SIZE ∣ x := by
  simp only [PAGE_SIZE, int32]
  rw [Int.bmod_def]
  split <;> omega

/-- Where C's remainder lands in the page. -/
theorem tmod_page_iff (x : Int) :
    (0 ≤ x.tmod PAGE_SIZE ∧ x.tmod PAGE_SIZE < PAGE_SIZE) ↔ (0 ≤ x ∨ PAGE_SIZE ∣ x) := by
  simp only [PAGE_SIZE]
  rcases Int.le_total 0 x with hx | hx
  · rw [Int.tmod_eq_emod_of_nonneg hx]
    constructor
    · intro _; exact Or.inl hx
    · intro _; omega
  · have hneg : x.tmod 4096 = -((-x) % 4096) := by
      rw [← Int.tmod_eq_emod_of_nonneg (by omega), Int.neg_tmod, Int.neg_neg]
    rw [hneg]
    omega

theorem tmod_admits_iff (i n : Int) :
    (0 ≤ (int32 (i + n)).tmod PAGE_SIZE ∧ (int32 (i + n)).tmod PAGE_SIZE < PAGE_SIZE)
      ↔ Admits i n := by
  rw [tmod_page_iff, page_dvd_int32, Admits]

theorem moveRbTail_inRange_iff {r : KRing β} (h : r.InRange) (n : Int) :
    (moveRbTail r n).InRange ↔ Admits r.tail n := by
  have htl : (moveRbTail r n).tail = (int32 (r.tail + n)).tmod PAGE_SIZE := by
    rw [← h.size_eq]; rfl
  rw [← tmod_admits_iff, ← htl]
  constructor
  · intro h'
    exact ⟨h'.tail_nonneg, h'.tail_lt⟩
  · rintro ⟨hlo, hhi⟩
    exact ⟨h.size_eq, h.head_nonneg, h.head_lt, hlo, hhi⟩

theorem moveRbHead_inRange_iff {r : KRing β} (h : r.InRange) (n : Int) :
    (moveRbHead r n).InRange ↔ (r.clean = false → Admits r.head n) := by
  cases hc : r.clean with
  | true =>
      simp only [moveRbHead, hc, if_true, Bool.true_eq_false, false_implies, iff_true]
      exact ⟨h.size_eq, h.tail_nonneg, h.tail_lt, h.tail_nonneg, h.tail_lt⟩
  | false =>
      have hhd : (moveRbHead r n).head = (int32 (r.head + n)).tmod PAGE_SIZE := by
        simp only [moveRbHead, hc, Bool.false_eq_true, if_false, h.size_eq]
      rw [← tmod_admits_iff, ← hhd]
      constructor
      · intro h' _
        exact ⟨h'.head_nonneg, h'.head_lt⟩
      · intro h'
        obtain ⟨hlo, hhi⟩ := h' rfl
        rw [moveRbHead_eq hc]
        exact ⟨h.size_eq, hlo, hhi, h.tail_nonneg, h.tail_lt⟩

/-! ## One call -/

/-- The invariant with what its induction needs: the TX ring's CLEAN flag is set
and consumed inside one call. -/
structure Vcom.Sound (v : Vcom β) : Prop extends v.InRange where
  clean : v.tx.clean = false

theorem Vcom.Sound.withAttr {v : Vcom β} (hv : v.Sound) (attr : PortAtt) :
    { v with attr := attr }.Sound :=
  ⟨⟨hv.tx, hv.rx, hv.log⟩, hv.clean⟩

theorem Appends.sound {v v' : Vcom β} {xs : List β} (h : Appends v v' xs) (hv : v.Sound) :
    v'.Sound where
  tx := by rw [h.tx]; exact hv.tx
  rx := h.inRange
  clean := by rw [h.tx]; exact hv.clean
  log := by
    obtain ⟨as, hlog, hin, -, -⟩ := h.log
    intro a ha
    rw [hlog] at ha
    rcases List.mem_append.mp ha with ha | ha
    · exact hv.log a ha
    · exact hin a ha

theorem Drains.sound {v v' : Vcom β} {xs : List β} (h : Drains v v' xs) (hv : v.Sound) :
    v'.Sound where
  tx := h.inRange
  rx := by rw [h.rx]; exact hv.rx
  clean := h.clean.trans hv.clean
  log := by
    obtain ⟨as, hlog, hin, -, -⟩ := h.log
    intro a ha
    rw [hlog] at ha
    rcases List.mem_append.mp ha with ha | ha
    · exact hv.log a ha
    · exact hin a ha

theorem advUartXmit_sound {v : Vcom β} (hv : v.Sound) : (advUartXmit v).Sound := by
  obtain ⟨xs, h⟩ := advUartXmit_appends hv.rx
  exact h.sound hv

theorem advUartUpdateXmit_sound {v : Vcom β} (hv : v.Sound) : (advUartUpdateXmit v).Sound := by
  unfold advUartUpdateXmit
  split
  · split
    · exact advUartXmit_sound hv
    · exact hv
  · exact hv

theorem recvCharsLocked_sound {accept : List Nat} {v : Vcom β} (hv : v.Sound) :
    (recvCharsLocked accept v).Sound := by
  obtain ⟨xs, h⟩ := recvCharsLocked_drains hv.tx hv.clean
  exact h.sound hv

theorem advUartRecvChars_sound {accept : List Nat} {v : Vcom β} (hv : v.Sound) :
    (advUartRecvChars accept v).Sound := by
  obtain ⟨xs, h⟩ := advUartRecvChars_drains hv.tx hv.clean
  exact h.sound hv

theorem advMainInterrupt_sound {accept : List Nat} {mask : Int} {v : Vcom β} (hv : v.Sound) :
    (advMainInterrupt accept mask v).Sound := by
  unfold advMainInterrupt
  have hrx : (if hasFlag mask ADV_INT_RX then advUartUpdateXmit v else v).Sound := by
    split
    · exact advUartUpdateXmit_sound hv
    · exact hv
  simp only
  split
  · exact advUartRecvChars_sound hrx
  · exact hrx

theorem advMainClear_sound {mask : Int} {v : Vcom β} (hv : v.Sound) :
    (advMainClear mask v).Sound := by
  unfold advMainClear
  have hrx : (if hasFlag mask ADV_CLR_RX then { v with rx := { v.rx with clean := true } }
      else v).Sound := by
    split
    · exact ⟨⟨hv.tx, hv.rx, hv.log⟩, hv.clean⟩
    · exact hv
  simp only
  generalize (if hasFlag mask ADV_CLR_RX then { v with rx := { v.rx with clean := true } }
    else v) = v' at hrx
  split
  · -- CLEAN is set and the head moved to the tail, which consumes it
    have h := hrx.tx
    exact ⟨⟨⟨h.size_eq, h.tail_nonneg, h.tail_lt, h.tail_nonneg, h.tail_lt⟩, hrx.rx, hrx.log⟩, rfl⟩
  · exact hrx

/-- Out of the page or not, draining never moves the tail. -/
theorem recvLoop_tail (maxRetry : Nat) (accept : List Nat) (count : Int) (v : Vcom β) :
    (recvLoop maxRetry accept count v).tx.tail = v.tx.tail := by
  induction maxRetry generalizing accept count v with
  | zero => rfl
  | succ maxRetry ih =>
      simp only [recvLoop]
      split
      · split
        · rw [ih]
          simp only [moveRbHead]
          split <;> rfl
        · rfl
      · rfl

theorem advUartRecvChars_tail (accept : List Nat) (v : Vcom β) :
    (advUartRecvChars accept v).tx.tail = v.tx.tail := by
  unfold advUartRecvChars recvCharsLocked
  split
  · rfl
  split
  · exact recvLoop_tail _ _ _ _
  · rfl

/-- What the two commands that take an index from the user have to satisfy. -/
def Ioc.Meets (arg : UserInt) (v : Vcom β) (c : Ioc) : Prop :=
  (c = .sTxTail → Admits v.tx.tail (getUser arg).2) ∧
  (c = .sRxHead → v.rx.clean = false → Admits v.rx.head (getUser arg).2)

theorem iocSwitch_sound {accept : List Nat} {arg : UserInt} {v : Vcom β} (hv : v.Sound)
    {c : Ioc} (hm : c.Meets arg v) : (iocSwitch accept arg v c).vcom.Sound := by
  have hput {v' : Vcom β} (hv' : v'.Sound) (x : Int) : (putUser arg x v').vcom.Sound := by
    unfold putUser; split <;> exact hv'
  cases c with
  | sTxTail =>
      refine advUartRecvChars_sound ⟨⟨?_, hv.rx, hv.log⟩, hv.clean⟩
      exact (moveRbTail_inRange_iff hv.tx _).mpr (hm.1 rfl)
  | sRxHead =>
      exact ⟨⟨hv.tx, (moveRbHead_inRange_iff hv.rx _).mpr (hm.2 rfl), hv.log⟩, hv.clean⟩
  | sInter => exact advMainInterrupt_sound hv
  | sClr => exact advMainClear_sound hv
  | sMCtrl => exact ⟨⟨hv.tx, hv.rx, hv.log⟩, hv.clean⟩
  | gAttrPtr => exact hput (hv.withAttr (flushAttrInfo v.attr).2) _
  | gTxHead | gTxTail | gTxSize | gTxBegin | gRxHead | gRxTail | gRxSize | gRxBegin | gAttrBegin =>
      exact hput hv _

theorem iocSwitch_meets {accept : List Nat} {arg : UserInt} {v : Vcom β} (hv : v.Sound)
    {c : Ioc} (h : (iocSwitch accept arg v c).vcom.InRange) : c.Meets arg v := by
  constructor
  · rintro rfl
    rw [← moveRbTail_inRange_iff hv.tx]
    have hlo := h.tx.tail_nonneg
    have hhi := h.tx.tail_lt
    simp only [iocSwitch, advUartRecvChars_tail] at hlo hhi
    exact ⟨hv.tx.size_eq, hv.tx.head_nonneg, hv.tx.head_lt, hlo, hhi⟩
  · rintro rfl
    exact (moveRbHead_inRange_iff hv.rx _).mp h.rx

theorem Call.meets_ioctl_iff {accept : List Nat} {c : Ioc} {arg : UserInt} {v : Vcom β} :
    (Call.ioctl accept c.word arg).Meets v ↔ (arg.accessOk = true → c.Meets arg v) := by
  simp only [Call.Meets, Ioc.Meets, Ioc.word_inj]

/-- **One step, forwards**: a call that meets its condition keeps a sound state sound. -/
theorem Call.run_sound {v : Vcom β} (hv : v.Sound) {c : Call β} (hm : c.Meets v) :
    (c.run v).Sound := by
  cases c with
  | ioctl accept cmd arg =>
      show (advProcIoctl accept cmd arg v).vcom.Sound
      by_cases hc : ∃ c : Ioc, cmd = c.word
      · obtain ⟨c, rfl⟩ := hc
        rw [advProcIoctl_word]
        split
        · rename_i harg
          exact iocSwitch_sound hv (Call.meets_ioctl_iff.mp hm harg)
        · exact hv
      · rw [advProcIoctl_other fun c h => hc ⟨c, h⟩]
        exact hv
  | xmit => exact advUartXmit_sound hv
  | startTx => exact advUartXmit_sound ⟨⟨hv.tx, hv.rx, hv.log⟩, hv.clean⟩
  | updateXmit => exact advUartUpdateXmit_sound hv
  | recvChars accept => exact advUartRecvChars_sound hv
  | recvLocked accept => exact recvCharsLocked_sound hv
  | unthrottle accept => exact advUartRecvChars_sound (hv.withAttr { v.attr with throttled := false })
  | pokeTx | pokeRx | ttyFifo | stopTx | stopRx | throttle | startup | shutdown | setMctrl
  | setTermios => exact ⟨⟨hv.tx, hv.rx, hv.log⟩, hv.clean⟩

/-- **One step, backwards**: a call that leaves the state in range met its condition. -/
theorem Call.meets_of_inRange {v : Vcom β} (hv : v.Sound) {c : Call β}
    (h : (c.run v).InRange) : c.Meets v := by
  cases c with
  | ioctl accept cmd arg =>
      by_cases hc : ∃ c : Ioc, cmd = c.word
      · obtain ⟨c, rfl⟩ := hc
        rw [Call.meets_ioctl_iff]
        intro harg
        simp only [Call.run, advProcIoctl_word, harg, if_true] at h
        exact iocSwitch_meets hv h
      · intro _
        exact ⟨fun h => absurd ⟨_, h⟩ hc, fun h => absurd ⟨_, h⟩ hc⟩
  | _ => trivial

/-! ## Whole runs -/

theorem advMainInit_sound (mctrl : UInt32) (page : Int → β) (fifo : Kfifo β) : (advMainInit mctrl page fifo).Sound := by
  have hring : RingBuf.InRange ⟨0, 0, 0, PAGE_SIZE⟩ := by constructor <;> simp [PAGE_SIZE]
  have hring' : RingBuf.InRange ⟨0, 0, PAGE_SIZE, PAGE_SIZE⟩ := by constructor <;> simp [PAGE_SIZE]
  exact ⟨⟨hring, hring', by simp [advMainInit]⟩, rfl⟩

/-- **The ring index invariant**: along any sequence of calls on a fresh port,
every state is in range if and only if every ioctl that hands the driver an index
step meets `Admits` in the state it is made in. -/
theorem inRange_always_iff (mctrl : UInt32) (page : Int → β) (fifo : Kfifo β) (calls : List (Call β)) :
    AllStates Vcom.InRange calls (advMainInit mctrl page fifo) ↔
      AllMeet calls (advMainInit mctrl page fifo) := by
  have hrun : ∀ v : Vcom β, v.Sound → (AllStates Vcom.InRange calls v ↔ AllMeet calls v) := by
    induction calls with
    | nil => intro v hv; exact iff_true_intro hv.toInRange
    | cons c cs ih =>
        intro v hv
        constructor
        · rintro ⟨-, hrest⟩
          have hnow : (c.run v).InRange := by
            cases cs with
            | nil => exact hrest
            | cons d ds => exact hrest.1
          have hm := Call.meets_of_inRange hv hnow
          exact ⟨hm, (ih _ (Call.run_sound hv hm)).mp hrest⟩
        · rintro ⟨hm, hrest⟩
          exact ⟨hv.toInRange, (ih _ (Call.run_sound hv hm)).mpr hrest⟩
  exact hrun _ (advMainInit_sound mctrl page fifo)

/-- A port whose tty has nothing to send. -/
def freshPort : Vcom UInt8 :=
  advMainInit 0 (fun _ => 0) { bytes := [], out := 0, size := 4096, size_pos := by decide }

/-- `ADVVCOM_IOCSRXHEAD` with `-1`, by any user of the proc file. -/
def rxHeadMinusOne : Call UInt8 :=
  .ioctl [] (Ioc.word .sRxHead) { accessOk := true, value := some (-1), writable := true }

/-- **The way out**: one ioctl on a fresh port leaves the head of `rx` at `-1`. -/
theorem rxHead_below_page :
    (rxHeadMinusOne.run freshPort).rx.head = -1 ∧
      ¬ AllStates Vcom.InRange [rxHeadMinusOne] freshPort := by
  have hhead : (rxHeadMinusOne.run freshPort).rx.head = -1 := by decide
  refine ⟨hhead, fun h => ?_⟩
  have hnn := h.2.rx.head_nonneg
  rw [hhead] at hnn
  omega

end AdvVcom
