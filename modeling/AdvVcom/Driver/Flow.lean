/-
# `AdvVcom.Driver.Flow` — bytes through the driver

What the driver does to the *content* of its rings, the bytes from head to tail,
whatever the positions.

    adv_uart_xmit        moves bytes from the front of the tty's fifo to the end
                         of the RX ring                       (`Appends`, `advUartXmit_appends`)
    adv_uart_recv_chars  moves bytes from the front of the TX ring to the tty
                                                              (`Drains`, `recvCharsLocked_drains`)
    everything else      leaves both contents alone

Both loops are runs of one-pass lemmas (`xmitCopy_appends`, `recvPass_drains`)
composed by `Appends.trans` and `Drains.trans`.  The relations also say what is
*not* touched and that every access recorded on the way lies in its page, so that
a user of this file never unfolds a loop.
-/
import AdvVcom.Driver.Vcom

namespace AdvVcom

open Lib.Ring

variable {β : Type}

/-! ## Contents and accesses -/

/-- The bytes a ring holds, oldest first. -/
def KRing.content (r : KRing β) : List β := Lib.Ring.content r.data PAGE_SIZE r.head r.tail

/-- The bytes an access put into the RX ring. -/
def Access.appended : Access β → List β
  | .copied _ xs => xs
  | .offered _ _ _ => []

/-- The bytes an access put into the tty. -/
def Access.inserted : Access β → List β
  | .copied _ _ => []
  | .offered _ _ taken => taken

/-- The access stays in its page, and its length is not negative. -/
def Access.InPage : Access β → Prop
  | .copied off xs => 0 ≤ off ∧ off + xs.length ≤ PAGE_SIZE
  | .offered off len _ => 0 ≤ off ∧ 0 ≤ len ∧ off + len ≤ PAGE_SIZE

theorem KRing.length_content {r : KRing β} (h : r.InRange) :
    (r.content.length : Int) = getRbLength r.toRingBuf := by
  have hd := h.length_nonneg
  rw [h.length_eq] at hd ⊢
  rw [KRing.content, Lib.Ring.length_content]
  omega

/-! ## Moving an index of an in-range ring -/

theorem tmod_page_eq_slot {i n : Int} (hi : 0 ≤ i) (hi' : i < PAGE_SIZE) (hn : 0 ≤ n)
    (hn' : n ≤ PAGE_SIZE) : (int32 (i + n)).tmod PAGE_SIZE = slot PAGE_SIZE i n := by
  simp only [PAGE_SIZE] at *
  rw [int32_eq (by omega) (by omega), Int.tmod_eq_emod_of_nonneg (by omega)]
  unfold slot
  split <;> omega

theorem moveRbTail_tail {r : KRing β} (h : r.InRange) {n : Int} (hn : 0 ≤ n)
    (hn' : n ≤ PAGE_SIZE) : (moveRbTail r n).tail = slot PAGE_SIZE r.tail n := by
  show (int32 (r.tail + n)).tmod r.size = _
  rw [h.size_eq]
  exact tmod_page_eq_slot h.tail_nonneg h.tail_lt hn hn'

theorem moveRbTail_inRange {r : KRing β} (h : r.InRange) {n : Int} (hn : 0 ≤ n)
    (hn' : n ≤ PAGE_SIZE) : (moveRbTail r n).InRange where
  size_eq := h.size_eq
  head_nonneg := h.head_nonneg
  head_lt := h.head_lt
  tail_nonneg := by rw [moveRbTail_tail h hn hn']; exact slot_nonneg h.tail_nonneg hn
  tail_lt := by rw [moveRbTail_tail h hn hn']; exact slot_lt h.tail_lt hn'

theorem moveRbHead_head {r : KRing β} (h : r.InRange) (hc : r.clean = false) {n : Int}
    (hn : 0 ≤ n) (hn' : n ≤ PAGE_SIZE) : (moveRbHead r n).head = slot PAGE_SIZE r.head n := by
  simp only [moveRbHead, hc, Bool.false_eq_true, if_false, h.size_eq]
  exact tmod_page_eq_slot h.head_nonneg h.head_lt hn hn'

/-- Every field but the head is as before. -/
theorem moveRbHead_eq {r : KRing β} (hc : r.clean = false) (n : Int) :
    moveRbHead r n = { r with head := (moveRbHead r n).head } := by
  simp only [moveRbHead, hc, Bool.false_eq_true, if_false]

theorem moveRbHead_inRange {r : KRing β} (h : r.InRange) (hc : r.clean = false) {n : Int}
    (hn : 0 ≤ n) (hn' : n ≤ PAGE_SIZE) : (moveRbHead r n).InRange := by
  have hhd := moveRbHead_head h hc hn hn'
  rw [moveRbHead_eq hc, hhd]
  exact ⟨h.size_eq, slot_nonneg h.head_nonneg hn, slot_lt h.head_lt hn', h.tail_nonneg, h.tail_lt⟩

/-- Moving the tail over `n` free cells appends what is in them. -/
theorem content_moveRbTail {r : KRing β} (h : r.InRange) {n : Nat}
    (hroom : (n : Int) ≤ getRbRoom r.toRingBuf) :
    (moveRbTail r n).content = r.content ++ window r.data PAGE_SIZE r.tail n := by
  have hd := dist_nonneg h.head_lt h.tail_nonneg
  rw [h.room_eq] at hroom
  have htl := moveRbTail_tail h (n := n) (by omega) (by omega)
  show Lib.Ring.content r.data PAGE_SIZE r.head (moveRbTail _ _).tail = _
  rw [htl, content_extend h.head_lt h.tail_nonneg h.tail_lt (by omega)]
  rfl

/-- Moving the tail over `xs` written there appends `xs`. -/
theorem content_moveRbTail_put {r : KRing β} (h : r.InRange) {xs : List β}
    (hroom : (xs.length : Int) ≤ getRbRoom r.toRingBuf)
    (hfit : r.tail + xs.length ≤ PAGE_SIZE) :
    (moveRbTail { r with data := put r.data r.tail xs } xs.length).content = r.content ++ xs := by
  have h' : ({ r with data := put r.data r.tail xs } : KRing β).InRange :=
    ⟨h.size_eq, h.head_nonneg, h.head_lt, h.tail_nonneg, h.tail_lt⟩
  have hkeep : Lib.Ring.content (put r.data r.tail xs) PAGE_SIZE r.head r.tail = r.content := by
    rw [h.room_eq] at hroom
    exact content_put h.head_lt h.tail_nonneg (by omega)
  rw [content_moveRbTail h' hroom, window_put_self hfit]
  exact congrArg (· ++ xs) hkeep

/-- Moving the head over `k` bytes takes them off the front. -/
theorem content_moveRbHead {r : KRing β} (h : r.InRange) (hc : r.clean = false) {k : Nat}
    (hk : (k : Int) ≤ getRbLength r.toRingBuf) :
    r.content = window r.data PAGE_SIZE r.head k ++ (moveRbHead r k).content := by
  have hlt := h.length_lt
  have hhd := moveRbHead_head h hc (n := k) (by omega) (by omega)
  rw [h.length_eq] at hk
  rw [moveRbHead_eq hc, hhd]
  exact content_advance h.head_nonneg h.head_lt h.tail_lt hk

/-! ## Appending: `adv_uart_xmit` -/

/-- From `v` to `v'` the bytes `xs` left the front of the tty's fifo and went to
the end of the RX ring; nothing else changed. -/
structure Appends (v v' : Vcom β) (xs : List β) : Prop where
  tx : v'.tx = v.tx
  attr : v'.attr = v.attr
  icount : v'.icount = v.icount
  inRange : v'.rx.InRange
  head : v'.rx.head = v.rx.head
  begin : v'.rx.begin = v.rx.begin
  enabled : v'.rx.enabled = v.rx.enabled
  clean : v'.rx.clean = v.rx.clean
  content : v'.rx.content = v.rx.content ++ xs
  fifo : v.fifo.bytes = xs ++ v'.fifo.bytes
  log : ∃ as, v'.log = v.log ++ as ∧ (∀ a ∈ as, a.InPage) ∧
    as.flatMap Access.appended = xs ∧ as.flatMap Access.inserted = []

theorem Appends.refl {v : Vcom β} (h : v.rx.InRange) : Appends v v [] where
  tx := rfl
  attr := rfl
  icount := rfl
  inRange := h
  head := rfl
  begin := rfl
  enabled := rfl
  clean := rfl
  content := (List.append_nil _).symm
  fifo := rfl
  log := ⟨[], (List.append_nil _).symm, by simp, rfl, rfl⟩

theorem Appends.trans {v₁ v₂ v₃ : Vcom β} {xs ys : List β} (h : Appends v₁ v₂ xs)
    (h' : Appends v₂ v₃ ys) : Appends v₁ v₃ (xs ++ ys) where
  tx := h'.tx.trans h.tx
  attr := h'.attr.trans h.attr
  icount := h'.icount.trans h.icount
  inRange := h'.inRange
  head := h'.head.trans h.head
  begin := h'.begin.trans h.begin
  enabled := h'.enabled.trans h.enabled
  clean := h'.clean.trans h.clean
  content := by rw [h'.content, h.content, List.append_assoc]
  fifo := by rw [h.fifo, h'.fifo, List.append_assoc]
  log := by
    obtain ⟨as, hv, hin, happ, hins⟩ := h.log
    obtain ⟨bs, hv', hin', happ', hins'⟩ := h'.log
    refine ⟨as ++ bs, by rw [hv', hv, List.append_assoc], ?_, ?_, ?_⟩
    · intro a ha
      rcases List.mem_append.mp ha with ha | ha
      · exact hin a ha
      · exact hin' a ha
    · rw [List.flatMap_append, happ, happ']
    · rw [List.flatMap_append, hins, hins']
      rfl

theorem Kfifo.outLinear_le (f : Kfifo β) (n : Nat) : f.outLinear n ≤ n := Nat.min_le_left _ _

theorem Kfifo.outLinear_le_length (f : Kfifo β) (n : Nat) : f.outLinear n ≤ f.bytes.length :=
  (Nat.min_le_right _ _).trans (Nat.min_le_left _ _)

/-- One pass of the transmit loop. -/
theorem xmitCopy_appends {v : Vcom β} (h : v.rx.InRange) {n : Nat}
    (hroom : (n : Int) ≤ getRbLroom v.rx.toRingBuf) (hn : n ≤ v.fifo.bytes.length) :
    Appends v (xmitCopy v n) (v.fifo.bytes.take n) := by
  have hlen : (v.fifo.bytes.take n).length = n := by simp [hn]
  have hfit := h.tail_add_lroom_le
  have hle : getRbLroom v.rx.toRingBuf ≤ getRbRoom v.rx.toRingBuf := by
    rw [h.lroom_eq, h.room_eq]; omega
  have hlt : (n : Int) ≤ PAGE_SIZE := by have := h.tail_nonneg; omega
  have h' : ({ v.rx with data := put v.rx.data v.rx.tail (v.fifo.bytes.take n) } :
      KRing β).InRange :=
    ⟨h.size_eq, h.head_nonneg, h.head_lt, h.tail_nonneg, h.tail_lt⟩
  have hcontent : (moveRbTail { v.rx with data := put v.rx.data v.rx.tail (v.fifo.bytes.take n) }
      (v.fifo.bytes.take n).length).content = v.rx.content ++ v.fifo.bytes.take n :=
    content_moveRbTail_put h (by omega) (by omega)
  rw [hlen] at hcontent
  exact
    { tx := rfl
      attr := rfl
      icount := rfl
      inRange := moveRbTail_inRange h' (by omega) hlt
      head := rfl
      begin := rfl
      enabled := rfl
      clean := rfl
      content := hcontent
      fifo := (List.take_append_drop n v.fifo.bytes).symm
      log := by
        refine ⟨[.copied v.rx.tail (v.fifo.bytes.take n)], rfl, ?_, by simp [Access.appended],
          by simp [Access.inserted]⟩
        intro a ha
        rw [List.mem_singleton.mp ha]
        exact ⟨h.tail_nonneg, by omega⟩ }

theorem xmitLoop_appends (fuel : Nat) {v : Vcom β} (h : v.rx.InRange) :
    ∃ xs, Appends v (xmitLoop fuel v) xs := by
  induction fuel generalizing v with
  | zero => exact ⟨[], Appends.refl h⟩
  | succ fuel ih =>
      simp only [xmitLoop]
      split
      · exact ⟨[], Appends.refl h⟩
      split
      · exact ⟨[], Appends.refl h⟩
      split
      · exact ⟨[], Appends.refl h⟩
      -- the loop goes on: one pass, then the rest
      have hlo := h.lroom_nonneg
      have hle := h.tail_add_lroom_le
      have hmod : (getRbLroom v.rx.toRingBuf % 2 ^ 32).toNat
          ≤ (getRbLroom v.rx.toRingBuf).toNat := by
        have := h.tail_nonneg
        simp only [PAGE_SIZE] at hle
        omega
      have hn := Kfifo.outLinear_le v.fifo (getRbLroom v.rx.toRingBuf % 2 ^ 32).toNat
      have hpass := xmitCopy_appends (n := v.fifo.outLinear _) h (by omega)
        (Kfifo.outLinear_le_length v.fifo (getRbLroom v.rx.toRingBuf % 2 ^ 32).toNat)
      obtain ⟨ys, hrest⟩ := ih hpass.inRange
      exact ⟨_, hpass.trans hrest⟩

theorem advUartXmit_appends {v : Vcom β} (h : v.rx.InRange) :
    ∃ xs, Appends v (advUartXmit v) xs := by
  unfold advUartXmit
  split
  · exact ⟨[], Appends.refl h⟩
  · exact xmitLoop_appends _ h

/-! ## Draining: `adv_uart_recv_chars` -/

/-- From `v` to `v'` the bytes `xs` left the front of the TX ring and went to the
tty; nothing else changed. -/
structure Drains (v v' : Vcom β) (xs : List β) : Prop where
  rx : v'.rx = v.rx
  attr : v'.attr = v.attr
  icount : v'.icount = v.icount
  fifo : v'.fifo = v.fifo
  inRange : v'.tx.InRange
  tail : v'.tx.tail = v.tx.tail
  begin : v'.tx.begin = v.tx.begin
  data : v'.tx.data = v.tx.data
  enabled : v'.tx.enabled = v.tx.enabled
  clean : v'.tx.clean = v.tx.clean
  content : v.tx.content = xs ++ v'.tx.content
  log : ∃ as, v'.log = v.log ++ as ∧ (∀ a ∈ as, a.InPage) ∧
    as.flatMap Access.appended = [] ∧ as.flatMap Access.inserted = xs

theorem Drains.refl {v : Vcom β} (h : v.tx.InRange) : Drains v v [] where
  rx := rfl
  attr := rfl
  icount := rfl
  fifo := rfl
  inRange := h
  tail := rfl
  begin := rfl
  data := rfl
  enabled := rfl
  clean := rfl
  content := rfl
  log := ⟨[], (List.append_nil _).symm, by simp, rfl, rfl⟩

theorem Drains.trans {v₁ v₂ v₃ : Vcom β} {xs ys : List β} (h : Drains v₁ v₂ xs)
    (h' : Drains v₂ v₃ ys) : Drains v₁ v₃ (xs ++ ys) where
  rx := h'.rx.trans h.rx
  attr := h'.attr.trans h.attr
  icount := h'.icount.trans h.icount
  fifo := h'.fifo.trans h.fifo
  inRange := h'.inRange
  tail := h'.tail.trans h.tail
  begin := h'.begin.trans h.begin
  data := h'.data.trans h.data
  enabled := h'.enabled.trans h.enabled
  clean := h'.clean.trans h.clean
  content := by rw [h.content, h'.content, List.append_assoc]
  log := by
    obtain ⟨as, hv, hin, happ, hins⟩ := h.log
    obtain ⟨bs, hv', hin', happ', hins'⟩ := h'.log
    refine ⟨as ++ bs, by rw [hv', hv, List.append_assoc], ?_, ?_, ?_⟩
    · intro a ha
      rcases List.mem_append.mp ha with ha | ha
      · exact hin a ha
      · exact hin' a ha
    · rw [List.flatMap_append, happ, happ']
      rfl
    · rw [List.flatMap_append, hins, hins']

/-- One attempt of the receive loop: `n` of the bytes offered are taken. -/
def recvPass (v : Vcom β) (n : Nat) : Vcom β :=
  { v with
    tx := moveRbHead v.tx n
    log := v.log ++ [.offered v.tx.head (getRbLlength v.tx.toRingBuf)
      (cells v.tx.data v.tx.head n)] }

theorem recvPass_drains {v : Vcom β} (h : v.tx.InRange) (hc : v.tx.clean = false) {n : Nat}
    (hn : (n : Int) ≤ getRbLlength v.tx.toRingBuf) :
    Drains v (recvPass v n) (cells v.tx.data v.tx.head n) := by
  have hfit := h.head_add_llength_le
  have hlen : (n : Int) ≤ getRbLength v.tx.toRingBuf := by
    rw [h.llength_eq] at hn; rw [h.length_eq]; omega
  have hlt : (n : Int) ≤ PAGE_SIZE := by have := h.length_lt; omega
  have hcells : window v.tx.data PAGE_SIZE v.tx.head n = cells v.tx.data v.tx.head n :=
    window_eq_cells (by omega)
  have hmove := moveRbHead_eq hc n
  exact
    { rx := rfl
      attr := rfl
      icount := rfl
      fifo := rfl
      inRange := moveRbHead_inRange h hc (by omega) hlt
      tail := by show (moveRbHead v.tx n).tail = _; rw [hmove]
      begin := by show (moveRbHead v.tx n).begin = _; rw [hmove]
      data := by show (moveRbHead v.tx n).data = _; rw [hmove]
      enabled := by show (moveRbHead v.tx n).enabled = _; rw [hmove]
      clean := by show (moveRbHead v.tx n).clean = _; rw [hmove]
      content := by rw [← hcells]; exact content_moveRbHead h hc hlen
      log := by
        refine ⟨[.offered v.tx.head _ (cells v.tx.data v.tx.head n)], rfl, ?_,
          by simp [Access.appended], by simp [Access.inserted]⟩
        intro a ha
        rw [List.mem_singleton.mp ha]
        exact ⟨h.head_nonneg, h.llength_nonneg, hfit⟩ }

/-- An attempt that takes nothing is a pass of length zero. -/
theorem recvPass_zero {v : Vcom β} (h : v.tx.InRange) (hc : v.tx.clean = false) :
    recvPass v 0 = { v with
      log := v.log ++ [.offered v.tx.head (getRbLlength v.tx.toRingBuf)
        (cells v.tx.data v.tx.head 0)] } := by
  have hhd := moveRbHead_head h hc (n := 0) (by omega) (by simp [PAGE_SIZE])
  rw [slot_zero h.head_lt] at hhd
  have hmove : moveRbHead v.tx 0 = v.tx := by rw [moveRbHead_eq hc, hhd]
  simp [recvPass, hmove]

theorem recvLoop_drains (maxRetry : Nat) {accept : List Nat} {count : Int} {v : Vcom β}
    (h : v.tx.InRange) (hc : v.tx.clean = false) :
    ∃ xs, Drains v (recvLoop maxRetry accept count v) xs := by
  induction maxRetry generalizing accept count v with
  | zero => exact ⟨[], Drains.refl h⟩
  | succ maxRetry ih =>
      simp only [recvLoop]
      split
      · have hlo := h.llength_nonneg
        have hfit := h.head_add_llength_le
        have hhd := h.head_nonneg
        have hn : (ttyInsert (accept.headD 0) (getRbLlength v.tx.toRingBuf) : Int)
            ≤ getRbLlength v.tx.toRingBuf := by
          simp only [PAGE_SIZE] at hfit
          unfold ttyInsert
          omega
        have hpass := recvPass_drains h hc hn
        have hret : int32 (ttyInsert (accept.headD 0) (getRbLlength v.tx.toRingBuf))
            = ttyInsert (accept.headD 0) (getRbLlength v.tx.toRingBuf) := by
          simp only [PAGE_SIZE] at hfit
          exact int32_eq (by omega) (by omega)
        rw [hret]
        split
        · obtain ⟨ys, hrest⟩ := ih hpass.inRange (hpass.clean.trans hc)
          exact ⟨_, hpass.trans hrest⟩
        · rename_i hpos
          have hzero : ttyInsert (accept.headD 0) (getRbLlength v.tx.toRingBuf) = 0 := by omega
          rw [hzero] at hpass ⊢
          rw [recvPass_zero h hc] at hpass
          exact ⟨_, hpass⟩
      · exact ⟨[], Drains.refl h⟩

theorem recvCharsLocked_drains {accept : List Nat} {v : Vcom β} (h : v.tx.InRange)
    (hc : v.tx.clean = false) : ∃ xs, Drains v (recvCharsLocked accept v) xs := by
  unfold recvCharsLocked
  split
  · exact recvLoop_drains 3 h hc
  · exact ⟨[], Drains.refl h⟩

theorem advUartRecvChars_drains {accept : List Nat} {v : Vcom β} (h : v.tx.InRange)
    (hc : v.tx.clean = false) : ∃ xs, Drains v (advUartRecvChars accept v) xs := by
  unfold advUartRecvChars
  split
  · exact ⟨[], Drains.refl h⟩
  · exact recvCharsLocked_drains h hc

end AdvVcom
