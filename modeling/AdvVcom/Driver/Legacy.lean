/-
# `AdvVcom.Driver.Legacy` — the transmit pump before and after kernel 6.10

Until 6.10 the tty kept what it wanted to send in a `circ_buf` of a power-of-two
size, and `adv_uart_xmit` copied it into the ring by a loop of at most three
passes.  The current one loops over a kfifo until it is empty or the ring full.
A pass of either stops at the end of the ring, at the end of the tty's buffer or
when nothing is left to copy.

    legacy     count = min(pending, room), then at most three passes
    current    passes until the fifo is empty or the ring is full

The first two ends are each met at most once: behind the end of the ring there is
room for less than a whole ring, and behind the end of the `circ_buf` there is
less than a whole buffer.  `Pump.ends` counts the ends still ahead, and a pass
that does not finish leaves one less (`legacyCopy_ends`).

Rings here have any size an `int` holds (`KRing.Within`), not only a page.

**Proved here.**

    one copy to the tail               the unread bytes gain it         (`KRing.Within.gains_put`)
    three passes are enough                                             (`legacyLoop_moves`)
    both pumps move min(pending, room) bytes and nothing else           (`pumps_agree`)
-/
import AdvVcom.Driver.Flow

namespace AdvVcom

open Lib.Ring

variable {β : Type}

/-! ## The legacy pump -/

/-- `struct circ_buf` of `UART_XMIT_SIZE = 2 ^ bits` cells.  Positions are `int`s, and so is
the size. -/
structure CircBuf (β : Type) where
  buf : Int → β
  head : Int
  tail : Int
  bits : Nat
  bits_le : bits ≤ 30
  head_nonneg : 0 ≤ head
  head_lt : head < 2 ^ bits
  tail_nonneg : 0 ≤ tail
  tail_lt : tail < 2 ^ bits

/-- `UART_XMIT_SIZE`. -/
def CircBuf.size (c : CircBuf β) : Int := 2 ^ c.bits

/-- `x & (UART_XMIT_SIZE - 1)`: of a power of two, the remainder. -/
def CircBuf.mask (c : CircBuf β) (x : Int) : Int := x % c.size

def uartCircEmpty (c : CircBuf β) : Bool := c.head == c.tail

def uartCircCharsPending (c : CircBuf β) : Int := c.mask (int32 (c.head - c.tail))

theorem CircBuf.size_pos (c : CircBuf β) : 0 < c.size := Int.pow_pos (by decide)

/-- `xmit->tail += n; xmit->tail &= (UART_XMIT_SIZE - 1)`. -/
def CircBuf.advance (c : CircBuf β) (n : Int) : CircBuf β :=
  { c with
    tail := c.mask (int32 (c.tail + n))
    tail_nonneg := Int.emod_nonneg _ (Int.ne_of_gt c.size_pos)
    tail_lt := Int.emod_lt_of_pos _ c.size_pos }

/-- What the legacy `adv_uart_xmit` works on: the tty's buffer and the ring
`up->tx`. -/
structure Pump (β : Type) where
  xmit : CircBuf β
  tx : KRing β

/-- How much one pass copies: up to the end of the room, and not over the end of
the `circ_buf`. -/
def legacyLen (p : Pump β) (count txLsize : Int) : Int :=
  let mcplen := if count > txLsize then txLsize else count
  if p.xmit.mask (int32 (p.xmit.tail + mcplen)) < p.xmit.tail then
    int32 (p.xmit.size - p.xmit.tail)
  else mcplen

/-- The rest of a pass; the length of `memcpy` is a `size_t`. -/
def legacyCopy (p : Pump β) (mcplen : Int) : Pump β :=
  let txTail := getRbTail p.tx.toRingBuf
  let xs := cells p.xmit.buf p.xmit.tail (mcplen % 2 ^ 64).toNat
  { xmit := p.xmit.advance mcplen
    tx := moveRbTail { p.tx with data := put p.tx.data txTail xs } mcplen }

/-- The `do … while (count > 0 && max_retry > 0)` loop; the body runs before the
test. -/
def legacyLoop : Nat → Int → Int → Pump β → Pump β
  | 0, _, _, p => p
  | maxRetry + 1, count, txLsize, p =>
      let mcplen := legacyLen p count txLsize
      let p' := legacyCopy p mcplen
      let count' := int32 (count - mcplen)
      if count' > 0 ∧ maxRetry > 0 then
        legacyLoop maxRetry count' (getRbLroom p'.tx.toRingBuf) p'
      else p'

/-- The `adv_uart_xmit` of kernels before 6.10. -/
def legacyUartXmit (p : Pump β) : Pump β :=
  if uartCircEmpty p.xmit then p
  else if getRbRoom p.tx.toRingBuf = 0 then p
  else
    let count := uartCircCharsPending p.xmit
    let txSize := getRbRoom p.tx.toRingBuf
    let txLsize := getRbLroom p.tx.toRingBuf
    legacyLoop 3 (if count < txSize then count else txSize) txLsize p

/-! ## Rings of any size -/

/-- A ring of any size whose indices lie in it. -/
structure KRing.Within (r : KRing β) : Prop where
  size_le : r.size ≤ 2147483647
  head_nonneg : 0 ≤ r.head
  head_lt : r.head < r.size
  tail_nonneg : 0 ≤ r.tail
  tail_lt : r.tail < r.size

/-- The unread bytes of a ring, oldest first. -/
def KRing.unread (r : KRing β) : List β := Lib.Ring.content r.data r.size r.head r.tail

namespace KRing.Within

variable {r : KRing β} (h : r.Within)
include h

theorem length_unread : (r.unread.length : Int) = dist r.size r.head r.tail := by
  have hd := dist_nonneg h.head_lt h.tail_nonneg
  rw [unread, Lib.Ring.length_content, Int.toNat_of_nonneg hd]

theorem length_eq : getRbLength r.toRingBuf = r.unread.length := by
  rw [h.length_unread]
  obtain ⟨hs, hh, hh', ht, ht'⟩ := h
  have hsub : int32 (r.size - r.head) = r.size - r.head := int32_eq (by omega) (by omega)
  simp only [getRbLength, Lib.Ring.dist, hsub]
  split
  · exact int32_eq (by omega) (by omega)
  · exact int32_eq (by omega) (by omega)

theorem unread_lt : (r.unread.length : Int) < r.size := by
  rw [h.length_unread]; exact dist_lt h.head_nonneg h.tail_lt

theorem room_eq : getRbRoom r.toRingBuf = r.size - 1 - r.unread.length := by
  have hs := h.size_le
  have hlt := h.unread_lt
  have hsub : int32 (r.size - r.unread.length) = r.size - r.unread.length :=
    int32_eq (by omega) (by omega)
  rw [getRbRoom, h.length_eq, hsub, int32_eq (by omega) (by omega)]
  omega

theorem lroom_eq : getRbLroom r.toRingBuf = min (r.size - r.tail) (getRbRoom r.toRingBuf) := by
  have hs := h.size_le
  have ht := h.tail_nonneg
  have ht' := h.tail_lt
  simp only [getRbLroom]
  rw [int32_eq (by omega) (by omega)]
  split <;> omega

theorem room_nonneg : 0 ≤ getRbRoom r.toRingBuf := by
  have hlt := h.unread_lt
  rw [h.room_eq]; omega

theorem room_lt : getRbRoom r.toRingBuf < r.size := by
  rw [h.room_eq]; omega

/-- The tail is found from the head and the number of unread bytes. -/
theorem tail_eq : r.tail = slot r.size r.head r.unread.length := by
  rw [h.length_unread, slot_dist h.tail_nonneg h.tail_lt]

end KRing.Within

/-- From `r` to `r'` the bytes `xs` came behind the unread ones; nothing else of
the ring changed. -/
structure KRing.Gains (r r' : KRing β) (xs : List β) : Prop where
  within : r'.Within
  same : r' = { r with tail := r'.tail, data := r'.data }
  unread : r'.unread = r.unread ++ xs

namespace KRing.Gains

variable {r r' r'' : KRing β} {xs ys : List β}

theorem refl (h : r.Within) : Gains r r [] := ⟨h, rfl, (List.append_nil _).symm⟩

theorem trans (h₁ : Gains r r' xs) (h₂ : Gains r' r'' ys) : Gains r r'' (xs ++ ys) where
  within := h₂.within
  same := by rw [h₂.same, h₁.same]
  unread := by rw [h₂.unread, h₁.unread, List.append_assoc]

theorem size (h : Gains r r' xs) : r'.size = r.size := by rw [h.same]

theorem head (h : Gains r r' xs) : r'.head = r.head := by rw [h.same]

theorem room (h : Gains r r' xs) (hr : r.Within) :
    getRbRoom r'.toRingBuf = getRbRoom r.toRingBuf - xs.length := by
  rw [h.within.room_eq, hr.room_eq, h.size, h.unread, List.length_append]
  omega

end KRing.Gains

theorem KRing.Within.tail_moved {r : KRing β} (h : r.Within) {n : Int} (hn : 0 ≤ n)
    (hn' : n ≤ r.size - r.tail) : (int32 (r.tail + n)).tmod r.size = slot r.size r.tail n := by
  obtain ⟨hs, -, -, ht, ht'⟩ := h
  rw [int32_eq (by omega) (by omega), Int.tmod_eq_emod_of_nonneg (by omega)]
  unfold slot
  split
  · exact Int.emod_eq_of_lt (by omega) (by omega)
  · have hend : r.tail + n = r.size := by omega
    rw [hend, Int.emod_self, Int.sub_self]

/-- **A copy to the tail**: `xs`, no longer than the room in one piece, comes
behind the unread bytes. -/
theorem KRing.Within.gains_put {r : KRing β} (h : r.Within) {xs : List β}
    (hlen : (xs.length : Int) ≤ getRbLroom r.toRingBuf) :
    r.Gains (moveRbTail { r with data := put r.data r.tail xs } xs.length) xs := by
  obtain ⟨hs, hh, hh', ht, ht'⟩ := id h
  have hd := dist_nonneg hh' ht
  rw [h.lroom_eq, h.room_eq, h.length_unread] at hlen
  have htail := h.tail_moved (n := xs.length) (by omega) (by omega)
  refine ⟨⟨hs, hh, hh', ?_, ?_⟩, rfl, ?_⟩
  · show 0 ≤ (int32 (r.tail + xs.length)).tmod r.size
    rw [htail]; exact slot_nonneg ht (by omega)
  · show (int32 (r.tail + xs.length)).tmod r.size < r.size
    rw [htail]; exact slot_lt ht' (by omega)
  · show Lib.Ring.content (put r.data r.tail xs) r.size r.head
      ((int32 (r.tail + xs.length)).tmod r.size) = _
    rw [htail, content_extend hh' ht ht' (by omega), window_put_self (by omega),
      content_put hh' ht (by omega)]
    rfl

/-! ## The `circ_buf` -/

namespace CircBuf

variable (c : CircBuf β)

/-- The bytes the tty wants to send, oldest first. -/
def pending : List β := content c.buf c.size c.tail c.head

theorem size_le : c.size ≤ 1073741824 := by
  have hpow : 2 ^ c.bits ≤ 2 ^ 30 := Nat.pow_le_pow_right (by decide) c.bits_le
  have hcast : c.size = ((2 ^ c.bits : Nat) : Int) := by simp [size]
  rw [hcast]; omega

theorem length_pending : (c.pending.length : Int) = dist c.size c.tail c.head := by
  have hd : 0 ≤ dist c.size c.tail c.head := dist_nonneg c.tail_lt c.head_nonneg
  rw [pending, length_content, Int.toNat_of_nonneg hd]

theorem pending_lt : (c.pending.length : Int) < c.size := by
  rw [c.length_pending]; exact dist_lt c.tail_nonneg c.head_lt

/-- On a distance between two positions, the mask adds the size when it is
negative. -/
theorem charsPending_eq : uartCircCharsPending c = c.pending.length := by
  have hs := c.size_le
  have hh := c.head_nonneg
  have hh' : c.head < c.size := c.head_lt
  have ht := c.tail_nonneg
  have ht' : c.tail < c.size := c.tail_lt
  rw [c.length_pending, uartCircCharsPending, mask, int32_eq (by omega) (by omega),
    Lib.Ring.dist]
  split
  · exact Int.emod_eq_of_lt (by omega) (by omega)
  · rw [← Int.add_emod_right, Int.emod_eq_of_lt (by omega) (by omega)]
    omega

variable {m : Int}

theorem mask_tail (hm : 0 ≤ m) (hm' : m ≤ c.size) :
    c.mask (int32 (c.tail + m)) = slot c.size c.tail m := by
  have hs := c.size_le
  have ht := c.tail_nonneg
  have ht' : c.tail < c.size := c.tail_lt
  rw [mask, int32_eq (by omega) (by omega), slot]
  split
  · exact Int.emod_eq_of_lt (by omega) (by omega)
  · rw [← Int.sub_emod_right, Int.emod_eq_of_lt (by omega) (by omega)]

/-- **The masked comparison**: it sees a copy that reaches the end of the buffer. -/
theorem mask_lt_iff (hm : 0 ≤ m) (hm' : m < c.size) :
    c.mask (int32 (c.tail + m)) < c.tail ↔ c.size ≤ c.tail + m := by
  have ht := c.tail_nonneg
  rw [c.mask_tail hm (by omega), slot]
  split <;> omega

/-- The first `k` pending bytes and those behind them. -/
theorem pending_split {k : Nat} (hk : k ≤ c.pending.length) :
    c.pending = window c.buf c.size c.tail k ++
      content c.buf c.size (slot c.size c.tail k) c.head := by
  have hlen := c.length_pending
  exact content_advance c.tail_nonneg c.tail_lt c.head_lt (by omega)

theorem pending_advance {k : Nat} (hk : k ≤ c.pending.length) :
    (c.advance k).pending = c.pending.drop k := by
  have hlt := c.pending_lt
  rw [c.pending_split hk, List.drop_left' length_window]
  show content c.buf c.size (c.mask (int32 (c.tail + k))) c.head = _
  rw [c.mask_tail (by omega) (by omega)]

theorem cells_eq_take {k : Nat} (hk : k ≤ c.pending.length) (hfit : c.tail + k ≤ c.size) :
    cells c.buf c.tail k = c.pending.take k := by
  rw [c.pending_split hk, List.take_left' length_window, window_eq_cells hfit]

end CircBuf

/-! ## A pass of the legacy loop -/

/-- From `p` to `p'` the first `n` pending bytes went to the end of the ring;
nothing else changed. -/
structure Pump.Moves (p p' : Pump β) (n : Nat) : Prop where
  ring : p.tx.Gains p'.tx (p.xmit.pending.take n)
  pending : p'.xmit.pending = p.xmit.pending.drop n
  buf : p'.xmit.buf = p.xmit.buf
  head : p'.xmit.head = p.xmit.head
  bits : p'.xmit.bits = p.xmit.bits

theorem Pump.Moves.trans {p p' p'' : Pump β} {m n : Nat} (h₁ : p.Moves p' m)
    (h₂ : p'.Moves p'' n) : p.Moves p'' (m + n) where
  ring := by
    have hring := h₁.ring.trans h₂.ring
    rwa [h₁.pending, ← List.take_add] at hring
  pending := by rw [h₂.pending, h₁.pending, List.drop_drop]
  buf := h₂.buf.trans h₁.buf
  head := h₂.head.trans h₁.head
  bits := h₂.bits.trans h₁.bits

/-- How many of the two ends, of the ring and of the `circ_buf`, lie before the
last of the next `count` bytes. -/
def Pump.ends (p : Pump β) (count : Int) : Nat :=
  (if p.tx.size - p.tx.tail < count then 1 else 0) +
    (if p.xmit.size - p.xmit.tail < count then 1 else 0)

/-- There are `count` bytes to move and room for them. -/
structure Pump.Ready (p : Pump β) (count : Int) : Prop where
  within : p.tx.Within
  pos : 0 < count
  pending : count ≤ p.xmit.pending.length
  room : count ≤ getRbRoom p.tx.toRingBuf

/-- What the length of a pass is: it stays before both ends, and is less than
`count` only if it reaches one of them. -/
structure Pump.Cut (p : Pump β) (count m : Int) : Prop where
  pos : 0 < m
  le : m ≤ count
  ring : m ≤ p.tx.size - p.tx.tail
  circ : m ≤ p.xmit.size - p.xmit.tail
  reached : m < count → m = p.tx.size - p.tx.tail ∨ m = p.xmit.size - p.xmit.tail

theorem legacyLen_cut {p : Pump β} {count : Int} (h : p.Ready count) :
    p.Cut count (legacyLen p count (getRbLroom p.tx.toRingBuf)) := by
  obtain ⟨hr, hpos, hpend, hroom⟩ := h
  have ht := hr.tail_lt
  have hc := p.xmit.pending_lt
  have hcs := p.xmit.size_le
  have hct := p.xmit.tail_nonneg
  have hct' : p.xmit.tail < p.xmit.size := p.xmit.tail_lt
  have hl := hr.lroom_eq
  -- the copy as the room in one piece allows it
  have hfirst : ∃ a, (if count > getRbLroom p.tx.toRingBuf then getRbLroom p.tx.toRingBuf
      else count) = a ∧ 0 < a ∧ a ≤ count ∧ a ≤ p.tx.size - p.tx.tail ∧
      (a < count → a = p.tx.size - p.tx.tail) := by
    refine ⟨_, rfl, ?_⟩
    split <;> omega
  obtain ⟨a, ha, hapos, hale, haring, hacut⟩ := hfirst
  simp only [legacyLen, ha]
  have hmask := p.xmit.mask_lt_iff (m := a) (by omega) (by omega)
  split
  · have hwraps := hmask.mp ‹_›
    rw [int32_eq (by omega) (by omega)]
    exact ⟨by omega, by omega, by omega, by omega, fun _ => .inr rfl⟩
  · have hstays := mt hmask.mpr ‹_›
    exact ⟨hapos, hale, haring, by omega, fun hlt => .inl (hacut hlt)⟩

theorem legacyCopy_moves {p : Pump β} {count m : Int} (h : p.Ready count)
    (hm : p.Cut count m) : p.Moves (legacyCopy p m) m.toNat := by
  obtain ⟨k, rfl⟩ := Int.eq_ofNat_of_zero_le (Int.le_of_lt hm.pos)
  have hpend := h.pending
  have hle := hm.le
  have hk : k ≤ p.xmit.pending.length := by omega
  have hfit := hm.circ
  have hsize := p.xmit.size_le
  have htail := p.xmit.tail_nonneg
  have hsz : ((k : Int) % 2 ^ 64).toNat = k := by omega
  have hxs : (p.xmit.pending.take k).length = k := List.length_take_of_le hk
  have hlroom : ((p.xmit.pending.take k).length : Int) ≤ getRbLroom p.tx.toRingBuf := by
    have hring := hm.ring
    have hroom := h.room
    rw [hxs, h.within.lroom_eq]
    omega
  refine ⟨?_, p.xmit.pending_advance hk, rfl, rfl, rfl⟩
  have hgains := h.within.gains_put hlroom
  rw [hxs] at hgains
  simp only [legacyCopy, getRbTail, hsz, p.xmit.cells_eq_take hk (by omega)]
  exact hgains

/-- What is left to move after a pass can still be moved. -/
theorem Pump.Moves.ready {p p' : Pump β} {count m : Int} (h : p.Ready count)
    (hm : p.Cut count m) (hmv : p.Moves p' m.toNat) (hleft : m < count) :
    p'.Ready (count - m) := by
  have hpos := hm.pos
  have hpend := h.pending
  have hroom := h.room
  refine ⟨hmv.ring.within, by omega, ?_, ?_⟩
  · rw [hmv.pending, List.length_drop]; omega
  · rw [hmv.ring.room h.within, List.length_take]; omega

/-- **A pass that does not finish has met an end**, and there is none of that kind
ahead any more. -/
theorem legacyCopy_ends {p : Pump β} {count m : Int} (h : p.Ready count)
    (hm : p.Cut count m) (hleft : m < count) :
    (legacyCopy p m).ends (count - m) < p.ends count := by
  have hpos := hm.pos
  have hring := hm.ring
  have hcirc := hm.circ
  have hreached := hm.reached hleft
  have hroom := h.room
  have hlt := h.within.room_lt
  have hpend := h.pending
  have hclt := p.xmit.pending_lt
  have ht := h.within.tail_nonneg
  have hct := p.xmit.tail_nonneg
  have htx : (legacyCopy p m).tx.tail = slot p.tx.size p.tx.tail m :=
    h.within.tail_moved (by omega) (by omega)
  have hxm : (legacyCopy p m).xmit.tail = slot p.xmit.size p.xmit.tail m :=
    p.xmit.mask_tail (by omega) (by omega)
  have hsize : (legacyCopy p m).tx.size = p.tx.size := rfl
  have hcsize : (legacyCopy p m).xmit.size = p.xmit.size := rfl
  simp only [Pump.ends, htx, hxm, hsize, hcsize, slot]
  split_ifs <;> omega

/-! ## The legacy pump as a whole -/

/-- **Enough passes**: one more than there are ends ahead. -/
theorem legacyLoop_moves (n : Nat) {p : Pump β} {count : Int} (h : p.Ready count)
    (hends : p.ends count ≤ n) :
    p.Moves (legacyLoop (n + 1) count (getRbLroom p.tx.toRingBuf) p) count.toNat := by
  induction n generalizing p count with
  | zero =>
      have hcut := legacyLen_cut h
      have hmoves := legacyCopy_moves h hcut
      -- no end is ahead, so the pass takes everything
      have hall : legacyLen p count (getRbLroom p.tx.toRingBuf) = count := by
        by_contra hne
        have hle := hcut.le
        have hless := legacyCopy_ends h hcut (by omega)
        omega
      rw [hall] at hmoves
      simp only [legacyLoop, hall, Nat.lt_irrefl, and_false, if_false]
      exact hmoves
  | succ n ih =>
      have hcut := legacyLen_cut h
      have hmoves := legacyCopy_moves h hcut
      have hpos := hcut.pos
      have hle := hcut.le
      have hsub : int32 (count - legacyLen p count (getRbLroom p.tx.toRingBuf)) =
          count - legacyLen p count (getRbLroom p.tx.toRingBuf) := by
        have hlt := p.xmit.pending_lt
        have hsize := p.xmit.size_le
        have hpend := h.pending
        exact int32_eq (by omega) (by omega)
      rw [legacyLoop]
      simp only [hsub]
      split
      · rename_i hgo
        have hleft : legacyLen p count (getRbLroom p.tx.toRingBuf) < count := by omega
        have hless := legacyCopy_ends h hcut hleft
        have hrest := ih (hmoves.ready h hcut hleft) (by omega)
        have htotal := hmoves.trans hrest
        rwa [← Int.toNat_add (by omega) (by omega), Int.add_comm, Int.sub_add_cancel] at htotal
      · rename_i hstop
        have hall : legacyLen p count (getRbLroom p.tx.toRingBuf) = count := by omega
        rw [hall] at hmoves ⊢
        exact hmoves

/-- **The three passes of the legacy pump** move all there is room for. -/
theorem legacyUartXmit_moves {p : Pump β} (h : p.tx.Within) :
    p.Moves (legacyUartXmit p) (min p.xmit.pending.length (getRbRoom p.tx.toRingBuf).toNat) := by
  have hroom := h.room_nonneg
  have hstill : p.Moves p 0 := ⟨.refl h, rfl, rfl, rfl, rfl⟩
  simp only [legacyUartXmit]
  split
  · rename_i hempty
    have hnone : p.xmit.pending.length = 0 := by
      have heq : p.xmit.head = p.xmit.tail := by simpa [uartCircEmpty] using hempty
      rw [CircBuf.pending, heq, content_self]
      rfl
    rw [hnone, Nat.zero_min]
    exact hstill
  · rename_i hsome
    split
    · rename_i hfull
      rw [hfull, Int.toNat_zero, Nat.min_zero]
      exact hstill
    · have hpos : 0 < (p.xmit.pending.length : Int) := by
        have hne : p.xmit.head ≠ p.xmit.tail := by simpa [uartCircEmpty] using hsome
        have hzero := (dist_eq_zero (n := p.xmit.size) p.xmit.tail_lt p.xmit.head_nonneg).mp
        rw [p.xmit.length_pending]
        have hd := dist_nonneg (n := p.xmit.size) p.xmit.tail_lt p.xmit.head_nonneg
        have hne' : dist p.xmit.size p.xmit.tail p.xmit.head ≠ 0 := fun he => hne (hzero he)
        omega
      have hcount : (if uartCircCharsPending p.xmit < getRbRoom p.tx.toRingBuf then
          uartCircCharsPending p.xmit else getRbRoom p.tx.toRingBuf) =
          min (p.xmit.pending.length : Int) (getRbRoom p.tx.toRingBuf) := by
        rw [p.xmit.charsPending_eq]; split <;> omega
      have hready : p.Ready (min (p.xmit.pending.length : Int) (getRbRoom p.tx.toRingBuf)) :=
        ⟨h, by omega, by omega, by omega⟩
      have hmoves := legacyLoop_moves 2 hready (by unfold Pump.ends; split_ifs <;> omega)
      rw [hcount]
      have hnat : (min (p.xmit.pending.length : Int) (getRbRoom p.tx.toRingBuf)).toNat =
          min p.xmit.pending.length (getRbRoom p.tx.toRingBuf).toNat := by omega
      rwa [hnat] at hmoves

/-! ## The current pump -/

/-- From `v` to `v'` the first `n` bytes of the fifo went to the end of the ring;
nothing else of the port changed. -/
structure Vcom.Moves (v v' : Vcom β) (n : Nat) : Prop where
  ring : v.rx.Gains v'.rx (v.fifo.bytes.take n)
  bytes : v'.fifo.bytes = v.fifo.bytes.drop n
  same : v' = { v with rx := v'.rx, fifo := v'.fifo, log := v'.log }

theorem Vcom.Moves.trans {v v' v'' : Vcom β} {m n : Nat} (h₁ : v.Moves v' m)
    (h₂ : v'.Moves v'' n) : v.Moves v'' (m + n) where
  ring := by
    have hring := h₁.ring.trans h₂.ring
    rwa [h₁.bytes, ← List.take_add] at hring
  bytes := by rw [h₂.bytes, h₁.bytes, List.drop_drop]
  same := by rw [h₂.same, h₁.same]

/-- One pass: as much as lies in one piece on both sides. -/
theorem xmitCopy_moves {v : Vcom β} (h : v.rx.Within) {m : Nat}
    (hm : m = v.fifo.outLinear (getRbLroom v.rx.toRingBuf % 2 ^ 32).toNat) :
    v.Moves (xmitCopy v m) m := by
  have hs := h.size_le
  have hl := h.lroom_eq
  have hroom := h.room_nonneg
  have ht := h.tail_nonneg
  have ht' := h.tail_lt
  have hlen : (v.fifo.bytes.take m).length = m := by
    rw [List.length_take, hm, Kfifo.outLinear]; omega
  have hfits : ((v.fifo.bytes.take m).length : Int) ≤ getRbLroom v.rx.toRingBuf := by
    rw [hlen, hm, Kfifo.outLinear]; omega
  have hgains := h.gains_put hfits
  rw [hlen] at hgains
  exact ⟨hgains, rfl, rfl⟩

/-- A pass that copies nothing is one that has nothing to copy or no room. -/
theorem Kfifo.outLinear_pos {f : Kfifo β} {n : Nat} (hn : 0 < n) (hf : f.bytes ≠ []) :
    0 < f.outLinear n := by
  have hlen := List.length_pos_iff.mpr hf
  have hmod := Nat.mod_lt f.out f.size_pos
  unfold Kfifo.outLinear
  omega

/-- **The loop of the current pump**: with as many passes as there are bytes it
ends by its own test, having moved all there is room for. -/
theorem xmitLoop_moves (fuel : Nat) {v : Vcom β} (h : v.rx.Within)
    (hfuel : v.fifo.bytes.length ≤ fuel) :
    v.Moves (xmitLoop fuel v) (min v.fifo.bytes.length (getRbRoom v.rx.toRingBuf).toNat) := by
  have hstill : v.Moves v 0 := ⟨.refl h, rfl, rfl⟩
  induction fuel generalizing v with
  | zero =>
      rw [Nat.le_zero.mp hfuel, Nat.zero_min]
      exact hstill
  | succ fuel ih =>
      have hroom := h.room_nonneg
      have hl := h.lroom_eq
      have hs := h.size_le
      have ht := h.tail_nonneg
      have ht' := h.tail_lt
      rw [xmitLoop]
      split
      · rename_i hempty
        have hnil : v.fifo.bytes = [] := by simpa [Kfifo.isEmpty] using hempty
        rw [hnil, List.length_nil, Nat.zero_min]
        exact hstill
      · rename_i hsome
        have hne : v.fifo.bytes ≠ [] := by simpa [Kfifo.isEmpty] using hsome
        simp only
        split
        · rename_i hfull
          have hzero : getRbRoom v.rx.toRingBuf = 0 := by omega
          rw [hzero, Int.toNat_zero, Nat.min_zero]
          exact hstill
        · rename_i hspace
          have hn : 0 < (getRbLroom v.rx.toRingBuf % 2 ^ 32).toNat := by omega
          have hpos := Kfifo.outLinear_pos hn hne
          rw [if_neg (Nat.ne_of_gt hpos)]
          have hpass := xmitCopy_moves h rfl
          have hmle : v.fifo.outLinear (getRbLroom v.rx.toRingBuf % 2 ^ 32).toNat ≤
              min v.fifo.bytes.length (getRbRoom v.rx.toRingBuf).toNat := by
            unfold Kfifo.outLinear; omega
          generalize v.fifo.outLinear (getRbLroom v.rx.toRingBuf % 2 ^ 32).toNat = m at *
          have hbytes := hpass.bytes
          have hlen : (xmitCopy v m).fifo.bytes.length = v.fifo.bytes.length - m := by
            rw [hbytes, List.length_drop]
          have hleft : getRbRoom (xmitCopy v m).rx.toRingBuf = getRbRoom v.rx.toRingBuf - m := by
            rw [hpass.ring.room h, List.length_take]; omega
          have hrest := ih hpass.ring.within (by omega) ⟨.refl hpass.ring.within, rfl, rfl⟩
          have htotal := hpass.trans hrest
          have hsum : m + min (xmitCopy v m).fifo.bytes.length
              (getRbRoom (xmitCopy v m).rx.toRingBuf).toNat =
              min v.fifo.bytes.length (getRbRoom v.rx.toRingBuf).toNat := by omega
          rwa [hsum] at htotal

theorem advUartXmit_moves {v : Vcom β} (h : v.rx.Within) :
    v.Moves (advUartXmit v) (min v.fifo.bytes.length (getRbRoom v.rx.toRingBuf).toNat) := by
  unfold advUartXmit
  split
  · rename_i hfull
    rw [hfull, Int.toNat_zero, Nat.min_zero]
    exact ⟨.refl h, rfl, rfl⟩
  · exact xmitLoop_moves _ h (Nat.le_refl _)

/-- More passes than there are bytes change nothing: the loop has ended by itself. -/
theorem xmitLoop_ended (fuel k : Nat) {v : Vcom β} (hfuel : v.fifo.bytes.length ≤ fuel) :
    xmitLoop (fuel + k) v = xmitLoop fuel v := by
  induction fuel generalizing v with
  | zero =>
      have hempty : v.fifo.isEmpty = true := by
        rw [Kfifo.isEmpty, List.eq_nil_of_length_eq_zero (Nat.le_zero.mp hfuel)]
        rfl
      cases k with
      | zero => rfl
      | succ k => simp only [xmitLoop, if_pos hempty]
  | succ fuel ih =>
      rw [Nat.add_right_comm]
      simp only [xmitLoop]
      -- every branch but the last is the end of the loop
      split
      · rfl
      split
      · rfl
      split
      · rfl
      rename_i hpos
      refine ih ?_
      show (v.fifo.bytes.drop _).length ≤ fuel
      rw [List.length_drop]
      omega

/-! ## The two pumps side by side -/

/-- **Both pumps do the same.**  From one ring and the same pending bytes, each
moves the first `min(pending, room)` of them behind the unread bytes and drops
them from the tty's buffer; head and unread bytes stay, and the current loop ends
by itself. -/
theorem pumps_agree (p : Pump β) (v : Vcom β) (h : p.tx.Within) (hring : v.rx = p.tx)
    (hbytes : v.fifo.bytes = p.xmit.pending) :
    let n := min p.xmit.pending.length (getRbRoom p.tx.toRingBuf).toNat
    let p' := legacyUartXmit p
    let v' := advUartXmit v
    p.Moves p' n ∧ v.Moves v' n ∧
      (∀ k, xmitLoop (v.fifo.bytes.length + k) v = xmitLoop v.fifo.bytes.length v) ∧
      p'.tx.unread = v'.rx.unread ∧ p'.tx.toRingBuf = v'.rx.toRingBuf ∧
      p'.xmit.pending = v'.fifo.bytes := by
  have hlegacy := legacyUartXmit_moves h
  have hcurrent := advUartXmit_moves (v := v) (hring ▸ h)
  rw [hring, hbytes] at hcurrent
  have hunread : (legacyUartXmit p).tx.unread = (advUartXmit v).rx.unread := by
    rw [hlegacy.ring.unread, hcurrent.ring.unread, hring, hbytes]
  have hhead : (legacyUartXmit p).tx.head = (advUartXmit v).rx.head := by
    rw [hlegacy.ring.head, hcurrent.ring.head, hring]
  have hsize : (legacyUartXmit p).tx.size = (advUartXmit v).rx.size := by
    rw [hlegacy.ring.size, hcurrent.ring.size, hring]
  have hbegin : (legacyUartXmit p).tx.begin = (advUartXmit v).rx.begin := by
    rw [hlegacy.ring.same, hcurrent.ring.same, hring]
  have htail : (legacyUartXmit p).tx.tail = (advUartXmit v).rx.tail := by
    rw [hlegacy.ring.within.tail_eq, hcurrent.ring.within.tail_eq, hunread, hhead, hsize]
  refine ⟨hlegacy, hcurrent, fun k => xmitLoop_ended _ k (Nat.le_refl _), hunread, ?_, ?_⟩
  · rw [RingBuf.mk.injEq]
    exact ⟨hhead, htail, hbegin, hsize⟩
  · rw [hlegacy.pending, hcurrent.bytes, hbytes]

/-- Three bytes that lie over the end of the `circ_buf`, and a ring with its end
one byte further on: each pass meets an end, or the last byte. -/
def wrappedPump : Pump Nat where
  xmit := { buf := fun i => 10 + i.toNat, head := 2, tail := 3, bits := 2, bits_le := by decide,
            head_nonneg := by decide, head_lt := by decide, tail_nonneg := by decide,
            tail_lt := by decide }
  tx := { head := 5, tail := 6, begin := 0, size := 8, enabled := true, clean := false,
          data := fun _ => 0 }

def wrappedPort : Vcom Nat :=
  { advMainInit 0 (fun _ => 0) ⟨[13, 10, 11], 0, 4, by decide⟩ with rx := wrappedPump.tx }

theorem pumps_agree_wrapped :
    wrappedPump.tx.Within ∧ (legacyUartXmit wrappedPump).tx.unread = [0, 13, 10, 11] ∧
      (advUartXmit wrappedPort).rx.unread = [0, 13, 10, 11] := by
  have hwithin : wrappedPump.tx.Within := ⟨by decide, by decide, by decide, by decide, by decide⟩
  obtain ⟨-, hmoves, -, hsame, -, -⟩ := pumps_agree wrappedPump wrappedPort hwithin rfl rfl
  have hunread : (advUartXmit wrappedPort).rx.unread = [0, 13, 10, 11] := hmoves.ring.unread
  exact ⟨hwithin, hsame.trans hunread, hunread⟩

end AdvVcom
