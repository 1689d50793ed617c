/-
# `AdvVcom.System.Flow` — the two paths, and what the tty's side cannot break

The bytes on either path are spread over the ring, the records of the world and the
daemon's variables.  Here is how they fit together, and that any step of the tty's
side leaves them fitting:

    `UpFlow`    acknowledged ++ RX ring = ring at OPEN ++ appended since, and the one
                WRITE that is out carries the beginning of the RX ring; so does the one
                whose answer is being worked off
    `DownFlow`  inserted into the tty ++ TX ring = payloads accepted, since the last
                clear, and no copy ever touched a byte in the ring
    `Snap`      the daemon's copy of RX's indices shows a beginning of the ring
    `Room`      the daemon's copy of TX's indices shows no more room than there is

A step of the tty's side is, for the values of the bytes, a `Flows`.
-/
import AdvVcom.System.World

namespace AdvVcom

open Lib Lib.Ring

/-! ## Steps of the tty's side, by the values of the bytes -/

/-- `Moves` without the history of the bytes. -/
structure Flows (v v' : Vcom Cell) (xs ys : List UInt8) : Prop where
  sound : v'.Sound
  rxHead : v'.rx.head = v.rx.head
  rxClean : v'.rx.clean = v.rx.clean
  rxBytes : v'.rx.bytes = v.rx.bytes ++ xs
  txTail : v'.tx.tail = v.tx.tail
  txBytes : v.tx.bytes = ys ++ v'.tx.bytes
  /-- The free cells of TX are as before. -/
  behind : ∀ n : Nat, dist PAGE_SIZE v.tx.head v.tx.tail + n < PAGE_SIZE →
    window v'.tx.data PAGE_SIZE v'.tx.tail n = window v.tx.data PAGE_SIZE v.tx.tail n
  log : ∃ as, v'.log = v.log ++ as ∧ (as.flatMap Access.appended).map Cell.byte = xs ∧
    (as.flatMap Access.inserted).map Cell.byte = ys

section
variable {v v' : Vcom Cell} {xs ys : List UInt8}

theorem Moves.flows {xs ys : List Cell} (h : Moves v v' xs ys) :
    Flows v v' (xs.map Cell.byte) (ys.map Cell.byte) where
  sound := h.sound
  rxHead := h.rxHead
  rxClean := h.rxClean
  rxBytes := by simp only [KRing.bytes, h.rxContent, List.map_append]
  txTail := h.txTail
  txBytes := by simp only [KRing.bytes, h.txContent, List.map_append]
  behind := fun _ _ => by rw [h.txData, h.txTail]
  log := by
    obtain ⟨as, hlog, happ, hins⟩ := h.log
    exact ⟨as, hlog, by rw [happ], by rw [hins]⟩

/-- What happens to the fifo in addition does not matter. -/
theorem Flows.withFifo (h : Flows v v' xs ys) (f : Kfifo Cell) :
    Flows v { v' with fifo := f } xs ys :=
  ⟨⟨⟨h.sound.tx, h.sound.rx, h.sound.log⟩, h.sound.clean⟩, h.rxHead, h.rxClean, h.rxBytes, h.txTail,
    h.txBytes, h.behind, h.log⟩

theorem KRing.length_bytes {r : KRing Cell} (h : r.InRange) :
    (r.bytes.length : Int) = dist PAGE_SIZE r.head r.tail := by
  rw [KRing.bytes, List.length_map, KRing.length_content h, h.length_eq]

theorem Flows.rx_dist (h : Flows v v' xs ys) (hv : v.Sound) :
    dist PAGE_SIZE v.rx.head v.rx.tail ≤ dist PAGE_SIZE v'.rx.head v'.rx.tail := by
  rw [← KRing.length_bytes hv.rx, ← KRing.length_bytes h.sound.rx, h.rxBytes, List.length_append]
  omega

theorem Flows.tx_dist (h : Flows v v' xs ys) (hv : v.Sound) :
    dist PAGE_SIZE v'.tx.head v'.tx.tail ≤ dist PAGE_SIZE v.tx.head v.tx.tail := by
  rw [← KRing.length_bytes hv.tx, ← KRing.length_bytes h.sound.tx, h.txBytes, List.length_append]
  omega

theorem KRing.content_aged {r : KRing Cell} (h : r.InRange) :
    r.aged.content = r.content.map Cell.aged :=
  content_remap h.head_nonneg h.tail_lt

theorem KRing.bytes_aged {r : KRing Cell} (h : r.InRange) : r.aged.bytes = r.bytes := by
  simp only [KRing.bytes, KRing.content_aged h, List.map_map]
  rfl

theorem Vcom.Sound.aged {v : Vcom Cell} (h : v.Sound) : v.aged.Sound :=
  ⟨⟨⟨h.tx.size_eq, h.tx.head_nonneg, h.tx.head_lt, h.tx.tail_nonneg, h.tx.tail_lt⟩,
    ⟨h.rx.size_eq, h.rx.head_nonneg, h.rx.head_lt, h.rx.tail_nonneg, h.rx.tail_lt⟩, h.log⟩, h.clean⟩

/-- The end of a session changes the history of bytes only. -/
theorem Flows.aged (h : Flows v v' xs ys) (hv : v.Sound) : Flows v v'.aged xs ys where
  sound := h.sound.aged
  rxHead := h.rxHead
  rxClean := h.rxClean
  rxBytes := (KRing.bytes_aged h.sound.rx).trans h.rxBytes
  txTail := h.txTail
  txBytes := by
    rw [h.txBytes]
    exact congrArg (ys ++ ·) (KRing.bytes_aged h.sound.tx).symm
  behind := by
    intro n hn
    have hle := h.tx_dist hv
    rw [← h.behind n hn]
    exact window_remap h.sound.tx.head_lt h.sound.tx.tail_nonneg h.sound.tx.tail_lt (by omega)
  log := h.log

/-- **One step of the tty's side.** -/
theorem Sys.tty_flows {w : Sys} {c : Call Cell} (hv : w.v.Sound) (hc : c.OfTty) :
    ∃ xs ys, Flows w.v (w.tty c).v xs ys := by
  have hstill := (Moves.refl hv).flows
  by_cases hfifo : ∃ f, c = .ttyFifo f
  · obtain ⟨f, rfl⟩ := hfifo
    exact ⟨_, _, hstill.withFifo _⟩
  · obtain ⟨xs, ys, h, -⟩ := Call.run_moves hv hc fun f hf => hfifo ⟨f, hf⟩
    cases c with
    | shutdown => exact ⟨_, _, h.flows.aged hv⟩
    | _ => exact ⟨_, _, h.flows.withFifo _⟩

/-! ## What follows for the log -/

theorem Flows.log_le (h : Flows v v' xs ys) : v.log.length ≤ v'.log.length := by
  obtain ⟨as, hlog, -, -⟩ := h.log
  rw [hlog, List.length_append]
  omega

theorem Flows.appendedSince (h : Flows v v' xs ys) {n : Nat} (hn : n ≤ v.log.length) :
    (v'.appendedSince n).map Cell.byte = (v.appendedSince n).map Cell.byte ++ xs := by
  obtain ⟨as, hlog, happ, -⟩ := h.log
  rw [Vcom.appendedSince, hlog, List.drop_append_of_le_length hn, List.flatMap_append,
    List.map_append, happ]
  rfl

theorem Flows.insertedSince (h : Flows v v' xs ys) {n : Nat} (hn : n ≤ v.log.length) :
    (v'.insertedSince n).map Cell.byte = (v.insertedSince n).map Cell.byte ++ ys := by
  obtain ⟨as, hlog, -, hins⟩ := h.log
  rw [Vcom.insertedSince, hlog, List.drop_append_of_le_length hn, List.flatMap_append,
    List.map_append, hins]
  rfl

end

/-! ## The paths -/

/-- From the tty to the device, on a connection with `pending` bytes out. -/
structure UpFlow (pending : Int) (v : Vcom Cell) (u : UpLink) : Prop where
  one : u.unanswered.length ≤ 1
  idle : pending = 0 ↔ u.unanswered = []
  first : ∀ data ∈ u.unanswered, pending = data.length ∧ data <+: v.rx.bytes
  /-- What is acknowledged and still in the ring is its beginning. -/
  behind : u.acking <+: v.rx.bytes
  worked : u.unanswered ≠ [] → u.acking = []
  mark : u.openLog ≤ v.log.length
  whole : u.acked ++ v.rx.bytes = u.atOpen ++ (v.appendedSince u.openLog).map Cell.byte

/-- From the device to the tty. -/
structure DownFlow (v : Vcom Cell) (d : DownLink) : Prop where
  mark : d.clearLog ≤ v.log.length
  whole : (v.insertedSince d.clearLog).map Cell.byte ++ v.tx.bytes = d.accepted
  free : ∀ c ∈ d.stores, c.Free

/-- The snapshot `a` of the ring `r` was taken when the head was where it is now. -/
structure Snap (a r : RingBuf) : Prop where
  inRange : a.InRange
  head : a.head = r.head
  upto : dist PAGE_SIZE a.head a.tail ≤ dist PAGE_SIZE r.head r.tail

/-- The snapshot `a` of the ring `r` was taken when the tail was where it is now. -/
structure Room (a r : RingBuf) : Prop where
  inRange : a.InRange
  tail : a.tail = r.tail
  room : dist PAGE_SIZE r.head r.tail ≤ dist PAGE_SIZE a.head a.tail

section
variable {v v' : Vcom Cell} {xs ys : List UInt8}

theorem Flows.upFlow (h : Flows v v' xs ys) {n : Int} {u : UpLink} (hu : UpFlow n v u) :
    UpFlow n v' u where
  one := hu.one
  idle := hu.idle
  first := by
    intro data hdata
    obtain ⟨hn, hfirst⟩ := hu.first data hdata
    rw [h.rxBytes]
    exact ⟨hn, hfirst.trans (List.prefix_append _ _)⟩
  behind := by
    rw [h.rxBytes]
    exact hu.behind.trans (List.prefix_append _ _)
  worked := hu.worked
  mark := hu.mark.trans h.log_le
  whole := by
    rw [h.rxBytes, ← List.append_assoc, hu.whole, h.appendedSince hu.mark, List.append_assoc]

theorem Flows.downFlow (h : Flows v v' xs ys) {d : DownLink} (hd : DownFlow v d) :
    DownFlow v' d where
  mark := hd.mark.trans h.log_le
  whole := by
    rw [h.insertedSince hd.mark, List.append_assoc, ← h.txBytes, hd.whole]
  free := hd.free

theorem DownFlow.of_eq {d : DownLink} (h : DownFlow v d) (htx : v'.tx = v.tx)
    (hlog : v'.log = v.log) : DownFlow v' d where
  mark := by rw [hlog]; exact h.mark
  whole := by rw [Vcom.insertedSince, hlog, htx]; exact h.whole
  free := h.free

theorem UpFlow.of_eq {n : Int} {u : UpLink} (h : UpFlow n v u) (hrx : v'.rx.bytes = v.rx.bytes)
    (hlog : v'.log = v.log) : UpFlow n v' u where
  one := h.one
  idle := h.idle
  first := by rw [hrx]; exact h.first
  behind := by rw [hrx]; exact h.behind
  worked := h.worked
  mark := by rw [hlog]; exact h.mark
  whole := by rw [hrx, Vcom.appendedSince, hlog]; exact h.whole

theorem Flows.snap (h : Flows v v' xs ys) (hv : v.Sound) {a : RingBuf}
    (hs : Snap a v.rx.toRingBuf) : Snap a v'.rx.toRingBuf where
  inRange := hs.inRange
  head := hs.head.trans h.rxHead.symm
  upto := Int.le_trans hs.upto (h.rx_dist hv)

theorem Flows.room (h : Flows v v' xs ys) (hv : v.Sound) {a : RingBuf}
    (hr : Room a v.tx.toRingBuf) : Room a v'.tx.toRingBuf where
  inRange := hr.inRange
  tail := hr.tail.trans h.txTail.symm
  room := Int.le_trans (h.tx_dist hv) hr.room

end

/-! ## Reads and writes through a snapshot -/

section
variable {β : Type} {r : KRing β} {a : RingBuf}

/-- A beginning of the ring is a window at its head. -/
theorem KRing.take_content (h : r.InRange) {k : Nat}
    (hk : (k : Int) ≤ dist PAGE_SIZE r.head r.tail) :
    r.content.take k = window r.data PAGE_SIZE r.head k := by
  have hd := dist_lt h.head_nonneg h.tail_lt
  exact take_window h.head_lt (by omega) (by omega)

/-- A read in one piece. -/
theorem Snap.cells_eq (hs : Snap a r.toRingBuf) (h : r.InRange) {k : Nat}
    (hk : (k : Int) ≤ getRbLlength a) : cells r.data a.head k = r.content.take k := by
  have hfit := hs.inRange.head_add_llength_le
  have hle : getRbLlength a ≤ dist PAGE_SIZE r.head r.tail := by
    have := hs.upto
    rw [hs.inRange.llength_eq]
    omega
  rw [KRing.take_content h (by omega), hs.head, window_eq_cells]
  rw [← hs.head]
  omega

/-- A read in two pieces: up to the end of the page, and from its beginning. -/
theorem Snap.cells_wrap (hs : Snap a r.toRingBuf) (h : r.InRange) {j k : Nat}
    (hj : (j : Int) = PAGE_SIZE - a.head) (hk : (j + k : Int) ≤ getRbLength a) :
    cells r.data a.head j ++ cells r.data 0 k = r.content.take (j + k) := by
  have hlen := hs.inRange.length_lt
  rw [hs.inRange.length_eq] at hk hlen
  have hle := hs.upto
  have hh := hs.inRange.head_nonneg
  rw [KRing.take_content h (by omega), window_add h.head_lt (by omega), ← hs.head,
    window_eq_cells (by omega)]
  congr 1
  have hslot : slot PAGE_SIZE a.head j = 0 := by
    unfold slot
    split <;> omega
  rw [hslot, window_eq_cells (by omega)]

/-- A copy right behind the tail. -/
theorem Store.free_behind (h : r.InRange) {k : Nat} (hfit : r.tail + k ≤ PAGE_SIZE)
    (hroom : dist PAGE_SIZE r.head r.tail + k < PAGE_SIZE) : Store.Free ⟨r.tail, k, r.head, r.tail⟩ := by
  refine ⟨h.tail_nonneg, hfit, fun i hi => ?_⟩
  have hh := h.head_nonneg
  have ht := h.tail_nonneg
  simp only [Lib.Ring.dist, slot] at *
  split at hi <;> split <;> omega

/-- The second part of a copy that goes on at the beginning of the page. -/
theorem Store.free_wrap (h : r.InRange) {k : Nat}
    (hroom : dist PAGE_SIZE r.head r.tail + (PAGE_SIZE - r.tail) + k < PAGE_SIZE) :
    Store.Free ⟨0, k, r.head, r.tail⟩ := by
  have hd := dist_nonneg h.head_lt h.tail_nonneg
  have hh := h.head_nonneg
  have ht := h.tail_nonneg
  have htl := h.tail_lt
  refine ⟨Int.le_refl 0, ?_, fun i hi => Or.inr ?_⟩
  · show (0 : Int) + k ≤ PAGE_SIZE
    omega
  · simp only [Lib.Ring.dist, slot] at *
    split at hi <;> split <;> omega

/-- A copy to free cells does not change what the ring holds. -/
theorem Store.Free.content_put {off : Int} {cs : List β}
    (hfree : Store.Free ⟨off, cs.length, r.head, r.tail⟩) :
    { r with data := put r.data off cs }.content = r.content := by
  refine window_congr fun i hi => put_outside (hfree.2.2 i ?_)
  show (i : Int) < dist PAGE_SIZE r.head r.tail
  have hi' : i < (dist PAGE_SIZE r.head r.tail).toNat := hi
  omega

/-- What has been copied behind the tail stays there while the rest is copied to the
beginning of the page. -/
theorem window_put_rest (h : r.InRange) {j : Nat} {cs : List β}
    (hj : (j : Int) = PAGE_SIZE - r.tail)
    (hroom : dist PAGE_SIZE r.head r.tail + j + cs.length < PAGE_SIZE) :
    window (put r.data 0 cs) PAGE_SIZE r.tail (j + cs.length) =
      window r.data PAGE_SIZE r.tail j ++ cs := by
  have hd := dist_nonneg h.head_lt h.tail_nonneg
  have ht := h.tail_nonneg
  have htl := h.tail_lt
  have hslot : slot PAGE_SIZE r.tail j = 0 := by
    unfold slot
    split <;> omega
  rw [window_add htl (by omega), hslot, window_put_self (by omega)]
  congr 1
  refine window_congr fun i hi => put_outside (Or.inr ?_)
  unfold slot
  split <;> omega

end

end AdvVcom
