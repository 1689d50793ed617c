/-
# `AdvVcom.Driver.Moves` — what the tty's side can do to a port

The daemon is the only user of the proc file.  Everything else that happens to a
port comes from the tty layer, at any time; so does what the two ioctls do that
only nudge the driver (`IOCSINTER`, and the second half of `IOCSTXTAIL`).  All of it
moves bytes in one direction:

    RX   head stays, the content grows at its end by bytes of the tty's fifo
    TX   tail and page stay, the content shrinks at its front

That is `Moves v v' xs ys`, with `xs` the bytes appended and `ys` the bytes inserted
into the tty.  It is proved once for each call (`Call.run_moves`), and every
invariant of the two paths is carried over such a step by its fields.
-/
import AdvVcom.Driver.Range

namespace AdvVcom

open Lib.Ring

variable {β : Type}

/-- From `v` to `v'` the bytes `xs` went from the tty's fifo to the RX ring, and `ys`
from the TX ring into the tty. -/
structure Moves (v v' : Vcom β) (xs ys : List β) : Prop where
  sound : v'.Sound
  rxHead : v'.rx.head = v.rx.head
  rxClean : v'.rx.clean = v.rx.clean
  rxContent : v'.rx.content = v.rx.content ++ xs
  txTail : v'.tx.tail = v.tx.tail
  txData : v'.tx.data = v.tx.data
  txContent : v.tx.content = ys ++ v'.tx.content
  fifo : v.fifo.bytes = xs ++ v'.fifo.bytes
  log : ∃ as, v'.log = v.log ++ as ∧ as.flatMap Access.appended = xs ∧
    as.flatMap Access.inserted = ys

section
variable {v v' v'' : Vcom β} {xs ys : List β}

/-- Appending first and draining then is the general case. -/
theorem Moves.of_flow (hv : v.Sound) (h : Appends v v' xs) (h' : Drains v' v'' ys) :
    Moves v v'' xs ys where
  sound := h'.sound (h.sound hv)
  rxHead := by rw [h'.rx, h.head]
  rxClean := by rw [h'.rx, h.clean]
  rxContent := by rw [h'.rx, h.content]
  txTail := by rw [h'.tail, h.tx]
  txData := by rw [h'.data, h.tx]
  txContent := by rw [← h.tx, h'.content]
  fifo := by rw [h'.fifo, h.fifo]
  log := by
    obtain ⟨as, hlog, -, happ, hins⟩ := h.log
    obtain ⟨bs, hlog', -, happ', hins'⟩ := h'.log
    refine ⟨as ++ bs, by rw [hlog', hlog, List.append_assoc], ?_, ?_⟩
    · rw [List.flatMap_append, happ, happ', List.append_nil]
    · rw [List.flatMap_append, hins, hins', List.nil_append]

theorem Appends.moves (hv : v.Sound) (h : Appends v v' xs) : Moves v v' xs [] :=
  Moves.of_flow hv h (Drains.refl (h.sound hv).tx)

theorem Drains.moves (hv : v.Sound) (h : Drains v v' ys) : Moves v v' [] ys :=
  Moves.of_flow hv (Appends.refl hv.rx) h

theorem Moves.refl (hv : v.Sound) : Moves v v [] [] := (Appends.refl hv.rx).moves hv

/-- `Moves` looks neither at the attributes nor at the ENABLE flags. -/
theorem Moves.of_attr {a : PortAtt} {rxOn txOn : Bool}
    (h : Moves { v with attr := a, rx := { v.rx with enabled := rxOn },
                        tx := { v.tx with enabled := txOn } } v' xs ys) : Moves v v' xs ys :=
  ⟨h.sound, h.rxHead, h.rxClean, h.rxContent, h.txTail, h.txData, h.txContent, h.fifo, h.log⟩

theorem Moves.to_attr (h : Moves v v' xs ys) {a : PortAtt} {rxOn txOn : Bool} :
    Moves v { v' with attr := a, rx := { v'.rx with enabled := rxOn },
                      tx := { v'.tx with enabled := txOn } } xs ys :=
  ⟨⟨⟨h.sound.tx, h.sound.rx, h.sound.log⟩, h.sound.clean⟩, h.rxHead, h.rxClean, h.rxContent, h.txTail,
    h.txData, h.txContent, h.fifo, h.log⟩

end

/-! ## The calls -/

/-- A call of the tty layer, not of the proc file's user. -/
def Call.OfTty : Call β → Prop
  | .ioctl _ _ _ | .pokeTx _ _ | .pokeRx _ _ => False
  | _ => True

/-- `is_open` after a call of the tty layer, given what it was before. -/
def Call.isOpen : Call β → Int → Int
  | .startup, _ => 1
  | .shutdown, _ => 0
  | _, before => before

section
variable {v : Vcom β} (hv : v.Sound)

include hv

theorem advUartUpdateXmit_appends : ∃ xs, Appends v (advUartUpdateXmit v) xs := by
  unfold advUartUpdateXmit
  split
  · split
    · exact advUartXmit_appends hv.rx
    · exact ⟨[], Appends.refl hv.rx⟩
  · exact ⟨[], Appends.refl hv.rx⟩

theorem advUartRecvChars_moves (accept : List Nat) :
    ∃ ys, Moves v (advUartRecvChars accept v) [] ys ∧ (advUartRecvChars accept v).attr = v.attr := by
  obtain ⟨ys, h⟩ : ∃ ys, Drains v (advUartRecvChars accept v) ys :=
    advUartRecvChars_drains hv.tx hv.clean
  exact ⟨ys, h.moves hv, h.attr⟩

theorem advMainInterrupt_moves (accept : List Nat) (mask : Int) :
    ∃ xs ys, Moves v (advMainInterrupt accept mask v) xs ys ∧
      (advMainInterrupt accept mask v).attr = v.attr := by
  have hrx : ∃ xs, Appends v (if hasFlag mask ADV_INT_RX then advUartUpdateXmit v else v) xs := by
    split
    · exact advUartUpdateXmit_appends hv
    · exact ⟨[], Appends.refl hv.rx⟩
  obtain ⟨xs, hrx⟩ := hrx
  unfold advMainInterrupt
  simp only
  generalize (if hasFlag mask ADV_INT_RX then advUartUpdateXmit v else v) = v₁ at hrx
  have hv₁ := hrx.sound hv
  split
  · obtain ⟨ys, htx⟩ : ∃ ys, Drains v₁ (advUartRecvChars accept v₁) ys :=
      advUartRecvChars_drains hv₁.tx hv₁.clean
    exact ⟨xs, ys, Moves.of_flow hv hrx htx, htx.attr.trans hrx.attr⟩
  · exact ⟨xs, [], hrx.moves hv, hrx.attr⟩

theorem advUartMs_moves (status : UInt32) : Moves v (advUartMs status v) [] [] :=
  ⟨⟨⟨hv.tx, hv.rx, hv.log⟩, hv.clean⟩, rfl, rfl, (List.append_nil _).symm, rfl, rfl, rfl, rfl,
    ⟨[], (List.append_nil _).symm, rfl, rfl⟩⟩

/-- **One step of the tty's side**, except for the tty filling its fifo. -/
theorem Call.run_moves {c : Call β} (hc : c.OfTty) (hfifo : ∀ f, c ≠ .ttyFifo f) :
    ∃ xs ys, Moves v (c.run v) xs ys ∧ (c.run v).attr.attr.isOpen = c.isOpen v.attr.attr.isOpen := by
  have happends {v' : Vcom β} {xs : List β} (h : Appends v v' xs) :
      ∃ xs ys, Moves v v' xs ys ∧ v'.attr.attr.isOpen = v.attr.attr.isOpen :=
    ⟨xs, [], h.moves hv, by rw [h.attr]⟩
  have hdrains {v' : Vcom β} {ys : List β} (h : Drains v v' ys) :
      ∃ xs ys, Moves v v' xs ys ∧ v'.attr.attr.isOpen = v.attr.attr.isOpen :=
    ⟨[], ys, h.moves hv, by rw [h.attr]⟩
  cases c with
  | ioctl | pokeTx | pokeRx => exact absurd hc id
  | ttyFifo fifo => exact absurd rfl (hfifo fifo)
  | xmit =>
      obtain ⟨xs, h⟩ := advUartXmit_appends hv.rx
      exact happends h
  | startTx =>
      have hv' : { v with rx := { v.rx with enabled := true } }.Sound :=
        ⟨⟨hv.tx, hv.rx, hv.log⟩, hv.clean⟩
      obtain ⟨xs, h⟩ := advUartXmit_appends hv'.rx
      exact ⟨xs, [], (h.moves hv').of_attr, congrArg (·.attr.isOpen) h.attr⟩
  | updateXmit =>
      obtain ⟨xs, h⟩ := advUartUpdateXmit_appends hv
      exact happends h
  | recvChars accept =>
      obtain ⟨ys, h⟩ : ∃ ys, Drains v (advUartRecvChars accept v) ys :=
        advUartRecvChars_drains hv.tx hv.clean
      exact hdrains h
  | recvLocked accept =>
      obtain ⟨ys, h⟩ : ∃ ys, Drains v (recvCharsLocked accept v) ys :=
        recvCharsLocked_drains hv.tx hv.clean
      exact hdrains h
  | unthrottle accept =>
      obtain ⟨ys, h, hattr⟩ :=
        advUartRecvChars_moves (hv.withAttr { v.attr with throttled := false }) accept
      exact ⟨[], ys, h.of_attr, congrArg (·.attr.isOpen) hattr⟩
  | stopTx | stopRx | throttle | startup | shutdown | setMctrl | setTermios =>
      exact ⟨[], [], (Moves.refl hv).to_attr, rfl⟩

end

end AdvVcom
