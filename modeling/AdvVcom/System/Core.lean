/-
# `AdvVcom.System.Core` — the invariant of driver and daemon together

`Core` holds at every pause and between any two steps of the daemon; it is made of
parts that are kept for different reasons:

    `sound`, `bool`   the driver's own state is in range
    `up`, `down`      the two paths (`UpFlow`, `DownFlow`)
    `staged`          what the daemon has read from RX is a beginning of the ring
    `apart`           sessions stay apart (`Apart`), provided that every startup
                      finds the port as `CanStart` describes it

Here `Core` is carried over every step that is not the daemon's doing: the calls of the
tty's side (`Core.drift`) and the requests that only nudge the driver (`Core.quiet`).
-/
import AdvVcom.System.Flow

namespace AdvVcom

open Lib Lib.Ring

/-- Both rings are empty, and the daemon is not about to close an old session. -/
def CanStart (s : VcAttr) (w : Sys) : Prop :=
  w.v.rx.content = [] ∧ w.v.tx.content = [] ∧ ¬ (s.view.isOpen = 0 ∧ s.eki.isOpen = 1)

/-- Sessions stay apart. -/
structure Apart (s : VcAttr) (w : Sys) : Prop where
  rxFresh : w.v.inSession = true → ∀ c ∈ w.v.rx.content, c.old = false
  txFresh : w.v.inSession = true → ∀ c ∈ w.v.tx.content, c.old = false
  fifo : ∀ c ∈ w.v.fifo.bytes, c.old = false ∧ c.born ≤ w.ses.count
  born : ∀ c ∈ w.v.rx.content, c.born ≤ w.ses.count
  /-- A close that has been seen and not been handled is the close of the last session. -/
  same : s.view.isOpen = 0 → s.eki.isOpen = 1 → w.ses.count = w.ses.seen
  events : ∀ e ∈ w.ses.events, e.Isolated

structure Core (C : VcAttr → Sys → Prop) (s : VcAttr) (w : Sys) : Prop where
  sound : w.v.Sound
  bool : w.v.attr.attr.isOpen = 0 ∨ w.v.attr.attr.isOpen = 1
  up : w.up.live = true → UpFlow s.xmitPending w.v w.up
  down : DownFlow w.v w.down
  staged : w.ses.staged <+: w.v.rx.content
  apart : (∀ s w, C s w → CanStart s w) → Apart s w

/-- `Core` looks at four of the daemon's variables. -/
theorem Core.of_eq {C : VcAttr → Sys → Prop} {s s' : VcAttr} {w : Sys} (h : Core C s w)
    (hpend : s'.xmitPending = s.xmitPending) (hview : s'.view.isOpen = s.view.isOpen)
    (heki : s'.eki.isOpen = s.eki.isOpen) : Core C s' w where
  sound := h.sound
  bool := h.bool
  up := by rw [hpend]; exact h.up
  down := h.down
  staged := h.staged
  apart := by
    intro hC
    obtain ⟨hrx, htx, hfifo, hborn, hsame, hev⟩ := h.apart hC
    exact ⟨hrx, htx, hfifo, hborn, by rw [hview, heki]; exact hsame, hev⟩

/-! ## Events -/

section
variable {t : Sessions} {v v' : Vcom Cell}

theorem Sessions.noted_count : (t.noted v v').count = t.count := by
  unfold Sessions.noted
  split <;> rfl

theorem Sessions.noted_staged : (t.noted v v').staged = t.staged := by
  unfold Sessions.noted
  split <;> rfl

theorem Sessions.noted_seen : (t.noted v v').seen = t.seen := by
  unfold Sessions.noted
  split <;> rfl

/-- Nothing happened, nothing is noted. -/
theorem Sessions.noted_same (h : v'.log = v.log) : t.noted v v' = t := by
  simp [Sessions.noted, Vcom.insertedSince, h]

theorem isolated_append {e : Event} {es : List Event} (h : ∀ e ∈ es, e.Isolated) (he : e.Isolated) :
    ∀ e' ∈ es ++ [e], e'.Isolated := by
  intro e' hmem
  rcases List.mem_append.mp hmem with hmem | hmem
  · exact h e' hmem
  · rw [List.mem_singleton.mp hmem]
    exact he

theorem Moves.insertedSince {xs ys : List Cell} (h : Moves v v' xs ys) :
    v'.insertedSince v.log.length = ys := by
  obtain ⟨as, hlog, -, hins⟩ := h.log
  rw [Vcom.insertedSince, hlog, List.drop_left, hins]

/-- What is inserted in a session was in the TX ring. -/
theorem Moves.noted_isolated {xs ys : List Cell} (h : Moves v v' xs ys)
    (hev : ∀ e ∈ t.events, e.Isolated)
    (hfresh : v.inSession = true → ∀ c ∈ v.tx.content, c.old = false) :
    ∀ e ∈ (t.noted v v').events, e.Isolated := by
  unfold Sessions.noted
  split
  · exact hev
  · refine isolated_append hev fun hopen c hc => hfresh hopen c ?_
    rw [h.insertedSince] at hc
    rw [h.txContent]
    exact List.mem_append_left _ hc

end

/-! ## Steps of the tty's side -/

section
variable {C : VcAttr → Sys → Prop} {s : VcAttr} {w : Sys}

/-- A step that moves bytes and leaves the tty open or closed. -/
theorem Apart.moves {v' : Vcom Cell} {xs ys : List Cell} (h : Apart s w) (hm : Moves w.v v' xs ys)
    (hopen : v'.attr.attr.isOpen = w.v.attr.attr.isOpen) {f : Kfifo Cell}
    (hf : ∀ c ∈ f.bytes, c.old = false ∧ c.born ≤ w.ses.count) :
    Apart s { w with v := { v' with fifo := f }, ses := w.ses.noted w.v v' } := by
  have hin : ({ v' with fifo := f } : Vcom Cell).inSession = w.v.inSession := by
    simp only [Vcom.inSession, hopen]
  -- what is new in RX comes from the fifo
  have hxs (c : Cell) (hc : c ∈ xs) : c.old = false ∧ c.born ≤ w.ses.count :=
    h.fifo c (by rw [hm.fifo]; exact List.mem_append_left _ hc)
  refine ⟨?_, ?_, ?_, ?_, ?_, ?_⟩
  · intro hs c hc
    rw [hin] at hs
    rcases List.mem_append.mp (hm.rxContent ▸ hc) with hc | hc
    · exact h.rxFresh hs c hc
    · exact (hxs c hc).1
  · intro hs c hc
    rw [hin] at hs
    exact h.txFresh hs c (by rw [hm.txContent]; exact List.mem_append_right _ hc)
  · rw [Sessions.noted_count]
    exact hf
  · intro c hc
    rw [Sessions.noted_count]
    rcases List.mem_append.mp (hm.rxContent ▸ hc) with hc | hc
    · exact h.born c hc
    · exact (hxs c hc).2
  · rw [Sessions.noted_count, Sessions.noted_seen]
    exact h.same
  · exact hm.noted_isolated h.events h.txFresh

theorem Core.moves {v' : Vcom Cell} {xs ys : List Cell} (h : Core C s w) (hm : Moves w.v v' xs ys)
    (hopen : v'.attr.attr.isOpen = w.v.attr.attr.isOpen) {f : Kfifo Cell}
    (hf : (∀ c ∈ w.v.fifo.bytes, c.old = false ∧ c.born ≤ w.ses.count) →
      ∀ c ∈ f.bytes, c.old = false ∧ c.born ≤ w.ses.count) :
    Core C s { w with v := { v' with fifo := f }, ses := w.ses.noted w.v v' } where
  sound := (hm.flows.withFifo f).sound
  bool := by
    show v'.attr.attr.isOpen = 0 ∨ v'.attr.attr.isOpen = 1
    rw [hopen]
    exact h.bool
  up := fun hlive => (hm.flows.withFifo f).upFlow (h.up hlive)
  down := (hm.flows.withFifo f).downFlow h.down
  staged := by
    rw [Sessions.noted_staged]
    show w.ses.staged <+: v'.rx.content
    rw [hm.rxContent]
    exact h.staged.trans (List.prefix_append _ _)
  apart := fun hC => (h.apart hC).moves hm hopen (hf (h.apart hC).fifo)

theorem stamped_fresh (f : Kfifo Cell) (n : Nat) :
    ∀ c ∈ f.bytes.map (fun c => (⟨c.byte, n, false⟩ : Cell)), c.old = false ∧ c.born ≤ n := by
  intro c hc
  obtain ⟨c', -, rfl⟩ := List.mem_map.mp hc
  exact ⟨rfl, Nat.le_refl n⟩

/-- A session begins on empty rings. -/
theorem Core.startup (h : Core C s w) (hstart : C s w) : Core C s (w.tty .startup) where
  sound := ((Moves.refl h.sound).to_attr.flows.withFifo _).sound
  bool := Or.inr rfl
  up := fun hlive => ((Moves.refl h.sound).to_attr.flows.withFifo _).upFlow (h.up hlive)
  down := ((Moves.refl h.sound).to_attr.flows.withFifo _).downFlow h.down
  staged := h.staged
  apart := by
    intro hC
    obtain ⟨hrx, htx, hclose⟩ := hC s w hstart
    have ha := h.apart hC
    refine ⟨?_, ?_, stamped_fresh w.v.fifo _, ?_, fun hv he => absurd ⟨hv, he⟩ hclose, ha.events⟩
    · intro _ c (hc : c ∈ w.v.rx.content)
      rw [hrx] at hc
      cases hc
    · intro _ c (hc : c ∈ w.v.tx.content)
      rw [htx] at hc
      cases hc
    · intro c hc
      exact (ha.born c hc).trans (Nat.le_succ _)

/-- A session ends, and what is left is old. -/
theorem Core.shutdown (h : Core C s w) : Core C s (w.tty .shutdown) where
  sound := ((Moves.refl h.sound).to_attr.flows.aged h.sound).sound
  bool := Or.inl rfl
  up := fun hlive => ((Moves.refl h.sound).to_attr.flows.aged h.sound).upFlow (h.up hlive)
  down := ((Moves.refl h.sound).to_attr.flows.aged h.sound).downFlow h.down
  staged := by
    show w.ses.staged.map Cell.aged <+: w.v.rx.aged.content
    rw [KRing.content_aged h.sound.rx]
    exact h.staged.map _
  apart := by
    intro hC
    have ha := h.apart hC
    have hclosed : (w.tty .shutdown).v.inSession = false := rfl
    refine ⟨?_, ?_, ha.fifo, ?_, ha.same, ha.events⟩
    · intro hs
      rw [hclosed] at hs
      cases hs
    · intro hs
      rw [hclosed] at hs
      cases hs
    · intro c hc
      obtain ⟨c', hc', rfl⟩ := List.mem_map.mp (KRing.content_aged h.sound.rx ▸ hc)
      exact ha.born c' hc'

/-- **One step of the tty's side.** -/
theorem Core.drift (h : Core C s w) {w' : Sys} (hd : (systemWith C).drift s w w') : Core C s w' := by
  obtain ⟨c, hc, hstart, rfl⟩ := hd
  by_cases hfifo : ∃ f, c = .ttyFifo f
  · obtain ⟨f, rfl⟩ := hfifo
    have hsame : w.ses.noted w.v ((Call.ttyFifo f).run w.v) = w.ses := Sessions.noted_same rfl
    have hmoves := h.moves (Moves.refl h.sound) rfl (f := { f with
      bytes := f.bytes.map fun c => ⟨c.byte, w.ses.count, false⟩ }) fun _ => stamped_fresh f _
    rw [Sessions.noted_same rfl] at hmoves
    simp only [Sys.tty, hsame]
    exact hmoves
  · obtain ⟨xs, ys, hm, hopen⟩ := Call.run_moves h.sound hc fun f hf => hfifo ⟨f, hf⟩
    cases c with
    | startup => exact h.startup (hstart rfl)
    | shutdown => exact h.shutdown
    | _ => exact h.moves hm hopen fun _ => stamped_fresh _ _

end

/-! ## Requests that leave the world as it is -/

/-- A request that has nothing to do with the driver or with the records. -/
def Req.Still : Req → Prop
  | .fdcheck | .selRd | .sslNew | .sslSetFd | .sslConnect | .sslErrStr | .sslPending | .sslShutdown
  | .sslFree | .select _ _ | .connect | .recv _ _ | .sslRecv _ _ | .sslRecvSimple _ _ => True
  | _ => False

theorem Sys.ext_parts {w w' : Sys} (hv : w'.v = w.v) (hup : w'.up = w.up) (hdown : w'.down = w.down)
    (hses : w'.ses = w.ses) : w' = w := by
  obtain ⟨v, up, down, ses⟩ := w'
  subst hv hup hdown hses
  rfl

theorem sysAnswers.still {w w' : Sys} {e : Req} {r : e.Rep} (hr : sysAnswers w e r w')
    (he : e.Still) : w' = w := by
  obtain ⟨hv, hup, hdown, hses⟩ := hr
  cases e with
  | fdcheck | selRd | sslNew | sslSetFd | sslConnect | sslErrStr | sslPending | sslShutdown | sslFree
  | select | connect | recv | sslRecv | sslRecvSimple => exact Sys.ext_parts hv hup hdown hses
  | _ => exact absurd he id

/-- What a command reads from the driver. -/
def Ioc.reads (v : Vcom Cell) : Ioc → Option Int
  | .gTxHead => some v.tx.head
  | .gTxTail => some v.tx.tail
  | .gTxSize => some v.tx.size
  | .gTxBegin => some v.tx.begin
  | .gRxHead => some v.rx.head
  | .gRxTail => some v.rx.tail
  | .gRxSize => some v.rx.size
  | .gRxBegin => some v.rx.begin
  | .gAttrBegin => some (2 * PAGE_SIZE)
  | _ => none

/-- An ioctl of the daemon passes the tests on its word and its pointer. -/
theorem advProcIoctl_own (accept : List Nat) (c : Ioc) (n : Int) (v : Vcom Cell) :
    advProcIoctl accept c.word (ownInt n) v = iocSwitch accept (ownInt n) v c := by
  rw [advProcIoctl_word]
  rfl

theorem sysAnswers.reads {w w' : Sys} {c : Ioc} {n x : Int} {r : Option Int}
    (hr : sysAnswers w (.ioctl c n) r w') (hx : c.reads w.v = some x) : r = some x ∧ w' = w := by
  obtain ⟨⟨accept, hret, hv⟩, hup, hdown, hses⟩ := hr
  rw [advProcIoctl_own] at hret hv
  cases c with
  | gTxHead | gTxTail | gTxSize | gTxBegin | gRxHead | gRxTail | gRxSize | gRxBegin | gAttrBegin =>
      cases hx
      refine ⟨hret, Sys.ext_parts hv hup hdown ?_⟩
      rw [hses]
      exact Sessions.noted_same (congrArg Vcom.log hv)
  | _ => cases hx

/-! ## Requests that nudge the driver -/

section
variable {C : VcAttr → Sys → Prop} {s : VcAttr} {w w' : Sys}

/-- The driver moves bytes on its own account, and nothing else is recorded. -/
theorem Core.nudged (h : Core C s w) {xs ys : List Cell} (hm : Moves w.v w'.v xs ys)
    (hopen : w'.v.attr.attr.isOpen = w.v.attr.attr.isOpen) (hup : w'.up = w.up)
    (hdown : w'.down = w.down) (hses : w'.ses = w.ses.noted w.v w'.v) : Core C s w' := by
  have hcore := h.moves hm hopen (f := w'.v.fifo) fun hfifo c hc =>
    hfifo c (by rw [hm.fifo]; exact List.mem_append_right _ hc)
  have heq : w' = { w with v := { w'.v with fifo := w'.v.fifo }, ses := w.ses.noted w.v w'.v } :=
    Sys.ext_parts rfl hup hdown hses
  rw [heq]
  exact hcore

/-- **A quiet request.** -/
theorem Core.quiet (h : Core C s w) {e : Req} {r : e.Rep} (he : e.Quiet)
    (hr : sysAnswers w e r w') : Core C s w' := by
  cases e with
  | ioctl c n =>
      obtain ⟨⟨accept, -, hv⟩, hup, hdown, hses⟩ := hr
      rw [advProcIoctl_own] at hv
      rcases he with rfl | rfl
      · obtain ⟨xs, ys, hm, hattr⟩ := advMainInterrupt_moves h.sound accept (int32 n)
        replace hv : w'.v = advMainInterrupt accept (int32 n) w.v := hv
        rw [← hv] at hm hattr
        exact h.nudged hm (by rw [hattr]) hup hdown hses
      · have hm := advUartMs_moves h.sound (UInt32.ofInt (int32 n))
        replace hv : w'.v = advUartMs (UInt32.ofInt (int32 n)) w.v := hv
        rw [← hv] at hm
        exact h.nudged hm (by rw [hv]; rfl) hup hdown hses
  | fdcheck | selRd | sslNew | sslSetFd | sslConnect | sslErrStr | sslPending | sslShutdown | sslFree
  | select =>
      rw [hr.still trivial]
      exact h
  | _ => exact absurd he id

end

end AdvVcom
