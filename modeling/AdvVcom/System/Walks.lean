/-
# `AdvVcom.System.Walks` — the daemon's handlers against the driver

The steps of `Requests` put together as the handlers make them, with any number of
steps of the tty's side between two requests.  What a handler relies on besides `Core`
is what it has seen of the driver itself, in four strengths:

    `Mapped`    the sizes of the rings are known and no clear is under way
    `Shown`     and the snapshot of RX shows a beginning of the ring
    `Abreast`   and nothing has been read ahead, and a connection that has been opened
                is recorded as live
    `InStep`    and what has been acknowledged has left the ring

    `vcBufUpdateRx`   Mapped → Shown            (`wp_updRx`)
    `vcBufUpdateTx`   adds `Room`               (`wp_updTx`)
    `vcBufClear`      InStep → Shown            (`wp_clear`)
    `xmitSend`        InStep → InStep           (`wp_xmitSend`)
    `recvData`        InStep, `Room` → InStep   (`wp_recvData`)
    `recvWrite`       Abreast, answer → InStep  (`wp_recvWrite`)
-/
import AdvVcom.System.Requests

namespace AdvVcom

open Lib Lib.Ring

/-! ## What others do -/

/-- A step that is not the daemon's, as far as the daemon can notice. -/
structure Nudge (w w' : Sys) : Prop where
  flows : ∃ xs ys, Flows w.v w'.v xs ys
  up : w'.up = w.up
  down : w'.down = w.down
  staged : w'.ses.staged.map Cell.byte = w.ses.staged.map Cell.byte
  byClose : w'.ses.byClose = w.ses.byClose

section
variable {C : VcAttr → Sys → Prop} {s : VcAttr} {w w' : Sys}

theorem Sessions.noted_byClose {t : Sessions} {v v' : Vcom Cell} :
    (t.noted v v').byClose = t.byClose := by
  unfold Sessions.noted
  split <;> rfl

theorem Nudge.refl (hv : w.v.Sound) : Nudge w w := ⟨⟨_, _, (Moves.refl hv).flows⟩, rfl, rfl, rfl, rfl⟩

theorem nudge_of_drift (hv : w.v.Sound) (hd : (systemWith C).drift s w w') : Nudge w w' := by
  obtain ⟨c, hc, -, rfl⟩ := hd
  refine ⟨Sys.tty_flows hv hc, ?_, ?_, ?_, ?_⟩
  · cases c <;> rfl
  · cases c <;> rfl
  · cases c with
    | startup => rfl
    | shutdown =>
        simp only [Sys.tty, List.map_map]
        rfl
    | _ => exact congrArg (List.map Cell.byte) Sessions.noted_staged
  · cases c with
    | startup | shutdown => rfl
    | _ => exact Sessions.noted_byClose

theorem nudge_of_quiet (hv : w.v.Sound) {e : Req} {r : e.Rep} (he : e.Quiet)
    (hr : sysAnswers w e r w') : Nudge w w' := by
  cases e with
  | ioctl c n =>
      obtain ⟨⟨accept, -, hv'⟩, hup, hdown, hses⟩ := hr
      rw [advProcIoctl_own] at hv'
      have hstaged : w'.ses.staged.map Cell.byte = w.ses.staged.map Cell.byte ∧
          w'.ses.byClose = w.ses.byClose := by
        rcases he with rfl | rfl
        · rw [hses]
          exact ⟨congrArg _ Sessions.noted_staged, Sessions.noted_byClose⟩
        · rw [hses]
          exact ⟨congrArg _ Sessions.noted_staged, Sessions.noted_byClose⟩
      refine ⟨?_, ?_, ?_, hstaged.1, hstaged.2⟩
      · rcases he with rfl | rfl
        · obtain ⟨xs, ys, hm, -⟩ := advMainInterrupt_moves hv accept (int32 n)
          replace hv' : w'.v = advMainInterrupt accept (int32 n) w.v := hv'
          rw [← hv'] at hm
          exact ⟨_, _, hm.flows⟩
        · replace hv' : w'.v = advUartMs (UInt32.ofInt (int32 n)) w.v := hv'
          rw [hv']
          exact ⟨_, _, (advUartMs_moves hv _).flows⟩
      · rcases he with rfl | rfl
        · exact hup
        · exact hup
      · rcases he with rfl | rfl
        · exact hdown
        · exact hdown
  | fdcheck | selRd | sslNew | sslSetFd | sslConnect | sslErrStr | sslPending | sslShutdown | sslFree
  | select =>
      rw [hr.still trivial]
      exact Nudge.refl hv
  | _ => exact absurd he id

end

/-- An assertion that others cannot disturb, and that looks neither at the stack nor at
TLS. -/
structure Lasting (Q : VcAttr → Sys → Prop) : Prop where
  nudge : ∀ {s w w'}, w.v.Sound → Nudge w w' → Q s w → Q s w'
  same : ∀ {s w} x l, Q s w → Q { s with ssl := x, stk := l } w

section
variable {C : VcAttr → Sys → Prop} {Q Q' : VcAttr → Sys → Prop}

theorem Lasting.and (h : Lasting Q) (h' : Lasting Q') : Lasting fun s w => Q s w ∧ Q' s w where
  nudge := fun hv hn hq => ⟨h.nudge hv hn hq.1, h'.nudge hv hn hq.2⟩
  same := fun x l hq => ⟨h.same x l hq.1, h'.same x l hq.2⟩

theorem Lasting.stable (h : Lasting Q) : Stable (systemWith C) fun s w => Core C s w ∧ Q s w where
  drift := fun hp hd => ⟨hp.1.drift hd, h.nudge hp.1.sound (nudge_of_drift hp.1.sound hd) hp.2⟩
  quiet := fun he hp hr =>
    ⟨hp.1.quiet he hr, h.nudge hp.1.sound (nudge_of_quiet hp.1.sound he hr) hp.2⟩
  ssl := fun hp x _ => ⟨hp.1.of_eq rfl rfl rfl, h.same x _ hp.2⟩
  stk := fun hp l => ⟨hp.1.of_eq rfl rfl rfl, h.same _ l hp.2⟩

/-- One request: whatever others do first, the answer finds `Core` and `Q`. -/
theorem Lasting.wp_request (h : Lasting Q) {e : Req} {R : e.Rep → VcAttr → Sys → Prop} {s : VcAttr}
    {w : Sys} (hc : Core C s w) (hq : Q s w)
    (hR : ∀ r w w', Core C s w → Q s w → sysAnswers w e r w' → R r s w') :
    (Act.request (S := VcSig) e : M e.Rep).wp (systemWith C) (Core C) R s w :=
  h.stable.wp_request (fun _ _ hp => hp.1) ⟨hc, hq⟩ fun r w w' hp hr => hR r w w' hp.1 hp.2 hr

end

/-! ## What the daemon has seen -/

structure Mapped (s : VcAttr) (w : Sys) : Prop where
  txSize : s.tx.size = PAGE_SIZE
  rxSize : s.rx.size = PAGE_SIZE
  clean : w.v.rx.clean = false

structure Shown (s : VcAttr) (w : Sys) : Prop extends Mapped s w where
  snap : Snap s.rx w.v.rx.toRingBuf

structure Abreast (s : VcAttr) (w : Sys) : Prop extends Shown s w where
  unstaged : w.ses.staged = []
  linked : s.eki.isOpen = 1 → w.up.live = true

structure InStep (s : VcAttr) (w : Sys) : Prop extends Abreast s w where
  worked : w.up.live = true → w.up.acking = []

section
variable {s : VcAttr} {w w' : Sys}

theorem Nudge.mapped (hn : Nudge w w') (h : Mapped s w) : Mapped s w' := by
  obtain ⟨xs, ys, hf⟩ := hn.flows
  exact ⟨h.txSize, h.rxSize, hf.rxClean.trans h.clean⟩

theorem Nudge.shown (hn : Nudge w w') (hv : w.v.Sound) (h : Shown s w) : Shown s w' := by
  obtain ⟨xs, ys, hf⟩ := hn.flows
  exact ⟨hn.mapped h.toMapped, hf.snap hv h.snap⟩

theorem Nudge.unstaged (hn : Nudge w w') (h : w.ses.staged = []) : w'.ses.staged = [] := by
  have hs := hn.staged
  rw [h] at hs
  exact List.map_eq_nil_iff.mp hs

theorem Nudge.abreast (hn : Nudge w w') (hv : w.v.Sound) (h : Abreast s w) : Abreast s w' :=
  ⟨hn.shown hv h.toShown, hn.unstaged h.unstaged, by rw [hn.up]; exact h.linked⟩

theorem Nudge.inStep (hn : Nudge w w') (hv : w.v.Sound) (h : InStep s w) : InStep s w' :=
  ⟨hn.abreast hv h.toAbreast, by rw [hn.up]; exact h.worked⟩

theorem Nudge.laid (hn : Nudge w w') (hv : w.v.Sound) {bs : List UInt8} (h : Laid w bs) :
    Laid w' bs := by
  obtain ⟨xs, ys, hf⟩ := hn.flows
  have hsame := hf.behind bs.length h.room
  refine ⟨by rw [hsame]; exact h.bytes, by rw [hsame]; exact h.fresh, ?_⟩
  have hle := hf.tx_dist hv
  have hroom := h.room
  omega

end

theorem lasting_mapped : Lasting Mapped where
  nudge := fun _ hn h => hn.mapped h
  same := fun _ _ h => ⟨h.txSize, h.rxSize, h.clean⟩

theorem lasting_shown : Lasting Shown where
  nudge := fun hv hn h => hn.shown hv h
  same := fun _ _ h => ⟨⟨h.txSize, h.rxSize, h.clean⟩, h.snap⟩

theorem lasting_abreast : Lasting Abreast where
  nudge := fun hv hn h => hn.abreast hv h
  same := fun _ _ h => ⟨⟨⟨h.txSize, h.rxSize, h.clean⟩, h.snap⟩, h.unstaged, h.linked⟩

theorem lasting_inStep : Lasting InStep where
  nudge := fun hv hn h => hn.inStep hv h
  same := fun x l h => ⟨lasting_abreast.same x l h.toAbreast, h.worked⟩

/-- What is recorded of the connection. -/
theorem lasting_up {P : UpLink → Prop} : Lasting fun _ w => P w.up where
  nudge := fun _ hn h => by rw [hn.up]; exact h
  same := fun _ _ h => h

theorem lasting_unstaged : Lasting fun _ w => w.ses.staged = [] where
  nudge := fun _ hn h => hn.unstaged h
  same := fun _ _ h => h

theorem lasting_room : Lasting fun s w => Room s.tx w.v.tx.toRingBuf where
  nudge := by
    intro s w w' hv hn h
    obtain ⟨xs, ys, hf⟩ := hn.flows
    exact hf.room hv h
  same := fun _ _ h => h

/-! ## Refreshing the snapshots -/

section
variable {C : VcAttr → Sys → Prop} {Q : VcAttr → Sys → Prop} {s : VcAttr} {w : Sys}

/-- `vc_buf_update` for RX.  The head is the daemon's to move, so the two ioctls see the
same head; the tail may have moved on since. -/
theorem wp_updRx (hQ : Lasting Q) (hrx : ∀ {s w} rx, Q s w → Q { s with rx := rx } w)
    (hc : Core C s w) (hm : Mapped s w) (hq : Q s w) :
    vcBufUpdateRx.wp (systemWith C) (Core C) (fun _ s' w' => (∃ rx, s' = { s with rx := rx }) ∧
      Core C s' w' ∧ Shown s' w' ∧ Q s' w') s w := by
  simp only [vcBufUpdateRx, Act.wp_bind]
  refine (lasting_mapped.and hQ).wp_request hc ⟨hm, hq⟩ fun (r : Option Int) w₁ w₂ hc₁ hq₁ hr => ?_
  obtain ⟨rfl, rfl⟩ := hr.reads rfl
  have hhead : Lasting fun _ w => w.v.rx.head = w₂.v.rx.head :=
    { nudge := by
        intro s w w' _ hn h
        obtain ⟨xs, ys, hf⟩ := hn.flows
        exact hf.rxHead.trans h
      same := fun _ _ h => h }
  simp only [Act.wp_bind]
  refine ((lasting_mapped.and hQ).and hhead).wp_request hc₁ ⟨hq₁, rfl⟩
    fun (r : Option Int) w₃ w₄ hc₃ hq₃ hr => ?_
  obtain ⟨rfl, rfl⟩ := hr.reads rfl
  obtain ⟨⟨hm₃, hq₃⟩, hh⟩ := hq₃
  simp only [wp_modifyAttr]
  refine ⟨⟨_, rfl⟩, hc₃.of_eq rfl rfl rfl, ⟨⟨hm₃.txSize, hm₃.rxSize, hm₃.clean⟩, ?_⟩, hrx _ hq₃⟩
  have hrange := hc₃.sound.rx
  refine ⟨⟨hm₃.rxSize, ?_, ?_, hrange.tail_nonneg, hrange.tail_lt⟩, hh.symm, ?_⟩
  · rw [← hh]
    exact hrange.head_nonneg
  · rw [← hh]
    exact hrange.head_lt
  · exact hh ▸ Int.le_refl _

/-- `vc_buf_update` for TX.  Here the tail is the daemon's, and the head may have moved
on since it was read: the snapshot shows too little room, never too much. -/
theorem wp_updTx (hQ : Lasting Q) (htx : ∀ {s w} tx, Q s w → tx.size = s.tx.size → Q { s with tx := tx } w)
    (hc : Core C s w) (hsize : s.tx.size = PAGE_SIZE) (hq : Q s w) :
    vcBufUpdateTx.wp (systemWith C) (Core C) (fun _ s' w' => (∃ tx, s' = { s with tx := tx }) ∧
      Core C s' w' ∧ Room s'.tx w'.v.tx.toRingBuf ∧ Q s' w') s w := by
  simp only [vcBufUpdateTx, Act.wp_bind]
  refine hQ.wp_request hc hq fun (r : Option Int) w₁ w₂ hc₁ hq₁ hr => ?_
  obtain ⟨rfl, rfl⟩ := hr.reads rfl
  have hhead : Lasting fun _ w => dist PAGE_SIZE w.v.tx.head w.v.tx.tail ≤
      dist PAGE_SIZE w₂.v.tx.head w.v.tx.tail :=
    { nudge := by
        intro s w w' hv hn h
        obtain ⟨xs, ys, hf⟩ := hn.flows
        have hle := hf.tx_dist hv
        rw [hf.txTail] at hle ⊢
        exact Int.le_trans hle h
      same := fun _ _ h => h }
  simp only [Act.wp_bind]
  refine (hQ.and hhead).wp_request hc₁ ⟨hq₁, Int.le_refl _⟩ fun (r : Option Int) w₃ w₄ hc₃ hq₃ hr => ?_
  obtain ⟨rfl, rfl⟩ := hr.reads rfl
  simp only [wp_modifyAttr]
  have hrange := hc₃.sound.tx
  have hrange₁ := hc₁.sound.tx
  refine ⟨⟨_, rfl⟩, hc₃.of_eq rfl rfl rfl, ⟨⟨hsize, hrange₁.head_nonneg, hrange₁.head_lt, hrange.tail_nonneg,
    hrange.tail_lt⟩, rfl, hq₃.2⟩, htx _ hq₃.1 rfl⟩

/-! ## Clearing -/

/-- Between the two ioctls of `vc_buf_clear`. -/
structure Clearing (byClose : Bool) (s : VcAttr) (w : Sys) : Prop where
  txSize : s.tx.size = PAGE_SIZE
  rxSize : s.rx.size = PAGE_SIZE
  clean : w.v.rx.clean = true
  unstaged : w.ses.staged = []
  dead : w.up.live = false
  byClose : w.ses.byClose = byClose

theorem lasting_clearing (byClose : Bool) : Lasting (Clearing byClose) where
  nudge := by
    intro s w w' _ hn h
    obtain ⟨xs, ys, hf⟩ := hn.flows
    exact ⟨h.txSize, h.rxSize, hf.rxClean.trans h.clean, hn.unstaged h.unstaged,
      by rw [hn.up]; exact h.dead, hn.byClose.trans h.byClose⟩
  same := fun _ _ h => ⟨h.txSize, h.rxSize, h.clean, h.unstaged, h.dead, h.byClose⟩

/-- `vc_buf_clear`. -/
theorem wp_clear {flags : Int} (hint : int32 flags = flags) (hflag : hasFlag flags ADV_CLR_RX = true)
    (hclose : hasFlag flags ADV_CLR_TX = true → s.view.isOpen = 0 ∧ s.eki.isOpen = 1)
    (hc : Core C s w) (hi : InStep s w) :
    (vcBufClear flags).wp (systemWith C) (Core C) (fun _ s' w' =>
      (∃ rx tx, s' = { s with rx := rx, tx := tx }) ∧ Core C s' w' ∧ Shown s' w' ∧
        w'.ses.staged = [] ∧ w'.up.live = false) s w := by
  simp only [vcBufClear, Act.wp_bind]
  refine lasting_inStep.wp_request hc hi fun (r : Option Int) w₁ w₂ hc₁ hi₁ hr => ?_
  obtain ⟨rfl, hclean, hstaged, hdead, hby, hc₂⟩ := hc₁.cleared hr hint hflag hi₁.unstaged
  rw [hflag]
  simp only [if_true, Act.wp_bind]
  refine (lasting_clearing _).wp_request hc₂ ⟨hi₁.txSize, hi₁.rxSize, hclean, hstaged, hdead, hby⟩
    fun (r : Option Int) w₃ w₄ hc₃ hi₃ hr => ?_
  obtain ⟨hclean₄, hstaged₄, hdead₄, hc₄⟩ := hc₃.emptied hr hi₃.clean hi₃.unstaged hi₃.dead
    fun h => hclose (hi₃.byClose.symm.trans h)
  have hlast : Lasting fun _ w => w.ses.staged = [] ∧ w.up.live = false :=
    lasting_unstaged.and (lasting_up (P := fun u => u.live = false))
  refine Act.wp_mono (wp_updRx hlast (fun _ h => h) hc₄
    ⟨hi₃.txSize, hi₃.rxSize, hclean₄⟩ ⟨hstaged₄, hdead₄⟩) ?_
  rintro _ _ w₅ ⟨⟨rx, rfl⟩, hc₅, hi₅, hstaged₅⟩
  simp only [Act.wp_ite, Act.wp_pure]
  split
  · refine Act.wp_mono (wp_updTx (lasting_shown.and hlast) ?_ hc₅ hi₅.txSize
      ⟨hi₅, hstaged₅⟩) ?_
    · rintro s w tx ⟨h, hu⟩ hsize
      exact ⟨⟨⟨hsize.trans h.txSize, h.rxSize, h.clean⟩, h.snap⟩, hu⟩
    · rintro _ _ w₆ ⟨⟨tx, rfl⟩, hc₆, -, hi₆, hstaged₆⟩
      exact ⟨⟨rx, tx, rfl⟩, hc₆, hi₆, hstaged₆⟩
  · exact ⟨⟨rx, s.tx, rfl⟩, hc₅, hi₅, hstaged₅⟩

/-! ## Sending -/

/-- The bytes `data` have been read from RX, and nothing else. -/
structure Staged (data : List UInt8) (s : VcAttr) (w : Sys) : Prop extends Shown s w where
  data : w.ses.staged.map Cell.byte = data
  linked : s.eki.isOpen = 1 → w.up.live = true
  worked : w.up.live = true → w.up.acking = []

theorem lasting_staged (data : List UInt8) : Lasting (Staged data) where
  nudge := fun hv hn h =>
    ⟨hn.shown hv h.toShown, hn.staged.trans h.data, by rw [hn.up]; exact h.linked,
      by rw [hn.up]; exact h.worked⟩
  same := fun _ _ h => ⟨⟨⟨h.txSize, h.rxSize, h.clean⟩, h.snap⟩, h.data, h.linked, h.worked⟩

/-- What has been read is as long as the bytes read, and a beginning of the ring. -/
theorem Core.staged_eq {data : List UInt8} (hc : Core C s w) (h : Staged data s w) :
    w.ses.staged = w.v.rx.content.take data.length := by
  rw [← h.data, List.length_map]
  exact List.prefix_iff_eq_take.mp hc.staged

/-- One read of the mapped page. -/
theorem wp_readRx {data : List UInt8} {off len : Int}
    (hfirst : ∀ w, Core C s w → Staged data s w →
      w.ses.staged ++ cells w.v.rx.data off len.toNat <+: w.v.rx.content)
    (hc : Core C s w) (hi : Staged data s w) {R : List UInt8 → VcAttr → Sys → Prop}
    (hR : ∀ r w', r.length = len.toNat → Core C s w' → Staged (data ++ r) s w' → R r s w') :
    (readRx off len).wp (systemWith C) (Core C) R s w := by
  refine (lasting_staged data).wp_request hc hi fun (r : List UInt8) w₁ w₂ hc₁ hi₁ hr => ?_
  obtain ⟨hret, hv, hup, hstaged, hc₂⟩ := hc₁.read hr (hfirst w₁ hc₁ hi₁)
  refine hR r w₂ (by rw [hret, List.length_map, length_cells]) hc₂ ⟨⟨⟨hi₁.txSize, hi₁.rxSize, ?_⟩, ?_⟩, ?_, ?_, ?_⟩
  · rw [hv]
    exact hi₁.clean
  · rw [hv]
    exact hi₁.snap
  · rw [hstaged, List.map_append, hi₁.data, hret]
  · rw [hup]
    exact hi₁.linked
  · rw [hup]
    exact hi₁.worked

/-- The two lengths of `vc_common_xmit`: in one piece, or up to the end of the page and
on from its beginning. -/
theorem clipped_cases {a : RingBuf} (h : a.InRange) {llen len : Int}
    (hllen : llen = if getRbLlength a > XMIT_LEN then XMIT_LEN else getRbLlength a)
    (hlen : len = if getRbLength a > XMIT_LEN then XMIT_LEN else getRbLength a) :
    0 ≤ llen ∧ llen ≤ getRbLlength a ∧ len ≤ getRbLength a ∧
      (llen = len ∨ llen = PAGE_SIZE - a.head ∧ llen < len) := by
  have hd := dist_nonneg h.head_lt h.tail_nonneg
  have hh := h.head_lt
  have hll := h.llength_eq
  have hl := h.length_eq
  have hmax : XMIT_LEN = 1024 := rfl
  split at hllen <;> split at hlen <;> omega

/-- The payload of a WRITE is the beginning of the ring, in one piece or in two. -/
theorem wp_readXmit {llen len : Int} {R : List UInt8 → VcAttr → Sys → Prop}
    (hllen : llen = if getRbLlength s.rx > XMIT_LEN then XMIT_LEN else getRbLlength s.rx)
    (hlen : len = if getRbLength s.rx > XMIT_LEN then XMIT_LEN else getRbLength s.rx)
    (hc : Core C s w) (hi : InStep s w)
    (hR : ∀ data w', (data.length : Int) = len → Core C s w' → Staged data s w' → R data s w') :
    (readXmit s.rx llen len).wp (systemWith C) (Core C) R s w := by
  obtain ⟨hnonneg, hle, hlen', hcases⟩ := clipped_cases hi.snap.inRange hllen hlen
  have hstart : Staged [] s w :=
    ⟨hi.toShown, by rw [hi.unstaged]; rfl, hi.linked, hi.worked⟩
  have hfirst (w) (hc : Core C s w) (hi : Staged [] s w) :
      w.ses.staged ++ cells w.v.rx.data (getRbHead s.rx) llen.toNat <+: w.v.rx.content := by
    have hcells := hi.snap.cells_eq hc.sound.rx (k := llen.toNat) (by omega)
    rw [List.map_eq_nil_iff.mp hi.data, List.nil_append, getRbHead, hcells]
    exact List.take_prefix _ _
  simp only [readXmit, Act.wp_ite, Act.wp_bind, Act.wp_pure]
  split
  · rename_i hone
    refine wp_readRx hfirst hc hstart fun r w₁ hr hc₁ hi₁ => hR r w₁ ?_ hc₁ hi₁
    omega
  · rename_i htwo
    obtain ⟨hend, hlt⟩ := hcases.resolve_left htwo
    refine wp_readRx hfirst hc hstart fun r w₁ hr hc₁ hi₁ => ?_
    refine wp_readRx (fun w hc hi => ?_) hc₁ hi₁ fun r₂ w₂ hr₂ hc₂ hi₂ => hR (r ++ r₂) w₂ ?_ hc₂ hi₂
    · -- the second part follows the first one in the ring
      have hstaged := hc.staged_eq hi
      have hlen₁ : ([] ++ r).length = llen.toNat := by rw [List.nil_append, hr]
      have hwrap := hi.snap.cells_wrap hc.sound.rx (j := llen.toNat) (k := (len - llen).toNat)
        (by omega) (by omega)
      rw [hstaged, hlen₁, ← hi.snap.cells_eq hc.sound.rx (by omega), hwrap]
      exact List.take_prefix _ _
    · rw [List.length_append, hr, hr₂]
      omega

/-- `vc_common_xmit`. -/
theorem wp_xmitSend {st : St} (h : Up st [] s) (hc : Core C s w) (hi : InStep s w)
    (hpend : s.xmitPending = 0) (hrx : isRbEmpty s.rx = false) :
    xmitSend.wp (systemWith C) (Core C) (Went (fun s w => Core C s w ∧ InStep s w)
      (fun s w => Core C s w ∧ Shown s w) st []) s w := by
  simp only [xmitSend, Act.wp_bind, wp_getAttr]
  refine wp_readXmit rfl rfl hc hi fun data w₁ hdata hc₁ hi₁ => ?_
  have hpos : 0 < (if getRbLength s.rx > XMIT_LEN then XMIT_LEN else getRbLength s.rx) := by
    have hrange := hi.snap.inRange
    have hd := dist_nonneg hrange.head_lt hrange.tail_nonneg
    have hne : dist PAGE_SIZE s.rx.head s.rx.tail ≠ 0 := by
      rw [Ne, dist_eq_zero hrange.head_lt hrange.tail_nonneg]
      simpa [isRbEmpty] using hrx
    have hl := hrange.length_eq
    have hmax : XMIT_LEN = 1024 := rfl
    split <;> omega
  generalize (if getRbLength s.rx > XMIT_LEN then XMIT_LEN else getRbLength s.rx) = len at hdata hpos
  simp only [Act.wp_ite, Act.wp_pure, Act.wp_bind]
  split
  · exact ⟨h.raised, hc₁, hi₁.toShown⟩
  have hfail (s w) (hp : Core C s w ∧ Staged data s w) : Core C s w ∧ Shown s w := ⟨hp.1, hp.2.toShown⟩
  refine wp_vcCheckSend ((lasting_staged data).stable.yields lasting_shown.stable hfail)
    (fun _ _ hp => hp.1) h.raised.ne_nil h.2.2.1 ⟨hc₁, hi₁⟩ ?_ ?_ ?_
  · rintro w₂ w₃ x - ⟨hc₂, hi₂⟩ hs
    have hne : data ≠ [] := by
      rintro rfl
      simp only [List.length_nil] at hdata
      omega
    obtain ⟨hv, -, hses, hup⟩ := hs.parts
    simp only [if_true, wp_modifyAttr, wp_tidNext]
    refine ⟨h, hc₂.transmitted hs hpend hi₂.data.symm hne hi₂.worked hdata.symm rfl rfl,
      ⟨⟨⟨hi₂.txSize, hi₂.rxSize, ?_⟩, ?_⟩, ?_, ?_⟩, ?_⟩
    · rw [hv]
      exact hi₂.clean
    · rw [hv]
      exact hi₂.snap
    · rw [hses]
      rfl
    · rw [hup]
      exact hi₂.linked
    · rw [hup]
      exact hi₂.worked
  · rintro w₂ w₃ ⟨hc₂, hi₂⟩ hs
    obtain ⟨hv, -, -, -⟩ := hs.parts
    refine ⟨hc₂.unsent hs, ⟨hi₂.txSize, hi₂.rxSize, ?_⟩, ?_⟩
    · rw [hv]
      exact hi₂.clean
    · rw [hv]
      exact hi₂.snap
  · intro w₂ x hp
    exact ⟨h.raised, hp⟩

/-! ## An answer -/

/-- The `n` bytes at the head of RX are the payload that has been acknowledged. -/
structure Acking (n : Nat) (w : Sys) : Prop where
  acking : w.up.acking = w.v.rx.bytes.take n
  inRing : n ≤ w.v.rx.bytes.length

theorem lasting_acking (n : Nat) : Lasting fun _ w => Acking n w where
  nudge := by
    intro s w w' _ hn h
    obtain ⟨xs, ys, hf⟩ := hn.flows
    refine ⟨?_, ?_⟩
    · rw [hn.up, hf.rxBytes, List.take_append_of_le_length h.inRing]
      exact h.acking
    · rw [hf.rxBytes, List.length_append]
      exact Nat.le_add_right_of_le h.inRing
  same := fun _ _ h => h

theorem vcCheckXmit_status {buf : Mem} {n len : Int} {stat : UInt32}
    (h : vcCheckXmit buf n stat len = true) : attachP1 buf = stat := by
  simp only [vcCheckXmit, vcCheckParam, Bool.and_eq_true, beq_iff_eq] at h
  exact h.1.2

/-- The answer to the WRITE that is out.  With SUCCESS its payload leaves the ring; with
BUSY it stays and will be read again. -/
theorem wp_recvWrite {st : St} {buf : Mem} {len : Int} {n : Nat} (h : Up st [] s)
    (hc : Core C { s with xmitPending := 0 } w) (hi : Abreast s w) (hpend : s.xmitPending = n)
    (hack : attachP1 buf = STATUS_SUCCESS → Acking n w)
    (hworked : attachP1 buf ≠ STATUS_SUCCESS → w.up.live = true → w.up.acking = []) :
    (recvWrite buf len).wp (systemWith C) (Core C) (Went (fun s w => Core C s w ∧ InStep s w)
      (fun s w => Core C s w ∧ Shown s w) st []) s w := by
  have hi₀ : Abreast { s with xmitPending := 0 } w :=
    ⟨⟨⟨hi.txSize, hi.rxSize, hi.clean⟩, hi.snap⟩, hi.unstaged, hi.linked⟩
  have hlinked : Lasting fun s w => w.ses.staged = [] ∧ (s.eki.isOpen = 1 → w.up.live = true) ∧
      w.up.acking = [] :=
    lasting_unstaged.and
      { nudge := fun _ hn h => by rw [hn.up]; exact h
        same := fun _ _ h => h }
  simp only [recvWrite, Act.wp_bind, wp_getAttr, wp_modifyAttr, Act.wp_ite, Act.wp_pure]
  split
  · rename_i hcheck
    have hacking := hack (vcCheckXmit_status hcheck)
    rw [hpend]
    refine (lasting_abreast.and (lasting_acking n)).wp_request hc ⟨hi₀, hacking⟩
      fun (r : Option Int) w₁ w₂ hc₁ hq₁ hr => ?_
    obtain ⟨hi₁, hacking₁⟩ := hq₁
    obtain ⟨hclean, hstaged, hlive, hdone, hc₂⟩ := hc₁.acknowledged hr hi₁.clean hi₁.unstaged rfl
      hacking₁.acking hacking₁.inRing
    refine Act.wp_mono (wp_updRx hlinked (fun _ h => h) hc₂ ⟨hi₁.txSize, hi₁.rxSize, hclean⟩
      ⟨hstaged, by rw [hlive]; exact hi₁.linked, hdone⟩) ?_
    rintro _ _ w₃ ⟨⟨rx, rfl⟩, hc₃, hi₃, hstaged₃, hlinked₃, hdone₃⟩
    exact ⟨h, hc₃, ⟨hi₃, hstaged₃, hlinked₃⟩, fun _ => hdone₃⟩
  · cases hbusy : vcCheckXmit buf s.xmitPending STATUS_DEVICE_BUSY len with
    | true =>
        have hstatus : attachP1 buf ≠ STATUS_SUCCESS := by
          rw [vcCheckXmit_status hbusy]
          decide
        exact ⟨h, hc, hi₀, hworked hstatus⟩
    | false => exact ⟨h.raised, hc, hi₀.toShown⟩

/-! ## Data from the device -/

/-- The payload `bs` has been handed on, and the snapshot of TX is fresh. -/
structure Expecting (bs : List UInt8) (s : VcAttr) (w : Sys) : Prop extends InStep s w where
  room : Room s.tx w.v.tx.toRingBuf
  incoming : w.down.incoming = bs

theorem lasting_expecting (bs : List UInt8) : Lasting (Expecting bs) where
  nudge := fun hv hn h =>
    ⟨hn.inStep hv h.toInStep, lasting_room.nudge hv hn h.room, by rw [hn.down]; exact h.incoming⟩
  same := fun x l h => ⟨lasting_inStep.same x l h.toInStep, h.room, h.incoming⟩

theorem lasting_laid (bs : List UInt8) : Lasting fun _ w => Laid w bs where
  nudge := fun hv hn h => hn.laid hv h
  same := fun _ _ h => h

theorem Expecting.copied {bs cs : List UInt8} {off : Int} (h : Expecting bs s w) :
    Expecting bs s (w.copied off cs) :=
  ⟨⟨⟨⟨⟨h.txSize, h.rxSize, h.clean⟩, h.snap⟩, h.unstaged, h.linked⟩, h.worked⟩,
    ⟨h.room.inRange, h.room.tail, h.room.room⟩, h.incoming⟩

/-- The tail moves over a payload that lies behind it. -/
theorem wp_sTxTail {st : St} {bs : List UInt8} {n : Int} (hn : n = bs.length) (h : Up st [] s)
    (hc : Core C s w) (hi : Expecting bs s w) (hl : Laid w bs) :
    (ioctl .sTxTail n >>= fun _ => pure true : M Bool).wp (systemWith C) (Core C)
      (Went (fun s w => Core C s w ∧ InStep s w) (fun s w => Core C s w ∧ Shown s w) st []) s w := by
  subst hn
  rw [Act.wp_bind]
  refine ((lasting_expecting bs).and (lasting_laid bs)).wp_request hc ⟨hi, hl⟩
    fun (r : Option Int) w₁ w₂ hc₁ hq₁ hr => ?_
  obtain ⟨hi₁, hl₁⟩ := hq₁
  obtain ⟨hrx, hup, hstaged, hc₂⟩ := hc₁.accepted hl₁ hi₁.incoming hr
  refine ⟨h, hc₂, ⟨⟨⟨hi₁.txSize, hi₁.rxSize, ?_⟩, ?_⟩, ?_, ?_⟩, ?_⟩
  · rw [hrx]
    exact hi₁.clean
  · rw [hrx]
    exact hi₁.snap
  · rw [hstaged]
    exact hi₁.unstaged
  · rw [hup]
    exact hi₁.linked
  · rw [hup]
    exact hi₁.worked

section
variable {payload bs cs : List UInt8} {Q : Unit → VcAttr → Sys → Prop}

/-- What the snapshot has room for is free, whatever the tty has taken in the meantime. -/
theorem Expecting.space (h : Expecting payload s w) {n : Int} (hn : n ≤ getRbRoom s.tx) :
    dist PAGE_SIZE w.v.tx.head w.v.tx.tail + n < PAGE_SIZE := by
  have hroom := h.room.inRange.room_eq
  have hle := h.room.room
  omega

/-- A piece comes to lie behind the tail. -/
theorem wp_copyTail (hc : Core C s w) (hi : Expecting payload s w)
    (hfit : (bs.length : Int) ≤ getRbLroom s.tx) (hroom : (bs.length : Int) ≤ getRbRoom s.tx)
    (hQ : ∀ w', Core C s w' → Expecting payload s w' → Laid w' bs → Q () s w') :
    (copyTx (getRbTail s.tx) bs).wp (systemWith C) (Core C) Q s w := by
  have hlroom := hi.room.inRange.tail_add_lroom_le
  refine (lasting_expecting _).wp_request hc hi fun _ w₁ w₂ hc₁ hi₁ hr => ?_
  obtain rfl := hr.copied
  have hspace := hi₁.space hroom
  have htail : s.tx.tail = w₁.v.tx.tail := hi₁.room.tail
  have hfit₁ : w₁.v.tx.tail + bs.length ≤ PAGE_SIZE := by omega
  rw [getRbTail, htail]
  exact hQ _ (hc₁.copied (Store.free_behind hc₁.sound.tx hfit₁ hspace)) hi₁.copied
    (Laid.copied hfit₁ hspace)

/-- Behind a piece up to the end of the page the next one comes to lie at its beginning. -/
theorem wp_copyWrap (hc : Core C s w) (hi : Expecting payload s w) (hl : Laid w bs)
    (hend : (bs.length : Int) = getRbLroom s.tx) (hmore : getRbLroom s.tx < getRbRoom s.tx)
    (hroom : ((bs.length + cs.length : Nat) : Int) ≤ getRbRoom s.tx)
    (hQ : ∀ w', Core C s w' → Expecting payload s w' → Laid w' (bs ++ cs) → Q () s w') :
    (copyTx 0 cs).wp (systemWith C) (Core C) Q s w := by
  have hlroom := hi.room.inRange.lroom_eq
  have hroomeq := hi.room.inRange.room_eq
  refine ((lasting_expecting _).and (lasting_laid _)).wp_request hc ⟨hi, hl⟩
    fun _ w₁ w₂ hc₁ hq₁ hr => ?_
  obtain ⟨hi₁, hl₁⟩ := hq₁
  obtain rfl := hr.copied
  have hspace := hi₁.space hroom
  have htail : s.tx.tail = w₁.v.tx.tail := hi₁.room.tail
  exact hQ _ (hc₁.copied (Store.free_wrap hc₁.sound.tx (by omega))) hi₁.copied
    (hl₁.wrapped hc₁.sound (by omega) (by omega))

end

/-- A DATAREADY payload: as much as fits up to the end of the page, then the rest from
its beginning. -/
theorem wp_recvData {st : St} {buf : Mem} (h : Up st [] s) (hc : Core C s w)
    (hi : Expecting (buf.slice HDR_LEN (hdrLen buf)) s w) :
    (recvData buf).wp (systemWith C) (Core C) (Went (fun s w => Core C s w ∧ InStep s w)
      (fun s w => Core C s w ∧ Shown s w) st []) s w := by
  have hfalse : Raised s ∧ Core C s w ∧ Shown s w := ⟨h.raised, hc, hi.toShown⟩
  simp only [recvData, Act.wp_bind, wp_getAttr]
  cases hd : vcCheckRecv buf with
  | none => exact hfalse
  | some d =>
      have hlen := vcCheckRecv_eq hd
      have hwhole : ((buf.slice HDR_LEN (hdrLen buf)).length : Int) = d := by
        rw [Mem.length_slice, hlen]
      simp only [Act.wp_ite, Act.wp_bind, Act.wp_pure]
      split
      · exact hfalse
      rename_i hfits
      split
      · rename_i hone
        have hpayload : buf.slice 20 d.toNat = buf.slice HDR_LEN (hdrLen buf) := by
          rw [hlen, Int.toNat_natCast]
          rfl
        rw [hpayload]
        refine wp_copyTail hc hi (by omega) (by omega) fun w' hc' hi' hl' => ?_
        have hgo := wp_sTxTail hwhole.symm h hc' hi' hl'
        simpa only [Act.wp_bind, Act.wp_pure] using hgo
      · rename_i htwo
        have hnonneg := hi.room.inRange.lroom_nonneg
        have hbs : ((buf.slice 20 (getRbLroom s.tx).toNat).length : Int) = getRbLroom s.tx := by
          rw [Mem.length_slice]
          omega
        have hjoin : buf.slice 20 (getRbLroom s.tx).toNat ++
            buf.slice (20 + (getRbLroom s.tx).toNat) (d - getRbLroom s.tx).toNat =
              buf.slice HDR_LEN (hdrLen buf) := by
          rw [← Mem.slice_add, HDR_LEN]
          congr 1
          omega
        have hroom : (((buf.slice 20 (getRbLroom s.tx).toNat).length +
            (buf.slice (20 + (getRbLroom s.tx).toNat) (d - getRbLroom s.tx).toNat).length : Nat) :
              Int) ≤ getRbRoom s.tx := by
          rw [← List.length_append, hjoin]
          omega
        refine wp_copyTail hc hi (by omega) (by omega) fun w₁ hc₁ hi₁ hl₁ => ?_
        refine wp_copyWrap hc₁ hi₁ hl₁ hbs (by omega) hroom fun w₂ hc₂ hi₂ hl₂ => ?_
        rw [hjoin] at hl₂
        have hgo := wp_sTxTail hwhole.symm h hc₂ hi₂ hl₂
        simpa only [Act.wp_bind, Act.wp_pure] using hgo

end

end AdvVcom
