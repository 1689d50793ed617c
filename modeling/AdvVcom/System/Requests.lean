/-
# `AdvVcom.System.Requests` — the daemon's own steps, one by one

Each request of the daemon that changes something, with what it needs so that `Core`
holds afterwards:

    send                nothing, unless it is OPEN or WRITE
    OPEN                no WRITE is out
    WRITE               none is out yet, and it carries what was read from RX
    `close`             nothing
    `IOCGATTRPTR`       nothing
    a read of RX        it goes on where the last one ended
    a copy to TX        it goes to free cells
    `IOCSTXTAIL`        the payload lies behind the tail
    `IOCSRXHEAD`        the acknowledged payload lies at the head
    `IOCSCLR`           the daemon has nothing in hand
-/
import AdvVcom.System.Core

namespace AdvVcom

open Lib Lib.Ring

section
variable {C : VcAttr → Sys → Prop} {s : VcAttr} {w w' : Sys}

/-! ## Sends -/

/-- A packet that neither begins a connection nor carries data. -/
def Pkt.Mute : Pkt → Prop
  | .open _ _ _ | .xmit _ _ => False
  | _ => True

theorem Pkt.Plain.mute {p : Pkt} (h : p.Plain) : p.Mute := by
  cases p with
  | «open» | xmit => exact absurd h id
  | _ => trivial

theorem Pkt.Tame.mute {p : Pkt} (h : p.Tame) : p.Mute := by
  cases p with
  | «open» | xmit => exact absurd h id
  | _ => trivial

theorem Pkt.IsBye.mute {p : Pkt} (h : p.IsBye) : p.Mute := by
  cases p with
  | «open» | xmit => exact absurd h id
  | _ => trivial

/-- What a send changes. -/
theorem Sends.parts {ps : List Pkt} {ok : Bool} (hs : Sends (systemWith C) w ps ok w') :
    w'.v = w.v ∧ w'.down = w.down ∧ w'.ses = ps.foldl (Sessions.sent w.v) w.ses ∧
      w'.up = if ok then ps.foldl (UpLink.sent w.v) w.up else w.up := by
  rcases hs with hr | ⟨r, hr, rfl⟩
  · exact ⟨hr.driver, hr.down, hr.ses, hr.up⟩
  · refine ⟨hr.driver, hr.down, hr.ses, hr.up.trans ?_⟩
    simp only [UpLink.next, decide_eq_true_eq]

theorem foldl_mute {ps : List Pkt} (h : ∀ p ∈ ps, p.Mute) (v : Vcom Cell) (t : Sessions) (u : UpLink) :
    ps.foldl (Sessions.sent v) t = t ∧ ps.foldl (UpLink.sent v) u = u := by
  induction ps with
  | nil => exact ⟨rfl, rfl⟩
  | cons p ps ih =>
      have hp := h p List.mem_cons_self
      have hrest := ih fun q hq => h q (List.mem_cons_of_mem _ hq)
      cases p with
      | «open» | xmit => exact absurd hp id
      | _ => exact hrest

theorem Sends.mute {ps : List Pkt} {ok : Bool} (hs : Sends (systemWith C) w ps ok w')
    (h : ∀ p ∈ ps, p.Mute) : w' = w := by
  obtain ⟨hv, hdown, hses, hup⟩ := hs.parts
  obtain ⟨ht, hu⟩ := foldl_mute h w.v w.ses w.up
  refine Sys.ext_parts hv ?_ hdown (hses.trans ht)
  rw [hup, hu, ite_self]

/-- A packet goes out, or part of it: what has been read from RX is in the device's
hands. -/
theorem Core.ses_sent (h : Core C s w) (p : Pkt) : Core C s { w with ses := w.ses.sent w.v p } := by
  cases p with
  | xmit tid data =>
      refine ⟨h.sound, h.bool, h.up, h.down, List.nil_prefix, fun hC => ?_⟩
      have ha := h.apart hC
      refine ⟨ha.rxFresh, ha.txFresh, ha.fifo, ha.born, ha.same, isolated_append ha.events ?_⟩
      intro hopen c hc
      exact ha.rxFresh hopen c (h.staged.subset hc)
  | _ => exact h

theorem Core.ses_sends (ps : List Pkt) {w : Sys} (h : Core C s w) :
    Core C s { w with ses := ps.foldl (Sessions.sent w.v) w.ses } := by
  induction ps generalizing w with
  | nil => exact h
  | cons p ps ih => exact ih (h.ses_sent p)

/-- A send that failed. -/
theorem Core.unsent (h : Core C s w) {ps : List Pkt} (hs : Sends (systemWith C) w ps false w') :
    Core C s w' := by
  obtain ⟨hv, hdown, hses, hup⟩ := hs.parts
  have heq : w' = { w with ses := ps.foldl (Sessions.sent w.v) w.ses } :=
    Sys.ext_parts hv hup hdown hses
  rw [heq]
  exact h.ses_sends ps

/-- OPEN: the ring as it is now is what this connection begins with. -/
theorem Core.opened (h : Core C s w) {tid : UInt32} {dev : UInt16} {port : UInt32}
    (hs : Sends (systemWith C) w [.open tid dev port] true w') (hpend : s.xmitPending = 0)
    (hview : s.view.isOpen = 1) {s' : VcAttr} (hpend' : s'.xmitPending = s.xmitPending)
    (hview' : s'.view = s.view) : Core C s' w' := by
  obtain ⟨hv, hdown, hses, hup⟩ := hs.parts
  have heq : w' = { w with up := w.up.sent w.v (.open tid dev port) } :=
    Sys.ext_parts hv hup hdown hses
  rw [heq]
  refine ⟨h.sound, h.bool, fun _ => ?_, h.down, h.staged, fun hC => ?_⟩
  · refine ⟨Nat.zero_le 1, ?_, ?_, List.nil_prefix, fun _ => rfl, Nat.le_refl _, ?_⟩
    · exact iff_of_true (hpend'.trans hpend) rfl
    · intro data hdata
      cases hdata
    · simp [UpLink.sent, Vcom.appendedSince]
  · have ha := h.apart hC
    refine ⟨ha.rxFresh, ha.txFresh, ha.fifo, ha.born, ?_, ha.events⟩
    intro hclosed
    rw [hview', hview] at hclosed
    cases hclosed

/-- WRITE: what has been read from RX is out. -/
theorem Core.transmitted (h : Core C s w) {tid : UInt32} {data : List UInt8}
    (hs : Sends (systemWith C) w [.xmit tid data] true w') (hpend : s.xmitPending = 0)
    (hdata : data = w.ses.staged.map Cell.byte) (hne : data ≠ [])
    (hworked : w.up.live = true → w.up.acking = []) {s' : VcAttr}
    (hpend' : s'.xmitPending = data.length) (hview : s'.view = s.view) (heki : s'.eki = s.eki) :
    Core C s' w' := by
  obtain ⟨hv, hdown, hses, hup⟩ := hs.parts
  have heq : w' = { w with up := w.up.sent w.v (.xmit tid data)
                           ses := w.ses.sent w.v (.xmit tid data) } :=
    Sys.ext_parts hv hup hdown hses
  have hses' := h.ses_sent (.xmit tid data)
  rw [heq]
  refine ⟨h.sound, h.bool, fun hlive => ?_, h.down, hses'.staged, fun hC => ?_⟩
  · have hu := h.up hlive
    have hnone : w.up.unanswered = [] := hu.idle.mp hpend
    have hout : (w.up.sent w.v (.xmit tid data)).unanswered = [data] := by
      simp [UpLink.sent, hnone]
    refine ⟨by rw [hout]; exact Nat.le_refl 1, ?_, ?_, hu.behind, fun _ => hworked hlive, hu.mark,
      hu.whole⟩
    · rw [hout, hpend']
      refine iff_of_false ?_ (List.cons_ne_nil _ _)
      have hpos := List.length_pos_iff.mpr hne
      omega
    · intro d hd
      rw [hout, List.mem_singleton] at hd
      subst hd
      refine ⟨hpend', ?_⟩
      rw [hdata]
      exact h.staged.map _
  · obtain ⟨hrx, htx, hfifo, hborn, hsame, hev⟩ := hses'.apart hC
    exact ⟨hrx, htx, hfifo, hborn, by rw [hview, heki]; exact hsame, hev⟩

/-! ## The socket and the attributes -/

theorem Core.close (h : Core C s w) (hr : sysAnswers w .close () w') {s' : VcAttr}
    (heki : s'.eki.isOpen = 0) : Core C s' w' := by
  have heq : w' = { w with up := { w.up with live := false }, ses := { w.ses with staged := [] } } :=
    Sys.ext_parts hr.driver hr.up hr.down hr.ses
  rw [heq]
  refine ⟨h.sound, h.bool, fun hlive => ?_, h.down, List.nil_prefix, fun hC => ?_⟩
  · cases hlive
  · have ha := h.apart hC
    refine ⟨ha.rxFresh, ha.txFresh, ha.fifo, ha.born, fun _ hopen => ?_, ha.events⟩
    rw [heki] at hopen
    cases hopen

/-- What `IOCGATTRPTR` points to is a copy of the attributes as they are. -/
theorem flushAttrInfo_attr (a : PortAtt) : (flushAttrInfo a).2.attr = a.attr ∧
    (flushAttrInfo a).2.slots (flushAttrInfo a).1 = a.attr := by
  unfold flushAttrInfo
  cases a.newbie <;> exact ⟨rfl, Function.update_self _ _ _⟩

theorem sysAnswers.attrPtr {r : Option PortInfo} (hr : sysAnswers w .attrPtr r w') :
    r = some w.v.attr.attr ∧ w' = { w with
      v := { w.v with attr := (flushAttrInfo w.v.attr).2 }, ses := { w.ses with seen := w.ses.count } } := by
  obtain ⟨⟨hret, hv⟩, hup, hdown, hses⟩ := hr
  rw [advProcIoctl_own] at hret hv
  refine ⟨hret.trans ?_, Sys.ext_parts hv hup hdown hses⟩
  exact congrArg some (flushAttrInfo_attr w.v.attr).2

/-- The daemon looks at the attributes. -/
theorem Core.view (h : Core C s w) {r : Option PortInfo} (hr : sysAnswers w .attrPtr r w') :
    ∃ view, r = some view ∧ Legal { s with view := view } ∧ Core C { s with view := view } w' := by
  obtain ⟨hret, rfl⟩ := hr.attrPtr
  have hattr := (flushAttrInfo_attr w.v.attr).1
  have hmoves : Moves w.v { w.v with attr := (flushAttrInfo w.v.attr).2 } [] [] :=
    (Moves.refl h.sound).to_attr
  have hflows := hmoves.flows
  refine ⟨w.v.attr.attr, hret, h.bool, hflows.sound, ?_, fun hlive => hflows.upFlow (h.up hlive),
    hflows.downFlow h.down, h.staged, fun hC => ?_⟩
  · simp only [hattr]
    exact h.bool
  · have hin : ({ w.v with attr := (flushAttrInfo w.v.attr).2 } : Vcom Cell).inSession =
        w.v.inSession := by simp only [Vcom.inSession, hattr]
    have ha := h.apart hC
    refine ⟨?_, ?_, ha.fifo, ha.born, fun _ _ => rfl, ha.events⟩
    · intro hs
      exact ha.rxFresh (hin ▸ hs)
    · intro hs
      exact ha.txFresh (hin ▸ hs)

/-! ## The RX ring -/

/-- A read of the page goes on where the last one ended. -/
theorem Core.read (h : Core C s w) {off len : Int} {r : List UInt8}
    (hr : sysAnswers w (.readRx off len) r w')
    (hfirst : w.ses.staged ++ cells w.v.rx.data off len.toNat <+: w.v.rx.content) :
    r = (cells w.v.rx.data off len.toNat).map Cell.byte ∧ w'.v = w.v ∧ w'.up = w.up ∧
      w'.ses.staged = w.ses.staged ++ cells w.v.rx.data off len.toNat ∧ Core C s w' := by
  obtain ⟨⟨hret, hv⟩, hup, hdown, hses⟩ := hr
  have heq : w' = { w with ses :=
      { w.ses with staged := w.ses.staged ++ cells w.v.rx.data off len.toNat } } :=
    Sys.ext_parts hv hup hdown hses
  rw [heq]
  refine ⟨hret, rfl, rfl, rfl, h.sound, h.bool, h.up, h.down, hfirst, fun hC => ?_⟩
  have ha := h.apart hC
  exact ⟨ha.rxFresh, ha.txFresh, ha.fifo, ha.born, ha.same, ha.events⟩

/-- The payload of an answered WRITE leaves the ring. -/
theorem Core.acknowledged (h : Core C s w) {n : Nat} {r : Option Int}
    (hr : sysAnswers w (.ioctl .sRxHead n) r w') (hclean : w.v.rx.clean = false)
    (hstaged : w.ses.staged = []) (hpend : s.xmitPending = 0)
    (hacking : w.up.acking = w.v.rx.bytes.take n) (hn : n ≤ w.v.rx.bytes.length) :
    w'.v.rx.clean = false ∧ w'.ses.staged = [] ∧ w'.up.live = w.up.live ∧ w'.up.acking = [] ∧
      Core C s w' := by
  obtain ⟨⟨accept, -, hv⟩, hup, hdown, hses⟩ := hr
  rw [advProcIoctl_own] at hv
  have hlt := KRing.length_bytes h.sound.rx
  have hd := dist_lt h.sound.rx.head_nonneg h.sound.rx.tail_lt
  have hpage : PAGE_SIZE = 4096 := rfl
  have hint : int32 (n : Int) = n := int32_eq (by omega) (by omega)
  replace hv : w'.v = { w.v with rx := moveRbHead w.v.rx n } := by rw [← hint]; exact hv
  have hses' : w'.ses = w.ses := by
    rw [hses]
    simp only [Sessions.next, hclean, Bool.false_and, Bool.false_eq_true, if_false]
  have heq : w' = { w with v := { w.v with rx := moveRbHead w.v.rx n }
                           up := { w.up with acked := w.up.acked ++ w.up.acking, acking := [] } } :=
    Sys.ext_parts hv hup hdown hses'
  -- what stays in the ring
  have hcontent : w.v.rx.content.drop n = (moveRbHead w.v.rx n).content := by
    rw [content_moveRbHead h.sound.rx hclean (k := n) (by rw [h.sound.rx.length_eq]; omega)]
    exact List.drop_left' length_window
  have hbytes : (moveRbHead w.v.rx n).bytes = w.v.rx.bytes.drop n := by
    rw [KRing.bytes, ← hcontent, KRing.bytes, List.map_drop]
  have hsub (c : Cell) (hc : c ∈ (moveRbHead w.v.rx n).content) : c ∈ w.v.rx.content :=
    List.mem_of_mem_drop (hcontent ▸ hc)
  have hrange := moveRbHead_inRange h.sound.rx hclean (n := (n : Int)) (by omega) (by omega)
  have hmove := moveRbHead_eq hclean (n : Int)
  rw [heq]
  refine ⟨by rw [hmove]; exact hclean, hstaged, rfl, rfl,
    ⟨⟨h.sound.tx, hrange, h.sound.log⟩, h.sound.clean⟩, h.bool, fun hlive => ?_, h.down.of_eq rfl rfl, by rw [hstaged]; exact List.nil_prefix,
    fun hC => ?_⟩
  · have hu := h.up hlive
    have hnone := hu.idle.mp hpend
    refine ⟨hu.one, hu.idle, ?_, List.nil_prefix, fun _ => rfl, hu.mark, ?_⟩
    · intro data hdata
      rw [hnone] at hdata
      cases hdata
    · show (w.up.acked ++ w.up.acking) ++ (moveRbHead w.v.rx n).bytes = _
      rw [hbytes, hacking, List.append_assoc, List.take_append_drop]
      exact hu.whole
  · have ha := h.apart hC
    exact ⟨fun hs c hc => ha.rxFresh hs c (hsub c hc), ha.txFresh, ha.fifo,
      fun c hc => ha.born c (hsub c hc), ha.same, ha.events⟩

/-! ## Clearing -/

/-- A ring whose head has moved to its tail. -/
theorem KRing.content_emptied {β : Type} (r : KRing β) (on clean : Bool) (data : Int → β) (b n : Int) :
    (⟨⟨r.tail, r.tail, b, n⟩, on, clean, data⟩ : KRing β).content = [] :=
  content_self

/-- The first half of `vc_buf_clear`: TX is empty if that was asked for, and RX will be. -/
theorem Core.cleared (h : Core C s w) {mask : Int} {r : Option Int}
    (hr : sysAnswers w (.ioctl .sClr mask) r w') (hmask : int32 mask = mask)
    (hrx : hasFlag mask ADV_CLR_RX = true) (hstaged : w.ses.staged = []) :
    r = some 0 ∧ w'.v.rx.clean = true ∧ w'.ses.staged = [] ∧ w'.up.live = false ∧
      w'.ses.byClose = hasFlag mask ADV_CLR_TX ∧ Core C s w' := by
  obtain ⟨⟨accept, hret, hv⟩, hup, hdown, hses⟩ := hr
  rw [advProcIoctl_own] at hret hv
  replace hv : w'.v = advMainClear mask w.v := by rw [← hmask]; exact hv
  simp only [advMainClear, hrx, if_true, moveRbHead] at hv
  simp only [UpLink.next, hrx, if_true] at hup
  simp only [DownLink.next] at hdown
  refine ⟨hret, ?_⟩
  have htx := h.sound.tx
  by_cases hflag : hasFlag mask ADV_CLR_TX = true
  · simp only [hflag, if_true] at hv hdown
    have heq : w' = { v := { w.v with rx := { w.v.rx with clean := true }
                                      tx := { w.v.tx with clean := false, head := w.v.tx.tail } }
                      up := { w.up with live := false }
                      down := { w.down with clearLog := w.v.log.length, accepted := [] }
                      ses := { w.ses with byClose := hasFlag mask ADV_CLR_TX } } :=
      Sys.ext_parts hv hup hdown hses
    rw [heq]
    refine ⟨rfl, hstaged, rfl, rfl,
      ⟨⟨⟨htx.size_eq, htx.tail_nonneg, htx.tail_lt, htx.tail_nonneg, htx.tail_lt⟩, h.sound.rx,
        h.sound.log⟩, rfl⟩, h.bool, fun hlive => ?_, ⟨Nat.le_refl _, ?_, h.down.free⟩, h.staged,
      fun hC => ?_⟩
    · cases hlive
    · simp only [Vcom.insertedSince, List.drop_length, KRing.bytes, KRing.content_emptied]
      rfl
    · have ha := h.apart hC
      refine ⟨ha.rxFresh, fun _ c hc => ?_, ha.fifo, ha.born, ha.same, ha.events⟩
      rw [KRing.content_emptied] at hc
      cases hc
  · simp only [hflag, Bool.false_eq_true, if_false] at hv hdown
    have heq : w' = { w with v := { w.v with rx := { w.v.rx with clean := true } }
                             up := { w.up with live := false }
                             ses := { w.ses with byClose := hasFlag mask ADV_CLR_TX } } :=
      Sys.ext_parts hv hup hdown hses
    rw [heq]
    refine ⟨rfl, hstaged, rfl, rfl, ⟨⟨h.sound.tx, h.sound.rx, h.sound.log⟩, h.sound.clean⟩, h.bool,
      fun hlive => ?_, h.down.of_eq rfl rfl, h.staged, fun hC => ?_⟩
    · cases hlive
    · have ha := h.apart hC
      exact ⟨ha.rxFresh, ha.txFresh, ha.fifo, ha.born, ha.same, ha.events⟩

/-- The second half: RX is emptied, whatever has come to it in between. -/
theorem Core.emptied (h : Core C s w) {n : Int} {r : Option Int}
    (hr : sysAnswers w (.ioctl .sRxHead n) r w') (hclean : w.v.rx.clean = true)
    (hstaged : w.ses.staged = []) (hlive : w.up.live = false)
    (hclose : w.ses.byClose = true → s.view.isOpen = 0 ∧ s.eki.isOpen = 1) :
    w'.v.rx.clean = false ∧ w'.ses.staged = [] ∧ w'.up.live = false ∧ Core C s w' := by
  obtain ⟨⟨accept, -, hv⟩, hup, hdown, hses⟩ := hr
  rw [advProcIoctl_own] at hv
  replace hv : w'.v = { w.v with rx := moveRbHead w.v.rx (int32 n) } := hv
  simp only [moveRbHead, hclean, if_true] at hv
  simp only [Sessions.next, hclean, Bool.true_and] at hses
  have hses' : w'.ses.staged = [] ∧ w'.ses.count = w.ses.count ∧ w'.ses.seen = w.ses.seen := by
    rw [hses]
    split <;> exact ⟨hstaged, rfl, rfl⟩
  obtain ⟨hstaged', hcount, hseen⟩ := hses'
  have hrange := h.sound.rx
  have hempty : w'.v.rx.content = [] := by rw [hv]; exact KRing.content_emptied _ _ _ _ _ _
  have htx : w'.v.tx = w.v.tx := by rw [hv]
  have hlog : w'.v.log = w.v.log := by rw [hv]
  have hattr : w'.v.attr = w.v.attr := by rw [hv]
  have hfifo : w'.v.fifo = w.v.fifo := by rw [hv]
  have hlive' : w'.up.live = false := by rw [hup]; exact hlive
  refine ⟨by rw [hv], hstaged', hlive', ⟨⟨by rw [htx]; exact h.sound.tx, ?_, by rw [hlog]; exact h.sound.log⟩,
    by rw [htx]; exact h.sound.clean⟩, by rw [hattr]; exact h.bool, fun hl => ?_, ?_, ?_, fun hC => ?_⟩
  · rw [hv]
    exact ⟨hrange.size_eq, hrange.tail_nonneg, hrange.tail_lt, hrange.tail_nonneg, hrange.tail_lt⟩
  · rw [hlive'] at hl
    cases hl
  · rw [hdown]
    exact h.down.of_eq htx hlog
  · rw [hstaged']
    exact List.nil_prefix
  · have ha := h.apart hC
    have hin : w'.v.inSession = w.v.inSession := by simp only [Vcom.inSession, hattr]
    refine ⟨?_, ?_, ?_, ?_, ?_, ?_⟩
    · intro _ c hc
      rw [hempty] at hc
      cases hc
    · rw [hin, htx]
      exact ha.txFresh
    · rw [hfifo, hcount]
      exact ha.fifo
    · intro c hc
      rw [hempty] at hc
      cases hc
    · rw [hcount, hseen]
      exact ha.same
    · rw [hses]
      split
      · rename_i hby
        obtain ⟨hview, heki⟩ := hclose hby
        refine isolated_append ha.events fun c hc => ?_
        rw [← ha.same hview heki]
        exact ha.born c hc
      · exact ha.events

/-! ## The TX ring -/

/-- The bytes `bs` lie behind the tail of TX, in free cells. -/
structure Laid (w : Sys) (bs : List UInt8) : Prop where
  bytes : (window w.v.tx.data PAGE_SIZE w.v.tx.tail bs.length).map Cell.byte = bs
  fresh : ∀ c ∈ window w.v.tx.data PAGE_SIZE w.v.tx.tail bs.length, c.old = false
  room : dist PAGE_SIZE w.v.tx.head w.v.tx.tail + bs.length < PAGE_SIZE

/-- What the daemon stores, as cells. -/
def Sys.fresh (w : Sys) (bs : List UInt8) : List Cell := bs.map (⟨·, w.ses.count, false⟩)

theorem Sys.bytes_fresh (w : Sys) (bs : List UInt8) : (w.fresh bs).map Cell.byte = bs := by
  simp [Sys.fresh, Function.comp_def]

theorem Sys.length_fresh (w : Sys) (bs : List UInt8) : (w.fresh bs).length = bs.length := by
  simp [Sys.fresh]

theorem Sys.fresh_old {w : Sys} {bs : List UInt8} {c : Cell} (hc : c ∈ w.fresh bs) : c.old = false := by
  obtain ⟨b, -, rfl⟩ := List.mem_map.mp hc
  rfl

/-- The world after a copy into the TX page. -/
def Sys.copied (w : Sys) (off : Int) (bs : List UInt8) : Sys :=
  { w with
    v := { w.v with tx := { w.v.tx with data := put w.v.tx.data off (w.fresh bs) } }
    down := { w.down with
      stores := w.down.stores ++ [⟨off, bs.length, w.v.tx.head, w.v.tx.tail⟩] } }

theorem sysAnswers.copied {off : Int} {bs : List UInt8} (hr : sysAnswers w (.copyTx off bs) () w') :
    w' = w.copied off bs :=
  Sys.ext_parts hr.driver hr.up hr.down hr.ses

/-- A copy to free cells. -/
theorem Core.copied (h : Core C s w) {off : Int} {bs : List UInt8}
    (hfree : Store.Free ⟨off, bs.length, w.v.tx.head, w.v.tx.tail⟩) : Core C s (w.copied off bs) := by
  have hcontent : (w.copied off bs).v.tx.content = w.v.tx.content := by
    rw [← w.length_fresh bs] at hfree
    exact hfree.content_put
  refine ⟨⟨⟨h.sound.tx, h.sound.rx, h.sound.log⟩, h.sound.clean⟩, h.bool,
    fun hlive => (h.up hlive).of_eq rfl rfl, ⟨h.down.mark, ?_, ?_⟩, h.staged, fun hC => ?_⟩
  · rw [KRing.bytes, hcontent]
    exact h.down.whole
  · intro c hc
    rcases List.mem_append.mp hc with hc | hc
    · exact h.down.free c hc
    · rw [List.mem_singleton.mp hc]
      exact hfree
  · have ha := h.apart hC
    refine ⟨ha.rxFresh, ?_, ha.fifo, ha.born, ha.same, ha.events⟩
    rw [hcontent]
    exact ha.txFresh

/-- The first copy. -/
theorem Laid.copied {bs : List UInt8} (hfit : w.v.tx.tail + bs.length ≤ PAGE_SIZE)
    (hroom : dist PAGE_SIZE w.v.tx.head w.v.tx.tail + bs.length < PAGE_SIZE) :
    Laid (w.copied w.v.tx.tail bs) bs := by
  have hwindow : window (w.copied w.v.tx.tail bs).v.tx.data PAGE_SIZE w.v.tx.tail bs.length =
      w.fresh bs := by
    rw [← w.length_fresh bs] at hfit ⊢
    exact window_put_self hfit
  refine ⟨?_, ?_, hroom⟩
  · exact (congrArg (List.map Cell.byte) hwindow).trans (w.bytes_fresh bs)
  · intro c hc
    exact Sys.fresh_old (hwindow ▸ hc)

/-- The rest, from the beginning of the page. -/
theorem Laid.wrapped {bs cs : List UInt8} (h : Laid w bs) (hv : w.v.Sound)
    (hend : (bs.length : Int) = PAGE_SIZE - w.v.tx.tail)
    (hroom : dist PAGE_SIZE w.v.tx.head w.v.tx.tail + bs.length + cs.length < PAGE_SIZE) :
    Laid (w.copied 0 cs) (bs ++ cs) := by
  have hwindow : window (w.copied 0 cs).v.tx.data PAGE_SIZE w.v.tx.tail (bs ++ cs).length =
      window w.v.tx.data PAGE_SIZE w.v.tx.tail bs.length ++ w.fresh cs := by
    rw [List.length_append, ← w.length_fresh cs]
    exact window_put_rest hv.tx hend (by rw [w.length_fresh]; exact hroom)
  refine ⟨?_, ?_, ?_⟩
  · refine (congrArg (List.map Cell.byte) hwindow).trans ?_
    rw [List.map_append, h.bytes, w.bytes_fresh]
  · intro c hc
    rcases List.mem_append.mp (hwindow ▸ hc) with hc | hc
    · exact h.fresh c hc
    · exact Sys.fresh_old hc
  · show dist PAGE_SIZE w.v.tx.head w.v.tx.tail + (bs ++ cs).length < PAGE_SIZE
    rw [List.length_append]
    omega

/-- The payload lies behind the tail, and the tail moves over it. -/
theorem Core.accepted (h : Core C s w) {bs : List UInt8} (hl : Laid w bs) {r : Option Int}
    (hin : w.down.incoming = bs) (hr : sysAnswers w (.ioctl .sTxTail bs.length) r w') :
    w'.v.rx = w.v.rx ∧ w'.up = w.up ∧ w'.ses.staged = w.ses.staged ∧ Core C s w' := by
  obtain ⟨⟨accept, -, hv⟩, hup, hdown, hses⟩ := hr
  rw [advProcIoctl_own] at hv
  have hd := dist_nonneg h.sound.tx.head_lt h.sound.tx.tail_nonneg
  have hpage : PAGE_SIZE = 4096 := rfl
  have hroom := hl.room
  have hint : int32 (bs.length : Int) = bs.length := int32_eq (by omega) (by omega)
  replace hv : w'.v = advUartRecvChars accept { w.v with tx := moveRbTail w.v.tx bs.length } := by
    rw [← hint]
    exact hv
  -- first the tail moves, then the driver offers the tty what is there
  have hcontent : (moveRbTail w.v.tx bs.length).content =
      w.v.tx.content ++ window w.v.tx.data PAGE_SIZE w.v.tx.tail bs.length :=
    content_moveRbTail h.sound.tx (by rw [h.sound.tx.room_eq]; omega)
  have hmoved : Core C s { w with
      v := { w.v with tx := moveRbTail w.v.tx bs.length }
      down := { w.down with accepted := w.down.accepted ++ w.down.incoming, incoming := [] } } := by
    refine ⟨⟨⟨moveRbTail_inRange h.sound.tx (by omega) (by omega), h.sound.rx, h.sound.log⟩,
      h.sound.clean⟩, h.bool, fun hlive => (h.up hlive).of_eq rfl rfl, ⟨h.down.mark, ?_, h.down.free⟩,
      h.staged, fun hC => ?_⟩
    · show (w.v.insertedSince w.down.clearLog).map Cell.byte ++
        (moveRbTail w.v.tx bs.length).content.map Cell.byte = w.down.accepted ++ w.down.incoming
      rw [hcontent, List.map_append, hl.bytes, ← List.append_assoc, hin]
      exact congrArg (· ++ bs) h.down.whole
    · have ha := h.apart hC
      refine ⟨ha.rxFresh, fun hs c hc => ?_, ha.fifo, ha.born, ha.same, ha.events⟩
      rcases List.mem_append.mp (hcontent ▸ hc) with hc | hc
      · exact ha.txFresh hs c hc
      · exact hl.fresh c hc
  obtain ⟨ys, hm⟩ : ∃ ys, Drains { w.v with tx := moveRbTail w.v.tx bs.length } w'.v ys := by
    rw [hv]
    exact advUartRecvChars_drains hmoved.sound.tx hmoved.sound.clean
  refine ⟨hm.rx, hup, ?_, hmoved.nudged (hm.moves hmoved.sound) (by rw [hm.attr]) hup hdown hses⟩
  rw [hses]
  exact Sessions.noted_staged

end

end AdvVcom
