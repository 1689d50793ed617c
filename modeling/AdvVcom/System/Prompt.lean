/-
# `AdvVcom.System.Prompt` — a device that answers

What `Runs` proves of driver and daemon holds whatever the device does, and a device that
does nothing keeps the bytes in the ring for ever.  Here is one that does its part: it
takes every packet and acknowledges every WRITE, and the network brings the
acknowledgement before `select` has waited for long.  The proc file is ready as
`adv_proc_poll` says.  The tty's side still does what it likes while the daemon is
paused, but the tty stays open and is not stopped.

It is the environment of `World` with less freedom, so all that holds there holds here
(`prompt_answers`, `prompt_drift`).
-/
import AdvVcom.System.Runs
import AdvVcom.Lib.Progress

namespace AdvVcom

open Lib Lib.Ring

/-! ## The device -/

/-- SUCCESS for a WRITE of `len` bytes. -/
def ackPacket (tid : UInt32) (len : Nat) : Mem :=
  setParam (vcInitHdr (fun _ => 0) tid VCOM_CMD_WRITE (vcExtSize .param)) STATUS_SUCCESS
    (UInt32.ofInt len)

def ackFrame (tid : UInt32) (len : Nat) : List UInt8 := (ackPacket tid len).slice 0 HDR_LEN

/-- What the device sends in return. -/
def answerTo : Pkt → List UInt8
  | .xmit tid data => ackFrame tid data.length
  | _ => []

/-! ## The environment -/

structure Served where
  sys : Sys
  /-- What the device has sent and the daemon has not read yet. -/
  wire : List UInt8

/-- What `select` finds ready. -/
def Served.ready (w : Served) (fds : FdSets) : FdSets where
  fdR := fds.fdR && (advProcPoll w.sys.v).pollin
  fdW := fds.fdW && (advProcPoll w.sys.v).pollout
  fdE := fds.fdE && (advProcPoll w.sys.v).pollpri
  skR := fds.skR && !w.wire.isEmpty
  skW := fds.skW

/-- What `select` returns, after a wait of at most its timeout. -/
structure Served.Selects (w : Served) (asked : FdSets) (r : SelRet) : Prop where
  fds : r.fds = w.ready asked
  ret : r.ret = 0 ↔ w.ready asked = ⟨false, false, false, false, false⟩
  used : r.used ≤ VC_PULL_TIME

/-- The network's part of an answer. -/
def netAnswers (w : Served) : (e : Req) → e.Rep → List UInt8 → Prop
  | .fdcheck, ready, wire => (show Bool from ready) = true ∧ wire = w.wire
  | .send ps, ok, wire => (show Bool from ok) = true ∧ wire = w.wire ++ ps.flatMap answerTo
  | .recv _ len, r, wire =>
      (w.wire ≠ [] → r = .data (w.wire.take len)) ∧ wire = w.wire.drop len
  | .select fds _, r, wire => w.Selects fds r ∧ wire = w.wire
  | _, _, wire => wire = w.wire

/-- The tty stays open and is not stopped. -/
def Call.Carries {β : Type} : Call β → Prop
  | .startup | .shutdown | .stopTx => False
  | _ => True

abbrev prompt : Env VcSig VcAttr where
  World := Served
  answers := fun w e r w' => sysAnswers w.sys e r w'.sys ∧ netAnswers w e r w'.wire
  drift := fun _ w w' => ∃ c : Call Cell, c.OfTty ∧ c.Carries ∧ w' = { w with sys := w.sys.tty c }

section
variable {C : VcAttr → Sys → Prop} {s : VcAttr} {w w' : Served}

theorem prompt_answers {e : Req} {r : e.Rep} (h : prompt.answers w e r w') :
    (systemWith C).answers w.sys e r w'.sys := h.1

theorem prompt_drift (h : prompt.drift s w w') : (systemWith C).drift s w.sys w'.sys := by
  obtain ⟨c, hc, hcar, rfl⟩ := h
  refine ⟨c, hc, ?_, rfl⟩
  rintro rfl
  exact absurd hcar id

/-- What is known of driver and daemon is known here. -/
theorem wp_prompt {α : Type} {m : M α} {Q : α → VcAttr → Sys → Prop}
    (h : m.wp (systemWith C) (Core C) Q s w.sys) :
    m.wp prompt (fun s w => Core C s w.sys) (fun a s w => Q a s w.sys) s w :=
  Act.wp_embed (systemWith C) prompt Served.sys prompt_answers prompt_drift h

/-! ## What is on its way -/

/-- The tty is open and not stopped; `mark` is a beginning of what has been written since
OPEN, `acked` has been acknowledged, and `wire` has not been read yet. -/
structure Carried (mark acked wire : List UInt8) (w : Served) : Prop where
  sound : w.sys.v.Sound
  isOpen : w.sys.v.attr.attr.isOpen = 1
  enabled : w.sys.v.rx.enabled = true
  logged : w.sys.up.openLog ≤ w.sys.v.log.length
  mark : mark <+: w.sys.up.atOpen ++ (w.sys.v.appendedSince w.sys.up.openLog).map Cell.byte
  acked : w.sys.up.acked = acked
  wire : w.wire = wire

variable {mark acked wire : List UInt8}

theorem Call.run_enabled {v : Vcom Cell} (hv : v.Sound) {c : Call Cell} (hc : c.OfTty)
    (hcar : c.Carries) (hon : v.rx.enabled = true) : (c.run v).rx.enabled = true := by
  cases c with
  | ioctl | pokeTx | pokeRx => exact absurd hc id
  | startup | shutdown | stopTx => exact absurd hcar id
  | xmit =>
      obtain ⟨xs, h⟩ := advUartXmit_appends hv.rx
      exact h.enabled.trans hon
  | startTx =>
      have hv' : { v with rx := { v.rx with enabled := true } }.Sound :=
        ⟨⟨hv.tx, hv.rx, hv.log⟩, hv.clean⟩
      obtain ⟨xs, h⟩ := advUartXmit_appends hv'.rx
      exact h.enabled
  | updateXmit =>
      obtain ⟨xs, h⟩ := advUartUpdateXmit_appends hv
      exact h.enabled.trans hon
  | recvChars accept =>
      obtain ⟨xs, h⟩ : ∃ xs, Drains v (advUartRecvChars accept v) xs :=
        advUartRecvChars_drains hv.tx hv.clean
      exact (congrArg KRing.enabled h.rx).trans hon
  | recvLocked accept =>
      obtain ⟨xs, h⟩ : ∃ xs, Drains v (recvCharsLocked accept v) xs :=
        recvCharsLocked_drains hv.tx hv.clean
      exact (congrArg KRing.enabled h.rx).trans hon
  | unthrottle accept =>
      obtain ⟨xs, h⟩ : ∃ xs, Drains { v with attr := { v.attr with throttled := false } }
          (advUartUnthrottle accept v) xs := advUartRecvChars_drains hv.tx hv.clean
      exact (congrArg KRing.enabled h.rx).trans hon
  | ttyFifo | stopRx | throttle | setMctrl | setTermios => exact hon

theorem Call.run_isOpen {v : Vcom Cell} (hv : v.Sound) {c : Call Cell} (hc : c.OfTty)
    (hcar : c.Carries) : (c.run v).attr.attr.isOpen = v.attr.attr.isOpen := by
  by_cases hfifo : ∃ f, c = .ttyFifo f
  · obtain ⟨f, rfl⟩ := hfifo
    rfl
  · obtain ⟨-, -, -, hopen⟩ := Call.run_moves hv hc fun f hf => hfifo ⟨f, hf⟩
    rw [hopen]
    cases c with
    | startup | shutdown => exact absurd hcar id
    | _ => rfl

/-- A step that is not the daemon's. -/
theorem Carried.nudge (h : Carried mark acked wire w) (hn : Nudge w.sys w'.sys)
    (hopen : w'.sys.v.attr.attr.isOpen = 1) (hon : w'.sys.v.rx.enabled = true)
    (hwire : w'.wire = w.wire) : Carried mark acked wire w' := by
  obtain ⟨xs, ys, hf⟩ := hn.flows
  refine ⟨hf.sound, hopen, hon, ?_, ?_, ?_, hwire.trans h.wire⟩
  · rw [hn.up]
    exact h.logged.trans hf.log_le
  · rw [hn.up, hf.appendedSince h.logged, ← List.append_assoc]
    exact h.mark.trans (List.prefix_append _ _)
  · rw [hn.up]
    exact h.acked

theorem Carried.drift (h : Carried mark acked wire w) (hd : prompt.drift s w w') :
    Carried mark acked wire w' := by
  have hn := nudge_of_drift h.sound (prompt_drift (C := fun _ _ => True) hd)
  obtain ⟨c, hc, hcar, rfl⟩ := hd
  have hopen := (Call.run_isOpen h.sound hc hcar).trans h.isOpen
  have hon := Call.run_enabled h.sound hc hcar h.enabled
  cases c with
  | startup | shutdown => exact absurd hcar id
  | _ => exact h.nudge hn hopen hon rfl

/-- The driver serves both rings. -/
theorem advMainInterrupt_enabled {v : Vcom Cell} (hv : v.Sound) (accept : List Nat) (mask : Int) :
    (advMainInterrupt accept mask v).rx.enabled = v.rx.enabled := by
  have hrx : ∃ xs, Appends v (if hasFlag mask ADV_INT_RX then advUartUpdateXmit v else v) xs := by
    split
    · exact advUartUpdateXmit_appends hv
    · exact ⟨[], Appends.refl hv.rx⟩
  obtain ⟨xs, happ⟩ := hrx
  unfold advMainInterrupt
  simp only
  split
  · obtain ⟨ys, hdrain⟩ : ∃ ys, Drains _ (advUartRecvChars accept
        (if hasFlag mask ADV_INT_RX then advUartUpdateXmit v else v)) ys :=
      advUartRecvChars_drains (happ.sound hv).tx (happ.sound hv).clean
    exact (congrArg KRing.enabled hdrain.rx).trans happ.enabled
  · exact happ.enabled

/-- The nudge at the end of the first half of a round. -/
theorem Carried.inter (h : Carried mark acked wire w) {n : Int} {r : Option Int}
    (hr : prompt.answers w (.ioctl .sInter n) r w') : r = some 0 ∧ Carried mark acked wire w' := by
  obtain ⟨⟨⟨accept, hret, hv⟩, hup, hdown, hses⟩, hwire⟩ := hr
  have hn : Nudge w.sys w'.sys := nudge_of_quiet (e := .ioctl .sInter n) h.sound (Or.inl rfl)
    ⟨⟨accept, hret, hv⟩, hup, hdown, hses⟩
  rw [advProcIoctl_own] at hret hv
  replace hv : w'.sys.v = advMainInterrupt accept (int32 n) w.sys.v := hv
  refine ⟨hret, h.nudge hn ?_ ?_ hwire⟩
  · obtain ⟨-, -, -, hattr⟩ := advMainInterrupt_moves h.sound accept (int32 n)
    rw [hv, hattr]
    exact h.isOpen
  · rw [hv, advMainInterrupt_enabled h.sound]
    exact h.enabled

/-- A request that neither the driver nor the records notice. -/
theorem Carried.still (h : Carried mark acked wire w) (hsys : w'.sys = w.sys) {wire' : List UInt8}
    (hwire : w'.wire = wire') : Carried mark acked wire' w' :=
  ⟨hsys ▸ h.sound, hsys ▸ h.isOpen, hsys ▸ h.enabled, hsys ▸ h.logged, hsys ▸ h.mark,
    hsys ▸ h.acked, hwire⟩

/-- A request that only the records of the connection notice. -/
theorem Carried.recorded (h : Carried mark acked wire w) (hv : w'.sys.v = w.sys.v)
    (hlog : w'.sys.up.openLog = w.sys.up.openLog) (hat : w'.sys.up.atOpen = w.sys.up.atOpen)
    {acked' wire' : List UInt8} (hacked : w'.sys.up.acked = acked') (hwire : w'.wire = wire') :
    Carried mark acked' wire' w' := by
  refine ⟨hv ▸ h.sound, hv ▸ h.isOpen, hv ▸ h.enabled, ?_, ?_, hacked, hwire⟩
  · rw [hlog, hv]
    exact h.logged
  · rw [hlog, hat, hv]
    exact h.mark

/-- One request: whatever others do first, the answer finds `mark` on its way. -/
theorem wp_carried {I : VcAttr → Served → Prop} (hI : ∀ s w, I s w) {e : Req}
    {R : e.Rep → VcAttr → Served → Prop} (h : Carried mark acked wire w)
    (hR : ∀ r w w', Carried mark acked wire w → prompt.answers w e r w' → R r s w') :
    (Act.request (S := VcSig) e : M e.Rep).wp prompt I R s w :=
  Act.wp_request_of (𝓔 := prompt) (Carried mark acked wire) h (fun _ _ h hd => h.drift (s := s) hd)
    (fun w _ => hI s w) fun w r w' h hr => hR r w w' h hr

/-! ## Snapshots -/

/-- Between any two handlers. -/
def Underway (C : VcAttr → Sys → Prop) (mark acked wire : List UInt8) (s : VcAttr) (w : Served) :
    Prop := Poised C s w.sys ∧ Carried mark acked wire w

/-- The snapshot of RX shows all that is missing of `mark`. -/
def Current (mark acked : List UInt8) (s : VcAttr) : Prop :=
  (mark.length : Int) ≤ acked.length + getRbLength s.rx

/-- What has not been acknowledged is in the ring. -/
theorem Underway.inRing (h : Underway C mark acked wire s w) (hopen : s.eki.isOpen = 1) :
    mark <+: acked ++ w.sys.v.rx.bytes := by
  have hwhole := (h.1.1.up (h.1.2.linked hopen)).whole
  rw [h.2.acked] at hwhole
  rw [hwhole]
  exact h.2.mark

/-- The refresh of the RX snapshot: both indices are the driver's. -/
theorem carried_updRx (h : Carried mark acked wire w) :
    vcBufUpdateRx.wp prompt (fun _ _ => True) (fun _ s' w' => Carried mark acked wire w' ∧
      s'.rx.head = w'.sys.v.rx.head ∧ s'.rx.tail = w'.sys.v.rx.tail) s w := by
  simp only [vcBufUpdateRx, Act.wp_bind]
  refine wp_carried (fun _ _ => trivial) h fun (r : Option Int) w₁ w₂ h₁ hr => ?_
  obtain ⟨rfl, hsys⟩ := hr.1.reads rfl
  have h₂ := h₁.still hsys (hr.2.trans h₁.wire)
  have hhead : w₁.sys.v.rx.head = w₂.sys.v.rx.head := by rw [hsys]
  simp only [Act.wp_bind]
  refine Act.wp_request_of (𝓔 := prompt)
    (fun w => Carried mark acked wire w ∧ w₁.sys.v.rx.head = w.sys.v.rx.head) ⟨h₂, hhead⟩ ?_
    (fun _ _ => trivial) fun w₃ (r : Option Int) w₄ h₃ hr => ?_
  · rintro w w' ⟨h, hsame⟩ hd
    have hd' : prompt.drift s w w' := hd
    obtain ⟨xs, ys, hf⟩ := (nudge_of_drift h.sound (prompt_drift (C := fun _ _ => True) hd')).flows
    exact ⟨h.drift hd', hsame.trans hf.rxHead.symm⟩
  · obtain ⟨rfl, hsys₄⟩ := hr.1.reads rfl
    refine ⟨h₃.1.still hsys₄ (hr.2.trans h₃.1.wire), ?_, ?_⟩
    · rw [hsys₄]
      exact h₃.2
    · rw [hsys₄]

theorem carried_updTx (h : Carried mark acked wire w) : vcBufUpdateTx.wp prompt (fun _ _ => True)
    (fun _ _ w' => Carried mark acked wire w') s w := by
  simp only [vcBufUpdateTx, Act.wp_bind]
  refine wp_carried (fun _ _ => trivial) h fun (r : Option Int) w₁ w₂ h₁ hr => ?_
  obtain ⟨rfl, hsys⟩ := hr.1.reads rfl
  simp only [Act.wp_bind]
  refine wp_carried (fun _ _ => trivial) (h₁.still hsys (hr.2.trans h₁.wire))
    fun (r : Option Int) w₃ w₄ h₃ hr₃ => ?_
  obtain ⟨rfl, hsys₃⟩ := hr₃.1.reads rfl
  exact h₃.still hsys₃ (hr₃.2.trans h₃.wire)

theorem carried_updAttr (h : Carried mark acked wire w) :
    vcBufUpdateAttr.wp prompt (fun _ _ => True)
      (fun _ s' w' => s'.view.isOpen = 1 ∧ Carried mark acked wire w') s w := by
  simp only [vcBufUpdateAttr, Act.wp_bind]
  refine wp_carried (fun _ _ => trivial) h fun (r : Option PortInfo) w₁ w₂ h₁ hr => ?_
  obtain ⟨rfl, hsys⟩ := hr.1.attrPtr
  refine ⟨h₁.isOpen, ?_, ?_, ?_, ?_, ?_, ?_, hr.2.trans h₁.wire⟩
  · rw [hsys]
    exact h₁.sound.withAttr _
  · rw [hsys]
    exact (congrArg PortInfo.isOpen (flushAttrInfo_attr w₁.sys.v.attr).1).trans h₁.isOpen
  · rw [hsys]
    exact h₁.enabled
  · rw [hsys]
    exact h₁.logged
  · rw [hsys]
    exact h₁.mark
  · rw [hsys]
    exact h₁.acked

variable {st : St}

/-- Whatever the snapshot was, it is current now. -/
theorem mapped_updRx (hopen : s.eki.isOpen = 1) (hc : Core C s w.sys) (hm : Mapped s w.sys)
    (hstaged : w.sys.ses.staged = []) (hlive : w.sys.up.live = true) (hworked : w.sys.up.acking = [])
    (h : Carried mark acked wire w) :
    vcBufUpdateRx.wp prompt (fun s w => Core C s w.sys) (fun _ s' w' =>
      (∃ rx, s' = { s with rx := rx }) ∧ Underway C mark acked wire s' w' ∧ Current mark acked s') s w := by
  have hrest : Lasting fun _ w => w.ses.staged = [] ∧ w.up.live = true ∧ w.up.acking = [] :=
    lasting_unstaged.and (lasting_up (P := fun u => u.live = true ∧ u.acking = []))
  refine Act.wp_mono (Act.wp_and
    (wp_prompt (wp_updRx hrest (fun _ h => h) hc hm ⟨hstaged, hlive, hworked⟩)) (carried_updRx h)) ?_
  rintro _ _ w' ⟨⟨⟨rx, rfl⟩, hc', hs', hstaged', hlive', hworked'⟩, h', hhead, htail⟩
  have hu : Underway C mark acked wire { s with rx := rx } w' :=
    ⟨⟨hc', ⟨hs', hstaged', fun _ => hlive'⟩, fun _ => hworked'⟩, h'⟩
  refine ⟨⟨rx, rfl⟩, hu, ?_⟩
  have hin := (hu.inRing hopen).length_le
  have hring := KRing.length_bytes h'.sound.rx
  rw [List.length_append] at hin
  unfold Current
  rw [hs'.snap.inRange.length_eq, hhead, htail]
  omega

theorem underway_updRx (hopen : s.eki.isOpen = 1) (h : Underway C mark acked wire s w) :
    vcBufUpdateRx.wp prompt (fun s w => Core C s w.sys) (fun _ s' w' =>
      (∃ rx, s' = { s with rx := rx }) ∧ Underway C mark acked wire s' w' ∧ Current mark acked s') s w :=
  mapped_updRx hopen h.1.1 h.1.2.toMapped h.1.2.unstaged (h.1.2.linked hopen)
    (h.1.2.worked (h.1.2.linked hopen)) h.2

theorem underway_updTx (h : Underway C mark acked wire s w) :
    vcBufUpdateTx.wp prompt (fun s w => Core C s w.sys) (fun _ s' w' =>
      (∃ tx, s' = { s with tx := tx }) ∧ Underway C mark acked wire s' w') s w := by
  refine Act.wp_mono (Act.wp_and (wp_prompt (poised_updTx h.1)) (carried_updTx h.2)) ?_
  rintro _ _ w' ⟨⟨htx, hp, -⟩, hc⟩
  exact ⟨htx, hp, hc⟩

theorem underway_updAttr (h : Underway C mark acked wire s w) :
    vcBufUpdateAttr.wp prompt (fun s w => Core C s w.sys) (fun _ s' w' =>
      (∃ v, s' = { s with view := v }) ∧ s'.view.isOpen = 1 ∧ Underway C mark acked wire s' w') s w := by
  refine Act.wp_mono (Act.wp_and (wp_prompt (poised_updAttr h.1)) (carried_updAttr h.2)) ?_
  rintro _ _ w' ⟨⟨hv, -, hp⟩, hopen, hc⟩
  exact ⟨hv, hopen, hp, hc⟩

theorem underway_upInit (hopen : s.eki.isOpen = 1) (h : Underway C mark acked wire s w) :
    upInit.wp prompt (fun s w => Core C s w.sys) (fun _ s' w' =>
      (∃ rx tx, s' = { s with rx := rx, tx := tx }) ∧ Underway C mark acked wire s' w' ∧
        Current mark acked s') s w := by
  simp only [upInit, Act.wp_bind]
  refine Act.wp_mono (underway_updRx hopen h) ?_
  rintro _ _ w₁ ⟨⟨rx, rfl⟩, h₁, hcur⟩
  refine Act.wp_mono (underway_updTx h₁) ?_
  rintro _ _ w₂ ⟨⟨tx, rfl⟩, h₂⟩
  exact ⟨⟨rx, tx, rfl⟩, h₂, hcur⟩

/-! ## Sends -/

/-- Every send goes through. -/
theorem carried_send {ps : List Pkt} {R : Bool → VcAttr → Served → Prop} (htls : s.ssl = none)
    (h : Carried mark acked wire w)
    (hR : ∀ w w', Carried mark acked wire w → sysAnswers w.sys (.send ps) true w'.sys →
      w'.wire = wire ++ ps.flatMap answerTo → R true s w') :
    (vcCheckSend ps).wp prompt (fun _ _ => True) R s w := by
  simp only [vcCheckSend, Act.wp_bind, wp_getAttr, htls, Option.isSome_none, Bool.false_eq_true,
    if_false]
  refine wp_carried (fun _ _ => trivial) h fun (ready : Bool) w₁ w₂ h₁ hr => ?_
  obtain ⟨hsys, rfl, hwire⟩ := hr
  rw [if_pos rfl]
  refine wp_carried (fun _ _ => trivial) (h₁.still (hsys.still trivial) (hwire.trans h₁.wire))
    fun (ok : Bool) w₃ w₄ h₃ hr₃ => ?_
  obtain ⟨hsys₃, rfl, hwire₃⟩ := hr₃
  exact hR w₃ w₄ h₃ hsys₃ (by rw [hwire₃, h₃.wire])

theorem answerTo_mute {ps : List Pkt} (h : ∀ p ∈ ps, p.Mute) : ps.flatMap answerTo = [] := by
  rw [List.flatMap_eq_nil_iff]
  intro p hp
  have hmute := h p hp
  cases p with
  | xmit => exact absurd hmute id
  | _ => rfl

theorem Underway.drift (h : Underway C mark acked wire s w) (hd : prompt.drift s w w') :
    Underway C mark acked wire s w' :=
  ⟨poised_stable.drift h.1 (prompt_drift hd), h.2.drift hd⟩

theorem Underway.inter (h : Underway C mark acked wire s w) {n : Int} {r : Option Int}
    (hr : prompt.answers w (.ioctl .sInter n) r w') :
    r = some 0 ∧ Underway C mark acked wire s w' := by
  obtain ⟨rfl, h'⟩ := h.2.inter hr
  exact ⟨rfl, poised_stable.quiet (e := .ioctl .sInter n) (Or.inl rfl) h.1 hr.1, h'⟩

/-- One request between two handlers. -/
theorem wp_underway {e : Req} {R : e.Rep → VcAttr → Served → Prop}
    (h : Underway C mark acked wire s w)
    (hR : ∀ r w w', Underway C mark acked wire s w → prompt.answers w e r w' → R r s w') :
    (Act.request (S := VcSig) e : M e.Rep).wp prompt (fun s w => Core C s w.sys) R s w :=
  Act.wp_request_of (𝓔 := prompt) (Underway C mark acked wire s) h
    (fun _ _ h hd => h.drift hd) (fun _ h => h.1.1) fun w r w' h hr => hR r w w' h hr

theorem Underway.still (h : Underway C mark acked wire s w) (hsys : w'.sys = w.sys)
    {wire' : List UInt8} (hwire : w'.wire = wire') : Underway C mark acked wire' s w' :=
  ⟨hsys ▸ h.1, h.2.still hsys hwire⟩

/-- Packets that are not answered. -/
theorem underway_send {ps : List Pkt} {R : Bool → VcAttr → Served → Prop}
    (hps : ∀ p ∈ ps, p.Mute) (htls : s.ssl = none) (h : Underway C mark acked wire s w)
    (hR : ∀ w', Underway C mark acked wire s w' → R true s w') :
    (vcCheckSend ps).wp prompt (fun s w => Core C s w.sys) R s w := by
  simp only [vcCheckSend, Act.wp_bind, wp_getAttr, htls, Option.isSome_none, Bool.false_eq_true,
    if_false]
  refine wp_underway h fun (ready : Bool) w₁ w₂ h₁ hr => ?_
  obtain ⟨hsys, rfl, hwire⟩ := hr
  rw [if_pos rfl]
  refine wp_underway (h₁.still (hsys.still trivial) (hwire.trans h₁.2.wire))
    fun (ok : Bool) w₃ w₄ h₃ hr₃ => ?_
  obtain ⟨hsys₃, rfl, hwire₃⟩ := hr₃
  have hmute : w₄.sys = w₃.sys := Sends.mute (C := C) (Or.inl hsys₃) hps
  refine hR w₄ (h₃.still hmute ?_)
  rw [hwire₃, answerTo_mute hps, List.append_nil, h₃.2.wire]

end

end AdvVcom
