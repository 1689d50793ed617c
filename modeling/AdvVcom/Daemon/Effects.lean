/-
# `AdvVcom.Daemon.Effects` — what each step can ask for and change

One lemma for each step that `Keeps` has a field for: whatever the replies, the step
makes only requests of its class, does not die, and changes only the variables named.

    step               requests                            changes
    `syncAll`          sends of settings                   ssl, tid, eki
    `ioctlSend`        sends of settings                   ssl, tid, eki
    `xmitSend`         reads of the RX page, WRITE         ssl, tid, xmitPending
    `vcBufUpdate…`     ioctls                              one snapshot
    `vcBufClear`       ioctls                              both snapshots
    `closing`          ioctls, PURGE, CLOSE                (stack, socket, view kept)
    `vcRecvFrame`      reads of the socket, ioctls         ssl, tx
    `recvData`         copies to the TX page, an ioctl     nothing
    `recvWrite`        ioctls                              xmitPending, rx
-/
import AdvVcom.Daemon.Keeps

namespace AdvVcom

open Lib

/-! ## Classes of requests -/

/-- The proc file, except for the slot of the attributes and the request for interrupts,
which is main's own. -/
def Req.OnProc : Req → Prop
  | .ioctl .sInter _ => False
  | .ioctl _ _ | .copyTx _ _ | .readRx _ _ => True
  | _ => False

/-- Reads of the socket. -/
def Req.OnWire : Req → Prop
  | .recv _ _ | .sslRecv _ _ | .sslRecvSimple _ _ => True
  | _ => False

/-- A packet that sets or asks for settings. -/
def Pkt.Tame : Pkt → Prop
  | .qfsize _ _ | .sbaud _ _ | .setlctl _ _ _ _ | .hflow _ _ _ | .setwmask _ _ | .param _ _ => True
  | _ => False

/-- A packet of `vc_common_ioctl`. -/
def Pkt.Setting : Pkt → Prop
  | .sbaud _ _ | .setlctl _ _ _ _ | .hflow _ _ _ => True
  | .param _ subcmd => subcmd = VCOM_IOCTL_SET_RTS ∨ subcmd = VCOM_IOCTL_CLR_RTS ∨
      subcmd = VCOM_IOCTL_SET_DTR ∨ subcmd = VCOM_IOCTL_CLR_DTR
  | _ => False

theorem Pkt.Setting.tame {p : Pkt} (h : p.Setting) : p.Tame := by
  cases p with
  | sbaud | setlctl | hflow | param => trivial
  | _ => exact h.elim

def Pkt.IsXmit : Pkt → Prop
  | .xmit _ _ => True
  | _ => False

def Pkt.IsBye : Pkt → Prop
  | .purge _ _ | .close _ => True
  | _ => False

/-- Only what Sync and the settings may touch is different. -/
def Steady (s s' : VcAttr) : Prop :=
  s' = { s with ssl := s'.ssl, tid := s'.tid, eki := s'.eki } ∧ s'.eki.isOpen = s.eki.isOpen

theorem Steady.refl (s : VcAttr) : Steady s s := ⟨rfl, rfl⟩

theorem Steady.stk {s s' : VcAttr} (h : Steady s s') : s'.stk = s.stk := by
  rw [h.1]

theorem Steady.view {s s' : VcAttr} (h : Steady s s') : s'.view = s.view := by
  rw [h.1]

theorem Steady.up {s s' : VcAttr} {st : St} {top : List St} (h : Steady s s') (hup : Up st top s) :
    Up st top s' := by
  refine hup.of_eq h.stk (by rw [h.1]) h.2 ?_
  simp only [Legal, h.view]
  exact hup.2.2.2.2

/-- What Sync and the settings may touch may be touched again. -/
theorem Steady.touch {s s' : VcAttr} (h : Steady s s') (x : Option SslInfo) (t : UInt32)
    (k : PortInfo) (hk : k.isOpen = s'.eki.isOpen) :
    Steady s { s' with ssl := x, tid := t, eki := k } := by
  obtain ⟨heq, hopen⟩ := h
  refine ⟨?_, hk.trans hopen⟩
  rw [heq]

theorem Steady.trans {s s' s'' : VcAttr} (h : Steady s s') (h' : Steady s' s'') : Steady s s'' := by
  refine ⟨?_, h'.2.trans h.2⟩
  rw [h'.1, h.1]

section
variable {s s' : VcAttr}

/-! ## Settings -/

/-- Sends of settings, with nothing else changed so far. -/
def Tuning (s : VcAttr) (s' : VcAttr) (e : Req) : Prop := Steady s s' ∧ e.Talk Pkt.Tame

theorem sendNext_steady {p : UInt32 → Pkt} (hlen : ∀ tid, 0 < (p tid).plen 1024)
    (hp : ∀ tid, (p tid).Tame) (hne : s.stk ≠ []) (h : Steady s s') :
    (sendNext p).Always (Tuning s) (fun _ => Steady s) s' := by
  refine always_sendNext (K := Pkt.Tame) hlen hp (by rw [h.stk]; exact hne) ?_ ?_
  · intro x e _ he
    exact ⟨h.touch x s'.tid s'.eki rfl, he⟩
  · intro ok x t
    exact h.touch x t s'.eki rfl

/-- Two sends in a row. -/
theorem steady_and {m m' : M Bool} (hm : m.Always (Tuning s) (fun _ => Steady s) s')
    (hm' : ∀ s', Steady s s' → m'.Always (Tuning s) (fun _ => Steady s) s') :
    (do if ← m then m' else pure false : M Bool).Always (Tuning s) (fun _ => Steady s) s' := by
  rw [Act.always_bind]
  refine hm.mono (fun _ _ h => h) fun ok s₁ h₁ => ?_
  cases ok with
  | true => exact hm' s₁ h₁
  | false => exact h₁

theorem syncEvent_steady (hne : s.stk ≠ []) (h : Steady s s') :
    syncEvent.Always (Tuning s) (fun _ => Steady s) s' :=
  steady_and (sendNext_steady (by simp) (fun _ => trivial) hne h)
    fun _ h => sendNext_steady (by simp) (fun _ => trivial) hne h

theorem syncAll_steady (hne : s.stk ≠ []) :
    syncAll.Always (Tuning s) (fun _ => Steady s) s := by
  have hms : (syncMs s.view.ms).Always (Tuning s) (fun _ => Steady s) s :=
    steady_and (sendNext_steady (by simp [rtsPkt]) (fun _ => trivial) hne (Steady.refl s))
      fun _ h => sendNext_steady (by simp [dtrPkt]) (fun _ => trivial) hne h
  have hqueue (s') (h : Steady s s') : syncQueue.Always (Tuning s) (fun _ => Steady s) s' := by
    simp only [syncQueue, Act.always_bind, always_getAttr]
    exact sendNext_steady (by simp) (fun _ => trivial) hne h
  simp only [syncAll, Act.always_bind, always_getAttr]
  refine hms.mono (fun _ _ h => h) fun ok s₁ h₁ => ?_
  cases ok with
  | false => exact h₁
  | true =>
      rw [if_pos rfl, Act.always_bind, always_modifyAttr]
      exact steady_and (syncEvent_steady hne (h₁.touch s₁.ssl s₁.tid _ rfl)) hqueue

theorem rtsPkt_setting (tid ms : UInt32) : (rtsPkt tid ms).Setting := by
  unfold rtsPkt
  split
  · exact Or.inl rfl
  · exact Or.inr (Or.inl rfl)

theorem dtrPkt_setting (tid ms : UInt32) : (dtrPkt tid ms).Setting := by
  unfold dtrPkt
  split
  · exact Or.inr (Or.inr (Or.inl rfl))
  · exact Or.inr (Or.inr (Or.inr rfl))

theorem setMsPkts_setting {ekiMs uartMs tid : UInt32} :
    ∀ p ∈ setMsPkts ekiMs uartMs tid, p.Setting := by
  intro p hp
  unfold setMsPkts at hp
  split at hp
  · split at hp
    · simp at hp
    · rw [List.mem_singleton.mp hp]
      exact dtrPkt_setting _ _
  · split at hp
    · rw [List.mem_singleton.mp hp]
      exact rtsPkt_setting _ _
    · rcases List.mem_cons.mp hp with rfl | hp
      · exact rtsPkt_setting _ _
      · rw [List.mem_singleton.mp hp]
        exact dtrPkt_setting _ _

theorem hflowPkt_setting (tid : UInt32) (flowctl : Int) : (hflowPkt tid flowctl).Setting := by
  unfold hflowPkt
  split
  · trivial
  split
  · trivial
  · trivial

/-- One round of settings: nothing but `tid` and `eki` has changed. -/
theorem ioctlRound_setting (s : VcAttr) : (∀ p ∈ (ioctlRound s).1, p.Setting) ∧
    ∃ t k, (ioctlRound s).2 = { s with tid := t, eki := k } ∧ k.isOpen = s.eki.isOpen := by
  unfold ioctlRound
  split
  · exact ⟨by simp [Pkt.Setting], _, _, rfl, rfl⟩
  split
  · exact ⟨by simp [Pkt.Setting], _, _, rfl, rfl⟩
  split
  · exact ⟨by simpa using hflowPkt_setting _ _, _, _, rfl, rfl⟩
  split
  · exact ⟨setMsPkts_setting, _, _, rfl, rfl⟩
  · exact ⟨by simp, _, _, rfl, rfl⟩

theorem ioctlRound_steady (s : VcAttr) :
    (∀ p ∈ (ioctlRound s).1, p.Tame) ∧ Steady s (ioctlRound s).2 := by
  obtain ⟨hset, t, k, hround, hopen⟩ := ioctlRound_setting s
  refine ⟨fun p hp => (hset p hp).tame, ?_⟩
  rw [hround]
  exact ⟨rfl, hopen⟩

theorem ioctlSend_steady (hne : s.stk ≠ []) :
    ioctlSend.Always (Tuning s) (fun _ => Steady s) s := by
  obtain ⟨htame, hsteady⟩ := ioctlRound_steady s
  simp only [ioctlSend, Act.always_bind, always_getAttr, always_modifyAttr, Act.always_ite,
    Act.always_pure]
  generalize ioctlRound s = r at htame hsteady
  split
  · exact hsteady
  · refine always_vcCheckSend htame (by rw [hsteady.stk]; exact hne)
      (fun x e _ he => ⟨hsteady.touch x r.2.tid r.2.eki rfl, he⟩) fun ok x _ => ?_
    cases ok with
    | true => exact hsteady.touch x (r.2.tid + 1) r.2.eki rfl
    | false => exact hsteady.touch x r.2.tid r.2.eki rfl

/-! ## The proc file -/

/-- Only what the data path touches is different. -/
def Aside (s s' : VcAttr) : Prop := ∃ x t n rx tx, x.isSome = s.ssl.isSome ∧
  s' = { s with ssl := x, tid := t, xmitPending := n, rx := rx, tx := tx }

theorem Aside.refl (s : VcAttr) : Aside s s := ⟨s.ssl, s.tid, s.xmitPending, s.rx, s.tx, rfl, rfl⟩

theorem Aside.trans {s s' s'' : VcAttr} (h : Aside s s') (h' : Aside s' s'') : Aside s s'' := by
  obtain ⟨x, t, n, rx, tx, hx, rfl⟩ := h
  obtain ⟨x', t', n', rx', tx', hx', rfl⟩ := h'
  exact ⟨x', t', n', rx', tx', hx'.trans hx, rfl⟩

theorem Aside.view {s s' : VcAttr} (h : Aside s s') : s'.view = s.view := by
  obtain ⟨x, t, n, rx, tx, -, rfl⟩ := h
  rfl

theorem Aside.rx {s : VcAttr} (rx : RingBuf) : Aside s { s with rx := rx } :=
  ⟨s.ssl, s.tid, s.xmitPending, rx, s.tx, rfl, rfl⟩

theorem Aside.tx {s : VcAttr} (tx : RingBuf) : Aside s { s with tx := tx } :=
  ⟨s.ssl, s.tid, s.xmitPending, s.rx, tx, rfl, rfl⟩

theorem Aside.idle {s : VcAttr} (n : Int) : Aside s { s with xmitPending := n } :=
  ⟨s.ssl, s.tid, n, s.rx, s.tx, rfl, rfl⟩

/-- Only the proc file is used, and nothing but the data path's variables is touched. -/
def ProcOnly (s s' : VcAttr) (e : Req) : Prop := e.OnProc ∧ Aside s s'

/-- What is done from a state aside is done aside. -/
theorem ProcOnly.from {s s' s'' : VcAttr} {e : Req} (h : ProcOnly s' s'' e) (hs : Aside s s') :
    ProcOnly s s'' e := ⟨h.1, hs.trans h.2⟩

theorem vcBufUpdateRx_always :
    vcBufUpdateRx.Always (ProcOnly s) (fun _ s' => ∃ rx, s' = { s with rx := rx }) s := by
  simp only [vcBufUpdateRx, Act.always_bind]
  refine Act.always_request ⟨trivial, .refl s⟩ fun (r : Option Int) => ?_
  cases r with
  | none => exact ⟨s.rx, rfl⟩
  | some head =>
      simp only [Act.always_bind]
      refine Act.always_request ⟨trivial, .refl s⟩ fun (r : Option Int) => ?_
      cases r with
      | none => exact ⟨s.rx, rfl⟩
      | some tail => exact ⟨_, rfl⟩

theorem vcBufUpdateTx_always :
    vcBufUpdateTx.Always (ProcOnly s) (fun _ s' => ∃ tx, s' = { s with tx := tx }) s := by
  simp only [vcBufUpdateTx, Act.always_bind]
  refine Act.always_request ⟨trivial, .refl s⟩ fun (r : Option Int) => ?_
  cases r with
  | none => exact ⟨s.tx, rfl⟩
  | some head =>
      simp only [Act.always_bind]
      refine Act.always_request ⟨trivial, .refl s⟩ fun (r : Option Int) => ?_
      cases r with
      | none => exact ⟨s.tx, rfl⟩
      | some tail => exact ⟨_, rfl⟩

theorem vcBufSetupRx_always :
    vcBufSetupRx.Always (ProcOnly s) (fun _ s' => ∃ rx, s' = { s with rx := rx }) s := by
  simp only [vcBufSetupRx, Act.always_bind]
  refine Act.always_request ⟨trivial, .refl s⟩ fun (r : Option Int) => ?_
  cases r with
  | none => exact ⟨s.rx, rfl⟩
  | some begin =>
      simp only [Act.always_bind]
      refine Act.always_request ⟨trivial, .refl s⟩ fun (r : Option Int) => ?_
      cases r with
      | none => exact ⟨s.rx, rfl⟩
      | some size =>
          simp only [Act.always_bind, always_modifyAttr]
          refine vcBufUpdateRx_always.mono (fun _ _ h => h.from (.rx _)) ?_
          rintro _ _ ⟨rx, rfl⟩
          exact ⟨rx, rfl⟩

theorem vcBufSetupTx_always :
    vcBufSetupTx.Always (ProcOnly s) (fun _ s' => ∃ tx, s' = { s with tx := tx }) s := by
  simp only [vcBufSetupTx, Act.always_bind]
  refine Act.always_request ⟨trivial, .refl s⟩ fun (r : Option Int) => ?_
  cases r with
  | none => exact ⟨s.tx, rfl⟩
  | some begin =>
      simp only [Act.always_bind]
      refine Act.always_request ⟨trivial, .refl s⟩ fun (r : Option Int) => ?_
      cases r with
      | none => exact ⟨s.tx, rfl⟩
      | some size =>
          simp only [Act.always_bind, always_modifyAttr]
          refine vcBufUpdateTx_always.mono (fun _ _ h => h.from (.tx _)) ?_
          rintro _ _ ⟨tx, rfl⟩
          exact ⟨tx, rfl⟩

theorem vcBufClear_always (clrflags : Int) : (vcBufClear clrflags).Always (ProcOnly s)
    (fun _ s' => ∃ rx tx, s' = { s with rx := rx, tx := tx }) s := by
  have htx (rx : RingBuf) : vcBufUpdateTx.Always (ProcOnly s)
      (fun _ s' => ∃ rx tx, s' = { s with rx := rx, tx := tx }) { s with rx := rx } := by
    refine vcBufUpdateTx_always.mono (fun _ _ h => h.from (.rx rx)) ?_
    rintro _ _ ⟨tx, rfl⟩
    exact ⟨rx, tx, rfl⟩
  simp only [vcBufClear, Act.always_bind]
  refine Act.always_request ⟨trivial, .refl s⟩ fun (r : Option Int) => ?_
  cases r with
  | none => exact ⟨s.rx, s.tx, rfl⟩
  | some v =>
      simp only [Act.always_bind, Act.always_ite, Act.always_pure]
      split
      · refine Act.always_request ⟨trivial, .refl s⟩ fun _ => ?_
        refine vcBufUpdateRx_always.mono (fun _ _ h => h) ?_
        rintro _ _ ⟨rx, rfl⟩
        split
        · exact htx rx
        · exact ⟨rx, s.tx, rfl⟩
      · split
        · exact htx s.rx
        · exact ⟨s.rx, s.tx, rfl⟩

/-! ## Data -/

/-- The proc file, or a send of packets that `K` allows, and the view stays. -/
def ProcOr (K : Pkt → Prop) (s s' : VcAttr) (e : Req) : Prop :=
  (e.OnProc ∨ e.Talk K) ∧ s'.view = s.view

theorem ProcOnly.or (K : Pkt → Prop) {s s' : VcAttr} {e : Req} (h : ProcOnly s s' e) :
    ProcOr K s s' e := ⟨Or.inl h.1, h.2.view⟩

theorem readXmit_always (rx : RingBuf) (llen len : Int) :
    (readXmit rx llen len).Always (ProcOnly s) (fun _ s' => s' = s) s := by
  simp only [readXmit, Act.always_ite, Act.always_bind, Act.always_pure]
  split
  · exact Act.always_request ⟨trivial, .refl s⟩ fun _ => rfl
  · refine Act.always_request ⟨trivial, .refl s⟩ fun _ => ?_
    exact Act.always_request ⟨trivial, .refl s⟩ fun _ => rfl

theorem xmitSend_always (hne : s.stk ≠ []) : xmitSend.Always (ProcOr Pkt.IsXmit s)
    (fun _ s' => ∃ x t n, s' = { s with ssl := x, tid := t, xmitPending := n }) s := by
  simp only [xmitSend, Act.always_bind, always_getAttr]
  refine (readXmit_always _ _ _).mono (fun _ _ h => h.or _) ?_
  rintro data _ rfl
  generalize (if getRbLength _ > XMIT_LEN then XMIT_LEN else getRbLength _) = len
  simp only [Act.always_ite, Act.always_pure]
  split
  · exact ⟨_, _, _, rfl⟩
  · rw [Act.always_bind]
    refine always_vcCheckSend (K := Pkt.IsXmit) (by simp [Pkt.IsXmit]) hne
      (fun _ _ _ he => ⟨Or.inr he, rfl⟩) fun ok x _ => ?_
    cases ok with
    | true => exact ⟨_, _, _, rfl⟩
    | false => exact ⟨_, _, _, rfl⟩

theorem recvData_always (buf : Mem) :
    (recvData buf).Always (ProcOnly s) (fun _ s' => s' = s) s := by
  simp only [recvData, Act.always_bind, always_getAttr]
  cases vcCheckRecv buf with
  | none => exact rfl
  | some datalen =>
      simp only [Act.always_ite, Act.always_bind, Act.always_pure]
      split
      · trivial
      split
      · refine Act.always_request ⟨trivial, .refl s⟩ fun _ => ?_
        exact Act.always_request ⟨trivial, .refl s⟩ fun _ => rfl
      · refine Act.always_request ⟨trivial, .refl s⟩ fun _ => ?_
        refine Act.always_request ⟨trivial, .refl s⟩ fun _ => ?_
        exact Act.always_request ⟨trivial, .refl s⟩ fun _ => rfl

theorem recvWrite_always (buf : Mem) (len : Int) : (recvWrite buf len).Always (ProcOnly s)
    (fun _ s' => ∃ rx, s' = { s with xmitPending := 0, rx := rx }) s := by
  simp only [recvWrite, Act.always_bind, always_getAttr, always_modifyAttr, Act.always_ite,
    Act.always_pure]
  split
  · refine Act.always_request ⟨trivial, .idle 0⟩ fun _ => ?_
    refine vcBufUpdateRx_always.mono (fun _ _ h => h.from (.idle 0)) ?_
    rintro _ _ ⟨rx, rfl⟩
    exact ⟨rx, rfl⟩
  · exact ⟨s.rx, rfl⟩

/-! ## Close -/

theorem vcCommonPurge_always (hne : s.stk ≠ []) (pflags : UInt32) :
    (vcCommonPurge pflags).Always (ProcOr Pkt.IsBye s)
      (fun _ s' => ∃ x t, s' = { s with ssl := x, tid := t }) s := by
  simp only [vcCommonPurge, Act.always_bind, always_getAttr]
  refine always_packSend (by simp) (always_vcCheckSend (K := Pkt.IsBye) (by simp [Pkt.IsBye]) hne
    (fun _ _ _ he => ⟨Or.inr he, rfl⟩) fun ok x _ => ?_)
  cases ok with
  | true => exact ⟨x, s.tid + 1, rfl⟩
  | false => exact ⟨x, s.tid, rfl⟩

theorem closeSend_always (hne : s.stk ≠ []) : closeSend.Always (ProcOr Pkt.IsBye s)
    (fun _ s' => s'.stk = s.stk ∧ s'.sk = s.sk ∧ s'.view = s.view) s := by
  simp only [closeSend, Act.always_bind, always_getAttr, always_modifyAttr]
  refine always_packSend (by simp) (always_vcCheckSend (K := Pkt.IsBye) (by simp [Pkt.IsBye]) hne
    (fun _ _ _ he => ⟨Or.inr he, rfl⟩) fun ok x _ => ?_)
  cases ok with
  | true => exact ⟨rfl, rfl, rfl⟩
  | false => exact ⟨rfl, rfl, rfl⟩

theorem closing_always (hne : s.stk ≠ []) : closing.Always (ProcOr Pkt.IsBye s)
    (fun _ s' => s'.stk = s.stk ∧ s'.sk = s.sk ∧ s'.view = s.view) s := by
  simp only [closing, Act.always_bind]
  refine (vcBufClear_always _).mono (fun _ _ h => h.or _) ?_
  rintro _ _ ⟨rx, tx, rfl⟩
  refine (vcCommonPurge_always (by exact hne) _).mono (fun _ _ h => h) ?_
  rintro _ _ ⟨x, t, rfl⟩
  exact (closeSend_always (by exact hne)).mono (fun _ _ h => h) fun _ _ h => h

end

end AdvVcom
