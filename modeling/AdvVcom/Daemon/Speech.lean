/-
# `AdvVcom.Daemon.Speech` — invariants about what is said on a connection

These invariants look at the packets and frames of a connection and, of the daemon, at
little more than the socket: whether there is one, whether there is to be a TLS object,
whether OPEN has gone out (`eki.is_open`) and which connected state is in force.  What the
driver says does not matter to them (`Deaf`).  For such an invariant everything that
`Walk` asks about the proc file follows, and what is left is the structure `Speech`: the
connection comes and goes, packets go out or fail, frames come in.  Next to the strengths
of `Walk` there is one more:

    C   between PURGE, sent or not, and CLOSE
-/
import AdvVcom.Daemon.Receive
import AdvVcom.Daemon.Rounds

namespace AdvVcom

open Lib

/-! ## What is looked at -/

/-- The same socket, with or without TLS. -/
structure Near (s s' : VcAttr) : Prop where
  sk : s'.sk = s.sk
  tls : s'.ssl.isSome = s.ssl.isSome

/-- And the connection is open as before, in the same state. -/
structure Kin (s s' : VcAttr) : Prop extends Near s s' where
  opened : s'.eki.isOpen = s.eki.isOpen
  base : s'.stk[1]? = s.stk[1]?

theorem Aside.kin {s s' : VcAttr} (h : Aside s s') : Kin s s' := by
  obtain ⟨x, t, n, rx, tx, hx, rfl⟩ := h
  exact ⟨⟨rfl, hx⟩, rfl, rfl⟩

/-- Under `B`, nothing happens on its own or through the proc file. -/
structure Deaf (𝓔 : Env VcSig VcAttr) (B : VcAttr → 𝓔.World → Prop) : Prop where
  still : ∀ {s w w'}, ¬ 𝓔.drift s w w'
  proc : ∀ {s w w'} {e : Req} {r : e.Rep}, B s w → e.OnProc → 𝓔.answers w e r w' → w' = w
  view : ∀ {s w w'} {r : Option PortInfo}, B s w → 𝓔.answers w .attrPtr r w' →
    w' = w ∧ ∀ v, r = some v → v.isOpen = 0 ∨ v.isOpen = 1

/-- A step that only uses the proc file. -/
theorem Deaf.onProc {𝓔 : Env VcSig VcAttr} {I B : VcAttr → 𝓔.World → Prop} (hD : Deaf 𝓔 B)
    (hBI : ∀ s w, B s w → I s w) {α : Type} {m : M α} {Q : α → VcAttr → Prop} {s : VcAttr}
    {w : 𝓔.World} (hm : m.Always (ProcOnly s) Q s) (hB : ∀ s', Aside s s' → B s' w) : m.wp 𝓔 I (fun a s' w' => Q a s' ∧ w' = w) s w := by
  refine Act.Always.wp hm (· = w) rfl (fun _ _ _ _ _ _ hd => absurd hd hD.still) ?_ ?_
  · rintro s' e _ ha rfl
    exact hBI s' _ (hB s' ha.2)
  · rintro s' e r _ w' ha rfl hr
    exact hD.proc (hB s' ha.2) ha.1 hr

/-! ## The proc file -/

/-- Under `Deaf`, what looks at no ring, not at the view and not at `xmit_pending`. -/
structure Blind (𝓔 : Env VcSig VcAttr) (I J B : VcAttr → 𝓔.World → Prop) : Prop where
  deaf : Deaf 𝓔 B
  pause : ∀ s w, B s w → I s w
  weak : ∀ s w, J s w → B s w
  aside : ∀ {s s' w}, B s w → Aside s s' → B s' w
  apart : ∀ {s w}, J s w → ∀ rx tx n v,
    J { s with rx := rx, tx := tx, xmitPending := n, view := v } w

section
variable {𝓔 : Env VcSig VcAttr} {I J B : VcAttr → 𝓔.World → Prop} (K : Blind 𝓔 I J B)
  {s : VcAttr} {w : 𝓔.World} {st : St}

include K

theorem Blind.onProc {α : Type} {m : M α} {Q : α → VcAttr → Prop} (hm : m.Always (ProcOnly s) Q s)
    (hb : B s w) : m.wp 𝓔 I (fun a s' w' => Q a s' ∧ w' = w) s w :=
  K.deaf.onProc K.pause hm fun _ h => K.aside hb h

theorem Blind.updRx (hj : J s w) : vcBufUpdateRx.wp 𝓔 I
    (fun _ s' w' => (∃ rx, s' = { s with rx := rx }) ∧ J s' w') s w := by
  refine Act.wp_mono (K.onProc vcBufUpdateRx_always (K.weak _ _ hj)) ?_
  rintro _ _ w' ⟨⟨rx, rfl⟩, hw⟩
  rw [hw]
  exact ⟨⟨rx, rfl⟩, K.apart hj rx s.tx s.xmitPending s.view⟩

theorem Blind.updTx (hj : J s w) : vcBufUpdateTx.wp 𝓔 I
    (fun _ s' w' => (∃ tx, s' = { s with tx := tx }) ∧ J s' w') s w := by
  refine Act.wp_mono (K.onProc vcBufUpdateTx_always (K.weak _ _ hj)) ?_
  rintro _ _ w' ⟨⟨tx, rfl⟩, hw⟩
  rw [hw]
  exact ⟨⟨tx, rfl⟩, K.apart hj s.rx tx s.xmitPending s.view⟩

theorem Blind.updAttr (hs : Legal s) (hj : J s w) : vcBufUpdateAttr.wp 𝓔 I
    (fun _ s' w' => (∃ v, s' = { s with view := v }) ∧ Legal s' ∧ J s' w') s w := by
  simp only [vcBufUpdateAttr, Act.wp_bind]
  refine Act.wp_request_still (fun _ _ => K.deaf.still) (K.pause _ _ (K.weak _ _ hj))
    fun (r : Option PortInfo) w' hr => ?_
  obtain ⟨rfl, hview⟩ := K.deaf.view (K.weak _ _ hj) hr
  cases r with
  | none => exact ⟨⟨s.view, rfl⟩, hs, hj⟩
  | some v => exact ⟨⟨v, rfl⟩, hview v rfl, K.apart hj s.rx s.tx s.xmitPending v⟩

theorem Blind.clear (flags : Int) (hj : J s w) : (vcBufClear flags).wp 𝓔 I
    (fun _ s' w' => (∃ rx tx, s' = { s with rx := rx, tx := tx }) ∧ J s' w') s w := by
  refine Act.wp_mono (K.onProc (vcBufClear_always _) (K.weak _ _ hj)) ?_
  rintro _ _ w' ⟨⟨rx, tx, rfl⟩, hw⟩
  rw [hw]
  exact ⟨⟨rx, tx, rfl⟩, K.apart hj rx tx s.xmitPending s.view⟩

theorem Blind.stored (buf : Mem) (h : Up st [] s) (hj : J s w) :
    (recvData buf).wp 𝓔 I (Went J B st []) s w := by
  refine Act.wp_mono (K.onProc (recvData_always buf) (K.weak _ _ hj)) ?_
  rintro ok s' w' ⟨hs, hw⟩
  rw [hs, hw]
  cases ok with
  | true => exact ⟨h, hj⟩
  | false => exact ⟨h.raised, K.weak _ _ hj⟩

theorem Blind.answered (buf : Mem) (len : Nat) (h : Up st [] s) (hj : J s w) :
    (recvWrite buf len).wp 𝓔 I (Went J B st []) s w := by
  refine Act.wp_mono (K.onProc (recvWrite_always buf len) (K.weak _ _ hj)) ?_
  rintro ok _ w' ⟨⟨rx, rfl⟩, hw⟩
  rw [hw]
  have hj' := K.apart hj rx s.tx 0 s.view
  cases ok with
  | true => exact ⟨h, hj'⟩
  | false => exact ⟨h.raised, K.weak _ _ hj'⟩

/-- The set-up leaves a fresh daemon fresh. -/
theorem Blind.ready (hs : Fresh s) (hb : B s w) (h : J s.hung w) :
    setup.wp 𝓔 I (fun _ s w => Ready J s w) s w := by
  obtain ⟨hstk, hsk, hlegal⟩ := hs
  simp only [setup, Act.wp_bind]
  refine Act.wp_mono (K.onProc vcBufSetupTx_always hb) ?_
  rintro _ _ w₁ ⟨⟨tx, rfl⟩, hw⟩
  rw [hw]
  refine Act.wp_mono (K.onProc vcBufSetupRx_always (K.aside hb (.tx tx))) ?_
  rintro _ _ w₂ ⟨⟨rx, rfl⟩, hw⟩
  rw [hw]
  have hb₂ : B { s with tx := tx, rx := rx } w := K.aside hb ((Aside.tx tx).trans (.rx rx))
  have hready {v : PortInfo} (hv : v.isOpen = 0 ∨ v.isOpen = 1) :
      Ready J { s with tx := tx, rx := rx, view := v } w :=
    ⟨hstk, hsk, hv, K.apart h rx tx 0 v⟩
  have hrequest {e : Req} {Q : e.Rep → VcAttr → 𝓔.World → Prop}
      (hQ : ∀ r w', 𝓔.answers w e r w' → Q r { s with tx := tx, rx := rx } w') :
      (Act.request (S := VcSig) e : M e.Rep).wp 𝓔 I Q { s with tx := tx, rx := rx } w :=
    Act.wp_request_still (fun _ _ => K.deaf.still) (K.pause _ _ hb₂) hQ
  simp only [vcBufSetupAttr, vcBufUpdateAttr, Act.wp_bind]
  refine hrequest fun (r : Option Int) w₃ hr => ?_
  rw [K.deaf.proc (e := .ioctl .gAttrBegin 0) hb₂ trivial hr]
  cases r with
  | none => exact hready hlegal
  | some begin =>
      simp only [Act.wp_bind]
      refine hrequest fun (r : Option PortInfo) w₄ hr => ?_
      obtain ⟨hw, hview⟩ := K.deaf.view hb₂ hr
      rw [hw]
      cases r with
      | none => exact hready hlegal
      | some v => exact hready (hview v rfl)

end

/-- What looks at no more than `Kin` lasts if the answers do no harm. -/
theorem Lasts.of_kin {𝓔 : Env VcSig VcAttr} {P : VcAttr → 𝓔.World → Prop}
    (hstill : ∀ {s w w'}, ¬ 𝓔.drift s w w')
    (hkin : ∀ {s s' w}, P s w → Kin s s' → P s' w)
    (hmild : ∀ {s w w'} {e : Req} {r : e.Rep}, e.Mild s → P s w → 𝓔.answers w e r w' → P s w')
    (hready : ∀ {s w w'}, P s w → 𝓔.answers w .fdcheck true w' → P s w') : Lasts 𝓔 P where
  drift := fun _ hd => absurd hd hstill
  mild := hmild
  ready := hready
  ssl := fun hp _ hx => hkin hp ⟨⟨rfl, hx⟩, rfl, rfl⟩
  base := fun hp _ hl => hkin hp ⟨⟨rfl, rfl⟩, rfl, hl⟩

/-- A packet that has to do neither with the queue size nor with the modem events. -/
def Pkt.Common : Pkt → Prop
  | .xmit _ _ => True
  | .param _ subcmd => subcmd ≠ VCOM_IOCTL_WAIT_ON_MASK ∧ subcmd ≠ VCOM_IOCTL_SET_WAIT_MASK ∧
      subcmd ≠ VCOM_IOCTL_GET_MODEMSTATUS
  | p => p.Setting

theorem Pkt.Setting.common {p : Pkt} (h : p.Setting) : p.Common := by
  cases p with
  | param tid subcmd =>
      rcases h with rfl | rfl | rfl | rfl
      · exact ⟨by decide, by decide, by decide⟩
      · exact ⟨by decide, by decide, by decide⟩
      · exact ⟨by decide, by decide, by decide⟩
      · exact ⟨by decide, by decide, by decide⟩
  | xmit => trivial
  | _ => exact h

theorem Pkt.Common.running {p : Pkt} (h : p.Common) : p.Running := by
  cases p with
  | xmit | sbaud | setlctl | hflow | param => trivial
  | _ => exact h.elim

/-! ## Sync, packet by packet -/

/-- The packet of Sync's step `i`. -/
def SyncPkt (s : VcAttr) : Nat → Pkt → Prop
  | 0, p => ∃ tid ms, p = rtsPkt tid ms
  | 1, p => ∃ tid ms, p = dtrPkt tid ms
  | 2, p => ∃ tid mask, p = .setwmask tid mask
  | 3, p => ∃ tid, p = .param tid VCOM_IOCTL_GET_MODEMSTATUS
  | 4, p => ∃ tid, p = .qfsize tid (if isRbEmpty s.tx then 1024 else 0)
  | _, _ => False

section
variable {𝓔 : Env VcSig VcAttr} {I B : VcAttr → 𝓔.World → Prop} {s : VcAttr} {w : 𝓔.World}
  {st : St} {top : List St}

/-- `P i` holds before step `i`; a step that fails ends in `B`. -/
theorem wp_syncAll {P : Nat → VcAttr → 𝓔.World → Prop} (hP : ∀ i, Yields 𝓔 (P i) B)
    (hBI : ∀ s w, B s w → I s w)
    (hkin : ∀ {i s w}, P i s w → ∀ t k, k.isOpen = s.eki.isOpen → P i { s with tid := t, eki := k } w)
    (hsent : ∀ {i s w w' p}, Up st [.sync] s → P i s w → SyncPkt s i p →
      Sends 𝓔 w [p] true w' → P (i + 1) s w')
    (hfail : ∀ {i s w w' p}, Up st [.sync] s → P i s w → SyncPkt s i p →
      Sends 𝓔 w [p] false w' → B s w')
    (h : Up st [.sync] s) (hs : P 0 s w) : syncAll.wp 𝓔 I (Went (P 5) B st [.sync]) s w := by
  have hnext (i : Nat) {p : UInt32 → Pkt} {s : VcAttr} {w : 𝓔.World} (hlen : 0 < (p s.tid).plen 1024)
      (hp : SyncPkt s i (p s.tid)) (h : Up st [.sync] s) (hi : P i s w) :
      (sendNext p).wp 𝓔 I (Went (P (i + 1)) B st [.sync]) s w :=
    wp_sendNext_went (hP i) (hP (i + 1)).lasts hBI hlen
      (fun hi hs => hkin (hsent h hi hp hs) _ _ rfl) (fun hi hs => hfail h hi hp hs) h hi
  have hms : (syncMs s.view.ms).wp 𝓔 I (Went (P 2) B st [.sync]) s w :=
    wp_went_and (J := P 1) (hnext 0 (by simp [rtsPkt]) ⟨_, _, rfl⟩ h hs) fun h hi =>
      hnext 1 (by simp [dtrPkt]) ⟨_, _, rfl⟩ h hi
  simp only [syncAll, Act.wp_bind, wp_getAttr]
  refine Act.wp_mono hms fun ok s₂ w₂ hq => ?_
  cases ok with
  | false => exact hq
  | true =>
      rw [if_pos rfl, Act.wp_bind, wp_modifyAttr]
      have h₂ : Up st [.sync] { s₂ with eki := { s₂.eki with ms := s.view.ms } } := hq.1
      refine wp_went_and (J := P 4) (wp_went_and (J := P 3)
        (hnext 2 (by simp) ⟨_, _, rfl⟩ h₂ (hkin hq.2 s₂.tid _ rfl)) fun h hi =>
        hnext 3 (by simp) ⟨_, rfl⟩ h hi) fun h hi => ?_
      simp only [syncQueue, Act.wp_bind, wp_getAttr]
      exact hnext 4 (by simp) ⟨_, rfl⟩ h hi

/-- Sync's answer to a reply: from `A`, with `M` between the two packets of an event. -/
theorem wp_syncReply {A M J : VcAttr → 𝓔.World → Prop} {buf : Mem} (hA : Yields 𝓔 A B)
    (hM : Yields 𝓔 M B) (hJ : Lasts 𝓔 J) (hBI : ∀ s w, B s w → I s w)
    (hmask : ∀ {w w'}, attachP2 buf = VCOM_IOCTL_WAIT_ON_MASK → A s w →
      Sends 𝓔 w [.setwmask s.tid 0x38010000] true w' → M { s with tid := s.tid + 1 } w')
    (hstat : ∀ {s w w'}, Up st [.sync] s → M s w →
      Sends 𝓔 w [.param s.tid VCOM_IOCTL_GET_MODEMSTATUS] true w' → J { s with tid := s.tid + 1 } w')
    (hwait : ∀ {w w'}, attachP2 buf = VCOM_IOCTL_SET_WAIT_MASK → A s w →
      Sends 𝓔 w [.param s.tid VCOM_IOCTL_WAIT_ON_MASK] true w' → J { s with tid := s.tid + 1 } w')
    (hmctrl : ∀ {w w'} {r : Option Int}, attachP2 buf = VCOM_IOCTL_GET_MODEMSTATUS → A s w →
      𝓔.answers w (.ioctl .sMCtrl (attachUint buf).toNat) r w' → J s w')
    (hJB : ∀ s w, J s w → B s w)
    (hfail : ∀ {s w w' p}, Up st [.sync] s → A s w ∨ M s w → p.Running →
      Sends 𝓔 w [p] false w' → B s w')
    (hbuf : ForSync buf) (h : Up st [.sync] s) (ha : A s w) :
    (syncReply buf).wp 𝓔 I (Went J B st [.sync]) s w := by
  simp only [syncReply, Act.wp_ite, Act.wp_bind, Act.wp_pure]
  split
  · rename_i hsub
    refine wp_went_and (J := M) ?_ fun {s₁ w₁} h₁ hm => ?_
    · exact wp_sendNext_went (p := (.setwmask · 0x38010000)) hA hM.lasts hBI (by simp)
        (fun ha hs => hmask hsub ha hs)
        (fun ha hs => hfail (p := .setwmask _ _) h (Or.inl ha) trivial hs) h ha
    · exact wp_sendNext_went (p := (.param · VCOM_IOCTL_GET_MODEMSTATUS)) hM hJ hBI (by simp)
        (fun hm hs => hstat h₁ hm hs)
        (fun hm hs => hfail (p := .param _ _) h₁ (Or.inr hm) trivial hs) h₁ hm
  rename_i hne
  split
  · rename_i hsub
    exact wp_sendNext_went (p := (.param · VCOM_IOCTL_WAIT_ON_MASK)) hA hJ hBI (by simp)
      (fun ha hs => hwait hsub ha hs)
      (fun ha hs => hfail (p := .param _ _) h (Or.inl ha) trivial hs) h ha
  rename_i hne'
  split
  · rename_i hsub
    refine hA.lasts.wp_request (fun s w ha => hBI s w (hA.weak s w ha)) ha
      fun (r : Option Int) w₁ w₂ ha₁ hr => ?_
    have hj := hmctrl hsub ha₁ hr
    cases r with
    | none => exact ⟨h.raised, hJB _ _ hj⟩
    | some v => exact ⟨h, hj⟩
  · rename_i hne''
    rcases hbuf.2.2 with hsub | hsub | hsub
    · exact absurd hsub hne
    · exact absurd hsub hne''
    · exact absurd hsub hne'

end

/-! ## What is left to check -/

structure Speech (𝓔 : Env VcSig VcAttr) (I J S C B : VcAttr → 𝓔.World → Prop)
    (H : Mem → Nat → VcAttr → 𝓔.World → Prop) : Prop where
  deaf : Deaf 𝓔 B
  kinJ : ∀ {s s' w}, J s w → Kin s s' → J s' w
  kinC : ∀ {s s' w}, C s w → Near s s' → C s' w
  kinB : ∀ {s s' w}, B s w → Near s s' → B s' w
  kinH : ∀ {buf len s s' w}, H buf len s w → Kin s s' → H buf len s' w
  lastsJ : Lasts 𝓔 J
  lastsC : Lasts 𝓔 C
  lastsB : Lasts 𝓔 B
  lastsS : Lasts 𝓔 S
  weakJ : ∀ s w, J s w → B s w
  weakC : ∀ s w, C s w → B s w
  weakS : ∀ s w, S s w → B s w
  pause : ∀ s w, B s w → I s w
  -- the connection comes and goes
  hangs : ∀ {s w}, s.stk = [.netdown] → Raised s → B s w →
    hangUp.Meets 𝓔 I (fun _ s' w' => s' = { s with sk := -1 } ∧ J s.hung w') s w
  refused : ∀ {s w w'} {r : Int}, Down s → J s w → 𝓔.answers w Req.connect r w' → r < 0 → J s w'
  dialed : ∀ {s w w'} {r : Int}, Down s → s.view.isOpen = 1 → J s w →
    𝓔.answers w Req.connect r w' → 0 ≤ r →
    sslOpen.Meets 𝓔 I (fun ok s' w' => Dialing [] s' ∧ if ok then J s' w' else B s' w')
      { s with sk := r } w'
  chosen : ∀ {s w}, Dialing [] s → J s w → J { s with stk := [.netdown, upState s.tx] } w
  opened : ∀ {st s w w'}, Dialing [st] s → st = upState s.tx → J s w →
    Sends 𝓔 w [.open 1 s.devid s.port] true w' →
    S { s with tid := s.tid + 1, eki := { s.eki with isOpen := 1 } } w'
  -- sends
  unready : ∀ {s w w'}, J s w → 0 ≤ s.sk → 𝓔.answers w .fdcheck false w' → B s w'
  unopened : ∀ {s w w' p}, Raised s → J s w → s.eki.isOpen = 0 → p.IsCreate →
    Sends 𝓔 w [p] false w' → B s w'
  unsent : ∀ {s w w' ps}, Raised s → J s w → s.eki.isOpen = 1 → (∀ p ∈ ps, p.Running) →
    Sends 𝓔 w ps false w' → B s w'
  spoke : ∀ {st top s w w' ps}, Up st top s → J s w → (∀ p ∈ ps, p.Common) →
    Sends 𝓔 w ps true w' → J s w'
  requeued : ∀ {st st' s w w' n}, Up st [] s → J s w → Requeues st n st' →
    Sends 𝓔 w [.qfsize s.tid n] true w' →
    J { s with tid := s.tid + 1, stk := [.netdown, st'] } w'
  synced : ∀ {st s w}, Up st [.sync] s → S s w → syncAll.Meets 𝓔 I (Went J B st [.sync]) s w
  unpurged : ∀ {st top s w w'}, Up st top s → J s w → 𝓔.answers w .fdcheck false w' → C s w'
  purged : ∀ {st top s w w' tid flags ok}, Up st top s → J s w →
    Sends 𝓔 w [.purge tid flags] ok w' → C s w'
  unbyed : ∀ {s w w'}, C s w → 0 ≤ s.sk → 𝓔.answers w .fdcheck false w' → B s w'
  byed : ∀ {s w w' tid ok}, Raised s → C s w → Sends 𝓔 w [.close tid] ok w' → B s w'
  -- frames
  wire : ∀ {s w w'} {e : Req} {r : e.Rep}, e.OnWire → J s w → 0 ≤ s.sk → 𝓔.answers w e r w' → J s w'
  handed : ∀ {st top s w w' buf}, Up st top s → J s w →
    𝓔.answers w (.hand (buf.slice 0 (HDR_LEN + hdrLen buf))) () w' →
    H buf (HDR_LEN + hdrLen buf) s w'
  passed : ∀ {st s w buf len}, Up st [] s → H buf len s w → ¬ ForSync buf → J s w
  replied : ∀ {st s w buf len}, Up st [.sync] s → H buf len s w → ForSync buf →
    (syncReply buf).Meets 𝓔 I (Went J B st [.sync]) s w

section
variable {𝓔 : Env VcSig VcAttr} {I J S C B : VcAttr → 𝓔.World → Prop}
  {H : Mem → Nat → VcAttr → 𝓔.World → Prop} (K : Speech 𝓔 I J S C B H)
  {s : VcAttr} {w : 𝓔.World} {st : St} {top : List St}

include K

theorem Speech.yields : Yields 𝓔 J B := ⟨K.lastsJ, K.lastsB, K.weakJ, K.unready⟩

theorem Speech.blind : Blind 𝓔 I J B where
  deaf := K.deaf
  pause := K.pause
  weak := K.weakJ
  aside := fun hb h => K.kinB hb h.kin.toNear
  apart := fun hj _ _ _ _ => K.kinJ hj ⟨⟨rfl, rfl⟩, rfl, rfl⟩

/-! ## Packets -/

theorem Speech.xmit_went (h : Up st [] s) (hj : J s w) : xmitSend.wp 𝓔 I (Went J B st []) s w := by
  simp only [xmitSend, Act.wp_bind, wp_getAttr]
  refine Act.wp_mono (K.blind.onProc (readXmit_always _ _ _) (K.weakJ _ _ hj)) ?_
  rintro data s' w' ⟨hs, hw⟩
  rw [hs, hw]
  generalize (if getRbLength s.rx > XMIT_LEN then XMIT_LEN else getRbLength s.rx) = len
  simp only [Act.wp_ite, Act.wp_pure, Act.wp_bind]
  split
  · exact ⟨h.raised, K.weakJ _ _ hj⟩
  refine wp_vcCheckSend K.yields K.pause h.raised.ne_nil h.2.2.1 hj ?_ ?_ ?_
  · intro w w' x hx hj hs
    exact ⟨h, K.kinJ (K.spoke h hj (by simp [Pkt.Common]) hs) ⟨⟨rfl, hx⟩, rfl, rfl⟩⟩
  · intro w w' hj hs
    exact K.unsent h.raised hj h.2.2.2.1 (by simp [Pkt.Running]) hs
  · intro w x hb
    exact ⟨h.raised, hb⟩

theorem Speech.ioctl_went (h : Up st [] s) (hj : J s w) :
    ioctlSend.wp 𝓔 I (fun r => Went J B st [] (r != some false)) s w := by
  obtain ⟨hset, t, k, hround, hopen⟩ := ioctlRound_setting s
  have hup : Up st [] (ioctlRound s).2 := by
    rw [hround]
    exact h.of_eq rfl rfl hopen h.2.2.2.2
  have hj' : J (ioctlRound s).2 w := by
    rw [hround]
    exact K.kinJ hj ⟨⟨rfl, rfl⟩, hopen, rfl⟩
  simp only [ioctlSend, Act.wp_bind, wp_getAttr, wp_modifyAttr, Act.wp_ite, Act.wp_pure]
  clear hround
  generalize ioctlRound s = r at hset hup hj'
  split
  · exact ⟨hup, hj'⟩
  refine wp_vcCheckSend K.yields K.pause hup.raised.ne_nil hup.2.2.1 hj' ?_ ?_ ?_
  · intro w w' x hx hj hs
    have hspoke := K.spoke hup hj (fun p hp => (hset p hp).common) hs
    exact ⟨hup, K.kinJ hspoke ⟨⟨rfl, hx⟩, rfl, rfl⟩⟩
  · intro w w' hj hs
    exact K.unsent hup.raised hj hup.2.2.2.1 (fun p hp => (hset p hp).common.running) hs
  · intro w x hb
    exact ⟨hup.raised, hb⟩

/-- PURGE may fail; whatever becomes of CLOSE, the connection is done with. -/
theorem Speech.closing_raised (h : Up st top s) (hj : J s w) :
    closing.wp 𝓔 I (fun _ s w => Raised s ∧ B s w) s w := by
  simp only [closing, Act.wp_bind]
  refine Act.wp_mono (K.blind.clear _ hj) ?_
  rintro _ _ w' ⟨⟨rx, tx, rfl⟩, hj₁⟩
  have h₁ : Up st top { s with rx := rx, tx := tx } := h
  have hclose {s w} (h : Raised s) (hc : C s w) :
      closeSend.wp 𝓔 I (fun _ s w => Raised s ∧ B s w) s w := by
    simp only [closeSend, Act.wp_bind, wp_modifyAttr, wp_getAttr]
    refine wp_packSend (by simp) (wp_vcCheckSend ⟨K.lastsC, K.lastsB, K.weakC, K.unbyed⟩ K.pause
      h.ne_nil h.2.1 (K.kinC hc ⟨rfl, rfl⟩) ?_ ?_ ?_)
    · intro w w' x hx hc hs
      exact ⟨h, K.kinB (K.byed (by exact h) hc hs) ⟨rfl, hx⟩⟩
    · intro w w' hc hs
      exact K.byed (by exact h) hc hs
    · intro w x hb
      exact ⟨h, hb⟩
  simp only [vcCommonPurge, Act.wp_bind, wp_getAttr]
  refine wp_packSend (by simp) (wp_vcCheckSend_of K.lastsJ K.lastsC
    (fun s w hj => K.pause s w (K.weakJ s w hj)) (fun s w hc => K.pause s w (K.weakC s w hc))
    h₁.raised.ne_nil h₁.2.2.1 hj₁ ?_ ?_ ?_ ?_)
  · intro w w' x hx hj hs
    exact hclose h.raised (K.kinC (K.purged h₁ hj hs) ⟨rfl, hx⟩)
  · intro w w' hj hs
    exact K.purged h₁ hj hs
  · intro w w' hj hr
    exact K.unpurged h₁ hj hr
  · intro w x hc
    exact hclose h.raised hc

/-! ## Frames -/

theorem Speech.recv_came (buf : Mem) (h : Up st top s) (hj : J s w) :
    (vcRecvFrame buf).wp 𝓔 I (Came I J B H st top) s w := by
  have hattends : Attends 𝓔 J := { K.lastsJ with wire := K.wire }
  refine came_of_attends hattends hattends K.weakJ K.pause ?_ (fun h hj _ hr _ => K.handed h hj hr)
    h hj buf
  intro s w _ hj
  exact Act.wp_mono (K.blind.updTx hj) fun _ s w hq => ⟨hq.1, hq.2, hq.2⟩

/-! ## The walk, and the start -/

theorem Speech.walk : Walk 𝓔 I J S B H where
  lastsJ := K.lastsJ
  lastsS := K.lastsS
  lastsB := K.lastsB
  baseB := fun hb _ => K.kinB hb ⟨rfl, rfl⟩
  baseH := fun hh _ hl => K.kinH hh ⟨⟨rfl, rfl⟩, rfl, hl⟩
  weakJ := K.weakJ
  weakS := K.weakS
  pause := K.pause
  hangs := K.hangs
  refused := K.refused
  dialed := K.dialed
  chosen := K.chosen
  opened := K.opened
  unready := K.unready
  unsent := by
    intro s w w' p h hj hp hs
    rcases hp with ⟨hopen, hp⟩ | ⟨hopen, hp⟩
    · exact K.unopened h hj hopen hp hs
    · exact K.unsent h hj hopen (by simpa using hp) hs
  probed := by
    intro st s w w' h hj hs
    have hspoke := K.spoke h hj (by simp [Pkt.Common]; decide) hs
    exact K.kinJ hspoke ⟨⟨rfl, rfl⟩, rfl, rfl⟩
  requeued := K.requeued
  synced := K.synced
  updated := fun h hj => ⟨K.ioctl_went h hj⟩
  transmitted := fun h hj _ _ => ⟨K.xmit_went h hj⟩
  updRx := fun _ hj => ⟨K.blind.updRx hj⟩
  updTx := fun _ hj => ⟨K.blind.updTx hj⟩
  updAttr := fun h hj => ⟨K.blind.updAttr h.legal hj⟩
  clearDown := by
    intro s w h hj
    refine ⟨Act.wp_mono (K.blind.clear _ hj) ?_⟩
    rintro _ _ w' ⟨⟨rx, tx, rfl⟩, hj'⟩
    exact ⟨h, hj'⟩
  clearIdle := by
    intro st s w h hj
    refine ⟨Act.wp_mono (K.blind.clear _ hj) ?_⟩
    rintro _ _ w' ⟨⟨rx, tx, rfl⟩, hj'⟩
    exact ⟨h.raised, K.weakJ _ _ hj'⟩
  closed := fun h hj _ => ⟨K.closing_raised h hj⟩
  received := fun buf h hj => ⟨K.recv_came buf h hj⟩
  passed := fun h hh _ _ hnot => K.passed h hh hnot
  replied := K.replied
  stored := by
    intro st s w buf len h hh hcmd
    have hj := K.passed h hh fun hsync => absurd (hcmd.symm.trans hsync.1) (by decide)
    exact ⟨K.blind.stored buf h hj⟩
  answered := by
    intro st s w buf len h hh hcmd
    have hj := K.passed h hh fun hsync => absurd (hcmd.symm.trans hsync.1) (by decide)
    exact ⟨K.blind.answered buf len h hj⟩

/-- The set-up leaves a fresh daemon fresh. -/
theorem Speech.ready (hs : Fresh s) (h : J s.hung w) :
    setup.wp 𝓔 I (fun _ s w => Ready J s w) s w :=
  K.blind.ready hs (K.kinB (K.weakJ _ _ h) ⟨hs.2.1, rfl⟩) h

/-- Every configuration of every run. -/
theorem Speech.run (hwaits : Endures 𝓔 J) {w₀ : 𝓔.World} {buf : Mem} (hs : Fresh s) (h : J s.hung w₀)
    {p : Proc VcSig VcAttr (Option LoopState)}
    (hreach : 𝓔.Reach iteration (mainStart buf s) w₀ p w) : p.wp 𝓔 I (Settled J) w :=
  K.walk.run hwaits (K.ready hs h) hreach

end

/-! ## One invariant throughout -/

/-- `P` looks at the socket and at whether there is TLS, and no packet breaks it. -/
structure Uniform (𝓔 : Env VcSig VcAttr) (I P : VcAttr → 𝓔.World → Prop) : Prop where
  deaf : Deaf 𝓔 P
  near : ∀ {s s' w}, P s w → Near s s' → P s' w
  pause : ∀ s w, P s w → I s w
  mild : ∀ {s w w'} {e : Req} {r : e.Rep}, e.Mild s → P s w → 𝓔.answers w e r w' → P s w'
  tested : ∀ {s w w'} {ready : Bool}, P s w → 𝓔.answers w .fdcheck ready w' → P s w'
  sends : ∀ {s w w' ps ok}, P s w → 0 ≤ s.sk → Sends 𝓔 w ps ok w' → P s w'
  wire : ∀ {s w w'} {e : Req} {r : e.Rep}, e.OnWire → P s w → 0 ≤ s.sk → 𝓔.answers w e r w' → P s w'
  handed : ∀ {s w w' frame}, P s w → 𝓔.answers w (.hand frame) () w' → P s w'
  hangs : ∀ {s w}, Raised s → P s w →
    hangUp.Meets 𝓔 I (fun _ s' w' => s' = { s with sk := -1 } ∧ P s.hung w') s w
  refused : ∀ {s w w'} {r : Int}, Down s → P s w → 𝓔.answers w Req.connect r w' → r < 0 → P s w'
  dialed : ∀ {s w w'} {r : Int}, Down s → s.view.isOpen = 1 → P s w →
    𝓔.answers w Req.connect r w' → 0 ≤ r →
    sslOpen.Meets 𝓔 I (fun _ s' w' => Dialing [] s' ∧ P s' w') { s with sk := r } w'

section
variable {𝓔 : Env VcSig VcAttr} {I P : VcAttr → 𝓔.World → Prop} (U : Uniform 𝓔 I P)
  {s : VcAttr} {w : 𝓔.World} {st : St}

include U

theorem Uniform.lasts : Lasts 𝓔 P :=
  Lasts.of_kin U.deaf.still (fun h hs => U.near h hs.toNear) U.mild U.tested

theorem Uniform.yields : Yields 𝓔 P P :=
  ⟨U.lasts, U.lasts, fun _ _ h => h, fun h _ hr => U.tested h hr⟩

theorem Uniform.synced (hup : Up st [.sync] s) (h : P s w) :
    syncAll.wp 𝓔 I (Went P P st [.sync]) s w := by
  refine wp_syncAll (P := fun _ => P) (fun _ => U.yields) U.pause ?_ ?_ ?_ hup h
  · intro _ s w h t k _
    exact U.near h ⟨rfl, rfl⟩
  · intro _ s w w' p hup h _ hs
    exact U.sends h hup.2.2.1 hs
  · intro _ s w w' p hup h _ hs
    exact U.sends h hup.2.2.1 hs

theorem Uniform.replied {buf : Mem} (hbuf : ForSync buf) (hup : Up st [.sync] s) (h : P s w) :
    (syncReply buf).wp 𝓔 I (Went P P st [.sync]) s w := by
  refine wp_syncReply U.yields U.yields U.lasts U.pause ?_ ?_ ?_ ?_ (fun _ _ h => h) ?_ hbuf hup h
  · intro w w' _ h hs
    exact U.near (U.sends h hup.2.2.1 hs) ⟨rfl, rfl⟩
  · intro s w w' hup h hs
    exact U.near (U.sends h hup.2.2.1 hs) ⟨rfl, rfl⟩
  · intro w w' _ h hs
    exact U.near (U.sends h hup.2.2.1 hs) ⟨rfl, rfl⟩
  · intro w w' r _ h hr
    exact U.mild (e := .ioctl .sMCtrl _) rfl h hr
  · intro s w w' p hup h _ hs
    rcases h with h | h
    · exact U.sends h hup.2.2.1 hs
    · exact U.sends h hup.2.2.1 hs

theorem Uniform.speech : Speech 𝓔 I P P P P (fun _ _ => P) where
  deaf := U.deaf
  kinJ := fun h hs => U.near h hs.toNear
  kinC := U.near
  kinB := U.near
  kinH := fun h hs => U.near h hs.toNear
  lastsJ := U.lasts
  lastsC := U.lasts
  lastsB := U.lasts
  lastsS := U.lasts
  weakJ := fun _ _ h => h
  weakC := fun _ _ h => h
  weakS := fun _ _ h => h
  pause := U.pause
  hangs := fun _ => U.hangs
  refused := U.refused
  dialed := by
    intro s w w' r hd hview h hr hret
    refine ⟨Act.wp_mono (U.dialed hd hview h hr hret).wp fun ok s w hq => ⟨hq.1, ?_⟩⟩
    cases ok with
    | true => exact hq.2
    | false => exact hq.2
  chosen := fun _ h => U.near h ⟨rfl, rfl⟩
  opened := fun hd _ h hs => U.near (U.sends h hd.2.1 hs) ⟨rfl, rfl⟩
  unready := fun h _ hr => U.tested h hr
  unopened := fun hs h _ _ hsend => U.sends h hs.2.1 hsend
  unsent := fun hs h _ _ hsend => U.sends h hs.2.1 hsend
  spoke := fun hup h _ hs => U.sends h hup.2.2.1 hs
  requeued := fun hup h _ hs => U.near (U.sends h hup.2.2.1 hs) ⟨rfl, rfl⟩
  synced := fun hup h => ⟨U.synced hup h⟩
  unpurged := fun _ h hr => U.tested h hr
  purged := fun hup h hsend => U.sends h hup.2.2.1 hsend
  unbyed := fun h _ hr => U.tested h hr
  byed := fun hs h hsend => U.sends h hs.2.1 hsend
  wire := U.wire
  handed := fun _ h hr => U.handed h hr
  passed := fun _ h _ => h
  replied := fun hup h hbuf => ⟨U.replied hbuf hup h⟩

end

end AdvVcom
