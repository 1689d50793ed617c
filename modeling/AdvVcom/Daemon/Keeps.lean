/-
# `AdvVcom.Daemon.Keeps` — what an invariant has to survive

Every invariant of the daemon is proved over the same code: handlers that push, pop,
replace and reset the stack while they send, read and wait.  That walk is done once,
here and in `Rounds`, for any environment and any invariant.  What the walk needs to
know about the invariant is the structure `Keeps`, one field for each step that can
matter.  An invariant comes in five strengths:

    J   between any two handlers, and at the end of a round
    S   after OPEN has gone out and before Sync is through
    H   a `recv` operation has been entered and has not looked at the frame yet
    B   enough for an exception to restore J
    I   at every pause

The stack is not the invariant's business.  It has one of these shapes, each with the
variables that go with it:

    Down                   [NetDown]
    Dialing rest           [NetDown] ++ rest   with a socket and an open tty, before OPEN
    Up st top              [NetDown, st] ++ top  with st NetUp or Pause, after OPEN
    Raised                 any stack on NetDown, with a socket
-/
import AdvVcom.Daemon.Rules

namespace AdvVcom

open Lib

/-! ## Shapes -/

/-- `is_open` of the view is 0 or 1. -/
def Legal (s : VcAttr) : Prop := s.view.isOpen = 0 ∨ s.view.isOpen = 1

def Down (s : VcAttr) : Prop :=
  s.stk = [.netdown] ∧ s.sk = -1 ∧ s.tid = 0 ∧ s.xmitPending = 0 ∧ s.eki = ekiReset ∧ Legal s

def Dialing (rest : List St) (s : VcAttr) : Prop :=
  s.stk = .netdown :: rest ∧ 0 ≤ s.sk ∧ s.tid = 0 ∧ s.xmitPending = 0 ∧ s.eki = ekiReset ∧
    s.view.isOpen = 1

def Up (st : St) (top : List St) (s : VcAttr) : Prop :=
  (st = .netup ∨ st = .pause) ∧ s.stk = .netdown :: st :: top ∧ 0 ≤ s.sk ∧ s.eki.isOpen = 1 ∧
    Legal s

def Raised (s : VcAttr) : Prop := (∃ rest, s.stk = .netdown :: rest) ∧ 0 ≤ s.sk ∧ Legal s

/-- The shapes between two rounds. -/
def Calm (s : VcAttr) : Prop := Down s ∨ ∃ st, Up st [] s ∨ Up st [.idle] s

/-- The variables after an exception. -/
def VcAttr.hung (s : VcAttr) : VcAttr :=
  { s with stk := [.netdown], sk := -1, tid := 0, xmitPending := 0, eki := ekiReset }

section
variable {s : VcAttr} {st : St} {top rest : List St}

theorem Up.raised (h : Up st top s) : Raised s := by
  obtain ⟨_, hstk, hsk, _, hlegal⟩ := h
  exact ⟨⟨_, hstk⟩, hsk, hlegal⟩

theorem Dialing.raised (h : Dialing rest s) : Raised s := by
  obtain ⟨hstk, hsk, _, _, _, hview⟩ := h
  exact ⟨⟨rest, hstk⟩, hsk, Or.inr hview⟩

theorem Raised.ne_nil (h : Raised s) : s.stk ≠ [] := by
  obtain ⟨⟨rest, hstk⟩, _, _⟩ := h
  simp [hstk]

theorem Raised.hung (h : Raised s) : Down s.hung := ⟨rfl, rfl, rfl, rfl, rfl, h.2.2⟩

theorem Calm.ne_nil (h : Calm s) : s.stk ≠ [] := by
  rcases h with h | ⟨st, h | h⟩
  · simp [h.1]
  · exact h.raised.ne_nil
  · exact h.raised.ne_nil

/-- Only a change to the stack, the socket, `eki` or the legality of the view can
disturb the shape. -/
theorem Up.of_eq {s' : VcAttr} (h : Up st top s) (hstk : s'.stk = s.stk) (hsk : s'.sk = s.sk)
    (heki : s'.eki.isOpen = s.eki.isOpen) (hview : Legal s') : Up st top s' := by
  obtain ⟨hst, h₁, h₂, h₃, _⟩ := h
  exact ⟨hst, hstk.trans h₁, by omega, heki.trans h₃, hview⟩

theorem Up.getLast (h : Up st [] s) : s.stk.getLast? = some st := by simp [h.2.1]

theorem Up.getLast_top {st' : St} (h : Up st [st'] s) : s.stk.getLast? = some st' := by
  simp [h.2.1]

theorem Up.push {top' : List St} (h : Up st top s) :
    Up st top' { s with stk := .netdown :: st :: top' } :=
  ⟨h.1, rfl, h.2.2⟩

end

/-! ## What an invariant has to survive -/

/-- A packet that changes none of the settings and moves no data. -/
def Pkt.Plain : Pkt → Prop
  | .qfsize _ _ | .setwmask _ _ => True
  | .param _ subcmd => subcmd = VCOM_IOCTL_GET_WAIT_MASK ∨ subcmd = VCOM_IOCTL_WAIT_ON_MASK ∨
      subcmd = VCOM_IOCTL_GET_MODEMSTATUS
  | _ => False

/-- The three steps with which a connection is closed. -/
def closing : M Bool := do
  vcBufClear (ADV_CLR_RX + ADV_CLR_TX)
  vcCommonPurge 0x0000000f
  closeSend

section
variable {𝓔 : Env VcSig VcAttr} (I J B : VcAttr → 𝓔.World → Prop)

/-- How a step ends that raises an exception when it is not `ok`. -/
def Went (st : St) (top : List St) (ok : Bool) (s : VcAttr) (w : 𝓔.World) : Prop :=
  if ok then Up st top s ∧ J s w else Raised s ∧ B s w

/-- How a receive attempt ends.  A frame goes to the `recv` operation of Net Up or Pause,
when Idle is off the stack, and that begins with the mark. -/
def Came (H : Mem → Nat → VcAttr → 𝓔.World → Prop) (st : St) (top : List St) (r : Outcome × Mem)
    (s : VcAttr) (w : 𝓔.World) : Prop :=
  match r.1 with
  | .select => Up st top s ∧ J s w
  | .reset => Raised s ∧ B s w
  | .frame len => HDR_LEN ≤ len ∧ len ≤ RBUF_SIZE ∧ Up st top s ∧
      (hand (r.2.slice 0 len)).wp 𝓔 I (fun _ s w => Up st [] s ∧ H r.2 len s w)
        { s with stk := [.netdown, st] } w

/-- A handler is through. -/
def Settled {α : Type} (_ : α) (s : VcAttr) (w : 𝓔.World) : Prop := Calm s ∧ J s w

end

section
variable {𝓔 : Env VcSig VcAttr} {I J J' B : VcAttr → 𝓔.World → Prop} {s : VcAttr} {w : 𝓔.World}
  {st : St} {top : List St}

/-- One packet, packed, sent and counted. -/
theorem wp_sendNext_went {p : UInt32 → Pkt} (hJB : Yields 𝓔 J B) (hJ' : Lasts 𝓔 J')
    (hBI : ∀ s w, B s w → I s w)
    (hlen : 0 < (p s.tid).plen 1024)
    (hsent : ∀ {w w'}, J s w → Sends 𝓔 w [p s.tid] true w' → J' { s with tid := s.tid + 1 } w')
    (hfail : ∀ {w w'}, J s w → Sends 𝓔 w [p s.tid] false w' → B s w')
    (h : Up st top s) (hj : J s w) : (sendNext p).wp 𝓔 I (Went J' B st top) s w := by
  refine wp_sendNext hlen (wp_vcCheckSend hJB hBI h.raised.ne_nil h.2.2.1 hj ?_ ?_ ?_)
  · intro w w' x hx hj hs
    exact ⟨h, hJ'.ssl (hsent hj hs) x hx⟩
  · intro w w' hj hs
    exact hfail hj hs
  · intro w x hb
    exact ⟨h.raised, hb⟩

/-- One step after another, as long as all goes well. -/
theorem wp_went_and {m m' : M Bool} (hm : m.wp 𝓔 I (Went J B st top) s w)
    (hm' : ∀ {s w}, Up st top s → J s w → m'.wp 𝓔 I (Went J' B st top) s w) :
    (do if ← m then m' else pure false : M Bool).wp 𝓔 I (Went J' B st top) s w := by
  rw [Act.wp_bind]
  refine Act.wp_mono hm fun ok s w hq => ?_
  cases ok with
  | true => exact hm' hq.1 hq.2
  | false => exact hq

/-! ## The socket and the TLS object -/

/-- The TLS object, if there is to be one, is made on a new socket: `N` before, `J` after. -/
theorem wp_sslOpen {N : VcAttr → 𝓔.World → Prop} (hN : Holds 𝓔 N) (hJ : Lasts 𝓔 J)
    (hNI : ∀ s w, N s w → I s w) (hJI : ∀ s w, J s w → I s w)
    (hnew : ∀ {s w w'}, s.ssl.isSome = true → N s w → 𝓔.answers w .sslNew () w' → J s w')
    (hnone : s.ssl.isSome = false → J s w) (h : Dialing [] s) (hn : N s w) :
    sslOpen.wp 𝓔 I (fun _ s w => Dialing [] s ∧ J s w) s w := by
  have hsome {x : Option SslInfo} (f : SslInfo → SslInfo) : (x.map f).isSome = x.isSome := by simp
  simp only [sslOpen, Act.wp_bind, wp_getAttr, Act.wp_ite, wp_modifyAttr, Act.wp_pure]
  split
  · rename_i htls
    have hn₀ := hN.ssl hn _ (hsome fun x => { x with sk := s.sk })
    refine hN.wp_request hNI hn₀ fun _ w₁ w₂ hn₁ hr => ?_
    have hj₂ := hnew ((hsome _).trans htls) hn₁ hr
    refine hJ.wp_mild hJI (e := .sslSetFd) h.2.1 hj₂ fun ok w₃ hj₃ => ?_
    split
    · refine hJ.wp_mild hJI (e := .sslConnect) h.2.1 hj₃ fun r w₄ hj₄ => ?_
      have hj₅ := hJ.ssl hj₄ _ (hsome fun x => { x with connect := SslRet.event r })
      simp only [setConnect, wp_modifyAttr]
      split
      · exact ⟨h, hj₅⟩
      · refine hJ.wp_mild hJI (e := .sslErrStr) h.2.1 hj₅ fun _ w₆ hj₆ => ?_
        exact Act.wp_of_done (stkLog_done h.raised.ne_nil) ⟨h, hj₆⟩
    · exact ⟨h, hj₃⟩
  · rename_i htls
    exact ⟨h, hnone (by simpa using htls)⟩

/-- The TLS object, if there is one, is freed and the socket closed: `F` in between, `E`
in the end. -/
theorem wp_hangUp {F : VcAttr → 𝓔.World → Prop} {E : 𝓔.World → Prop} (hB : Lasts 𝓔 B)
    (hF : Holds 𝓔 F) (hBI : ∀ s w, B s w → I s w) (hFI : ∀ s w, F s w → I s w)
    (hfree : ∀ {w w'}, s.ssl.isSome = true → B s w → 𝓔.answers w .sslFree () w' → F s w')
    (hnone : s.ssl.isSome = false → F s w)
    (hclose : ∀ {w w'}, F s w → 𝓔.answers w .close () w' → E w') (h : Raised s) (hb : B s w) :
    hangUp.wp 𝓔 I (fun _ s' w' => s' = { s with sk := -1 } ∧ E w') s w := by
  have hlast (w) (hf : F s w) : closeSk.wp 𝓔 I (fun _ s' w' =>
      { s' with sk := -1 } = { s with sk := -1 } ∧ E w') s w :=
    hF.wp_request hFI hf fun _ w₁ w₂ hf₁ hr => ⟨rfl, hclose hf₁ hr⟩
  simp only [hangUp, Act.wp_bind, wp_getAttr, Act.wp_ite, wp_modifyAttr]
  rw [if_pos h.2.1]
  split
  · rename_i htls
    refine hB.wp_mild hBI (e := .sslShutdown) h.2.1 hb fun _ w₁ hb₁ => ?_
    refine hB.wp_request hBI hb₁ fun _ w₂ w₃ hb₂ hr => ?_
    exact hlast w₃ (hfree htls hb₂ hr)
  · rename_i htls
    exact hlast w (hnone (by simpa using htls))

end

structure Keeps (𝓔 : Env VcSig VcAttr) (I J S B : VcAttr → 𝓔.World → Prop)
    (H : Mem → Nat → VcAttr → 𝓔.World → Prop) : Prop where
  stableJ : Stable 𝓔 J
  stableS : Stable 𝓔 S
  stableB : Stable 𝓔 B
  stkH : ∀ {buf len s w}, H buf len s w → ∀ l, H buf len { s with stk := l } w
  weakJ : ∀ s w, J s w → B s w
  weakS : ∀ s w, S s w → B s w
  pause : ∀ s w, B s w → I s w
  -- the connection comes and goes
  close : ∀ {s w w'}, Raised s → B s w → 𝓔.answers w Req.close () w' → J s.hung w'
  refused : ∀ {s w w'} {r : Int}, Down s → J s w → 𝓔.answers w Req.connect r w' → r < 0 → J s w'
  dialed : ∀ {s w w'} {r : Int}, Down s → J s w → 𝓔.answers w Req.connect r w' → 0 ≤ r →
    J { s with sk := r } w'
  opened : ∀ {st s w w'}, Dialing [st] s → J s w →
    Sends 𝓔 w [.open 1 s.devid s.port] true w' →
    S { s with tid := s.tid + 1, eki := { s.eki with isOpen := 1 } } w'
  -- sends
  unsent : ∀ {s w w' ps}, Raised s → B s w → Sends 𝓔 w ps false w' → B s w'
  plain : ∀ {st top s w w' p}, Up st top s → J s w → p.Plain → Sends 𝓔 w [p] true w' →
    J { s with tid := s.tid + 1 } w'
  synced : ∀ {st s w}, Up st [.sync] s → S s w → syncAll.Meets 𝓔 I (Went J B st [.sync]) s w
  updated : ∀ {st s w}, Up st [] s → J s w →
    ioctlSend.Meets 𝓔 I (fun r => Went J B st [] (r != some false)) s w
  transmitted : ∀ {st s w}, Up st [] s → J s w → s.xmitPending = 0 → isRbEmpty s.rx = false →
    xmitSend.Meets 𝓔 I (Went J B st []) s w
  -- the proc file
  updRx : ∀ {s w}, Calm s → J s w → vcBufUpdateRx.Meets 𝓔 I
    (fun _ s' w' => (∃ rx, s' = { s with rx := rx }) ∧ J s' w') s w
  updTx : ∀ {s w}, Calm s → J s w → vcBufUpdateTx.Meets 𝓔 I
    (fun _ s' w' => (∃ tx, s' = { s with tx := tx }) ∧ J s' w') s w
  updAttr : ∀ {s w}, Calm s → J s w → vcBufUpdateAttr.Meets 𝓔 I
    (fun _ s' w' => (∃ v, s' = { s with view := v }) ∧ Legal s' ∧ J s' w') s w
  clearDown : ∀ {s w}, Down s → J s w →
    (vcBufClear ADV_CLR_RX).Meets 𝓔 I (fun _ s w => Down s ∧ J s w) s w
  clearIdle : ∀ {st s w}, Up st [.idle] s → J s w →
    (vcBufClear ADV_CLR_RX).Meets 𝓔 I (fun _ s w => Raised s ∧ B s w) s w
  closed : ∀ {st top s w}, Up st top s → J s w → s.view.isOpen = 0 →
    closing.Meets 𝓔 I (fun _ s w => Raised s ∧ B s w) s w
  -- frames
  received : ∀ {st top s w} (buf : Mem), Up st top s → J s w →
    (vcRecvFrame buf).Meets 𝓔 I (Came I J B H st top) s w
  passed : ∀ {st top s w buf len}, Up st top s → H buf len s w →
    hdrCmd buf ≠ VCOM_CMD_DATAREADY → hdrCmd buf ≠ VCOM_CMD_WRITE → J s w
  stored : ∀ {st s w buf len}, Up st [] s → H buf len s w → hdrCmd buf = VCOM_CMD_DATAREADY →
    (recvData buf).Meets 𝓔 I (Went J B st []) s w
  answered : ∀ {st s w buf} {len : Nat}, Up st [] s → H buf len s w →
    hdrCmd buf = VCOM_CMD_WRITE → (recvWrite buf len).Meets 𝓔 I (Went J B st []) s w

section
variable {𝓔 : Env VcSig VcAttr} {I J S B : VcAttr → 𝓔.World → Prop}
  {H : Mem → Nat → VcAttr → 𝓔.World → Prop} (K : Keeps 𝓔 I J S B H)
  {s : VcAttr} {w : 𝓔.World} {st : St} {top : List St}

include K

theorem Keeps.pauseJ (s : VcAttr) (w : 𝓔.World) (h : J s w) : I s w := K.pause s w (K.weakJ s w h)

/-! ## Exceptions -/

theorem Keeps.hangUp_hung (h : Raised s) (hb : B s w) :
    hangUp.wp 𝓔 I (fun _ s' w' => s' = { s with sk := -1 } ∧ J s.hung w') s w :=
  wp_hangUp K.stableB.lasts K.stableB.lasts.toHolds K.pause K.pause
    (fun _ hb hr => K.stableB.quiet (e := .sslFree) trivial hb hr) (fun _ => hb)
    (fun hb hr => K.close h hb hr) h hb

/-! ## Sends that change nothing -/

theorem Keeps.sendNext_plain {p : UInt32 → Pkt} (h : Up st top s) (hj : J s w)
    (hp : (p s.tid).Plain) (hlen : 0 < (p s.tid).plen 1024) :
    (sendNext p).wp 𝓔 I (Went J B st top) s w :=
  wp_sendNext_went (K.stableJ.yields K.stableB K.weakJ) K.stableJ.lasts K.pause hlen
    (fun hj hs => K.plain h hj hp hs)
    (fun hj hs => K.unsent h.raised (K.weakJ _ _ hj) hs) h hj

theorem Keeps.syncEvent_plain (h : Up st top s) (hj : J s w) :
    syncEvent.wp 𝓔 I (Went J B st top) s w := by
  refine wp_went_and (K.sendNext_plain h hj trivial (by simp)) fun h hj => ?_
  exact K.sendNext_plain (p := (.param · VCOM_IOCTL_GET_MODEMSTATUS)) h hj (Or.inr (Or.inr rfl))
    (by simp)

/-! ## A handshake and an answer -/

theorem Keeps.sslOpen_dialing (h : Dialing [] s) (hj : J s w) :
    sslOpen.wp 𝓔 I (fun _ s w => Dialing [] s ∧ J s w) s w :=
  wp_sslOpen K.stableJ.lasts.toHolds K.stableJ.lasts K.pauseJ K.pauseJ
    (fun _ hj hr => K.stableJ.quiet (e := .sslNew) trivial hj hr) (fun _ => hj) h hj

theorem Keeps.syncReply_went (h : Up st [.sync] s) (hj : J s w) (buf : Mem) :
    (syncReply buf).wp 𝓔 I (Went J B st [.sync]) s w := by
  simp only [syncReply, Act.wp_ite, Act.wp_bind, Act.wp_pure]
  split
  · exact K.syncEvent_plain h hj
  split
  · exact K.sendNext_plain (p := (.param · VCOM_IOCTL_WAIT_ON_MASK)) h hj (Or.inr (Or.inl rfl))
      (by simp)
  split
  · refine K.stableJ.wp_quiet K.pauseJ (e := .ioctl .sMCtrl _) (Or.inr rfl) hj
      fun (r : Option Int) w₁ hj₁ => ?_
    cases r with
    | none => exact ⟨h.raised, K.weakJ _ _ hj₁⟩
    | some v => exact ⟨h, hj₁⟩
  · exact ⟨h, hj⟩

end

end AdvVcom
