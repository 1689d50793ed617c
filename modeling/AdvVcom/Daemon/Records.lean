/-
# `AdvVcom.Daemon.Records` — environments that keep a record of the connection

An environment of this kind answers anything.  It starts a new record at every successful
`connect` and takes down attempts to send, tests that found the socket not ready, and the
frames handed on; what it does then is the `Records` structure's.  Views are open or
closed, as the driver writes them.

`Tells` is `Speech` for such an environment: what the socket, the TLS calls and the proc
file do to the record (nothing) has been left out.
-/
import AdvVcom.Daemon.Speech

namespace AdvVcom

open Lib

structure Records (W : Type) where
  send : W → List Pkt → Bool → W → Prop
  unready : W → W → Prop
  hand : W → List UInt8 → W → Prop
  fresh : W

namespace Records

variable {W : Type} (R : Records W)

def answers (w : W) : (e : Req) → e.Rep → W → Prop
  | .send ps, (ok : Bool), w' => R.send w ps ok w'
  | .sslSend ps, (r : SslRet), w' => R.send w ps (decide (r = .ok)) w'
  | .fdcheck, (ready : Bool), w' => if ready then w' = w else R.unready w w'
  | .hand f, _, w' => R.hand w f w'
  | .connect, (r : Int), w' => w' = if 0 ≤ r then R.fresh else w
  | .attrPtr, r, w' => w' = w ∧ ∀ v : PortInfo, r = some v → v.isOpen = 0 ∨ v.isOpen = 1
  | _, _, w' => w' = w

abbrev env : Env VcSig VcAttr where
  World := W
  answers := R.answers
  drift := fun _ _ _ => False

variable {R} {s : VcAttr} {w w' : W} {e : Req} {r : e.Rep}

theorem send_of_sends {ps : List Pkt} {ok : Bool} (h : Sends R.env w ps ok w') : R.send w ps ok w' := by
  rcases h with h | ⟨r, h, rfl⟩
  · exact h
  · exact h

theorem deaf {B : VcAttr → W → Prop} : Deaf R.env B where
  still := id
  proc := by
    intro s w w' e r _ he hr
    cases e with
    | ioctl | copyTx | readRx => exact hr
    | _ => exact he.elim
  view := fun _ hr => hr

theorem mild (he : e.Mild s) (hr : R.answers w e r w') : w' = w := by
  cases e with
  | selRd | ioctl | sslSetFd | sslConnect | sslErrStr | sslShutdown => exact hr
  | _ => exact he.elim

/-- Main's own requests are not on record. -/
theorem endures {P : VcAttr → W → Prop} : Endures R.env P where
  armed := fun {_ w w' _ _} h hr => by
    rw [show w' = w from hr]
    exact h
  asked := fun {_ w w' _} h hr => by
    rw [show w' = w from hr]
    exact h
  waited := fun {_ w w' _ _ _} h hr => by
    rw [show w' = w from hr]
    exact h

theorem wire (he : e.OnWire) (hr : R.answers w e r w') : w' = w := by
  cases e with
  | recv | sslRecv | sslRecvSimple => exact hr
  | _ => exact he.elim

/-- What looks at no more than `Kin` lasts. -/
theorem lasts {P : VcAttr → W → Prop} (hkin : ∀ {s s' w}, P s w → Kin s s' → P s' w) :
    Lasts R.env P := by
  refine Lasts.of_kin id hkin ?_ ?_
  · intro s w w' e r he h hr
    rw [mild he hr]
    exact h
  · intro s w w' h hr
    rw [show w' = w from hr]
    exact h

/-! ## The connection comes and goes -/

section
variable {I J B : VcAttr → W → Prop}

theorem hangUp_hung (hB : Lasts R.env B) (hBI : ∀ s w, B s w → I s w)
    (hung : ∀ {w}, B s w → J s.hung w) (hs : Raised s) (hb : B s w) :
    hangUp.wp R.env I (fun _ s' w' => s' = { s with sk := -1 } ∧ J s.hung w') s w := by
  refine wp_hangUp hB hB.toHolds hBI hBI ?_ (fun _ => hb) ?_ hs hb
  · intro w w' _ hb hr
    rw [show w' = w from hr]
    exact hb
  · intro w w' hb hr
    rw [show w' = w from hr]
    exact hung hb

theorem refused {P : W → Prop} {r : Int} (h : P w) (hr : R.answers w .connect r w') (hneg : r < 0) :
    P w' := by
  rw [show w' = if 0 ≤ r then R.fresh else w from hr, if_neg (by omega)]
  exact h

/-- A new socket starts a new record. -/
theorem dialed {r : Int} (hJ : Lasts R.env J) (hJB : ∀ s w, J s w → B s w)
    (hBI : ∀ s w, B s w → I s w) (hd : Down s) (hview : s.view.isOpen = 1)
    (hr : R.answers w .connect r w') (hret : 0 ≤ r) (hj : J { s with sk := r } R.fresh) :
    sslOpen.wp R.env I (fun ok s' w' => Dialing [] s' ∧ if ok then J s' w' else B s' w')
      { s with sk := r } w' := by
  rw [show w' = if 0 ≤ r then R.fresh else w from hr, if_pos hret]
  have hJI (s w) (hj : J s w) : I s w := hBI s w (hJB s w hj)
  obtain ⟨hstk, -, htid, hpend, heki, -⟩ := hd
  have hopen : sslOpen.wp R.env I (fun _ s w => Dialing [] s ∧ J s w) { s with sk := r } R.fresh := by
    refine wp_sslOpen hJ.toHolds hJ hJI hJI ?_ (fun _ => hj) ⟨hstk, hret, htid, hpend, heki, hview⟩ hj
    intro s w w' _ hj hr
    rw [show w' = w from hr]
    exact hj
  refine Act.wp_mono hopen fun ok s w hq => ⟨hq.1, ?_⟩
  cases ok with
  | true => exact hq.2
  | false => exact hJB _ _ hq.2

end

end Records

/-! ## What is left to check -/

structure Tells {W : Type} (R : Records W) (I J S C B : VcAttr → W → Prop)
    (H : Mem → Nat → VcAttr → W → Prop) : Prop where
  kinJ : ∀ {s s' w}, J s w → Kin s s' → J s' w
  kinC : ∀ {s s' w}, C s w → Near s s' → C s' w
  kinB : ∀ {s s' w}, B s w → Near s s' → B s' w
  kinH : ∀ {buf len s s' w}, H buf len s w → Kin s s' → H buf len s' w
  lastsS : Lasts R.env S
  weakJ : ∀ s w, J s w → B s w
  weakC : ∀ s w, C s w → B s w
  weakS : ∀ s w, S s w → B s w
  pause : ∀ s w, B s w → I s w
  -- the connection comes and goes
  hung : ∀ {s w}, Raised s → B s w → J s.hung w
  dialed : ∀ {s} {r : Int}, Down s → 0 ≤ r → J { s with sk := r } R.fresh
  chosen : ∀ {s w}, Dialing [] s → J s w → J { s with stk := [.netdown, upState s.tx] } w
  opened : ∀ {st s w w'}, Dialing [st] s → st = upState s.tx → J s w →
    R.send w [.open 1 s.devid s.port] true w' →
    S { s with tid := s.tid + 1, eki := { s.eki with isOpen := 1 } } w'
  -- sends
  unready : ∀ {s w w'}, J s w → 0 ≤ s.sk → R.unready w w' → B s w'
  unopened : ∀ {s w w' p}, Raised s → J s w → s.eki.isOpen = 0 → p.IsCreate →
    R.send w [p] false w' → B s w'
  unsent : ∀ {s w w' ps}, Raised s → J s w → s.eki.isOpen = 1 → (∀ p ∈ ps, p.Running) →
    R.send w ps false w' → B s w'
  spoke : ∀ {st top s w w' ps}, Up st top s → J s w → (∀ p ∈ ps, p.Common) →
    R.send w ps true w' → J s w'
  requeued : ∀ {st st' s w w' n}, Up st [] s → J s w → Requeues st n st' →
    R.send w [.qfsize s.tid n] true w' → J { s with tid := s.tid + 1, stk := [.netdown, st'] } w'
  synced : ∀ {st s w}, Up st [.sync] s → S s w → syncAll.Meets R.env I (Went J B st [.sync]) s w
  unpurged : ∀ {st top s w w'}, Up st top s → J s w → R.unready w w' → C s w'
  purged : ∀ {st top s w w' tid flags ok}, Up st top s → J s w →
    R.send w [.purge tid flags] ok w' → C s w'
  unbyed : ∀ {s w w'}, C s w → R.unready w w' → B s w'
  byed : ∀ {s w w' tid ok}, C s w → R.send w [.close tid] ok w' → B s w'
  -- frames
  handed : ∀ {st top s w w' buf}, Up st top s → J s w →
    R.hand w (buf.slice 0 (HDR_LEN + hdrLen buf)) w' → H buf (HDR_LEN + hdrLen buf) s w'
  passed : ∀ {st s w buf len}, Up st [] s → H buf len s w → ¬ ForSync buf → J s w
  replied : ∀ {st s w buf len}, Up st [.sync] s → H buf len s w → ForSync buf →
    (syncReply buf).Meets R.env I (Went J B st [.sync]) s w

section
variable {W : Type} {R : Records W} {I J S C B : VcAttr → W → Prop}
  {H : Mem → Nat → VcAttr → W → Prop} (T : Tells R I J S C B H) {s : VcAttr} {w w' : W}

include T

theorem Tells.lastsJ : Lasts R.env J := Records.lasts T.kinJ

theorem Tells.lastsB : Lasts R.env B := Records.lasts fun h hs => T.kinB h hs.toNear

theorem Tells.speech : Speech R.env I J S C B H where
  deaf := Records.deaf
  kinJ := T.kinJ
  kinC := T.kinC
  kinB := T.kinB
  kinH := T.kinH
  lastsJ := T.lastsJ
  lastsC := Records.lasts fun h hs => T.kinC h hs.toNear
  lastsB := T.lastsB
  lastsS := T.lastsS
  weakJ := T.weakJ
  weakC := T.weakC
  weakS := T.weakS
  pause := T.pause
  hangs := fun _ hs hb => ⟨Records.hangUp_hung T.lastsB T.pause (T.hung hs) hs hb⟩
  refused := fun _ h hr hneg => Records.refused h hr hneg
  dialed := fun hd hview _ hr hret =>
    ⟨Records.dialed T.lastsJ T.weakJ T.pause hd hview hr hret (T.dialed hd hret)⟩
  chosen := T.chosen
  opened := fun hd hst hj hs => T.opened hd hst hj (Records.send_of_sends hs)
  unready := T.unready
  unopened := fun h hj hopen hp hs => T.unopened h hj hopen hp (Records.send_of_sends hs)
  unsent := fun h hj hopen hps hs => T.unsent h hj hopen hps (Records.send_of_sends hs)
  spoke := fun h hj hps hs => T.spoke h hj hps (Records.send_of_sends hs)
  requeued := fun h hj hq hs => T.requeued h hj hq (Records.send_of_sends hs)
  synced := T.synced
  unpurged := T.unpurged
  purged := fun h hj hs => T.purged h hj (Records.send_of_sends hs)
  unbyed := fun hc _ hr => T.unbyed hc hr
  byed := fun _ hc hs => T.byed hc (Records.send_of_sends hs)
  wire := by
    intro s w w' e r he h _ hr
    rw [Records.wire he hr]
    exact h
  handed := T.handed
  passed := T.passed
  replied := T.replied

/-- Every configuration of every run. -/
theorem Tells.run {w₀ : W} {buf : Mem} (hs : Fresh s) (h : J s.hung w₀)
    {p : Proc VcSig VcAttr (Option LoopState)}
    (hreach : R.env.Reach iteration (mainStart buf s) w₀ p w) : p.wp R.env I (Settled J) w :=
  T.speech.run Records.endures hs h hreach

end

end AdvVcom
