/-
# `AdvVcom.Daemon.Mirror` — whole runs with the packets of the connection

The environment `recording` answers anything, gives only views the driver writes,
and keeps the packets that went out since the last successful `connect`; of a send
that failed any leading packets may have gone out.  Over its runs `eki` mirrors
`devOf` of what it has kept.

**Proved here.**

    the mirror over whole runs, and what one pass of settings does
                                                              (`settings_mirror`)
-/
import AdvVcom.Daemon.Settings
import AdvVcom.Daemon.Stack

namespace AdvVcom

open Lib

/-! ## The environment -/

/-- The record after a send. -/
def Recorded (w ps : List Pkt) (ok : Bool) (w' : List Pkt) : Prop :=
  if ok then w' = w ++ ps else ∃ k, w' = w ++ ps.take k

def recordingAnswers (w : List Pkt) : (e : Req) → e.Rep → List Pkt → Prop
  | .send ps, (ok : Bool), w' => Recorded w ps ok w'
  | .sslSend ps, (r : SslRet), w' => Recorded w ps (decide (r = .ok)) w'
  | .connect, (r : Int), w' => w' = if 0 ≤ r then [] else w
  | .attrPtr, r, w' => w' = w ∧ ∀ v : PortInfo, r = some v → Driven v
  | _, _, w' => w' = w

abbrev recording : Env VcSig VcAttr where
  World := List Pkt
  answers := recordingAnswers
  drift := fun _ _ _ => False

theorem recorded_of_sends {w w' : List Pkt} {ps : List Pkt} {ok : Bool}
    (h : Sends recording w ps ok w') : Recorded w ps ok w' := by
  rcases h with h | ⟨r, h, rfl⟩
  · exact h
  · exact h

/-- Packets that set nothing leave the device as it is, sent or not. -/
theorem Recorded.idle {w w' ps : List Pkt} {ok : Bool} (h : Recorded w ps ok w')
    (hidle : ∀ p ∈ ps, ∀ d : Dev, d.apply p = d) : devOf w' = devOf w := by
  cases ok with
  | true =>
      rw [show w' = w ++ ps from h]
      exact devOf_idle hidle
  | false =>
      obtain ⟨k, rfl⟩ := h
      exact devOf_idle fun p hp => hidle p (List.mem_of_mem_take hp)

/-! ## The invariant -/

/-- The view is the driver's, and on an open connection `eki` mirrors the device. -/
def Mirrored (s : VcAttr) (w : List Pkt) : Prop :=
  Driven s.view ∧ (0 ≤ s.sk → s.eki.isOpen = 1 → Mirrors s.eki (devOf w))

/-- After OPEN: every setting is at its reset marker. -/
def JustOpened (s : VcAttr) (_ : List Pkt) : Prop :=
  Driven s.view ∧ s.eki = { ekiReset with isOpen := 1 }

theorem Mirrored.of_dev {s : VcAttr} {w w' : List Pkt} (h : Mirrored s w) (hdev : devOf w' = devOf w) :
    Mirrored s w' := by
  refine ⟨h.1, fun hsk hopen => ?_⟩
  rw [hdev]
  exact h.2 hsk hopen

/-- The data path sends no settings. -/
theorem recording_idle {w w' : List Pkt} {e : Req} {r : e.Rep} (he : e.Quiet ∨ e.OfData)
    (hr : recordingAnswers w e r w') : devOf w' = devOf w := by
  have htalk {ps : List Pkt} (h : (∀ p ∈ ps, p.IsXmit) ∨ ∀ p ∈ ps, p.IsBye) :
      ∀ p ∈ ps, ∀ d : Dev, d.apply p = d := by
    intro p hp d
    rcases h with h | h
    · exact (h p hp).idle d
    · exact (h p hp).idle d
  cases e with
  | send ps =>
      rcases he with he | he | he | he | he
      · exact he.elim
      · exact he.elim
      · cases he
      · exact Recorded.idle hr (htalk (Or.inl he))
      · exact Recorded.idle hr (htalk (Or.inr he))
  | sslSend ps =>
      rcases he with he | he | he | he | he
      · exact he.elim
      · exact he.elim
      · cases he
      · exact Recorded.idle hr (htalk (Or.inl he))
      · exact Recorded.idle hr (htalk (Or.inr he))
  | connect =>
      rcases he with he | he | he | he | he
      · exact he.elim
      · exact he.elim
      · cases he
      · exact he.elim
      · exact he.elim
  | attrPtr => rw [hr.1]
  | _ => exact congrArg devOf hr

theorem recording_aloof : Aloof recording Mirrored (fun s _ => Driven s.view) where
  only := by
    intro s s' w h hsk heki hview
    refine ⟨hview ▸ h.1, fun hsk' hopen => ?_⟩
    rw [heki] at hopen ⊢
    exact h.2 (by omega) hopen
  weak := fun h hview => hview ▸ h.1
  drift := fun h => h.elim
  quiet := fun he hr h => h.of_dev (recording_idle he hr)
  only_weak := fun h hview => hview ▸ h
  drift_weak := fun h => h.elim
  quiet_weak := fun _ _ h => h
  view := by
    intro s w w' v hr h
    obtain ⟨rfl, hdriven⟩ := hr
    have hv := hdriven v rfl
    exact ⟨hv.isOpen, hv, h.2⟩

/-- An assertion about `eki`, the view, the socket and the device. -/
theorem recording_stable {P : VcAttr → List Pkt → Prop}
    (only : ∀ {s s' w w'}, P s w → s'.sk = s.sk → s'.eki = s.eki → s'.view = s.view →
      devOf w' = devOf w → P s' w') : Stable recording P where
  drift := fun _ h => h.elim
  quiet := fun he h hr => only h rfl rfl rfl (recording_idle (Or.inl he) hr)
  ssl := fun h _ _ => only h rfl rfl rfl rfl
  stk := fun h _ => only h rfl rfl rfl rfl

theorem mirrored_stable : Stable recording Mirrored := recording_aloof.stable

theorem driven_stable : Stable recording fun s _ => Driven s.view := recording_aloof.stable_weak

/-! ## Sync -/

theorem Mirrored.plain {s : VcAttr} {w w' : List Pkt} {p : Pkt} (h : Mirrored s w) (hp : p.Plain)
    (hs : Sends recording w [p] true w') : Mirrored s w' :=
  h.of_dev ((recorded_of_sends hs).idle (by simpa using hp.idle))

/-- A plain packet, once the mirror is there. -/
theorem mirrored_sendNext {s : VcAttr} {w : List Pkt} {st : St} {top : List St} {p : UInt32 → Pkt}
    (hp : ∀ tid, (p tid).Plain) (hlen : ∀ tid, 0 < (p tid).plen 1024) (h : Up st top s)
    (hj : Mirrored s w) : (sendNext p).wp recording (fun s _ => Driven s.view)
      (Went Mirrored (fun s _ => Driven s.view) st top) s w :=
  wp_sendNext_went (mirrored_stable.yields driven_stable fun _ _ h => h.1) mirrored_stable.lasts
    (fun _ _ h => h) (hlen _)
    (fun hj hs => hj.plain (hp _) hs) (fun hj _ => hj.1) h hj

/-- Sync tells the device both lines; the rest of it sets nothing. -/
theorem mirrored_synced {s : VcAttr} {w : List Pkt} {st : St} (h : Up st [.sync] s)
    (hj : JustOpened s w) : syncAll.wp recording (fun s _ => Driven s.view)
      (Went Mirrored (fun s _ => Driven s.view) st [.sync]) s w := by
  let P₁ : VcAttr → List Pkt → Prop := fun s' w =>
    JustOpened s' w ∧ (devOf w).rts = some (decide (s.view.ms &&& ADV_MS_RTS ≠ 0))
  let P₂ : VcAttr → List Pkt → Prop := fun s' w =>
    P₁ s' w ∧ (devOf w).dtr = some (decide (s.view.ms &&& ADV_MS_DTR ≠ 0))
  have hstable₀ : Stable recording JustOpened :=
    recording_stable fun h _ heki hview _ => ⟨hview ▸ h.1, heki.trans h.2⟩
  have hstable₁ : Stable recording P₁ :=
    recording_stable fun h _ heki hview hdev => ⟨⟨hview ▸ h.1.1, heki.trans h.1.2⟩, hdev ▸ h.2⟩
  have hstable₂ : Stable recording P₂ := recording_stable fun h _ heki hview hdev =>
    ⟨⟨⟨hview ▸ h.1.1.1, heki.trans h.1.1.2⟩, hdev ▸ h.1.2⟩, hdev ▸ h.2⟩
  have hms : (syncMs s.view.ms).wp recording (fun s _ => Driven s.view)
      (Went P₂ (fun s _ => Driven s.view) st [.sync]) s w := by
    refine wp_went_and (J := P₁) ?_ ?_
    · refine wp_sendNext_went (hstable₀.yields driven_stable fun _ _ h => h.1) hstable₁.lasts
        (fun _ _ h => h) (by simp [rtsPkt]) ?_ (fun hj _ => hj.1) h hj
      intro w w' hj hs
      refine ⟨hj, ?_⟩
      have hw : w' = w ++ [rtsPkt s.tid s.view.ms] := recorded_of_sends hs
      rw [hw, devOf_append, List.foldl_cons, List.foldl_nil, apply_rtsPkt]
    · intro s₁ w₁ h₁ hj₁
      refine wp_sendNext_went (hstable₁.yields driven_stable fun _ _ h => h.1.1) hstable₂.lasts
        (fun _ _ h => h)
        (by simp [dtrPkt]) ?_ (fun hj _ => hj.1.1) h₁ hj₁
      intro w w' hj hs
      have hw : w' = w ++ [dtrPkt s₁.tid s.view.ms] := recorded_of_sends hs
      have hdev : devOf w' = (devOf w).apply (dtrPkt s₁.tid s.view.ms) := by
        rw [hw, devOf_append, List.foldl_cons, List.foldl_nil]
      rw [apply_dtrPkt] at hdev
      exact ⟨⟨hj.1, by rw [hdev]; exact hj.2⟩, by rw [hdev]⟩
  simp only [syncAll, Act.wp_bind, wp_getAttr]
  refine Act.wp_mono hms fun ok s₁ w₁ hq => ?_
  cases ok with
  | false => exact hq
  | true =>
      obtain ⟨h₁, ⟨⟨hdriven, heki⟩, hrts⟩, hdtr⟩ := hq
      rw [if_pos rfl, Act.wp_bind, wp_modifyAttr]
      have hj₁ : Mirrored { s₁ with eki := { s₁.eki with ms := s.view.ms } } w₁ := by
        refine ⟨hdriven, fun _ _ => ⟨Or.inl ?_, Or.inl ?_, Or.inl ?_, hrts, hdtr⟩⟩
        · simp [heki]
        · simp [heki]
        · simp [heki]
      refine wp_went_and (J := Mirrored) (wp_went_and (J := Mirrored) ?_ ?_) ?_
      · exact mirrored_sendNext (fun _ => trivial) (by simp) h₁ hj₁
      · intro s w h hj
        exact mirrored_sendNext (fun _ => Or.inr (Or.inr rfl)) (by simp) h hj
      · intro s w h hj
        simp only [syncQueue, Act.wp_bind, wp_getAttr]
        exact mirrored_sendNext (fun _ => trivial) (by simp) h hj

/-! ## Settings -/

/-- A round of settings: `eki` runs ahead of the device until the send is through. -/
theorem mirrored_updated {s : VcAttr} {w : List Pkt} {st : St} (h : Up st [] s) (hj : Mirrored s w) :
    ioctlSend.wp recording (fun s _ => Driven s.view)
      (fun r => Went Mirrored (fun s _ => Driven s.view) st [] (r != some false)) s w := by
  obtain ⟨htame, hsteady⟩ := ioctlRound_steady s
  have hround := (hj.2 h.2.2.1 h.2.2.2.1).round hj.1
  have hup := hsteady.up h
  have hdriven : Driven (ioctlRound s).2.view := hsteady.view ▸ hj.1
  simp only [ioctlSend, Act.wp_bind, wp_getAttr, wp_modifyAttr, Act.wp_ite, Act.wp_pure]
  generalize ioctlRound s = r at *
  split
  · rename_i hlen
    have hnil : r.1 = [] := by
      by_contra hne
      exact absurd (plenOf_pos htame hne) (by omega)
    rw [hnil, List.append_nil] at hround
    exact ⟨hup, hdriven, fun _ _ => hround⟩
  · -- until then the device is where it was before the round
    let P : VcAttr → List Pkt → Prop := fun s w' => Driven s.view ∧ devOf w' = devOf w
    have hP : Stable recording P :=
      recording_stable fun h _ _ hview hdev => ⟨hview ▸ h.1, hdev.trans h.2⟩
    refine wp_vcCheckSend (hP.yields driven_stable fun _ _ h => h.1) (fun _ _ h => h)
      hup.raised.ne_nil hup.2.2.1 (show P r.2 w from ⟨hdriven, rfl⟩) ?_ (fun _ _ h _ => h.1) ?_
    · intro w₁ w₂ x _ hp hs
      refine ⟨hup, hdriven, fun _ _ => ?_⟩
      have hw : w₂ = w₁ ++ r.1 := recorded_of_sends hs
      rw [hw, devOf_append, hp.2, ← devOf_append]
      exact hround
    · intro w x hb
      exact ⟨hup.raised, hb⟩

/-! ## Whole runs -/

theorem recording_keeps : Keeps recording (fun s _ => Driven s.view) Mirrored JustOpened
    (fun s _ => Driven s.view) (fun _ _ => Mirrored) := by
  refine recording_aloof.keeps ?_ (fun _ _ h => h.1) ?_ ?_ ?_ ?_ (fun h _ => h) ?_
    (fun h hj => ⟨mirrored_synced h hj⟩) (fun h hj => ⟨mirrored_updated h hj⟩) ?_
  · exact recording_stable fun h _ heki hview _ => ⟨hview ▸ h.1, heki.trans h.2⟩
  · intro s w w' hb _
    exact ⟨hb, fun hsk => absurd hsk (by simp [VcAttr.hung])⟩
  · intro s w w' r h hj _ _
    exact ⟨hj.1, fun hsk => absurd hsk (by rw [h.2.1]; decide)⟩
  · intro s w w' r h hj _ _
    refine ⟨hj.1, fun _ hopen => absurd hopen ?_⟩
    simp [h.2.2.2.2.1, ekiReset, PortInfo.zero]
  · intro st s w w' h hj _
    exact ⟨hj.1, by rw [h.2.2.2.2.1]⟩
  · intro s w w' p _ hj hp hs
    exact hj.plain hp hs
  · intro st top s w buf h hj
    refine recording_aloof.received ?_ ?_ buf h hj
    · intro s w w' e r he hr hj
      refine hj.of_dev ?_
      cases e with
      | recv | sslRecv | sslRecvSimple => exact congrArg devOf hr
      | _ => exact he.elim
    · intro s w w' f hr hj
      exact hj.of_dev (congrArg devOf hr)

/-! ## A pass in which every send succeeds -/

/-- A peer that takes every packet. -/
def allSent (w : List Pkt) : (e : Req) → Option (e.Rep × List Pkt)
  | .fdcheck => some (true, w)
  | .send ps => some (true, w ++ ps)
  | .sslSend ps => some (SslRet.ok, w ++ ps)
  | _ => none

theorem exec_vcCheckSend (s : VcAttr) (ps w : List Pkt) :
    ∃ x, (vcCheckSend ps s).exec allSent w = some (true, { s with ssl := x }, w ++ ps) := by
  obtain ⟨sk, pend, ssl, port, tid, devid, stk, eki, view, tx, rx⟩ := s
  cases ssl with
  | none => exact ⟨none, rfl⟩
  | some x => exact ⟨some { x with send := ⟨false, false⟩ }, rfl⟩

/-- A round with nothing to send makes no request. -/
theorem ioctlSend_none {s : VcAttr} (h : (ioctlRound s).1 = []) :
    ioctlSend s = .done none (ioctlRound s).2 := by
  show (if plenOf (ioctlRound s).1 ≤ 0 then pure none else _ : M (Option Bool)) (ioctlRound s).2 = _
  rw [if_pos (by rw [h]; decide)]
  rfl

theorem exec_ioctlSend {s : VcAttr} (h : (ioctlRound s).1 ≠ []) (w : List Pkt) :
    ∃ x, (ioctlSend s).exec allSent w = some (some true,
      { (ioctlRound s).2 with ssl := x, tid := (ioctlRound s).2.tid + 1 },
      w ++ (ioctlRound s).1) := by
  have hpos := plenOf_pos (ioctlRound_steady s).1 h
  obtain ⟨x, hx⟩ := exec_vcCheckSend (ioctlRound s).2 (ioctlRound s).1 w
  refine ⟨x, ?_⟩
  show Proc.exec allSent ((if plenOf (ioctlRound s).1 ≤ 0 then pure none else
    (vcCheckSend (ioctlRound s).1 >>= _) : M (Option Bool)) (ioctlRound s).2) w = _
  rw [if_neg (by omega), Act.bind_apply, Proc.exec_bind, hx]
  rfl

/-- What a pass ends in, with any number of rounds above `n`. -/
def Passes (n : Nat) (s : VcAttr) (w : List Pkt) : Prop :=
  ∃ s' ps, (∀ call count, n < count →
      (ioctlLoop call count s).exec allSent w = some ((), s', w ++ ps)) ∧
    Steady s s' ∧ InSync s' ∧ Mirrors s'.eki (devOf (w ++ ps))

theorem passes_last {s : VcAttr} {w : List Pkt} (n : Nat) (hnil : (ioctlRound s).1 = [])
    (hne : s.stk ≠ []) (hv : Driven s.view) (hm : Mirrors s.eki (devOf w)) : Passes n s w := by
  obtain ⟨-, hsteady⟩ := ioctlRound_steady s
  refine ⟨(ioctlRound s).2, (ioctlRound s).1, ?_, hsteady, inSync_of_nil hnil, hm.round hv⟩
  intro call count hcount
  obtain ⟨count, rfl⟩ := Nat.exists_eq_add_of_lt hcount
  rw [ioctlLoop, Act.bind_apply, ioctlSend_none hnil, hnil, List.append_nil]
  show Proc.exec allSent (retCurnt (ioctlRound s).2) w = _
  rw [retCurnt_done (by rw [hsteady.stk]; exact hne)]
  rfl

/-- A pass needs one round for each group that differs, and one to notice. -/
theorem passes (n : Nat) : ∀ {s : VcAttr} {w : List Pkt}, behind s ≤ n → s.stk ≠ [] →
    Driven s.view → Mirrors s.eki (devOf w) → Passes n s w := by
  induction n with
  | zero =>
      intro s w hbehind hne hv hm
      refine passes_last 0 ?_ hne hv hm
      by_contra hsend
      have := behind_round hsend
      omega
  | succ n ih =>
      intro s w hbehind hne hv hm
      by_cases hnil : (ioctlRound s).1 = []
      · exact passes_last (n + 1) hnil hne hv hm
      have hcloser := behind_round hnil
      have hround := hm.round hv
      obtain ⟨x, hx⟩ := exec_ioctlSend hnil w
      obtain ⟨-, hsteady⟩ := ioctlRound_steady s
      have hsteady' := hsteady.touch x ((ioctlRound s).2.tid + 1) (ioctlRound s).2.eki rfl
      generalize ioctlRound s = r at *
      have hbehind' : behind { r.2 with ssl := x, tid := r.2.tid + 1 } ≤ n := by
        show behind r.2 ≤ n
        omega
      obtain ⟨s', ps, hrun, hs', hsync, hm'⟩ := ih hbehind' (by rw [hsteady'.stk]; exact hne)
        (by rw [hsteady'.view]; exact hv) hround
      refine ⟨s', r.1 ++ ps, ?_, hsteady'.trans hs', hsync, by rwa [← List.append_assoc]⟩
      intro call count hcount
      obtain ⟨count, rfl⟩ := Nat.exists_eq_add_of_lt hcount
      rw [ioctlLoop, Act.bind_apply, Proc.exec_bind, hx, ← List.append_assoc]
      exact hrun call _ (by omega)

/-- One pass in which every send succeeds: with 5 rounds or more, so also with the 15
of the source, `eki` and the device end at the view, and a second pass asks for nothing. -/
def Converges (s : VcAttr) (w : List Pkt) : Prop :=
  ∃ s' ps, (∀ call, (vcCommonIoctl call s).exec allSent w = some ((), s', w ++ ps)) ∧
    (∀ call count, 5 ≤ count → (ioctlLoop call count s).exec allSent w = some ((), s', w ++ ps)) ∧
    s'.view = s.view ∧ s'.eki = { s.view with isOpen := s.eki.isOpen } ∧
    devOf (w ++ ps) = Dev.ofView s.view ∧ ∀ call, vcCommonIoctl call s' = .done () s'

theorem Mirrors.converges {s : VcAttr} {w : List Pkt} (hm : Mirrors s.eki (devOf w))
    (hne : s.stk ≠ []) (hv : Ranged s.view) : Converges s w := by
  obtain ⟨s', ps, hrun, hsteady, hsync, hm'⟩ := passes 4 (behind_le s) hne hv.toDriven hm
  have hview := hsteady.view
  refine ⟨s', ps, fun call => hrun call 15 (by decide), fun call count h => hrun call count h, hview,
    ?_, ?_, ?_⟩
  · obtain ⟨h₁, h₂, h₃, h₄, h₅, h₆⟩ := hsync
    rw [← hview, ← hsteady.2]
    simp only [← h₁, ← h₂, ← h₃, ← h₄, ← h₅, ← h₆]
  · rw [← hview]
    exact hm'.dev_eq hsync (hview ▸ hv)
  · intro call
    have hround := ioctlRound_inSync hsync
    show (ioctlSend s').bind _ = _
    rw [ioctlSend_none (by rw [hround]), hround]
    exact retCurnt_done (by rw [hsteady.stk]; exact hne)

/-- A connected daemon mirrors the device, and one pass would bring both to any view. -/
def Tracks (s : VcAttr) (w : List Pkt) : Prop :=
  0 ≤ s.sk → Mirrors s.eki (devOf w) ∧ ∀ v, Ranged v → Converges { s with view := v } w

theorem Calm.tracks {s : VcAttr} {w : List Pkt} (h : Calm s) (hj : Mirrored s w) : Tracks s w := by
  intro hsk
  obtain ⟨st, top, -, hup⟩ := h.up hsk
  have hm := hj.2 hsk hup.2.2.2.1
  exact ⟨hm, fun v hv => hm.converges (s := { s with view := v }) hup.raised.ne_nil hv⟩

/-- **`eki` mirrors the device.**  Between two rounds of any run, and right after an open
in the middle of a round, a connected daemon's `eki` mirrors what the device has been
told on this connection, and one pass of settings brings both to the view. -/
theorem settings_mirror {s₀ : VcAttr} (hfresh : Fresh s₀) (hview : Driven s₀.view) (buf : Mem)
    {ls : Option LoopState} {s : VcAttr} {w : List Pkt}
    (hreach : recording.Reach iteration (mainStart buf s₀) [] (.done ls s) w) :
    Tracks s w ∧ checkOpen.wp recording (fun s _ => Driven s.view) (fun _ => Tracks) s w := by
  have hstart : Mirrored s₀.hung [] := ⟨hview, fun hsk => absurd hsk (by simp [VcAttr.hung])⟩
  obtain ⟨hcalm, hj⟩ := recording_keeps.run (recording_aloof.ready hfresh hstart) hreach
  refine ⟨hcalm.tracks hj, ?_⟩
  exact Act.wp_mono (recording_keeps.walk.checkOpen_settled hcalm hj) fun _ s w hq => hq.1.tracks hq.2

/-- The device of `openReplies`, with its packets kept. -/
def openRecording (w : List Pkt) : (e : Req) → Option (e.Rep × List Pkt)
  | .send ps => some (true, w ++ ps)
  | .connect => some ((3 : Int), [])
  | e => (openReplies () e).map fun r => (r.1, w)

theorem openRecording_legal {w : List Pkt} {e : Req} {r : e.Rep} {w' : List Pkt}
    (h : openRecording w e = some (r, w')) : recording.answers w e r w' := by
  cases e with
  | send ps => cases h; rfl
  | connect => cases h; rfl
  | attrPtr =>
      cases h
      refine ⟨rfl, fun v hv => ?_⟩
      cases hv
      exact ⟨Or.inr rfl, by decide, by decide, by decide, by decide, by decide, by decide⟩
  | ioctl | fdcheck | select => cases h; rfl
  | _ => cases h

theorem openRecording_sk :
    (((mainStart (fun _ => 0) freshAttr).bind (rounds iteration 1)).exec openRecording []).map
      (fun r => r.2.1.sk) = some 3 := by
  decide +kernel

theorem settings_mirror_connected : Fresh freshAttr ∧ Driven freshAttr.view ∧ ∃ ls s w,
    recording.Reach iteration (mainStart (fun _ => 0) freshAttr) [] (.done ls s) w ∧
      s.sk = 3 ∧ Mirrors s.eki (devOf w) := by
  have hfresh : Fresh freshAttr := ⟨rfl, rfl, Or.inl rfl⟩
  have hview : Driven freshAttr.view :=
    ⟨Or.inl rfl, by decide, by decide, by decide, by decide, by decide, by decide⟩
  obtain ⟨⟨ls, s, w⟩, hrun, hsk⟩ := Option.map_eq_some_iff.mp openRecording_sk
  have hreach := Env.Reach.rounds (𝓔 := recording) openRecording_legal 1 .start hrun
  have htracks := (settings_mirror hfresh hview _ hreach).1
  have hsk : s.sk = 3 := hsk
  exact ⟨hfresh, hview, ls, s, w, hreach, hsk, (htracks (by omega)).1⟩

end AdvVcom
