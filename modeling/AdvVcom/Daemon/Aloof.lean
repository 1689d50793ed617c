/-
# `AdvVcom.Daemon.Aloof` — invariants that the data path cannot touch

Most invariants have nothing to do with the rings and the data that goes through
them: they speak of the socket, of `eki`, of the view and of the environment.  For
such an invariant `Φ`, with `Ψ` as what is left of it in the middle of a handler,
most fields of `Keeps` follow from what the steps can ask for and change
(`Effects`).  `Aloof` is what has to be checked for that, and `Aloof.keeps` the
result: only the connection, the settings and the receive attempt are left.
-/
import AdvVcom.Daemon.Receive
import AdvVcom.Daemon.Rounds

namespace AdvVcom

open Lib

/-- Requests of the data path: the proc file, WRITE, PURGE and CLOSE. -/
def Req.OfData (e : Req) : Prop :=
  e.OnProc ∨ e = .attrPtr ∨ e.Talk Pkt.IsXmit ∨ e.Talk Pkt.IsBye

structure Aloof (𝓔 : Env VcSig VcAttr) (Φ Ψ : VcAttr → 𝓔.World → Prop) : Prop where
  only : ∀ {s s' w}, Φ s w → s'.sk = s.sk → s'.eki = s.eki → s'.view = s.view → Φ s' w
  weak : ∀ {s s' w}, Φ s w → s'.view = s.view → Ψ s' w
  drift : ∀ {s s' w w'}, 𝓔.drift s' w w' → Φ s w → Φ s w'
  quiet : ∀ {s w w'} {e : Req} {r : e.Rep}, e.Quiet ∨ e.OfData → 𝓔.answers w e r w' →
    Φ s w → Φ s w'
  only_weak : ∀ {s s' w}, Ψ s w → s'.view = s.view → Ψ s' w
  drift_weak : ∀ {s s' w w'}, 𝓔.drift s' w w' → Ψ s w → Ψ s w'
  quiet_weak : ∀ {s w w'} {e : Req} {r : e.Rep}, e.Quiet → 𝓔.answers w e r w' → Ψ s w → Ψ s w'
  view : ∀ {s w w'} {v : PortInfo}, 𝓔.answers w Req.attrPtr (some v) w' → Φ s w →
    Legal { s with view := v } ∧ Φ { s with view := v } w'

theorem ProcOnly.ofData {s s' : VcAttr} {e : Req} (h : ProcOnly s s' e) :
    (e.Quiet ∨ e.OfData) ∧ s'.view = s.view :=
  ⟨Or.inr (Or.inl h.1), h.2.view⟩

section
variable {𝓔 : Env VcSig VcAttr} {Φ Ψ : VcAttr → 𝓔.World → Prop} (hA : Aloof 𝓔 Φ Ψ)
  {s : VcAttr} {w : 𝓔.World}

include hA

theorem Aloof.stable : Stable 𝓔 Φ where
  drift := fun h hd => hA.drift hd h
  quiet := fun he h hr => hA.quiet (Or.inl he) hr h
  ssl := fun h _ _ => hA.only h rfl rfl rfl
  stk := fun h _ => hA.only h rfl rfl rfl

theorem Aloof.stable_weak : Stable 𝓔 Ψ where
  drift := fun h hd => hA.drift_weak hd h
  quiet := fun he h hr => hA.quiet_weak he hr h
  ssl := fun h _ _ => hA.only_weak h rfl
  stk := fun h _ => hA.only_weak h rfl

/-- A step of the data path: what `Effects` says of it, with the invariant at the
variables it started from. -/
theorem Aloof.step {α : Type} {m : M α} {A : VcAttr → Req → Prop} {Q : α → VcAttr → Prop}
    (hm : m.Always A Q s)
    (hdata : ∀ {s' e}, A s' e → (e.Quiet ∨ e.OfData) ∧ s'.view = s.view) (h : Φ s w) :
    m.wp 𝓔 Ψ (fun a s' w' => Q a s' ∧ Φ s w') s w :=
  Act.Always.wp hm (Φ s) h
    (fun _ _ _ _ _ hg hd => hA.drift hd hg)
    (fun _ _ _ ha hg => hA.weak hg (hdata ha).2)
    (fun _ _ _ _ _ ha hg hr => hA.quiet (hdata ha).1 hr hg)

theorem Aloof.updAttr (hs : Legal s) (h : Φ s w) : vcBufUpdateAttr.wp 𝓔 Ψ
    (fun _ s' w' => (∃ v, s' = { s with view := v }) ∧ Legal s' ∧ Φ s' w') s w := by
  simp only [vcBufUpdateAttr, Act.wp_bind]
  refine hA.stable.wp_request (fun _ _ h => hA.weak h rfl) h
    fun (r : Option PortInfo) w₁ w₂ h₁ hr => ?_
  cases r with
  | none => exact ⟨⟨s.view, rfl⟩, hs, hA.quiet (Or.inr (Or.inr (Or.inl rfl))) hr h₁⟩
  | some v => exact ⟨⟨v, rfl⟩, hA.view hr h₁⟩

/-- The set-up leaves a fresh daemon fresh. -/
theorem Aloof.ready (hs : Fresh s) (h : Φ s.hung w) :
    setup.wp 𝓔 Ψ (fun _ s w => Ready Φ s w) s w := by
  -- the set-up looks at nothing that the first exception changes
  have hstep {m : M Unit} {Q : Unit → VcAttr → Prop} {s : VcAttr} {w : 𝓔.World}
      (hm : m.Always (ProcOnly s) Q s) (h : Φ s.hung w) :
      m.wp 𝓔 Ψ (fun a s' w' => Q a s' ∧ Φ s.hung w') s w :=
    Act.Always.wp hm (Φ s.hung) h
      (fun _ _ _ _ _ hg hd => hA.drift hd hg)
      (fun s' _ _ ha hg => hA.weak hg (show s'.view = s.hung.view from ha.2.view))
      (fun _ _ _ _ _ ha hg hr => hA.quiet ha.ofData.1 hr hg)
  simp only [setup, Act.wp_bind]
  refine Act.wp_mono (hstep vcBufSetupTx_always h) ?_
  rintro _ _ w₁ ⟨⟨tx, rfl⟩, h₁⟩
  refine Act.wp_mono (hstep vcBufSetupRx_always (hA.only h₁ rfl rfl rfl)) ?_
  rintro _ _ w₂ ⟨⟨rx, rfl⟩, h₂⟩
  have hrequest {e : Req} {Q : e.Rep → VcAttr → 𝓔.World → Prop} {w : 𝓔.World}
      (h : Φ s.hung w) (hQ : ∀ r w w', Φ s.hung w → 𝓔.answers w e r w' →
        Q r { s with tx := tx, rx := rx } w') :
      (Act.request (S := VcSig) e : M e.Rep).wp 𝓔 Ψ Q { s with tx := tx, rx := rx } w :=
    Act.wp_request_of (Φ s.hung) h (fun _ _ hg hd => hA.drift hd hg)
      (fun _ hg => hA.weak hg rfl) fun w r w' hg hr => hQ r w w' hg hr
  simp only [vcBufSetupAttr, vcBufUpdateAttr, Act.wp_bind]
  refine hrequest (hA.only h₂ rfl rfl rfl) fun (r : Option Int) w₃ w₄ h₃ hr => ?_
  have h₄ : Φ s.hung w₄ := hA.quiet (e := .ioctl .gAttrBegin 0) (Or.inr (Or.inl trivial)) hr h₃
  cases r with
  | none => exact ⟨hs.1, hs.2.1, hs.2.2, hA.only h₄ rfl rfl rfl⟩
  | some begin =>
      simp only [Act.wp_bind]
      refine hrequest h₄ fun (r : Option PortInfo) w₅ w₆ h₅ hr => ?_
      cases r with
      | none =>
          have h₆ := hA.quiet (e := .attrPtr) (Or.inr (Or.inr (Or.inl rfl))) hr h₅
          exact ⟨hs.1, hs.2.1, hs.2.2, hA.only h₆ rfl rfl rfl⟩
      | some v =>
          obtain ⟨hlegal, h₆⟩ := hA.view hr h₅
          exact ⟨hs.1, hs.2.1, hlegal, hA.only h₆ rfl rfl rfl⟩

/-- **What is left to check.** -/
theorem Aloof.keeps {S : VcAttr → 𝓔.World → Prop}
    (stableS : Stable 𝓔 S) (weakS : ∀ s w, S s w → Ψ s w)
    (close : ∀ {s w w'}, Ψ s w → 𝓔.answers w Req.close () w' → Φ s.hung w')
    (refused : ∀ {s w w'} {r : Int}, Down s → Φ s w → 𝓔.answers w Req.connect r w' → r < 0 → Φ s w')
    (dialed : ∀ {s w w'} {r : Int}, Down s → Φ s w → 𝓔.answers w Req.connect r w' → 0 ≤ r →
      Φ { s with sk := r } w')
    (opened : ∀ {st s w w'}, Dialing [st] s → Φ s w → Sends 𝓔 w [.open 1 s.devid s.port] true w' →
      S { s with tid := s.tid + 1, eki := { s.eki with isOpen := 1 } } w')
    (unsent : ∀ {s w w' ps}, Ψ s w → Sends 𝓔 w ps false w' → Ψ s w')
    (plain : ∀ {s w w' p}, 0 ≤ s.sk → Φ s w → p.Plain → Sends 𝓔 w [p] true w' → Φ s w')
    (synced : ∀ {st s w}, Up st [.sync] s → S s w →
      syncAll.Meets 𝓔 Ψ (Went Φ Ψ st [.sync]) s w)
    (updated : ∀ {st s w}, Up st [] s → Φ s w →
      ioctlSend.Meets 𝓔 Ψ (fun r => Went Φ Ψ st [] (r != some false)) s w)
    (received : ∀ {st top s w} (buf : Mem), Up st top s → Φ s w →
      (vcRecvFrame buf).Meets 𝓔 Ψ (Came Ψ Φ Ψ (fun _ _ => Φ) st top) s w) :
    Keeps 𝓔 Ψ Φ S Ψ (fun _ _ => Φ) where
  stableJ := hA.stable
  stableS := stableS
  stableB := hA.stable_weak
  stkH := fun h _ => hA.only h rfl rfl rfl
  weakJ := fun _ _ h => hA.weak h rfl
  weakS := weakS
  pause := fun _ _ h => h
  close := fun _ hb hr => close hb hr
  refused := refused
  dialed := dialed
  opened := opened
  unsent := fun _ hb hs => unsent hb hs
  plain := fun h hj hp hs => hA.only (plain h.2.2.1 hj hp hs) rfl rfl rfl
  synced := synced
  updated := updated
  transmitted := by
    intro st s w h hj _ _
    refine ⟨Act.wp_mono (hA.step (xmitSend_always h.raised.ne_nil) ?_ hj) ?_⟩
    · rintro s' e ⟨he | he, hview⟩
      · exact ⟨Or.inr (Or.inl he), hview⟩
      · exact ⟨Or.inr (Or.inr (Or.inr (Or.inl he))), hview⟩
    · rintro ok _ w' ⟨⟨x, t, n, rfl⟩, hj'⟩
      cases ok with
      | true => exact ⟨h, hA.only hj' rfl rfl rfl⟩
      | false => exact ⟨h.raised, hA.weak hj' rfl⟩
  updRx := by
    intro s w _ hj
    refine ⟨Act.wp_mono (hA.step vcBufUpdateRx_always ProcOnly.ofData hj) ?_⟩
    rintro _ _ w' ⟨⟨rx, rfl⟩, hj'⟩
    exact ⟨⟨rx, rfl⟩, hA.only hj' rfl rfl rfl⟩
  updTx := by
    intro s w _ hj
    refine ⟨Act.wp_mono (hA.step vcBufUpdateTx_always ProcOnly.ofData hj) ?_⟩
    rintro _ _ w' ⟨⟨tx, rfl⟩, hj'⟩
    exact ⟨⟨tx, rfl⟩, hA.only hj' rfl rfl rfl⟩
  updAttr := fun h hj => ⟨hA.updAttr h.legal hj⟩
  clearDown := by
    intro s w h hj
    refine ⟨Act.wp_mono (hA.step (vcBufClear_always _) ProcOnly.ofData hj) ?_⟩
    rintro _ _ w' ⟨⟨rx, tx, rfl⟩, hj'⟩
    exact ⟨h, hA.only hj' rfl rfl rfl⟩
  clearIdle := by
    intro st s w h hj
    refine ⟨Act.wp_mono (hA.step (vcBufClear_always _) ProcOnly.ofData hj) ?_⟩
    rintro _ _ w' ⟨⟨rx, tx, rfl⟩, hj'⟩
    exact ⟨h.raised, hA.weak hj' rfl⟩
  closed := by
    intro st top s w h hj _
    refine ⟨Act.wp_mono (hA.step (closing_always h.raised.ne_nil) ?_ hj) ?_⟩
    · rintro s' e ⟨he | he, hview⟩
      · exact ⟨Or.inr (Or.inl he), hview⟩
      · exact ⟨Or.inr (Or.inr (Or.inr (Or.inr he))), hview⟩
    · rintro _ s' w' ⟨⟨hstk, hsk, hview⟩, hj'⟩
      obtain ⟨hrest, hsk₀, hlegal⟩ := h.raised
      refine ⟨⟨by rw [hstk]; exact hrest, by rw [hsk]; exact hsk₀, ?_⟩, hA.weak hj' hview⟩
      simp only [Legal, hview]
      exact hlegal
  received := received
  passed := fun _ h _ _ => h
  stored := by
    intro st s w buf len h hj _
    refine ⟨Act.wp_mono (hA.step (recvData_always buf) ProcOnly.ofData hj) ?_⟩
    rintro ok _ w' ⟨rfl, hj'⟩
    cases ok with
    | true => exact ⟨h, hj'⟩
    | false => exact ⟨h.raised, hA.weak hj' rfl⟩
  answered := by
    intro st s w buf len h hj _
    refine ⟨Act.wp_mono (hA.step (recvWrite_always buf len) ProcOnly.ofData hj) ?_⟩
    rintro ok _ w' ⟨⟨rx, rfl⟩, hj'⟩
    cases ok with
    | true => exact ⟨h, hA.only hj' rfl rfl rfl⟩
    | false => exact ⟨h.raised, hA.weak hj' rfl⟩

/-- The receive attempt too, if reads of the socket do no harm. -/
theorem Aloof.received {st : St} {top : List St}
    (hwire : ∀ {s w w'} {e : Req} {r : e.Rep}, e.OnWire → 𝓔.answers w e r w' → Φ s w → Φ s w')
    (hhand : ∀ {s w w' f}, 𝓔.answers w (.hand f) () w' → Φ s w → Φ s w') (buf : Mem)
    (h : Up st top s) (hj : Φ s w) :
    (vcRecvFrame buf).Meets 𝓔 Ψ (Came Ψ Φ Ψ (fun _ _ => Φ) st top) s w := by
  have hwaits : Waits 𝓔 Φ := { hA.stable with wire := fun he hj hr => hwire he hr hj }
  refine ⟨came_of_waits hwaits hwaits (fun _ _ h => hA.weak h rfl) (fun _ _ h => h) ?_
    (fun _ hj _ hr _ => hhand hr hj) h hj buf⟩
  intro s w _ hj
  refine Act.wp_mono (hA.step vcBufUpdateTx_always ProcOnly.ofData hj) ?_
  rintro _ _ w' ⟨⟨tx, rfl⟩, hj'⟩
  have hj₂ : Φ { s with tx := tx } w' := hA.only hj' rfl rfl rfl
  exact ⟨⟨tx, rfl⟩, hj₂, hj₂⟩

/-- The settings too, if sends of settings do no harm and `eki` does not matter. -/
theorem Aloof.tuned {α : Type} {m : M α} {st : St} {top : List St} {f : α → Bool}
    (htame : ∀ {s w w'} {e : Req} {r : e.Rep}, e.Talk Pkt.Tame → 𝓔.answers w e r w' →
      Φ s w → Φ s w')
    (heki : ∀ {s s' w}, Steady s s' → Φ s w → Φ s' w)
    (hm : m.Always (Tuning s) (fun _ => Steady s) s) (h : Up st top s) (hj : Φ s w) :
    m.Meets 𝓔 Ψ (fun a => Went Φ Ψ st top (f a)) s w := by
  refine ⟨Act.wp_mono (Act.Always.wp hm (Φ s) hj (fun _ _ _ _ _ hg hd => hA.drift hd hg)
    (fun _ _ _ ha hg => hA.weak hg ha.1.view)
    (fun _ _ _ _ _ ha hg hr => htame ha.2 hr hg)) ?_⟩
  rintro a s' w' ⟨hs, hj'⟩
  cases f a with
  | true => exact ⟨hs.up h, heki hs hj'⟩
  | false => exact ⟨(hs.up h).raised, hA.weak hj' hs.view⟩

end

end AdvVcom
