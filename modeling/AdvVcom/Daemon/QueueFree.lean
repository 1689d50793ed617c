/-
# `AdvVcom.Daemon.QueueFree` — the queue size the device was told last

The device sends only while the queue size it was told is not 0.  Three places tell it:
Sync after OPEN (by the snapshot of the TX ring), Net Up's `pause` (0) and Pause's `resume`
(1024).  The state at position 1 of the stack is chosen elsewhere: by `vc_netdown_open`,
by the same snapshot, and by `stk_rpls` after the other two.

**Proved here**, for every run, over the environment of `Order`:

    between two rounds, with a connection, the last QUEUEFREE on it was 1024 exactly if
    the state is Net Up, and 0 exactly if it is Pause          (`queue_size_agrees`)
-/
import AdvVcom.Daemon.Order

namespace AdvVcom

open Lib

/-- The value of the last QUEUEFREE. -/
def lastQueue (ps : List Pkt) : Option Int :=
  ps.foldl (fun q p => match p with
    | .qfsize _ n => some n
    | _ => q) none

/-- What the device should know in a connected state. -/
def queueOf : St → Int
  | .pause => 0
  | _ => 1024

theorem lastQueue_qfsize (ps : List Pkt) (tid : UInt32) (n : Int) :
    lastQueue (ps ++ [.qfsize tid n]) = some n := by
  simp [lastQueue]

theorem lastQueue_other {ps qs : List Pkt} (h : ∀ p ∈ qs, ¬ p.IsQueue) :
    lastQueue (ps ++ qs) = lastQueue ps := by
  induction qs generalizing ps with
  | nil => simp
  | cons p qs ih =>
      have hp : lastQueue (ps ++ [p]) = lastQueue ps := by
        cases p with
        | qfsize tid n => exact absurd trivial (h _ List.mem_cons_self)
        | _ => simp [lastQueue]
      have hrest : lastQueue (ps ++ [p] ++ qs) = lastQueue (ps ++ [p]) :=
        ih fun q hq => h q (List.mem_cons_of_mem _ hq)
      rw [List.append_assoc, List.singleton_append] at hrest
      rw [hrest, hp]

/-- On an open connection the device knows the size that goes with the state. -/
def Agreed (s : VcAttr) (w : List Try) : Prop :=
  0 ≤ s.sk → s.eki.isOpen = 1 → ∃ st, s.stk[1]? = some st ∧ lastQueue (sent w) = some (queueOf st)

/-- The state was chosen by the snapshot that Sync will go by. -/
def Chosen (s : VcAttr) (_ : List Try) : Prop := s.stk[1]? = some (upState s.tx)

def Anything (_ : VcAttr) (_ : List Try) : Prop := True

section
variable {s s' : VcAttr} {w w' : List Try} {st : St} {top : List St}

theorem Agreed.kin (h : Agreed s w) (hs : Kin s s') : Agreed s' w := by
  intro hsk hopen
  rw [hs.base]
  exact h (by rw [← hs.sk]; exact hsk) (hs.opened.symm.trans hopen)

/-- Packets that are no QUEUEFREE. -/
theorem Agreed.other {ps : List Pkt} (h : Agreed s w) (hps : ∀ p ∈ ps, ¬ p.IsQueue)
    (hs : Tried w ps true w') : Agreed s w' := by
  intro hsk hopen
  rw [hs.sent_eq, lastQueue_other hps]
  exact h hsk hopen

theorem agreed_of_queue {tid : UInt32} {n : Int} (hs : Tried w [.qfsize tid n] true w')
    (hst : s.stk[1]? = some st) (hn : n = queueOf st) : Agreed s w' := by
  intro _ _
  rw [hs.sent_eq, lastQueue_qfsize, hn]
  exact ⟨st, hst, rfl⟩

theorem queueOf_upState (tx : RingBuf) : queueOf (upState tx) = if isRbEmpty tx then 1024 else 0 := by
  unfold upState
  split
  · rfl
  · rfl

theorem Pkt.Common.not_queue {p : Pkt} (h : p.Common) : ¬ p.IsQueue := by
  cases p with
  | qfsize => exact fun _ => h
  | _ => exact id

theorem agreed_lasts : Lasts talking Agreed := Records.lasts Agreed.kin

theorem anything_lasts : Lasts talking Anything := Records.lasts fun _ _ => trivial

theorem agreed_yields : Yields talking Agreed Anything :=
  ⟨agreed_lasts, anything_lasts, fun _ _ _ => trivial, fun _ _ _ => trivial⟩

theorem chosen_lasts : Lasts talking Chosen where
  drift := fun _ hd => hd.elim
  ssl := fun h _ _ => h
  mild := fun _ h _ => h
  ready := fun h _ => h
  base := fun h _ hl => hl.trans h

/-- Before the last step of Sync the state is chosen, after it the device knows. -/
def QueueStep (i : Nat) : VcAttr → List Try → Prop := if i < 5 then Chosen else Agreed

theorem queueStep_lasts (i : Nat) : Lasts talking (QueueStep i) := by
  unfold QueueStep
  split
  · exact chosen_lasts
  · exact agreed_lasts

theorem agreed_synced (hup : Up st [.sync] s) (h : Chosen s w) :
    syncAll.wp talking Anything (Went Agreed Anything st [.sync]) s w := by
  refine wp_syncAll (𝓔 := talking) (P := QueueStep)
    (fun i => ⟨queueStep_lasts i, anything_lasts, fun _ _ _ => trivial, fun _ _ _ => trivial⟩)
    (fun _ _ h => h) ?_ ?_ (fun _ _ _ _ => trivial) hup h
  · intro i s w h t k hk
    unfold QueueStep at h ⊢
    split
    · rename_i hi
      rw [if_pos hi] at h
      exact h
    · rename_i hi
      rw [if_neg hi] at h
      exact h.kin ⟨⟨rfl, rfl⟩, hk, rfl⟩
  · intro i s w w' p _ h hp hs
    match i, hp with
    | 0, _ => exact h
    | 1, _ => exact h
    | 2, _ => exact h
    | 3, _ => exact h
    | 4, ⟨tid, hp⟩ =>
        rw [hp] at hs
        exact agreed_of_queue (tried_of_sends hs) h (queueOf_upState s.tx).symm

theorem agreed_replied {buf : Mem} (hbuf : ForSync buf) (hup : Up st [.sync] s) (h : Agreed s w) :
    (syncReply buf).wp talking Anything (Went Agreed Anything st [.sync]) s w := by
  refine wp_syncReply (𝓔 := talking) agreed_yields agreed_yields agreed_lasts (fun _ _ h => h)
    ?_ ?_ ?_ ?_ (fun _ _ _ => trivial) (fun _ _ _ _ => trivial) hbuf hup h
  · intro w w' _ h hs
    exact (h.other (by simp [Pkt.IsQueue]) (tried_of_sends hs)).kin ⟨⟨rfl, rfl⟩, rfl, rfl⟩
  · intro s w w' _ h hs
    exact (h.other (by simp [Pkt.IsQueue]) (tried_of_sends hs)).kin ⟨⟨rfl, rfl⟩, rfl, rfl⟩
  · intro w w' _ h hs
    exact (h.other (by simp [Pkt.IsQueue]) (tried_of_sends hs)).kin ⟨⟨rfl, rfl⟩, rfl, rfl⟩
  · intro w w' r _ h hr
    exact agreed_lasts.mild (e := .ioctl .sMCtrl _) rfl h hr

/-- Without a socket, or before OPEN, there is nothing to agree on. -/
theorem agreed_closed (h : s.sk = -1 ∨ s.eki.isOpen = 0) : Agreed s w := by
  intro hsk hopen
  rcases h with h | h
  · rw [h] at hsk
    exact absurd hsk (by decide)
  · rw [h] at hopen
    cases hopen

end

theorem agreed_tells :
    Tells talkRecords Anything Agreed Chosen Anything Anything (fun _ _ => Agreed) where
  kinJ := Agreed.kin
  kinC := fun h _ => h
  kinB := fun h _ => h
  kinH := Agreed.kin
  lastsS := chosen_lasts
  weakJ := fun _ _ _ => trivial
  weakC := fun _ _ h => h
  weakS := fun _ _ _ => trivial
  pause := fun _ _ h => h
  hung := fun _ _ => agreed_closed (Or.inl rfl)
  dialed := fun hd _ => agreed_closed (Or.inr (by rw [hd.2.2.2.2.1]; rfl))
  chosen := fun hd _ => agreed_closed (Or.inr (by rw [hd.2.2.2.2.1]; rfl))
  opened := by
    intro st s w w' hd hst _ _
    show s.stk[1]? = some (upState s.tx)
    rw [hd.1, hst]
    rfl
  unready := fun _ _ _ => trivial
  unopened := fun _ _ _ _ _ => trivial
  unsent := fun _ _ _ _ _ => trivial
  spoke := fun _ h hps hs => h.other (fun p hp => (hps p hp).not_queue) hs
  requeued := by
    intro st st' s w w' n _ _ hq hs
    refine agreed_of_queue hs (show [St.netdown, st'][1]? = some st' from rfl) ?_
    rcases hq with ⟨-, rfl, rfl⟩ | ⟨-, rfl, rfl⟩
    · rfl
    · rfl
  synced := fun hup h => ⟨agreed_synced hup h⟩
  unpurged := fun _ _ _ => trivial
  purged := fun _ _ _ => trivial
  unbyed := fun _ _ => trivial
  byed := fun _ _ => trivial
  handed := by
    intro st top s w w' buf _ h hr
    rw [show w' = w from hr]
    exact h
  passed := fun _ h _ => h
  replied := fun hup h hbuf => ⟨agreed_replied hbuf hup h⟩

/-- **Flow control agrees.** -/
theorem queue_size_agrees {s₀ : VcAttr} (hfresh : Fresh s₀) (buf : Mem) {ls : Option LoopState}
    {s : VcAttr} {w : List Try}
    (hreach : talking.Reach iteration (mainStart buf s₀) [] (.done ls s) w) (hsk : 0 ≤ s.sk) :
    (lastQueue (sent w) = some 1024 ↔ s.stk[1]? = some .netup) ∧
      (lastQueue (sent w) = some 0 ↔ s.stk[1]? = some .pause) := by
  obtain ⟨hcalm, hagreed⟩ := agreed_tells.run hfresh (agreed_closed (Or.inl rfl)) hreach
  obtain ⟨st, top, -, hup⟩ := hcalm.up hsk
  have hbase : s.stk[1]? = some st := by rw [hup.2.1]; rfl
  obtain ⟨st', hst', hlast⟩ := hagreed hsk hup.2.2.2.1
  have hst : st = st' := Option.some.inj (hbase.symm.trans hst')
  subst hst
  rw [hlast, hbase]
  rcases hup.1 with rfl | rfl
  · simp [queueOf]
  · simp [queueOf]

theorem queue_size_agrees_opened : ∃ ls s w,
    talking.Reach iteration (mainStart (fun _ => 0) freshAttr) [] (.done ls s) w ∧ 0 ≤ s.sk ∧
      s.stk[1]? = some .netup ∧ lastQueue (sent w) = some 1024 := by
  have hfresh : Fresh freshAttr := ⟨rfl, rfl, Or.inl rfl⟩
  obtain ⟨ls, s, w, hrun, hreach⟩ := talkRun_reach
  have hsent := talkRun_sent
  simp only [hrun, Option.map_some, Option.some.injEq, Prod.mk.injEq] at hsent
  have hsk : 0 ≤ s.sk := by rw [hsent.1]; decide
  have hbase : s.stk[1]? = some .netup := by rw [hsent.2.1]; rfl
  exact ⟨ls, s, w, hreach, hsk, hbase, (queue_size_agrees hfresh _ hreach hsk).1.mpr hbase⟩

end AdvVcom
