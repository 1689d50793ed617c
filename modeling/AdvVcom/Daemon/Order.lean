/-
# `AdvVcom.Daemon.Order` — the order of the packets on a connection

The environment `talking` answers anything, gives views that are open or closed, and keeps
every attempt to send since the last successful `connect`: the packets it was for, how many
of them went out (all if the call said so, any leading ones if not), and what the call
said.  A socket that is not ready is an attempt that failed with nothing sent.

A *conversation* is

    CREATE, SET/CLR_RTS, SET/CLR_DTR, SET_WAIT_MASK, GET_MODEMSTATUS, QUEUEFREE,
    any WRITE, IOCTL and QUEUEFREE packets, PURGE if at all, CLOSE

**Proved here**, for every run:

    what has been sent on a connection is the beginning of a conversation, and if one of
    the first six attempts fails, it is the last              (`packet_order`)

The invariant follows the connection through these stages:

    [] → stage 1 (CREATE) → … → stage 6 → in talk → leaving (PURGE) → done
-/
import AdvVcom.Daemon.Records
import AdvVcom.Daemon.Stack
import Mathlib.Data.List.Forall2

namespace AdvVcom

open Lib

/-! ## The environment -/

structure Try where
  packets : List Pkt
  went : Nat
  ok : Bool
  deriving DecidableEq

/-- The packets that have gone out. -/
def sent (w : List Try) : List Pkt := w.flatMap fun t => t.packets.take t.went

/-- The record after an attempt to send `ps`. -/
def Tried (w : List Try) (ps : List Pkt) (ok : Bool) (w' : List Try) : Prop :=
  ∃ k, (ok = true → ps.length ≤ k) ∧ w' = w ++ [⟨ps, k, ok⟩]

def talkRecords : Records (List Try) where
  send := Tried
  unready := fun w w' => w' = w ++ [⟨[], 0, false⟩]
  hand := fun w _ w' => w' = w
  fresh := []

abbrev talking : Env VcSig VcAttr := talkRecords.env

theorem sent_append (w : List Try) (t : Try) : sent (w ++ [t]) = sent w ++ t.packets.take t.went := by
  simp [sent]

theorem Tried.sent_eq {w w' : List Try} {ps : List Pkt} (h : Tried w ps true w') :
    sent w' = sent w ++ ps := by
  obtain ⟨k, hk, rfl⟩ := h
  rw [sent_append, List.take_of_length_le (hk rfl)]

theorem Tried.sent_begins {w w' : List Try} {ps : List Pkt} {ok : Bool} (h : Tried w ps ok w') :
    sent w' <+: sent w ++ ps := by
  obtain ⟨k, -, rfl⟩ := h
  rw [sent_append]
  exact List.prefix_append_right_inj _ |>.mpr (List.take_prefix _ _)

theorem tried_of_sends {w w' : List Try} {ps : List Pkt} {ok : Bool} (h : Sends talking w ps ok w') :
    Tried w ps ok w' := Records.send_of_sends h

theorem tried_of_unready {w w' : List Try} (h : talkRecords.unready w w') : Tried w [] false w' :=
  ⟨0, by simp, h⟩

/-! ## Conversations -/

def Pkt.IsRts : Pkt → Prop
  | .param _ subcmd => subcmd = VCOM_IOCTL_SET_RTS ∨ subcmd = VCOM_IOCTL_CLR_RTS
  | _ => False

def Pkt.IsDtr : Pkt → Prop
  | .param _ subcmd => subcmd = VCOM_IOCTL_SET_DTR ∨ subcmd = VCOM_IOCTL_CLR_DTR
  | _ => False

def Pkt.IsWaitMask : Pkt → Prop
  | .setwmask _ _ => True
  | _ => False

def Pkt.IsModem : Pkt → Prop
  | .param _ subcmd => subcmd = VCOM_IOCTL_GET_MODEMSTATUS
  | _ => False

def Pkt.IsQueue : Pkt → Prop
  | .qfsize _ _ => True
  | _ => False

def Pkt.IsPurge : Pkt → Prop
  | .purge _ _ => True
  | _ => False

def Pkt.IsClose : Pkt → Prop
  | .close _ => True
  | _ => False

/-- The six packets of CREATE and the initial synchronisation. -/
def opening : List (Pkt → Prop) :=
  [Pkt.IsCreate, Pkt.IsRts, Pkt.IsDtr, Pkt.IsWaitMask, Pkt.IsModem, Pkt.IsQueue]

/-- Packets of these kinds, one by one. -/
def OfKinds : List (Pkt → Prop) → List Pkt → Prop := List.Forall₂ fun kind p => kind p

def Conversation (word : List Pkt) : Prop :=
  ∃ first body purge bye, word = first ++ body ++ purge ++ bye ∧ OfKinds opening first ∧
    (∀ p ∈ body, p.Running) ∧ (purge = [] ∨ OfKinds [Pkt.IsPurge] purge) ∧ OfKinds [Pkt.IsClose] bye

/-- The beginning of a conversation. -/
def Sayable (ps : List Pkt) : Prop := ∃ word, Conversation word ∧ ps <+: word

theorem Sayable.mono {ps ps' : List Pkt} (h : Sayable ps) (hp : ps' <+: ps) : Sayable ps' := by
  obtain ⟨word, hword, hps⟩ := h
  exact ⟨word, hword, hp.trans hps⟩

theorem OfKinds.append {ks ks' : List (Pkt → Prop)} {ps ps' : List Pkt} (h : OfKinds ks ps)
    (h' : OfKinds ks' ps') : OfKinds (ks ++ ks') (ps ++ ps') :=
  List.rel_append h h'

theorem ofKinds_one {kind : Pkt → Prop} {p : Pkt} (h : kind p) : OfKinds [kind] [p] :=
  .cons h .nil

/-- Any one opening. -/
def someOpening : List Pkt :=
  [.open 0 0 0, .param 0 VCOM_IOCTL_SET_RTS, .param 0 VCOM_IOCTL_SET_DTR, .setwmask 0 0,
    .param 0 VCOM_IOCTL_GET_MODEMSTATUS, .qfsize 0 0]

theorem someOpening_kinds : OfKinds opening someOpening :=
  .cons trivial (.cons (Or.inl rfl) (.cons (Or.inl rfl) (.cons trivial (.cons rfl (.cons trivial .nil)))))

theorem sayable_opening {ps : List Pkt} (n : Nat) (h : OfKinds (opening.take n) ps) : Sayable ps := by
  have hrest : OfKinds (opening.drop n) (someOpening.drop n) := List.forall₂_drop n someOpening_kinds
  have hfirst := h.append hrest
  rw [List.take_append_drop] at hfirst
  refine ⟨ps ++ someOpening.drop n ++ [] ++ [] ++ [.close 0],
    ⟨_, [], [], _, rfl, hfirst, by simp, Or.inl rfl, ofKinds_one (p := .close 0) trivial⟩, ?_⟩
  simp only [List.append_nil, List.append_assoc]
  exact List.prefix_append _ _

/-! ## The stages -/

/-- Sync was not interrupted: none of the first six attempts failed. -/
def Synced (w : List Try) : Prop := 6 ≤ w.length ∧ ∀ i < 6, ∀ t, w[i]? = some t → t.ok = true

/-- If one of the first six attempts failed, there is none after it. -/
def Halts (w : List Try) : Prop :=
  ∀ i < 6, ∀ t, w[i]? = some t → t.ok = false → w.length = i + 1

/-- The first `n` packets of the opening. -/
def Stage (n : Nat) (w : List Try) : Prop :=
  OfKinds (opening.take n) (sent w) ∧ w.length = n ∧ ∀ t ∈ w, t.ok = true

def InTalk (w : List Try) : Prop :=
  Synced w ∧ ∃ first body, sent w = first ++ body ∧ OfKinds opening first ∧ ∀ p ∈ body, p.Running

def Leaving (w : List Try) : Prop :=
  Synced w ∧ ∃ first body purge, sent w = first ++ body ++ purge ∧ OfKinds opening first ∧
    (∀ p ∈ body, p.Running) ∧ (purge = [] ∨ OfKinds [Pkt.IsPurge] purge)

def Fine (w : List Try) : Prop := Sayable (sent w) ∧ Halts w

section
variable {w w' : List Try} {ps : List Pkt} {ok : Bool} {n : Nat}

theorem Synced.halts (h : Synced w) : Halts w := by
  intro i hi t ht hbad
  rw [h.2 i hi t ht] at hbad
  cases hbad

theorem Synced.tried (h : Synced w) (ht : Tried w ps ok w') : Synced w' := by
  obtain ⟨k, -, rfl⟩ := ht
  refine ⟨by simp only [List.length_append]; have := h.1; omega, fun i hi t hget => ?_⟩
  rw [List.getElem?_append_left (by have := h.1; omega)] at hget
  exact h.2 i hi t hget

theorem Leaving.sayable_close (h : Leaving w) {p : Pkt} (hp : p.IsClose) :
    Sayable (sent w ++ [p]) := by
  obtain ⟨-, first, body, purge, hsent, hfirst, hbody, hpurge⟩ := h
  rw [hsent]
  exact ⟨_, ⟨first, body, purge, [p], rfl, hfirst, hbody, hpurge, ofKinds_one hp⟩, List.prefix_refl _⟩

theorem Leaving.fine (h : Leaving w) : Fine w :=
  ⟨(h.sayable_close (p := .close 0) trivial).mono (List.prefix_append _ _), h.1.halts⟩

theorem InTalk.leaving (h : InTalk w) : Leaving w := by
  obtain ⟨hsync, first, body, hsent, hfirst, hbody⟩ := h
  exact ⟨hsync, first, body, [], by simpa using hsent, hfirst, hbody, Or.inl rfl⟩

/-- More packets of the kinds a connection carries, sent or not. -/
theorem InTalk.running (h : InTalk w) (hps : ∀ p ∈ ps, p.Running) (ht : Tried w ps ok w') :
    InTalk w' := by
  have hsync := h.1.tried ht
  obtain ⟨-, first, body, hsent, hfirst, hbody⟩ := h
  obtain ⟨k, -, rfl⟩ := ht
  refine ⟨hsync, first, body ++ ps.take k, ?_, hfirst, ?_⟩
  · rw [sent_append, hsent, List.append_assoc]
  · intro p hp
    rcases List.mem_append.mp hp with hp | hp
    · exact hbody p hp
    · exact hps p (List.mem_of_mem_take hp)

/-- PURGE, sent or not. -/
theorem InTalk.purge (h : InTalk w) {p : Pkt} (hp : p.IsPurge) (ht : Tried w [p] ok w') :
    Leaving w' := by
  have hsync := h.1.tried ht
  obtain ⟨-, first, body, hsent, hfirst, hbody⟩ := h
  obtain ⟨k, -, rfl⟩ := ht
  refine ⟨hsync, first, body, [p].take k, by rw [sent_append, hsent], hfirst, hbody, ?_⟩
  cases k with
  | zero => exact Or.inl rfl
  | succ k => exact Or.inr (by simpa using ofKinds_one hp)

/-- CLOSE, sent or not. -/
theorem Leaving.close (h : Leaving w) {p : Pkt} (hp : p.IsClose) (ht : Tried w [p] ok w') : Fine w' :=
  ⟨(h.sayable_close hp).mono ht.sent_begins, (h.1.tried ht).halts⟩

/-- An attempt that failed with nothing sent. -/
theorem Leaving.unready (h : Leaving w) (ht : Tried w [] ok w') : Fine w' := by
  refine ⟨h.fine.1.mono ?_, (h.1.tried ht).halts⟩
  simpa using ht.sent_begins

end

section
variable {w w' : List Try} {p : Pkt} {n : Nat} {K : Pkt → Prop}

/-- One packet more of the opening. -/
theorem Stage.next (h : Stage n w) (hkind : opening.take (n + 1) = opening.take n ++ [K])
    (hp : K p) (ht : Tried w [p] true w') : Stage (n + 1) w' := by
  obtain ⟨hkinds, hlen, hall⟩ := h
  have hsent := ht.sent_eq
  obtain ⟨k, -, rfl⟩ := ht
  refine ⟨?_, by simp [hlen], fun t hmem => ?_⟩
  · rw [hsent, hkind]
    exact hkinds.append (ofKinds_one hp)
  · rcases List.mem_append.mp hmem with hmem | hmem
    · exact hall t hmem
    · rw [List.mem_singleton.mp hmem]

/-- The one attempt that failed is the last. -/
theorem Stage.halts {ps : List Pkt} (h : Stage n w) (ht : Tried w ps false w') : Halts w' := by
  obtain ⟨-, hlen, hall⟩ := h
  obtain ⟨k, -, rfl⟩ := ht
  intro i _ t hget hbad
  have hi : ¬ i < w.length := by
    intro hi
    rw [List.getElem?_append_left hi] at hget
    rw [hall t (List.mem_of_getElem? hget)] at hbad
    cases hbad
  have hlt : i < (w ++ [(⟨ps, k, false⟩ : Try)]).length := by
    rw [List.getElem?_eq_some_iff] at hget
    exact hget.1
  simp only [List.length_append, List.length_singleton] at hlt ⊢
  omega

theorem Stage.fail (h : Stage n w) (hkind : opening.take (n + 1) = opening.take n ++ [K])
    (hp : K p) (ht : Tried w [p] false w') : Fine w' := by
  have hkinds : OfKinds (opening.take (n + 1)) (sent w ++ [p]) := by
    rw [hkind]
    exact h.1.append (ofKinds_one hp)
  exact ⟨(sayable_opening _ hkinds).mono ht.sent_begins, h.halts ht⟩

theorem Stage.unready (h : Stage n w) (ht : Tried w [] false w') : Fine w' := by
  refine ⟨(sayable_opening _ h.1).mono ?_, h.halts ht⟩
  simpa using ht.sent_begins

theorem Stage.fine (h : Stage n w) : Fine w := by
  refine ⟨sayable_opening _ h.1, fun i _ t hget hbad => ?_⟩
  rw [h.2.2 t (List.mem_of_getElem? hget)] at hbad
  cases hbad

theorem Stage.inTalk (h : Stage 6 w) : InTalk w :=
  ⟨⟨by rw [h.2.1], fun _ _ t hget => h.2.2 t (List.mem_of_getElem? hget)⟩,
    sent w, [], by simp, h.1, by simp⟩

theorem stage_zero : Stage 0 [] := ⟨.nil, rfl, by simp⟩

end

/-- Sync's packets are those of the opening, after CREATE. -/
theorem SyncPkt.kind {s : VcAttr} {i : Nat} {p : Pkt} (h : SyncPkt s i p) :
    ∃ kind, opening.take (i + 1 + 1) = opening.take (i + 1) ++ [kind] ∧ kind p := by
  match i, h with
  | 0, ⟨tid, ms, hp⟩ =>
      refine ⟨Pkt.IsRts, rfl, ?_⟩
      rw [hp, rtsPkt]
      split
      · exact Or.inl rfl
      · exact Or.inr rfl
  | 1, ⟨tid, ms, hp⟩ =>
      refine ⟨Pkt.IsDtr, rfl, ?_⟩
      rw [hp, dtrPkt]
      split
      · exact Or.inl rfl
      · exact Or.inr rfl
  | 2, ⟨tid, mask, hp⟩ => exact ⟨Pkt.IsWaitMask, rfl, by rw [hp]; trivial⟩
  | 3, ⟨tid, hp⟩ => exact ⟨Pkt.IsModem, rfl, by rw [hp]; rfl⟩
  | 4, ⟨tid, hp⟩ => exact ⟨Pkt.IsQueue, rfl, by rw [hp]; trivial⟩

/-! ## Whole runs -/

/-- Nothing sent before CREATE; in talk as long as the connection is open. -/
def Spoken (s : VcAttr) (w : List Try) : Prop :=
  Fine w ∧ (0 ≤ s.sk → (s.eki.isOpen ≠ 1 → w = []) ∧ (s.eki.isOpen = 1 → InTalk w))

theorem Spoken.kin {s s' : VcAttr} {w : List Try} (h : Spoken s w) (hs : Kin s s') : Spoken s' w := by
  obtain ⟨hfine, htalk⟩ := h
  refine ⟨hfine, fun hsk => ?_⟩
  rw [hs.opened]
  exact htalk (by rw [← hs.sk]; exact hsk)

theorem Spoken.inTalk {s : VcAttr} {w : List Try} {st : St} {top : List St} (h : Spoken s w)
    (hup : Up st top s) : InTalk w := (h.2 hup.2.2.1).2 hup.2.2.2.1

theorem InTalk.spoken {s : VcAttr} {w : List Try} (h : InTalk w) (hopen : s.eki.isOpen = 1) :
    Spoken s w := ⟨h.leaving.fine, fun _ => ⟨fun hne => absurd hopen hne, fun _ => h⟩⟩

theorem spoken_lasts : Lasts talking Spoken := Records.lasts Spoken.kin

theorem talking_only {P : List Try → Prop} : Lasts talking fun _ w => P w :=
  Records.lasts fun h _ => h

theorem Spoken.unready {s : VcAttr} {w w' : List Try} (h : Spoken s w) (hsk : 0 ≤ s.sk)
    (hr : talkRecords.unready w w') : Fine w' := by
  by_cases hopen : s.eki.isOpen = 1
  · exact ((h.2 hsk).2 hopen).leaving.unready (tried_of_unready hr)
  · have hw := (h.2 hsk).1 hopen
    subst hw
    exact stage_zero.unready (tried_of_unready hr)

theorem spoken_yields : Yields talking Spoken fun _ => Fine :=
  ⟨spoken_lasts, talking_only, fun _ _ h => h.1, Spoken.unready⟩

theorem stage_yields (n : Nat) : Yields talking (fun _ => Stage n) fun _ => Fine :=
  ⟨talking_only, talking_only, fun _ _ h => h.fine, fun h _ hr => h.unready (tried_of_unready hr)⟩

section
variable {s : VcAttr} {w w' : List Try} {st : St} {top : List St}

theorem Spoken.running {ps : List Pkt} (h : Spoken s w) (hup : Up st top s)
    (hps : ∀ p ∈ ps, p.Running) (hs : Tried w ps true w') : Spoken s w' :=
  ((h.inTalk hup).running hps hs).spoken hup.2.2.2.1

theorem spoken_synced (hup : Up st [.sync] s) (h : Stage 1 w) :
    syncAll.wp talking (fun _ => Fine) (Went Spoken (fun _ => Fine) st [.sync]) s w := by
  have hall : syncAll.wp talking (fun _ => Fine)
      (Went (fun _ => Stage 6) (fun _ => Fine) st [.sync]) s w := by
    refine wp_syncAll (𝓔 := talking) (P := fun i _ => Stage (i + 1)) (fun i => stage_yields (i + 1))
      (fun _ _ h => h) ?_ ?_ ?_ hup h
    · intro i s w h t k _
      exact h
    · intro i s w w' p _ h hp hs
      obtain ⟨kind, hkind, hp⟩ := hp.kind
      exact h.next hkind hp (tried_of_sends hs)
    · intro i s w w' p _ h hp hs
      obtain ⟨kind, hkind, hp⟩ := hp.kind
      exact h.fail hkind hp (tried_of_sends hs)
  refine Act.wp_mono hall fun ok s w hq => ?_
  cases ok with
  | true => exact ⟨hq.1, hq.2.inTalk.spoken hq.1.2.2.2.1⟩
  | false => exact hq

theorem spoken_replied {buf : Mem} (hbuf : ForSync buf) (hup : Up st [.sync] s) (h : Spoken s w) :
    (syncReply buf).wp talking (fun _ => Fine) (Went Spoken (fun _ => Fine) st [.sync]) s w := by
  refine wp_syncReply (𝓔 := talking) spoken_yields spoken_yields spoken_lasts (fun _ _ h => h)
    ?_ ?_ ?_ ?_ spoken_yields.weak ?_ hbuf hup h
  · intro w w' _ h hs
    exact (h.running hup (by simp [Pkt.Running]) (tried_of_sends hs)).kin ⟨⟨rfl, rfl⟩, rfl, rfl⟩
  · intro s w w' hup h hs
    exact (h.running hup (by simp [Pkt.Running]) (tried_of_sends hs)).kin ⟨⟨rfl, rfl⟩, rfl, rfl⟩
  · intro w w' _ h hs
    exact (h.running hup (by simp [Pkt.Running]) (tried_of_sends hs)).kin ⟨⟨rfl, rfl⟩, rfl, rfl⟩
  · intro w w' r _ h hr
    exact spoken_lasts.mild (e := .ioctl .sMCtrl _) rfl h hr
  · intro s w w' p hup h hp hs
    have htalk : InTalk w := by
      rcases h with h | h
      · exact h.inTalk hup
      · exact h.inTalk hup
    exact (htalk.running (by simpa using hp) (tried_of_sends hs)).leaving.fine

end

theorem spoken_tells : Tells talkRecords (fun _ => Fine) Spoken (fun _ => Stage 1) (fun _ => Leaving)
    (fun _ => Fine) (fun _ _ => Spoken) where
  kinJ := Spoken.kin
  kinC := fun h _ => h
  kinB := fun h _ => h
  kinH := Spoken.kin
  lastsS := talking_only
  weakJ := spoken_yields.weak
  weakC := fun _ _ h => h.fine
  weakS := fun _ _ h => h.fine
  pause := fun _ _ h => h
  hung := fun _ h => ⟨h, fun hsk => absurd hsk (by simp [VcAttr.hung])⟩
  dialed := by
    intro s r hd _
    refine ⟨stage_zero.fine, fun _ => ⟨fun _ => rfl, fun hopen => ?_⟩⟩
    rw [hd.2.2.2.2.1] at hopen
    cases hopen
  chosen := by
    intro s w hd h
    refine ⟨h.1, fun hsk => ⟨(h.2 hsk).1, fun hopen => ?_⟩⟩
    rw [hd.2.2.2.2.1] at hopen
    cases hopen
  opened := by
    intro st s w w' hd _ h hs
    have hw : w = [] := (h.2 hd.2.1).1 (by rw [hd.2.2.2.2.1]; decide)
    subst hw
    exact stage_zero.next (K := Pkt.IsCreate) (p := .open _ _ _) rfl trivial hs
  unready := Spoken.unready
  unopened := by
    intro s w w' p hs h hopen hp hsend
    have hw : w = [] := (h.2 hs.2.1).1 (by rw [hopen]; decide)
    subst hw
    exact stage_zero.fail (K := Pkt.IsCreate) rfl hp hsend
  unsent := fun hs h hopen hps hsend => (((h.2 hs.2.1).2 hopen).running hps hsend).leaving.fine
  spoke := fun hup h hps hs => h.running hup (fun p hp => (hps p hp).running) hs
  requeued := by
    intro st st' s w w' n hup h _ hs
    have htalk := (h.inTalk hup).running (by simp [Pkt.Running]) hs
    exact htalk.spoken hup.2.2.2.1
  synced := fun hup h => ⟨spoken_synced hup h⟩
  unpurged := fun hup h hr => ((h.inTalk hup).running (by simp) (tried_of_unready hr)).leaving
  purged := fun hup h hs => (h.inTalk hup).purge (p := .purge _ _) trivial hs
  unbyed := fun h hr => h.unready (tried_of_unready hr)
  byed := fun h hs => h.close (p := .close _) trivial hs
  handed := by
    intro st top s w w' buf _ h hr
    rw [show w' = w from hr]
    exact h
  passed := fun _ h _ => h
  replied := fun hup h hbuf => ⟨spoken_replied hbuf hup h⟩

/-- **The order of the packets.**  In every reachable configuration, what has been sent on
the connection is the beginning of a conversation; and if an attempt for one of the six
packets of CREATE and the initial synchronisation failed, nothing has been tried after it. -/
theorem packet_order {s₀ : VcAttr} (hfresh : Fresh s₀) (buf : Mem)
    {p : Proc VcSig VcAttr (Option LoopState)} {w : List Try}
    (hreach : talking.Reach iteration (mainStart buf s₀) [] p w) :
    (∃ word, Conversation word ∧ sent w <+: word) ∧
      ∀ i < 6, ∀ t, w[i]? = some t → t.ok = false → w.length = i + 1 := by
  have hstart : Spoken s₀.hung [] :=
    ⟨stage_zero.fine, fun hsk => absurd hsk (by simp [VcAttr.hung])⟩
  have hwp := spoken_tells.run hfresh hstart hreach
  cases p with
  | done ls s => exact hwp.2.1
  | fault f => exact hwp.elim
  | pause s e k => exact hwp.pause

/-- A device that takes every packet, a tty that is open, and nothing to wait for. -/
def talkReply (w : List Try) : (e : Req) → Option (e.Rep × List Try)
  | .ioctl _ _ => some (some (0 : Int), w)
  | .attrPtr => some (some { PortInfo.zero with isOpen := 1, baud := 9600, byte := 8 }, w)
  | .connect => some ((3 : Int), [])
  | .fdcheck => some (true, w)
  | .send ps => some (true, w ++ [⟨ps, ps.length, true⟩])
  | .select _ _ => some (⟨1, ⟨false, false, false, false, false⟩, 1⟩, w)
  | _ => none

theorem talkReply_legal {w : List Try} {e : Req} {r : e.Rep} {w' : List Try}
    (h : talkReply w e = some (r, w')) : talking.answers w e r w' := by
  cases e with
  | attrPtr =>
      cases h
      refine ⟨rfl, fun v hv => ?_⟩
      cases hv
      exact Or.inr rfl
  | send ps =>
      cases h
      exact ⟨ps.length, fun _ => Nat.le_refl _, rfl⟩
  | ioctl | connect | fdcheck | select =>
      cases h
      rfl
  | _ => cases h

def talkRun : Option (Option LoopState × VcAttr × List Try) :=
  ((mainStart (fun _ => 0) freshAttr).bind (rounds iteration 1)).exec talkReply []

/-- After one round: the opening, and the settings. -/
theorem talkRun_sent : talkRun.map (fun r => (r.2.1.sk, r.2.1.stk, sent r.2.2)) =
    some (3, [.netdown, .netup], [.open 1 0 1, .param 1 VCOM_IOCTL_CLR_RTS, .param 2 VCOM_IOCTL_CLR_DTR,
      .setwmask 3 0x38010000, .param 4 VCOM_IOCTL_GET_MODEMSTATUS, .qfsize 5 1024, .sbaud 6 9600,
      .setlctl 7 0 8 0, .hflow 8 0x01000000 0x40000080]) := by
  decide +kernel

theorem talkRun_reach : ∃ ls s w, talkRun = some (ls, s, w) ∧
    talking.Reach iteration (mainStart (fun _ => 0) freshAttr) [] (.done ls s) w := by
  obtain ⟨⟨ls, s, w⟩, hrun, -⟩ := Option.map_eq_some_iff.mp talkRun_sent
  exact ⟨ls, s, w, hrun, Env.Reach.rounds (𝓔 := talking) talkReply_legal 1 .start hrun⟩

theorem packet_order_opened : Fresh freshAttr ∧ ∃ p w,
    talking.Reach iteration (mainStart (fun _ => 0) freshAttr) [] p w ∧ (sent w).length = 9 ∧
      ∃ word, Conversation word ∧ sent w <+: word := by
  have hfresh : Fresh freshAttr := ⟨rfl, rfl, Or.inl rfl⟩
  obtain ⟨ls, s, w, hrun, hreach⟩ := talkRun_reach
  have hsent := talkRun_sent
  simp only [hrun, Option.map_some, Option.some.injEq, Prod.mk.injEq] at hsent
  refine ⟨hfresh, _, w, hreach, ?_, (packet_order hfresh _ hreach).1⟩
  rw [hsent.2.2]
  rfl

end AdvVcom
