/-
# `AdvVcom.Daemon.Subscription` — the modem events

The daemon learns of a change of the modem lines through a cycle of requests:

    SET_WAIT_MASK answered   →  WAIT_ON_MASK is asked
    WAIT_ON_MASK answered    →  SET_WAIT_MASK and GET_MODEMSTATUS are asked

started by Sync after OPEN.  The environment `answering` is a device that answers each
IOCTL request once, with success and the request's own sub-command, in any order and with
any other frames in between.  It keeps the requests that are not answered yet, and the
connection cut into turns: a frame, and what the daemon asked until the next one.

**Proved here**, for every run against such a device:

    between two rounds, with a connection, one SET_WAIT_MASK or one WAIT_ON_MASK is
    unanswered, and not both; in a turn that begins with an answer to WAIT_ON_MASK, one
    SET_WAIT_MASK and one GET_MODEMSTATUS are asked before the next turn begins
                                                          (`subscription_conserved`)
-/
import AdvVcom.Daemon.Records
import AdvVcom.Daemon.Stack

namespace AdvVcom

open Lib

/-! ## The device -/

/-- The sub-command of an IOCTL packet. -/
def Pkt.subcmd : Pkt → Option UInt32
  | .purge _ _ => some VCOM_IOCTL_PURGE
  | .sbaud _ _ => some VCOM_IOCTL_SET_BAUD_RATE
  | .setlctl _ _ _ _ => some VCOM_IOCTL_SET_LINE_CONTROL
  | .hflow _ _ _ => some VCOM_IOCTL_SET_HANDFLOW
  | .setwmask _ _ => some VCOM_IOCTL_SET_WAIT_MASK
  | .param _ subcmd => some subcmd
  | _ => none

/-- A frame (`answered` is the request it answers, if it is an answer to an IOCTL), and the
requests made after it. -/
structure Turn where
  answered : Option UInt32
  asks : List UInt32
  deriving DecidableEq

/-- The newest turn comes first. -/
structure Dialogue where
  unanswered : List UInt32
  turns : List Turn
  deriving DecidableEq

def Dialogue.ask (w : Dialogue) (subs : List UInt32) : Dialogue where
  unanswered := w.unanswered ++ subs
  turns := match w.turns with
    | t :: ts => { t with asks := t.asks ++ subs } :: ts
    | [] => []

/-- An attempt to send: all packets, or any leading ones. -/
def Asks (w : Dialogue) (ps : List Pkt) (ok : Bool) (w' : Dialogue) : Prop :=
  ∃ k, (ok = true → ps.length ≤ k) ∧ w' = w.ask ((ps.take k).filterMap Pkt.subcmd)

def Takes (w : Dialogue) (m : Mem) (w' : Dialogue) : Prop :=
  if hdrCmd m = VCOM_CMD_IOCTL then
    attachP1 m = STATUS_SUCCESS ∧ attachP2 m ∈ w.unanswered ∧
      w' = ⟨w.unanswered.erase (attachP2 m), ⟨some (attachP2 m), []⟩ :: w.turns⟩
  else w' = { w with turns := ⟨none, []⟩ :: w.turns }

/-- A new connection. -/
def newDialogue : Dialogue := ⟨[], [⟨none, []⟩]⟩

def answerRecords : Records Dialogue where
  send := Asks
  unready := fun w w' => w' = w
  hand := fun w f w' => Takes w (Mem.ofList f) w'
  fresh := newDialogue

abbrev answering : Env VcSig VcAttr := answerRecords.env

theorem Asks.eq {w w' : Dialogue} {ps : List Pkt} (h : Asks w ps true w') :
    w' = w.ask (ps.filterMap Pkt.subcmd) := by
  obtain ⟨k, hk, rfl⟩ := h
  rw [List.take_of_length_le (hk rfl)]

/-! ## The cycle -/

/-- The requests that keep the subscription alive. -/
def Dialogue.watches (w : Dialogue) : Nat :=
  w.unanswered.count VCOM_IOCTL_SET_WAIT_MASK + w.unanswered.count VCOM_IOCTL_WAIT_ON_MASK

/-- An answer to WAIT_ON_MASK has been taken up. -/
def Turn.Resumed (t : Turn) : Prop :=
  t.answered = some VCOM_IOCTL_WAIT_ON_MASK →
    t.asks.count VCOM_IOCTL_SET_WAIT_MASK = 1 ∧ t.asks.count VCOM_IOCTL_GET_MODEMSTATUS = 1

/-- All turns that are over. -/
def Past (w : Dialogue) : Prop := ∀ t ∈ w.turns.tail, t.Resumed

def Present (w : Dialogue) : Prop := ∀ t ∈ w.turns, t.Resumed

/-- Nothing asked before Sync; then one watch, and every answer taken up. -/
def Subscribed (s : VcAttr) (w : Dialogue) : Prop :=
  Past w ∧ (0 ≤ s.sk → (s.eki.isOpen ≠ 1 → w = newDialogue) ∧
    (s.eki.isOpen = 1 → w.watches = 1 ∧ Present w))

/-- No frame yet, and `n` watches. -/
def Starting (n : Nat) (w : Dialogue) : Prop := (∃ asks, w.turns = [⟨none, asks⟩]) ∧ w.watches = n

/-- The frame in `buf` begins a turn, and nothing has been asked in it. -/
def Faced (buf : Mem) (w : Dialogue) : Prop :=
  Past w ∧ if hdrCmd buf = VCOM_CMD_IOCTL then
    attachP1 buf = STATUS_SUCCESS ∧ (∃ ts, w.turns = ⟨some (attachP2 buf), []⟩ :: ts) ∧
      w.watches = if attachP2 buf = VCOM_IOCTL_SET_WAIT_MASK ∨ attachP2 buf = VCOM_IOCTL_WAIT_ON_MASK
        then 0 else 1
  else (∃ ts, w.turns = ⟨none, []⟩ :: ts) ∧ w.watches = 1

/-- An answer to WAIT_ON_MASK is half taken up. -/
def Renewed (w : Dialogue) : Prop :=
  Past w ∧ (∃ ts, w.turns = ⟨some VCOM_IOCTL_WAIT_ON_MASK, [VCOM_IOCTL_SET_WAIT_MASK]⟩ :: ts) ∧
    w.watches = 1

section
variable {s s' : VcAttr} {w w' : Dialogue} {subs : List UInt32} {st : St} {top : List St}

theorem watches_ask (w : Dialogue) (subs : List UInt32) : (w.ask subs).watches =
    w.watches + (subs.count VCOM_IOCTL_SET_WAIT_MASK + subs.count VCOM_IOCTL_WAIT_ON_MASK) := by
  simp only [Dialogue.watches, Dialogue.ask, List.count_append]
  omega

theorem turns_ask {t : Turn} {ts : List Turn} (h : w.turns = t :: ts) (subs : List UInt32) :
    (w.ask subs).turns = { t with asks := t.asks ++ subs } :: ts := by
  simp only [Dialogue.ask, h]

theorem Past.ask (h : Past w) (subs : List UInt32) : Past (w.ask subs) := by
  cases hw : w.turns with
  | nil =>
      intro t ht
      simp [Dialogue.ask, hw] at ht
  | cons t ts =>
      intro t' ht'
      rw [turns_ask hw] at ht'
      exact h t' (by rw [hw]; exact ht')

theorem present_cons {t : Turn} {ts : List Turn} (hw : w.turns = t :: ts) (h : Past w)
    (ht : t.Resumed) : Present w := by
  intro t' ht'
  rw [hw] at ht'
  rcases List.mem_cons.mp ht' with rfl | ht'
  · exact ht
  · exact h t' (by rw [hw]; exact ht')

/-- Requests that are no part of the cycle. -/
theorem Present.ask (h : Present w) (hmask : subs.count VCOM_IOCTL_SET_WAIT_MASK = 0)
    (hstat : subs.count VCOM_IOCTL_GET_MODEMSTATUS = 0) : Present (w.ask subs) := by
  cases hw : w.turns with
  | nil =>
      intro t ht
      simp [Dialogue.ask, hw] at ht
  | cons t ts =>
      have hpast : Past (w.ask subs) := Past.ask (fun t ht => h t (List.mem_of_mem_tail ht)) subs
      refine present_cons (turns_ask hw subs) hpast fun hans => ?_
      have hres := h t (by rw [hw]; exact List.mem_cons_self) hans
      simp only [List.count_append, hmask, hstat]
      exact hres

theorem Starting.present {n : Nat} (h : Starting n w) : Present w := by
  obtain ⟨⟨asks, hw⟩, -⟩ := h
  intro t ht hans
  rw [hw, List.mem_singleton] at ht
  rw [ht] at hans
  cases hans

theorem newDialogue_past : Past newDialogue := fun _ ht => absurd ht List.not_mem_nil

theorem Present.past (h : Present w) : Past w := fun t ht => h t (List.mem_of_mem_tail ht)

theorem Starting.ask {n : Nat} (h : Starting n w) (subs : List UInt32) :
    Starting (n + (subs.count VCOM_IOCTL_SET_WAIT_MASK + subs.count VCOM_IOCTL_WAIT_ON_MASK))
      (w.ask subs) := by
  obtain ⟨⟨asks, hw⟩, hn⟩ := h
  exact ⟨⟨asks ++ subs, turns_ask hw subs⟩, by rw [watches_ask, hn]⟩

/-! ## Between two handlers -/

theorem Subscribed.kin (h : Subscribed s w) (hs : Kin s s') : Subscribed s' w := by
  obtain ⟨hpast, hwatch⟩ := h
  refine ⟨hpast, fun hsk => ?_⟩
  rw [hs.opened]
  exact hwatch (by rw [← hs.sk]; exact hsk)

theorem Subscribed.up (h : Subscribed s w) (hup : Up st top s) : w.watches = 1 ∧ Present w :=
  (h.2 hup.2.2.1).2 hup.2.2.2.1

theorem subscribed_of (hone : w.watches = 1) (hpresent : Present w) (hopen : s.eki.isOpen = 1) :
    Subscribed s w :=
  ⟨hpresent.past, fun _ => ⟨fun hne => absurd hopen hne, fun _ => ⟨hone, hpresent⟩⟩⟩

theorem Pkt.Common.subcmd_ne {p : Pkt} {sub : UInt32} (h : p.Common) (hp : p.subcmd = some sub) :
    sub ≠ VCOM_IOCTL_SET_WAIT_MASK ∧ sub ≠ VCOM_IOCTL_WAIT_ON_MASK ∧
      sub ≠ VCOM_IOCTL_GET_MODEMSTATUS := by
  cases p with
  | param tid subcmd =>
      cases hp
      exact ⟨h.2.1, h.1, h.2.2⟩
  | sbaud | setlctl | hflow =>
      cases hp
      decide
  | xmit => cases hp
  | _ => exact h.elim

/-- Packets that are no part of the cycle leave it as it is. -/
theorem Subscribed.spoke {ps : List Pkt} (h : Subscribed s w) (hup : Up st top s)
    (hps : ∀ p ∈ ps, p.Common) (hs : Asks w ps true w') : Subscribed s w' := by
  have hne : ∀ sub ∈ ps.filterMap Pkt.subcmd, sub ≠ VCOM_IOCTL_SET_WAIT_MASK ∧
      sub ≠ VCOM_IOCTL_WAIT_ON_MASK ∧ sub ≠ VCOM_IOCTL_GET_MODEMSTATUS := by
    intro sub hsub
    obtain ⟨p, hp, hsome⟩ := List.mem_filterMap.mp hsub
    exact (hps p hp).subcmd_ne hsome
  have hmask : (ps.filterMap Pkt.subcmd).count VCOM_IOCTL_SET_WAIT_MASK = 0 :=
    List.count_eq_zero.mpr fun hmem => (hne _ hmem).1 rfl
  have hwait : (ps.filterMap Pkt.subcmd).count VCOM_IOCTL_WAIT_ON_MASK = 0 :=
    List.count_eq_zero.mpr fun hmem => (hne _ hmem).2.1 rfl
  have hstat : (ps.filterMap Pkt.subcmd).count VCOM_IOCTL_GET_MODEMSTATUS = 0 :=
    List.count_eq_zero.mpr fun hmem => (hne _ hmem).2.2 rfl
  obtain ⟨hone, hpresent⟩ := h.up hup
  rw [hs.eq]
  exact subscribed_of (by rw [watches_ask, hone, hmask, hwait]) (hpresent.ask hmask hstat) hup.2.2.2.1

/-! ## A frame comes in -/

theorem watches_erase {sub : UInt32} {turns : List Turn} (hone : w.watches = 1) (hmem : sub ∈ w.unanswered) :
    Dialogue.watches ⟨w.unanswered.erase sub, turns⟩ =
      if sub = VCOM_IOCTL_SET_WAIT_MASK ∨ sub = VCOM_IOCTL_WAIT_ON_MASK then 0 else 1 := by
  have hpos := List.count_pos_iff.mpr hmem
  have hdiff : VCOM_IOCTL_SET_WAIT_MASK ≠ VCOM_IOCTL_WAIT_ON_MASK := by decide
  simp only [Dialogue.watches] at hone ⊢
  rw [List.count_erase, List.count_erase]
  by_cases hsub : sub = VCOM_IOCTL_SET_WAIT_MASK ∨ sub = VCOM_IOCTL_WAIT_ON_MASK
  · rw [if_pos hsub]
    rcases hsub with rfl | rfl
    · rw [if_pos (beq_self_eq_true _), if_neg (by simpa using hdiff)]
      omega
    · rw [if_pos (beq_self_eq_true _), if_neg (by simpa using hdiff.symm)]
      omega
  · rw [if_neg hsub, if_neg fun h => hsub (Or.inl (eq_of_beq h)),
      if_neg fun h => hsub (Or.inr (eq_of_beq h))]
    exact hone

theorem Subscribed.faced {buf : Mem} (h : Subscribed s w) (hup : Up st top s)
    (hr : Takes w (Mem.ofList (buf.slice 0 (HDR_LEN + hdrLen buf))) w') : Faced buf w' := by
  obtain ⟨hone, hpresent⟩ := h.up hup
  simp only [Takes, hdrCmd_slice, attachP1_slice, attachP2_slice] at hr
  simp only [Faced]
  split at hr
  · rename_i hcmd
    obtain ⟨hok, hmem, rfl⟩ := hr
    rw [if_pos hcmd]
    exact ⟨hpresent, hok, ⟨_, rfl⟩, watches_erase hone hmem⟩
  · rename_i hcmd
    rw [hr, if_neg hcmd]
    exact ⟨hpresent, ⟨_, rfl⟩, hone⟩

/-- A frame that Sync does not see. -/
theorem Faced.passed {buf : Mem} (h : Faced buf w) (hup : Up st top s) (hnot : ¬ ForSync buf) :
    Subscribed s w := by
  obtain ⟨hpast, h⟩ := h
  split at h
  · rename_i hcmd
    obtain ⟨hok, ⟨ts, hturns⟩, hwatches⟩ := h
    have hsub (hsub : attachP2 buf = VCOM_IOCTL_WAIT_ON_MASK ∨
        attachP2 buf = VCOM_IOCTL_GET_MODEMSTATUS ∨ attachP2 buf = VCOM_IOCTL_SET_WAIT_MASK) : False :=
      hnot ⟨hcmd, hok, hsub⟩
    rw [if_neg fun h => hsub (h.elim (fun h => Or.inr (Or.inr h)) Or.inl)] at hwatches
    refine subscribed_of hwatches (present_cons hturns hpast fun hans => ?_) hup.2.2.2.1
    exact absurd (Or.inl (Option.some.inj hans)) hsub
  · obtain ⟨⟨ts, hturns⟩, hwatches⟩ := h
    exact subscribed_of hwatches (present_cons hturns hpast nofun) hup.2.2.2.1

theorem subscribed_lasts : Lasts answering Subscribed := Records.lasts Subscribed.kin

theorem answering_only {P : Dialogue → Prop} : Lasts answering fun _ w => P w :=
  Records.lasts fun h _ => h

/-- What is left of an assertion when a send fails. -/
theorem past_yields {P : VcAttr → Dialogue → Prop} (hP : Lasts answering P)
    (hpast : ∀ s w, P s w → Past w) : Yields answering P fun _ => Past where
  lasts := hP
  after := answering_only
  weak := hpast
  unready := fun {s w w'} h _ hr => by
    rw [show w' = w from hr]
    exact hpast s w h

theorem Past.asks {ps : List Pkt} {ok : Bool} (h : Past w) (hs : Asks w ps ok w') : Past w' := by
  obtain ⟨k, -, rfl⟩ := hs
  exact h.ask _

/-! ## Sync -/

theorem SyncPkt.watches {i : Nat} {p : Pkt} (h : SyncPkt s i p) :
    ([p].filterMap Pkt.subcmd).count VCOM_IOCTL_SET_WAIT_MASK +
      ([p].filterMap Pkt.subcmd).count VCOM_IOCTL_WAIT_ON_MASK = if i = 2 then 1 else 0 := by
  match i, h with
  | 0, ⟨tid, ms, hp⟩ =>
      rw [hp, rtsPkt]
      split
      · rfl
      · rfl
  | 1, ⟨tid, ms, hp⟩ =>
      rw [hp, dtrPkt]
      split
      · rfl
      · rfl
  | 2, ⟨tid, mask, hp⟩ =>
      rw [hp]
      rfl
  | 3, ⟨tid, hp⟩ =>
      rw [hp]
      rfl
  | 4, ⟨tid, hp⟩ =>
      rw [hp]
      rfl

theorem subscribed_synced (hup : Up st [.sync] s) (h : Starting 0 w) :
    syncAll.wp answering (fun _ => Past) (Went Subscribed (fun _ => Past) st [.sync]) s w := by
  have hall : syncAll.wp answering (fun _ => Past)
      (Went (fun _ => Starting 1) (fun _ => Past) st [.sync]) s w := by
    refine wp_syncAll (𝓔 := answering) (P := fun i _ => Starting (if i < 3 then 0 else 1))
      (fun i => past_yields answering_only fun _ _ h => h.present.past) (fun _ _ h => h) ?_ ?_ ?_ hup h
    · intro i s w h t k _
      exact h
    · intro i s w w' p _ h hp hs
      have hnext := h.ask ([p].filterMap Pkt.subcmd)
      rw [hp.watches, ← (Records.send_of_sends hs).eq] at hnext
      convert hnext using 1
      split_ifs <;> omega
    · intro i s w w' p _ h _ hs
      exact h.present.past.asks (Records.send_of_sends hs)
  refine Act.wp_mono hall fun ok s w hq => ?_
  cases ok with
  | true => exact ⟨hq.1, subscribed_of hq.2.2 hq.2.present hq.1.2.2.2.1⟩
  | false => exact hq

/-- What Sync knows of the answer it is to take up. -/
theorem Faced.sub {buf : Mem} (h : Faced buf w) (hbuf : ForSync buf) :
    (∃ ts, w.turns = ⟨some (attachP2 buf), []⟩ :: ts) ∧
      w.watches = if attachP2 buf = VCOM_IOCTL_SET_WAIT_MASK ∨
        attachP2 buf = VCOM_IOCTL_WAIT_ON_MASK then 0 else 1 := by
  have hface := h.2
  rw [if_pos hbuf.1] at hface
  exact hface.2

theorem Faced.renewed {buf : Mem} {tid mask : UInt32} (h : Faced buf w) (hbuf : ForSync buf)
    (hsub : attachP2 buf = VCOM_IOCTL_WAIT_ON_MASK) (hs : Asks w [.setwmask tid mask] true w') :
    Renewed w' := by
  obtain ⟨⟨ts, hturns⟩, hwatches⟩ := h.sub hbuf
  rw [hsub] at hturns
  rw [if_pos (Or.inr hsub)] at hwatches
  rw [hs.eq]
  refine ⟨h.1.ask _, ⟨ts, turns_ask hturns _⟩, ?_⟩
  rw [watches_ask, hwatches]
  rfl

theorem Renewed.subscribed {tid : UInt32} (h : Renewed w) (hup : Up st top s)
    (hs : Asks w [.param tid VCOM_IOCTL_GET_MODEMSTATUS] true w') : Subscribed s w' := by
  obtain ⟨hpast, ⟨ts, hturns⟩, hone⟩ := h
  rw [hs.eq]
  refine subscribed_of (by rw [watches_ask, hone]; rfl) ?_ hup.2.2.2.1
  exact present_cons (turns_ask hturns _) (hpast.ask _) fun _ => ⟨rfl, rfl⟩

theorem Faced.waiting {buf : Mem} {tid : UInt32} (h : Faced buf w) (hbuf : ForSync buf)
    (hsub : attachP2 buf = VCOM_IOCTL_SET_WAIT_MASK) (hup : Up st top s)
    (hs : Asks w [.param tid VCOM_IOCTL_WAIT_ON_MASK] true w') : Subscribed s w' := by
  obtain ⟨⟨ts, hturns⟩, hwatches⟩ := h.sub hbuf
  rw [hsub] at hturns
  rw [if_pos (Or.inl hsub)] at hwatches
  rw [hs.eq]
  refine subscribed_of (by rw [watches_ask, hwatches]; rfl) ?_ hup.2.2.2.1
  refine present_cons (turns_ask hturns _) (h.1.ask _) fun hans => ?_
  exact absurd (Option.some.inj hans) (by decide)

theorem Faced.modem {buf : Mem} (h : Faced buf w) (hbuf : ForSync buf)
    (hsub : attachP2 buf = VCOM_IOCTL_GET_MODEMSTATUS) (hup : Up st top s) : Subscribed s w := by
  obtain ⟨⟨ts, hturns⟩, hwatches⟩ := h.sub hbuf
  rw [hsub] at hturns hwatches
  refine subscribed_of hwatches (present_cons hturns h.1 fun hans => ?_) hup.2.2.2.1
  exact absurd (Option.some.inj hans) (by decide)

theorem subscribed_replied {buf : Mem} (hbuf : ForSync buf) (hup : Up st [.sync] s)
    (h : Faced buf w) :
    (syncReply buf).wp answering (fun _ => Past) (Went Subscribed (fun _ => Past) st [.sync]) s w := by
  refine wp_syncReply (𝓔 := answering) (A := fun _ => Faced buf) (M := fun _ => Renewed)
    (past_yields answering_only fun _ _ h => h.1) (past_yields answering_only fun _ _ h => h.1)
    subscribed_lasts (fun _ _ h => h) ?_ ?_ ?_ ?_ (fun _ _ h => h.1) ?_ hbuf hup h
  · intro w w' hsub h hs
    exact h.renewed hbuf hsub (Records.send_of_sends hs)
  · intro s w w' hup h hs
    exact (h.subscribed hup (Records.send_of_sends hs)).kin ⟨⟨rfl, rfl⟩, rfl, rfl⟩
  · intro w w' hsub h hs
    exact (h.waiting hbuf hsub hup (Records.send_of_sends hs)).kin ⟨⟨rfl, rfl⟩, rfl, rfl⟩
  · intro w w' r hsub h hr
    rw [show w' = w from hr]
    exact h.modem hbuf hsub hup
  · intro s w w' p _ h _ hs
    rcases h with h | h
    · exact h.1.asks (Records.send_of_sends hs)
    · exact h.1.asks (Records.send_of_sends hs)

end

/-! ## Whole runs -/

theorem subscribed_tells : Tells answerRecords (fun _ => Past) Subscribed (fun _ => Starting 0)
    (fun _ => Past) (fun _ => Past) (fun buf _ _ => Faced buf) where
  kinJ := Subscribed.kin
  kinC := fun h _ => h
  kinB := fun h _ => h
  kinH := fun h _ => h
  lastsS := answering_only
  weakJ := fun _ _ h => h.1
  weakC := fun _ _ h => h
  weakS := fun _ _ h => h.present.past
  pause := fun _ _ h => h
  hung := fun _ h => ⟨h, fun hsk => absurd hsk (by simp [VcAttr.hung])⟩
  dialed := by
    intro s r hd _
    refine ⟨newDialogue_past, fun _ => ⟨fun _ => rfl, fun hopen => ?_⟩⟩
    rw [hd.2.2.2.2.1] at hopen
    cases hopen
  chosen := by
    intro s w hd h
    refine ⟨h.1, fun hsk => ⟨(h.2 hsk).1, fun hopen => ?_⟩⟩
    rw [hd.2.2.2.2.1] at hopen
    cases hopen
  opened := by
    intro st s w w' hd _ h hs
    have hw : w = newDialogue := (h.2 hd.2.1).1 (by rw [hd.2.2.2.2.1]; decide)
    have hnew : Starting 0 w := by
      rw [hw]
      exact ⟨⟨[], rfl⟩, rfl⟩
    rw [hs.eq]
    exact hnew.ask []
  unready := by
    intro s w w' h _ hr
    rw [show w' = w from hr]
    exact h.1
  unopened := fun _ h _ _ hs => h.1.asks hs
  unsent := fun _ h _ _ hs => h.1.asks hs
  spoke := fun hup h hps hs => h.spoke hup hps hs
  requeued := by
    intro st st' s w w' n hup h _ hs
    obtain ⟨hone, hpresent⟩ := h.up hup
    rw [hs.eq]
    exact subscribed_of (by rw [watches_ask, hone]; rfl) (hpresent.ask rfl rfl) hup.2.2.2.1
  synced := fun hup h => ⟨subscribed_synced hup h⟩
  unpurged := by
    intro st top s w w' _ h hr
    rw [show w' = w from hr]
    exact h.1
  purged := fun _ h hs => h.1.asks hs
  unbyed := by
    intro s w w' h hr
    rw [show w' = w from hr]
    exact h
  byed := fun h hs => h.asks hs
  handed := fun hup h hr => h.faced hup hr
  passed := fun hup h hnot => h.passed hup hnot
  replied := fun hup h hbuf => ⟨subscribed_replied hbuf hup h⟩

/-- **The subscription is conserved.**  A turn that is over has a later frame behind it; in
each that began with an answer to WAIT_ON_MASK, one SET_WAIT_MASK and one GET_MODEMSTATUS
were asked.  Between two rounds this is so for the newest turn as well, and exactly one of
the requests that keep the subscription alive is unanswered. -/
theorem subscription_conserved {s₀ : VcAttr} (hfresh : Fresh s₀) (buf : Mem)
    {p : Proc VcSig VcAttr (Option LoopState)} {w : Dialogue}
    (hreach : answering.Reach iteration (mainStart buf s₀) newDialogue p w) :
    (∀ t ∈ w.turns.tail, t.answered = some VCOM_IOCTL_WAIT_ON_MASK →
      t.asks.count VCOM_IOCTL_SET_WAIT_MASK = 1 ∧ t.asks.count VCOM_IOCTL_GET_MODEMSTATUS = 1) ∧
    ∀ ls s, p = .done ls s → 0 ≤ s.sk →
      w.unanswered.count VCOM_IOCTL_SET_WAIT_MASK + w.unanswered.count VCOM_IOCTL_WAIT_ON_MASK = 1 ∧
      ∀ t ∈ w.turns, t.answered = some VCOM_IOCTL_WAIT_ON_MASK →
        t.asks.count VCOM_IOCTL_SET_WAIT_MASK = 1 ∧ t.asks.count VCOM_IOCTL_GET_MODEMSTATUS = 1 := by
  have hstart : Subscribed s₀.hung newDialogue :=
    ⟨newDialogue_past, fun hsk => absurd hsk (by simp [VcAttr.hung])⟩
  have hwp := subscribed_tells.run hfresh hstart hreach
  constructor
  · cases p with
    | done ls s => exact hwp.2.1
    | fault f => exact hwp.elim
    | pause s e k => exact hwp.pause
  · rintro ls s rfl hsk
    obtain ⟨hcalm, hsub⟩ := hwp
    obtain ⟨st, top, -, hup⟩ := hcalm.up hsk
    exact hsub.up hup

/-- The header of an answer to the IOCTL `sub`. -/
def ioctlAnswer (sub : UInt32) : List UInt8 :=
  (setParam (vcInitHdr (fun _ => 0) 0 VCOM_CMD_IOCTL 0) STATUS_SUCCESS sub).slice 0 HDR_LEN

/-- A device that answers what keeps the subscription alive, one request in each round. -/
def cycleReply (w : Dialogue) : (e : Req) → Option (e.Rep × Dialogue)
  | .ioctl _ _ => some (some (0 : Int), w)
  | .attrPtr => some (some { PortInfo.zero with isOpen := 1, baud := 9600, byte := 8 }, w)
  | .connect => some ((3 : Int), newDialogue)
  | .fdcheck => some (true, w)
  | .send ps => some (true, w.ask (ps.filterMap Pkt.subcmd))
  | .select _ _ => some (⟨1, ⟨false, false, false, true, false⟩, 1⟩, w)
  | .recv _ _ => some (RecvRet.data (ioctlAnswer
      (if VCOM_IOCTL_SET_WAIT_MASK ∈ w.unanswered then VCOM_IOCTL_SET_WAIT_MASK
        else VCOM_IOCTL_WAIT_ON_MASK)), w)
  | .hand f =>
      let m := Mem.ofList f
      if hdrCmd m = VCOM_CMD_IOCTL ∧ attachP1 m = STATUS_SUCCESS ∧ attachP2 m ∈ w.unanswered then
        some ((), ⟨w.unanswered.erase (attachP2 m), ⟨some (attachP2 m), []⟩ :: w.turns⟩)
      else none
  | _ => none

theorem cycleReply_legal {w : Dialogue} {e : Req} {r : e.Rep} {w' : Dialogue}
    (h : cycleReply w e = some (r, w')) : answering.answers w e r w' := by
  cases e with
  | attrPtr =>
      cases h
      refine ⟨rfl, fun v hv => ?_⟩
      cases hv
      exact Or.inr rfl
  | send ps =>
      cases h
      exact ⟨ps.length, fun _ => Nat.le_refl _, by rw [List.take_length]⟩
  | ioctl | connect | fdcheck | select | recv =>
      cases h
      rfl
  | hand f =>
      simp only [cycleReply] at h
      split at h
      · rename_i hok
        cases h
        show Takes w (Mem.ofList f) _
        rw [Takes, if_pos hok.1]
        exact ⟨hok.2.1, hok.2.2, rfl⟩
      · cases h
  | _ => cases h

def cycleRun : Option (Option LoopState × VcAttr × Dialogue) :=
  ((mainStart (fun _ => 0) freshAttr).bind (rounds iteration 2)).exec cycleReply newDialogue

/-- After two rounds both answers have been taken up. -/
theorem cycleRun_turns : cycleRun.map (fun r => (r.2.1.sk, r.2.2.turns.take 2)) =
    some (3, [⟨some VCOM_IOCTL_WAIT_ON_MASK, [VCOM_IOCTL_SET_WAIT_MASK, VCOM_IOCTL_GET_MODEMSTATUS]⟩,
      ⟨some VCOM_IOCTL_SET_WAIT_MASK, [VCOM_IOCTL_WAIT_ON_MASK]⟩]) := by
  decide +kernel

theorem subscription_conserved_cycle : Fresh freshAttr ∧ ∃ ls s w,
    answering.Reach iteration (mainStart (fun _ => 0) freshAttr) newDialogue (.done ls s) w ∧
      0 ≤ s.sk ∧ w.turns.head?.map (·.answered) = some (some VCOM_IOCTL_WAIT_ON_MASK) ∧
      w.unanswered.count VCOM_IOCTL_SET_WAIT_MASK + w.unanswered.count VCOM_IOCTL_WAIT_ON_MASK = 1 := by
  have hfresh : Fresh freshAttr := ⟨rfl, rfl, Or.inl rfl⟩
  obtain ⟨⟨ls, s, w⟩, hrun, hturns⟩ := Option.map_eq_some_iff.mp cycleRun_turns
  have hreach := Env.Reach.rounds (𝓔 := answering) cycleReply_legal 2 .start hrun
  simp only [Prod.mk.injEq] at hturns
  have hsk : 0 ≤ s.sk := by rw [hturns.1]; decide
  have hhead : w.turns.head? = (w.turns.take 2).head? := by
    cases w.turns with
    | nil => rfl
    | cons t ts => rfl
  refine ⟨hfresh, ls, s, w, hreach, hsk, ?_, ((subscription_conserved hfresh _ hreach).2 ls s rfl hsk).1⟩
  rw [hhead, hturns.2]
  rfl

end AdvVcom
