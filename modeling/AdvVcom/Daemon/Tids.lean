/-
# `AdvVcom.Daemon.Tids` — the transaction ids of a connection

Every packet carries a transaction id.  All senders but one take it from `attr->tid` and
count it up once the packet is out; `_set_ms` counts in its loop and `vc_common_ioctl` once
more behind it, so a number is left out there.  The exception is `vc_common_open`: `tid` is 0
on a new connection, OPEN carries a literal 1, and then `tid` is counted up to 1.  The first
packet of Sync carries 1 again.

**Proved here**, for every run, over the environment of `Order`:

    of two packets sent on a connection, the later one carries the larger id, with one
    exception: OPEN and the packet after it                (`later_tid_greater_iff`)

as long as there are at most 2^31 of them, so that `tid` has not wrapped around.  The
invariant is a list of natural numbers: the ids before they are cut to 32 bits.
-/
import AdvVcom.Daemon.Order
import AdvVcom.Daemon.Settings

namespace AdvVcom

open Lib

/-! ## The field -/

/-- The packet's transaction id. -/
def Pkt.tid : Pkt → UInt32
  | .open tid _ _ | .close tid | .xmit tid _ | .qfsize tid _ | .purge tid _ | .sbaud tid _
  | .setlctl tid _ _ _ | .hflow tid _ _ | .setwmask tid _ | .param tid _ => tid

theorem packWith_tid {plen buflen : Int} {tid : UInt32} {cmd len : Nat} {p1 p2 : UInt32}
    {fields : Mem → Mem} {pbuf : Mem} (hfields : ∀ m : Mem, hdrTid (fields m) = hdrTid m)
    (h : 0 < (packWith plen buflen tid cmd len p1 p2 fields fun _ => 0).1) :
    hdrTid (packWith plen buflen tid cmd len p1 p2 fields pbuf).2 = tid := by
  unfold packWith at h ⊢
  split at h
  · exact absurd h (Int.lt_irrefl 0)
  · rename_i hlen
    rw [if_neg hlen, hfields]
    simp only [hdrTid, setParam, vcInitHdr]
    repeat rw [Mem.be32_blit_behind (by decide)]
    exact Mem.be32_blit _ _ _

theorem vcPackXmit_tid {tid : UInt32} {datalen buflen : Int} {data pbuf : Mem}
    (h : 0 < (vcPackXmit (fun _ => 0) tid datalen (some data) buflen).1) :
    hdrTid (vcPackXmit pbuf tid datalen (some data) buflen).2 = tid := by
  unfold vcPackXmit at h ⊢
  generalize data.slice 0 (datalen % 2 ^ 64).toNat = bytes at h ⊢
  exact packWith_tid (fun _ => Mem.be32_blit_behind (by decide)) h

/-- It is what the packer puts into the header. -/
theorem Pkt.hdrTid_pack (p : Pkt) {buflen : Int} (pbuf : Mem) (h : 0 < p.plen buflen) :
    hdrTid (p.call.pack buflen pbuf).2 = p.tid := by
  have hblit (m : Mem) {off : Nat} (bs : List UInt8) (hoff : 20 ≤ off) :
      hdrTid (m.blit off bs) = hdrTid m := Mem.be32_blit_behind (Nat.le_trans (by decide) hoff)
  cases p with
  | «open» | close | qfsize | param => exact packWith_tid (fun _ => rfl) h
  | xmit tid data =>
      rw [Pkt.plen, Pkt.call, PackCall.pack] at h
      rw [Pkt.call, PackCall.pack, Pkt.tid]
      exact vcPackXmit_tid h
  | purge | sbaud | setwmask => exact packWith_tid (fun m => hblit m _ (by decide)) h
  | setlctl | hflow =>
      refine packWith_tid (fun m => ?_) h
      repeat rw [hblit _ _ (by decide)]

/-! ## Numbered packets -/

/-- The packets with the ids `n`, `n + 1`, …, cut to 32 bits. -/
def InTurn (n : Nat) (ps : List Pkt) : Prop :=
  ps.map Pkt.tid = (List.range' n ps.length).map UInt32.ofNat

/-- The packets carry 1 and then rising numbers, from 1 again; `n` comes next.  At most one
number was left out for each packet. -/
def Numbered (ps : List Pkt) (n : Nat) : Prop :=
  ∃ ns : List Nat, ps.map Pkt.tid = (1 :: ns).map UInt32.ofNat ∧ (ns ++ [n]).head? = some 1 ∧
    (ns ++ [n]).Pairwise (· < ·) ∧ n ≤ 2 * ns.length + 1

theorem numbered_open {p : Pkt} (h : p.tid = 1) : Numbered [p] 1 :=
  ⟨[], by simp [h], rfl, List.pairwise_singleton _ _, by simp⟩

theorem inTurn_one {n : Nat} {p : Pkt} (h : p.tid = UInt32.ofNat n) : InTurn n [p] := by
  simp [InTurn, h]

theorem Numbered.append {ps qs : List Pkt} {n n' : Nat} (h : Numbered ps n) (hq : InTurn n qs)
    (hlo : n + qs.length ≤ n') (hhi : n' ≤ n + 2 * qs.length) : Numbered (ps ++ qs) n' := by
  obtain ⟨ns, htids, hhead, hrise, hle⟩ := h
  refine ⟨ns ++ List.range' n qs.length, ?_, ?_, ?_, ?_⟩
  · rw [List.map_append, htids, hq, ← List.cons_append, List.map_append]
  · cases ns with
    | nil =>
        have hn : n = 1 := by simpa using hhead
        subst hn
        cases qs with
        | nil =>
            have hn' : n' = 1 := by simp at hlo hhi; omega
            simp [hn']
        | cons q qs => simp [List.range'_succ]
    | cons m ns => simpa using hhead
  · rw [List.pairwise_append] at hrise
    obtain ⟨hns, -, hlast⟩ := hrise
    have hbelow : ∀ m ∈ ns ++ List.range' n qs.length, m < n' := by
      intro m hm
      rcases List.mem_append.mp hm with hm | hm
      · have := hlast m hm n (List.mem_singleton_self n)
        omega
      · have := List.mem_range'_1.mp hm
        omega
    refine List.pairwise_append.mpr ⟨List.pairwise_append.mpr ⟨hns, List.pairwise_lt_range', ?_⟩,
      List.pairwise_singleton _ _, fun m hm m' hm' => ?_⟩
    · intro m hm m' hm'
      have := hlast m hm n (List.mem_singleton_self n)
      have := List.mem_range'_1.mp hm'
      omega
    · rw [List.mem_singleton.mp hm']
      exact hbelow m hm
  · simp only [List.length_append, List.length_range']
    omega

/-! ## What has been sent -/

/-- The packets of the calls that succeeded, in order. -/
def delivered (w : List Try) : List Pkt := (w.filter (·.ok)).flatMap (·.packets)

theorem Tried.delivered_eq {w w' : List Try} {ps : List Pkt} (h : Tried w ps true w') :
    delivered w' = delivered w ++ ps := by
  obtain ⟨k, -, rfl⟩ := h
  simp [delivered]

theorem Tried.delivered_same {w w' : List Try} {ps : List Pkt} (h : Tried w ps false w') :
    delivered w' = delivered w := by
  obtain ⟨k, -, rfl⟩ := h
  simp [delivered]

/-- Nothing was sent, or numbered packets. -/
def Ended (w : List Try) : Prop := delivered w = [] ∨ ∃ n, Numbered (delivered w) n

/-- `tid` is the number that comes next. -/
def Live (tid : UInt32) (w : List Try) : Prop :=
  ∃ n, tid = UInt32.ofNat n ∧ Numbered (delivered w) n

/-- Nothing sent before OPEN; after it, `attr->tid` comes next. -/
def Counted (s : VcAttr) (w : List Try) : Prop :=
  Ended w ∧ (0 ≤ s.sk → (s.eki.isOpen ≠ 1 → w = []) ∧ (s.eki.isOpen = 1 → Live s.tid w))

section
variable {s : VcAttr} {w w' : List Try} {st : St} {top : List St} {tid : UInt32}

theorem Live.ended (h : Live tid w) : Ended w := by
  obtain ⟨n, -, hn⟩ := h
  exact Or.inr ⟨n, hn⟩

theorem Ended.tried {ps : List Pkt} (h : Ended w) (ht : Tried w ps false w') : Ended w' := by
  unfold Ended
  rw [ht.delivered_same]
  exact h

theorem Live.tried {ps : List Pkt} (h : Live tid w) (ht : Tried w ps false w') : Live tid w' := by
  unfold Live
  rw [ht.delivered_same]
  exact h

/-- One packet with the next number. -/
theorem Live.next {p : Pkt} (h : Live tid w) (hp : p.tid = tid) (ht : Tried w [p] true w') :
    Live (tid + 1) w' := by
  obtain ⟨n, rfl, hn⟩ := h
  refine ⟨n + 1, by simp, ?_⟩
  rw [ht.delivered_eq]
  exact hn.append (inTurn_one hp) (Nat.le_refl _) (by simp)

theorem Counted.live (h : Counted s w) (hup : Up st top s) : Live s.tid w :=
  (h.2 hup.2.2.1).2 hup.2.2.2.1

theorem Live.counted (h : Live s.tid w) (hopen : s.eki.isOpen = 1) : Counted s w :=
  ⟨h.ended, fun _ => ⟨fun hne => absurd hopen hne, fun _ => h⟩⟩

theorem Counted.unready (h : Counted s w) (hr : talkRecords.unready w w') : Ended w' :=
  h.1.tried (tried_of_unready hr)

theorem talking_lasts {P : VcAttr → List Try → Prop}
    (hssl : ∀ {s w}, P s w → ∀ x, P { s with ssl := x } w)
    (hstk : ∀ {s w}, P s w → ∀ l, P { s with stk := l } w) : Lasts talking P where
  drift := fun _ hd => hd.elim
  ssl := fun h x _ => hssl h x
  mild := by
    intro s w w' e r he h hr
    rw [Records.mild he hr]
    exact h
  ready := by
    intro s w w' h hr
    rw [show w' = w from hr]
    exact h
  base := fun h l _ => hstk h l

theorem counted_lasts : Lasts talking Counted := talking_lasts (fun h _ => h) (fun h _ => h)

theorem live_lasts : Lasts talking fun s => Live s.tid := talking_lasts (fun h _ => h) (fun h _ => h)

theorem counted_yields : Yields talking Counted fun _ => Ended :=
  ⟨counted_lasts, talking_only, fun _ _ h => h.1, fun h _ hr => h.unready hr⟩

theorem live_yields : Yields talking (fun s => Live s.tid) fun _ => Ended :=
  ⟨live_lasts, talking_only, fun _ _ h => h.ended, fun h _ hr => h.ended.tried (tried_of_unready hr)⟩

theorem counted_blind : Blind talking (fun _ => Ended) Counted fun _ => Ended where
  deaf := Records.deaf
  pause := fun _ _ h => h
  weak := fun _ _ h => h.1
  aside := fun h _ => h
  apart := fun h _ _ _ _ => h

/-! ## The senders -/

/-- `sendNext`, for a packet that carries the id it is given. -/
theorem sendNext_live {p : UInt32 → Pkt} (hlen : ∀ tid, 0 < (p tid).plen 1024)
    (hp : ∀ tid, (p tid).tid = tid) (hup : Up st top s) (h : Live s.tid w) :
    (sendNext p).wp talking (fun _ => Ended)
      (Went (fun s => Live s.tid) (fun _ => Ended) st top) s w := by
  refine wp_sendNext_went live_yields live_lasts (fun _ _ h => h) (hlen _) ?_ ?_ hup h
  · intro w w' h hs
    exact h.next (hp _) (tried_of_sends hs)
  · intro w w' h hs
    exact h.ended.tried (tried_of_sends hs)

theorem counted_synced (hup : Up st [.sync] s) (h : Live s.tid w) :
    syncAll.wp talking (fun _ => Ended) (Went Counted (fun _ => Ended) st [.sync]) s w := by
  have hall : syncAll.wp talking (fun _ => Ended)
      (Went (fun s => Live s.tid) (fun _ => Ended) st [.sync]) s w := by
    have hms : (syncMs s.view.ms).wp talking (fun _ => Ended)
        (Went (fun s => Live s.tid) (fun _ => Ended) st [.sync]) s w :=
      wp_went_and (sendNext_live (by simp [rtsPkt]) (fun _ => rfl) hup h) fun hup h =>
        sendNext_live (by simp [dtrPkt]) (fun _ => rfl) hup h
    simp only [syncAll, Act.wp_bind, wp_getAttr]
    refine Act.wp_mono hms fun ok s₂ w₂ hq => ?_
    cases ok with
    | false => exact hq
    | true =>
        rw [if_pos rfl, Act.wp_bind, wp_modifyAttr]
        have hup₂ : Up st [.sync] { s₂ with eki := { s₂.eki with ms := s.view.ms } } := hq.1
        refine wp_went_and (wp_went_and (sendNext_live (by simp) (fun _ => rfl) hup₂ hq.2)
          fun hup h => sendNext_live (by simp) (fun _ => rfl) hup h) fun hup h => ?_
        simp only [syncQueue, Act.wp_bind, wp_getAttr]
        exact sendNext_live (by simp) (fun _ => rfl) hup h
  refine Act.wp_mono hall fun ok s w hq => ?_
  cases ok with
  | true => exact ⟨hq.1, hq.2.counted hq.1.2.2.2.1⟩
  | false => exact hq

theorem counted_replied {buf : Mem} (hbuf : ForSync buf) (hup : Up st [.sync] s) (h : Counted s w) :
    (syncReply buf).wp talking (fun _ => Ended) (Went Counted (fun _ => Ended) st [.sync]) s w := by
  have hnext {s : VcAttr} {w w' : List Try} {p : Pkt} (hup : Up st [.sync] s) (h : Counted s w)
      (hp : p.tid = s.tid) (hs : Sends talking w [p] true w') :
      Counted { s with tid := s.tid + 1 } w' := by
    have hlive := (h.live hup).next hp (tried_of_sends hs)
    exact hlive.counted hup.2.2.2.1
  refine wp_syncReply (𝓔 := talking) counted_yields counted_yields counted_lasts (fun _ _ h => h)
    ?_ ?_ ?_ ?_ counted_yields.weak ?_ hbuf hup h
  · intro w w' _ h hs
    exact hnext hup h rfl hs
  · intro s w w' hup h hs
    exact hnext hup h rfl hs
  · intro w w' _ h hs
    exact hnext hup h rfl hs
  · intro w w' r _ h hr
    exact counted_lasts.mild (e := .ioctl .sMCtrl _) rfl h hr
  · intro s w w' p _ h _ hs
    rcases h with h | h
    · exact h.1.tried (tried_of_sends hs)
    · exact h.1.tried (tried_of_sends hs)

theorem counted_transmitted (hup : Up st [] s) (h : Counted s w) :
    xmitSend.wp talking (fun _ => Ended) (Went Counted (fun _ => Ended) st []) s w := by
  simp only [xmitSend, Act.wp_bind, wp_getAttr]
  refine Act.wp_mono (counted_blind.onProc (readXmit_always _ _ _) h.1) ?_
  rintro data s' w' ⟨hs, hw⟩
  rw [hs, hw]
  generalize (if getRbLength s.rx > XMIT_LEN then XMIT_LEN else getRbLength s.rx) = len
  simp only [Act.wp_ite, Act.wp_pure, Act.wp_bind]
  split
  · exact ⟨hup.raised, h.1⟩
  refine wp_vcCheckSend counted_yields (fun _ _ h => h) hup.raised.ne_nil hup.2.2.1 h ?_ ?_ ?_
  · intro w w' x _ h hs
    have hlive := (h.live hup).next (p := .xmit s.tid data) rfl (tried_of_sends hs)
    exact ⟨hup, hlive.counted hup.2.2.2.1⟩
  · intro w w' h hs
    exact h.1.tried (tried_of_sends hs)
  · intro w x hb
    exact ⟨hup.raised, hb⟩

omit s w w' st top tid in
theorem setMsPkts_inTurn (ekiMs uartMs : UInt32) (n : Nat) :
    InTurn n (setMsPkts ekiMs uartMs (UInt32.ofNat n)) := by
  have hnext : UInt32.ofNat n + 1 = UInt32.ofNat (n + 1) := by simp
  unfold setMsPkts
  split
  · split
    · rfl
    · exact inTurn_one rfl
  · split
    · exact inTurn_one rfl
    · rw [hnext]
      rfl

/-- A round uses the numbers that come next, and `tid` is behind them or at the last. -/
theorem ioctlRound_inTurn {n : Nat} (hn : s.tid = UInt32.ofNat n) :
    InTurn n (ioctlRound s).1 ∧ ∃ k, (ioctlRound s).2.tid = UInt32.ofNat (n + k) ∧
      k ≤ (ioctlRound s).1.length ∧ (ioctlRound s).1.length ≤ k + 1 := by
  have hone (p : Pkt) (k : PortInfo) (hp : p.tid = s.tid) : InTurn n [p] ∧
      ∃ j, ({ s with eki := k } : VcAttr).tid = UInt32.ofNat (n + j) ∧ j ≤ [p].length ∧
        [p].length ≤ j + 1 :=
    ⟨inTurn_one (hp.trans hn), 0, hn, Nat.zero_le _, Nat.le_refl _⟩
  unfold ioctlRound
  split
  · exact hone (.sbaud s.tid _) _ rfl
  split
  · exact hone (.setlctl s.tid _ _ _) _ rfl
  split
  · refine hone (hflowPkt s.tid _) _ ?_
    unfold hflowPkt
    split
    · rfl
    split
    · rfl
    · rfl
  split
  · refine ⟨by rw [hn]; exact setMsPkts_inTurn _ _ n, (setMsPkts s.eki.ms s.view.ms s.tid).length, ?_,
      Nat.le_refl _, Nat.le_succ _⟩
    simp only [hn]
    exact (UInt32.ofNat_add n _).symm
  · exact ⟨rfl, 0, hn, Nat.zero_le _, Nat.zero_le _⟩

theorem counted_updated (hup : Up st [] s) (h : Counted s w) :
    ioctlSend.wp talking (fun _ => Ended)
      (fun r => Went Counted (fun _ => Ended) st [] (r != some false)) s w := by
  obtain ⟨n, hn, hnum⟩ := h.live hup
  obtain ⟨hturn, k, htid, hk, hk'⟩ := ioctlRound_inTurn hn
  obtain ⟨htame, -⟩ := ioctlRound_steady s
  obtain ⟨-, t, eki, hround, hopen⟩ := ioctlRound_setting s
  have hup' : Up st [] (ioctlRound s).2 := by
    rw [hround]
    exact hup.of_eq rfl rfl hopen hup.2.2.2.2
  simp only [ioctlSend, Act.wp_bind, wp_getAttr, wp_modifyAttr, Act.wp_ite, Act.wp_pure]
  clear hround
  generalize ioctlRound s = r at *
  split
  · rename_i hlen
    have hnil : r.1 = [] := by
      by_contra hne
      exact absurd (plenOf_pos htame hne) (Int.not_lt.mpr hlen)
    have hk₀ : k = 0 := by
      rw [hnil] at hk
      exact Nat.le_zero.mp hk
    subst hk₀
    exact ⟨hup', Live.counted ⟨n, htid, hnum⟩ hup'.2.2.2.1⟩
  · rename_i hlen
    have hpos : 0 < r.1.length := by
      rw [List.length_pos_iff]
      intro hnil
      rw [hnil] at hlen
      exact hlen (Int.le_refl 0)
    -- while the packets go out, `tid` does not belong to what has been sent
    let P (_ : VcAttr) (w : List Try) : Prop := Numbered (delivered w) n
    have hP : Lasts talking P := talking_only
    have hyields : Yields talking P fun _ => Ended :=
      ⟨hP, talking_only, fun _ _ h => Or.inr ⟨n, h⟩, fun h _ hr =>
        Ended.tried (Or.inr ⟨n, h⟩) (tried_of_unready hr)⟩
    refine wp_vcCheckSend (P := P) hyields (fun _ _ h => h) hup'.raised.ne_nil hup'.2.2.1 hnum ?_ ?_ ?_
    · intro w w' x _ h hs
      refine ⟨hup', Live.counted ⟨n + k + 1, ?_, ?_⟩ hup'.2.2.2.1⟩
      · simp [htid]
      · rw [(tried_of_sends hs).delivered_eq]
        exact h.append hturn (by omega) (by omega)
    · intro w w' h hs
      exact Ended.tried (Or.inr ⟨n, h⟩) (tried_of_sends hs)
    · intro w x hb
      exact ⟨hup'.raised, hb⟩

/-- PURGE is counted if it went out; CLOSE takes the number that comes next. -/
theorem counted_closing (hup : Up st top s) (h : Counted s w) :
    closing.wp talking (fun _ => Ended) (fun _ s w => Raised s ∧ Ended w) s w := by
  have hclose {s : VcAttr} {w : List Try} (hs : Raised s) (h : Live s.tid w) :
      closeSend.wp talking (fun _ => Ended) (fun _ s w => Raised s ∧ Ended w) s w := by
    simp only [closeSend, Act.wp_bind, wp_modifyAttr, wp_getAttr]
    refine wp_packSend (by simp) (wp_vcCheckSend live_yields (fun _ _ h => h) hs.ne_nil hs.2.1 h
      ?_ ?_ ?_)
    · intro w w' x _ h hsend
      have hlive := h.next (p := .close s.tid) rfl (tried_of_sends hsend)
      exact ⟨hs, hlive.ended⟩
    · intro w w' h hsend
      exact h.ended.tried (tried_of_sends hsend)
    · intro w x hb
      exact ⟨hs, hb⟩
  simp only [closing, Act.wp_bind]
  refine Act.wp_mono (counted_blind.clear _ h) ?_
  rintro _ _ w' ⟨⟨rx, tx, rfl⟩, h₁⟩
  have hup₁ : Up st top { s with rx := rx, tx := tx } := hup
  simp only [vcCommonPurge, Act.wp_bind, wp_getAttr]
  refine wp_packSend (by simp) (wp_vcCheckSend_of live_lasts live_lasts (fun _ _ h => h.ended)
    (fun _ _ h => h.ended) hup₁.raised.ne_nil hup₁.2.2.1 (h₁.live hup₁) ?_ ?_ ?_ ?_)
  · intro w w' x _ h hs
    exact hclose hup.raised (h.next (p := .purge s.tid 0x0000000f) rfl (tried_of_sends hs))
  · intro w w' h hs
    exact h.tried (tried_of_sends hs)
  · intro w w' h hr
    exact h.tried (tried_of_unready hr)
  · intro w x h
    exact hclose hup.raised h

end

/-! ## Whole runs -/

theorem counted_walk : Walk talking (fun _ => Ended) Counted (fun s => Live s.tid) (fun _ => Ended)
    (fun _ _ => Counted) where
  lastsJ := counted_lasts
  lastsS := live_lasts
  lastsB := talking_only
  baseB := fun h _ => h
  baseH := fun h _ _ => h
  weakJ := counted_yields.weak
  weakS := live_yields.weak
  pause := fun _ _ h => h
  hangs := by
    intro s w _ hs h
    refine ⟨Records.hangUp_hung (B := fun _ => Ended) talking_only (fun _ _ h => h) ?_ hs h⟩
    exact fun h => ⟨h, fun hsk => absurd hsk (by simp [VcAttr.hung])⟩
  refused := fun _ h hr hneg => Records.refused h hr hneg
  dialed := by
    intro s w w' r hd hview _ hr hret
    refine ⟨Records.dialed counted_lasts counted_yields.weak (fun _ _ h => h) hd hview hr hret ?_⟩
    refine ⟨Or.inl rfl, fun _ => ⟨fun _ => rfl, fun hopen => ?_⟩⟩
    rw [hd.2.2.2.2.1] at hopen
    cases hopen
  chosen := fun _ h => h
  opened := by
    intro st s w w' hd _ h hs
    have hw : w = [] := (h.2 hd.2.1).1 (by rw [hd.2.2.2.2.1]; decide)
    subst hw
    -- a new connection starts at 0, so that 1 comes next
    refine ⟨1, by simp [hd.2.2.1], ?_⟩
    rw [(tried_of_sends hs).delivered_eq]
    exact numbered_open (p := .open 1 s.devid s.port) rfl
  unready := fun h _ hr => h.unready hr
  unsent := fun _ h _ hs => h.1.tried (tried_of_sends hs)
  probed := by
    intro st s w w' hup h hs
    have hlive := (h.live hup).next (p := .param s.tid VCOM_IOCTL_GET_WAIT_MASK) rfl
      (tried_of_sends hs)
    exact hlive.counted hup.2.2.2.1
  requeued := by
    intro st st' s w w' n hup h _ hs
    have hlive := (h.live hup).next (p := .qfsize s.tid n) rfl (tried_of_sends hs)
    exact hlive.counted hup.2.2.2.1
  synced := fun hup h => ⟨counted_synced hup h⟩
  updated := fun hup h => ⟨counted_updated hup h⟩
  transmitted := fun hup h _ _ => ⟨counted_transmitted hup h⟩
  updRx := fun _ h => ⟨counted_blind.updRx h⟩
  updTx := fun _ h => ⟨counted_blind.updTx h⟩
  updAttr := fun hs h => ⟨counted_blind.updAttr hs.legal h⟩
  clearDown := by
    intro s w hd h
    refine ⟨Act.wp_mono (counted_blind.clear _ h) ?_⟩
    rintro _ _ w' ⟨⟨rx, tx, rfl⟩, h'⟩
    exact ⟨hd, h'⟩
  clearIdle := by
    intro st s w hup h
    refine ⟨Act.wp_mono (counted_blind.clear _ h) ?_⟩
    rintro _ _ w' ⟨⟨rx, tx, rfl⟩, h'⟩
    exact ⟨hup.raised, h'.1⟩
  closed := fun hup h _ => ⟨counted_closing hup h⟩
  received := by
    intro st top s w buf hup h
    have hattends : Attends talking Counted :=
      { counted_lasts with wire := fun he h _ hr => by rw [Records.wire he hr]; exact h }
    refine ⟨came_of_attends hattends hattends counted_yields.weak (fun _ _ h => h) ?_ ?_ hup h buf⟩
    · intro s w _ h
      exact Act.wp_mono (counted_blind.updTx h) fun _ s w hq => ⟨hq.1, hq.2, hq.2⟩
    · intro s w w' buf _ h _ hr _
      rw [show w' = w from hr]
      exact h
  passed := fun _ h _ _ _ => h
  replied := fun hup h hbuf => ⟨counted_replied hbuf hup h⟩
  stored := fun hup h _ => ⟨counted_blind.stored _ hup h⟩
  answered := fun hup h _ => ⟨counted_blind.answered _ _ hup h⟩

/-! ## Two packets -/

/-- Two of the numbers: they rise, but for the first two, which are the same. -/
theorem rising_iff {ns : List Nat} {n i j a b : Nat} (hhead : (ns ++ [n]).head? = some 1)
    (hrise : (ns ++ [n]).Pairwise (· < ·)) (hij : i < j) (ha : (1 :: ns)[i]? = some a)
    (hb : (1 :: ns)[j]? = some b) : a < b ↔ ¬ (i = 0 ∧ j = 1) := by
  obtain ⟨k, rfl⟩ : ∃ k, j = k + 1 := ⟨j - 1, by omega⟩
  rw [List.getElem?_cons_succ] at hb
  have hns := (List.pairwise_append.mp hrise).1
  have hpair {i j a b : Nat} (hij : i < j) (ha : ns[i]? = some a) (hb : ns[j]? = some b) : a < b := by
    obtain ⟨hi, rfl⟩ := List.getElem?_eq_some_iff.mp ha
    obtain ⟨hj, rfl⟩ := List.getElem?_eq_some_iff.mp hb
    exact List.pairwise_iff_getElem.mp hns i j hi hj hij
  have hfirst : ns[0]? = some 1 := by
    cases ns with
    | nil => cases hb
    | cons m ns => simpa using hhead
  cases i with
  | succ i =>
      rw [List.getElem?_cons_succ] at ha
      exact iff_of_true (hpair (by omega) ha hb) (by simp)
  | zero =>
      have ha : a = 1 := by simpa using ha.symm
      subst ha
      cases k with
      | zero =>
          rw [hfirst] at hb
          cases hb
          exact iff_of_false (Nat.lt_irrefl 1) (by simp)
      | succ k => exact iff_of_true (hpair (Nat.succ_pos k) hfirst hb) (by simp)

theorem Numbered.later_iff {ps : List Pkt} {n i j : Nat} {p q : Pkt} (h : Numbered ps n)
    (hfew : ps.length ≤ 2 ^ 31) (hij : i < j) (hp : ps[i]? = some p) (hq : ps[j]? = some q) :
    p.tid < q.tid ↔ ¬ (i = 0 ∧ j = 1) := by
  obtain ⟨ns, htids, hhead, hrise, hle⟩ := h
  have hlen : ps.length = ns.length + 1 := by simpa using congrArg List.length htids
  -- no number is cut
  have hsmall : ∀ m ∈ 1 :: ns, m < 2 ^ 32 := by
    intro m hm
    rcases List.mem_cons.mp hm with rfl | hm
    · decide
    · have := (List.pairwise_append.mp hrise).2.2 m hm n (List.mem_singleton_self n)
      omega
  have hget {i : Nat} {p : Pkt} (hp : ps[i]? = some p) :
      ∃ a, (1 :: ns)[i]? = some a ∧ p.tid.toNat = a := by
    have hmap : ((1 :: ns).map UInt32.ofNat)[i]? = some p.tid := by
      rw [← htids, List.getElem?_map, hp]
      rfl
    rw [List.getElem?_map] at hmap
    obtain ⟨a, ha, htid⟩ := Option.map_eq_some_iff.mp hmap
    refine ⟨a, ha, ?_⟩
    rw [← htid]
    exact UInt32.toNat_ofNat_of_lt' (hsmall a (List.mem_of_getElem? ha))
  obtain ⟨a, ha, hpa⟩ := hget hp
  obtain ⟨b, hb, hqb⟩ := hget hq
  rw [UInt32.lt_iff_toNat_lt, hpa, hqb]
  exact rising_iff hhead hrise hij ha hb

/-- **Transaction ids.**  In every run, of two packets sent on one connection the later one
carries the larger id, unless they are OPEN and the first packet after it. -/
theorem later_tid_greater_iff {s₀ : VcAttr} (hfresh : Fresh s₀) (buf : Mem)
    {c : Proc VcSig VcAttr (Option LoopState)} {w : List Try}
    (hreach : talking.Reach iteration (mainStart buf s₀) [] c w)
    (hfew : (delivered w).length ≤ 2 ^ 31) {i j : Nat} {p q : Pkt} (hij : i < j)
    (hp : (delivered w)[i]? = some p) (hq : (delivered w)[j]? = some q) :
    p.tid < q.tid ↔ ¬ (i = 0 ∧ j = 1) := by
  have hstart : Counted s₀.hung [] :=
    ⟨Or.inl rfl, fun hsk => absurd hsk (by simp [VcAttr.hung])⟩
  have hwp : c.wp talking (fun _ => Ended) (Settled Counted) w :=
    counted_walk.run Records.endures (counted_blind.ready hfresh (Or.inl rfl) hstart) hreach
  have hended : Ended w := by
    cases c with
    | done ls s => exact hwp.2.1
    | fault f => exact hwp.elim
    | pause s e k => exact hwp.pause
  rcases hended with hnil | ⟨n, hn⟩
  · rw [hnil] at hp
    cases hp
  · exact hn.later_iff hfew hij hp hq

theorem talkRun_tids : talkRun.map (fun r => (delivered r.2.2).map Pkt.tid) =
    some [1, 1, 2, 3, 4, 5, 6, 7, 8] := by
  decide +kernel

/-- The third packet against the second. -/
theorem later_tid_greater_third : ∃ c w,
    talking.Reach iteration (mainStart (fun _ => 0) freshAttr) [] c w ∧
      ∃ p q, (delivered w)[1]? = some p ∧ (delivered w)[2]? = some q ∧ p.tid < q.tid := by
  have hfresh : Fresh freshAttr := ⟨rfl, rfl, Or.inl rfl⟩
  obtain ⟨ls, s, w, hrun, hreach⟩ := talkRun_reach
  have htids := talkRun_tids
  rw [hrun, Option.map_some, Option.some.injEq] at htids
  have hlen : (delivered w).length = 9 := by simpa using congrArg List.length htids
  have hget (i : Nat) (hi : i < 9) : (delivered w)[i]? = some ((delivered w).get ⟨i, by omega⟩) :=
    List.getElem?_eq_getElem (by omega)
  refine ⟨_, w, hreach, _, _, hget 1 (by omega), hget 2 (by omega), ?_⟩
  exact (later_tid_greater_iff hfresh _ hreach (by rw [hlen]; decide) (Nat.lt_succ_self 1)
    (hget 1 (by omega)) (hget 2 (by omega))).mpr (by decide)

/-- OPEN and the packet after it carry the same id. -/
theorem tid_reused : ∃ c w, talking.Reach iteration (mainStart (fun _ => 0) freshAttr) [] c w ∧
    (delivered w).length < 2 ^ 32 ∧
    ¬ ∀ (i j : Nat) (p q : Pkt), i < j → (delivered w)[i]? = some p → (delivered w)[j]? = some q →
      p.tid ≠ q.tid ∧ p.tid < q.tid := by
  obtain ⟨ls, s, w, hrun, hreach⟩ := talkRun_reach
  have htids := talkRun_tids
  rw [hrun, Option.map_some, Option.some.injEq] at htids
  have hlen : (delivered w).length = 9 := by simpa using congrArg List.length htids
  have hget {i : Nat} {t : UInt32} (h : [1, 1, 2, 3, 4, 5, 6, 7, 8][i]? = some t) :
      ∃ p, (delivered w)[i]? = some p ∧ p.tid = t := by
    rw [← htids, List.getElem?_map] at h
    exact Option.map_eq_some_iff.mp h
  refine ⟨_, w, hreach, by rw [hlen]; decide, fun hall => ?_⟩
  obtain ⟨p, hp, hptid⟩ := hget (i := 0) rfl
  obtain ⟨q, hq, hqtid⟩ := hget (i := 1) rfl
  exact (hall 0 1 p q Nat.one_pos hp hq).1 (hptid.trans hqtid.symm)

end AdvVcom
