/-
# `AdvVcom.Daemon.Receive` — a receive attempt that is only waited for

The rule for `vcRecvFrame` when what the reads return does not matter: an assertion
that reads keep is kept to the point where the current state has the frame.  The one thing
that happens on the way is the refresh of the TX snapshot between the header and the
payload of a DATAREADY frame; `F` is what the refresh adds and the payload's reads
keep.
-/
import AdvVcom.Daemon.Effects

namespace AdvVcom

open Lib

/-- A stable assertion that reads of the socket keep. -/
structure Waits (𝓔 : Env VcSig VcAttr) (P : VcAttr → 𝓔.World → Prop) : Prop extends Stable 𝓔 P where
  wire : ∀ {s w w'} {e : Req} {r : e.Rep}, e.OnWire → P s w → 𝓔.answers w e r w' → P s w'

/-- The same for an assertion that looks at the TLS object: it is read with a socket. -/
structure Attends (𝓔 : Env VcSig VcAttr) (P : VcAttr → 𝓔.World → Prop) : Prop extends Lasts 𝓔 P where
  wire : ∀ {s w w'} {e : Req} {r : e.Rep}, e.OnWire → P s w → 0 ≤ s.sk → 𝓔.answers w e r w' → P s w'

theorem Waits.attends {𝓔 : Env VcSig VcAttr} {P : VcAttr → 𝓔.World → Prop} (h : Waits 𝓔 P) :
    Attends 𝓔 P where
  toLasts := h.toStable.lasts
  wire := fun he hp _ hr => h.wire he hp hr

theorem Attends.and {𝓔 : Env VcSig VcAttr} {P P' : VcAttr → 𝓔.World → Prop} (h : Attends 𝓔 P)
    (h' : Attends 𝓔 P') : Attends 𝓔 fun s w => P s w ∧ P' s w where
  drift := fun hp hd => ⟨h.drift hp.1 hd, h'.drift hp.2 hd⟩
  mild := fun he hp hr => ⟨h.mild he hp.1 hr, h'.mild he hp.2 hr⟩
  ready := fun hp hr => ⟨h.ready hp.1 hr, h'.ready hp.2 hr⟩
  ssl := fun hp x hx => ⟨h.ssl hp.1 x hx, h'.ssl hp.2 x hx⟩
  base := fun hp l hl => ⟨h.base hp.1 l hl, h'.base hp.2 l hl⟩
  wire := fun he hp hsk hr => ⟨h.wire he hp.1 hsk hr, h'.wire he hp.2 hsk hr⟩

/-- Nothing below `off` has been stored to. -/
def SameBelow (off : Nat) (buf buf' : Mem) : Prop := ∀ i, i < off → buf' i = buf i

theorem SameBelow.hdrCmd {buf buf' : Mem} (h : SameBelow HDR_LEN buf buf') :
    hdrCmd buf' = hdrCmd buf :=
  Mem.be16_congr fun i _ hi => h i (by simp only [HDR_LEN]; omega)

theorem SameBelow.hdrLen {buf buf' : Mem} (h : SameBelow HDR_LEN buf buf') :
    hdrLen buf' = hdrLen buf :=
  Mem.be16_congr fun i _ hi => h i (by simp only [HDR_LEN]; omega)

/-! The header of a frame is the buffer's. -/

theorem hdrCmd_slice {buf : Mem} (n : Nat) :
    hdrCmd (Mem.ofList (buf.slice 0 (HDR_LEN + n))) = hdrCmd buf :=
  Mem.be16_congr fun i _ hi => Mem.ofList_slice (by simp only [HDR_LEN]; omega)

theorem attachP1_slice {buf : Mem} (n : Nat) :
    attachP1 (Mem.ofList (buf.slice 0 (HDR_LEN + n))) = attachP1 buf :=
  Mem.be32_congr fun i _ hi => Mem.ofList_slice (by simp only [HDR_LEN]; omega)

theorem attachP2_slice {buf : Mem} (n : Nat) :
    attachP2 (Mem.ofList (buf.slice 0 (HDR_LEN + n))) = attachP2 buf :=
  Mem.be32_congr fun i _ hi => Mem.ofList_slice (by simp only [HDR_LEN]; omega)

/-- An accepted payload is as long as the header says. -/
theorem vcCheckRecv_eq {buf : Mem} {d : Int} (h : vcCheckRecv buf = some d) : d = hdrLen buf := by
  unfold vcCheckRecv at h
  generalize int32 (attachP1 buf).toNat = status at h
  generalize int32 (attachP2 buf).toNat = alen at h
  simp only at h
  split at h
  · cases h
  split at h
  · cases h
  · rename_i _ hlen
    cases h
    omega

theorem RecvRet.store_below {off off' : Nat} (h : off ≤ off') (r : RecvRet) (buf : Mem) :
    SameBelow off buf (r.store buf off') := by
  intro i hi
  cases r with
  | data bs => exact Mem.blit_below (by omega)
  | eof => rfl
  | err => rfl

theorem SslRead.store_below {off off' : Nat} (h : off ≤ off') (r : SslRead) (buf : Mem) :
    SameBelow off buf (r.store buf off') := by
  intro i hi
  cases r with
  | data bs => exact Mem.blit_below (by omega)
  | want write => rfl
  | fail => rfl

theorem SameBelow.trans {off : Nat} {b₁ b₂ b₃ : Mem} (h : SameBelow off b₁ b₂)
    (h' : SameBelow off b₂ b₃) : SameBelow off b₁ b₃ :=
  fun i hi => (h' i hi).trans (h i hi)

/-- What TLS waits for after a read. -/
abbrev noteRecv (ev : WaitEvent) (x : SslInfo) : SslInfo := { x with recv := ev }

section
variable {𝓔 : Env VcSig VcAttr} {I P : VcAttr → 𝓔.World → Prop} {s : VcAttr} {w : 𝓔.World}

/-- After a read: only what TLS waits for may have changed, and nothing below `off`. -/
def AfterRead (P : VcAttr → 𝓔.World → Prop) (s : VcAttr) (off : Nat) (buf buf' : Mem) (s' : VcAttr)
    (w' : 𝓔.World) : Prop :=
  (∃ x, x.isSome = s.ssl.isSome ∧ s' = { s with ssl := x }) ∧ P s' w' ∧ SameBelow off buf buf'

theorem wp_vcFrameRecvTcp (hP : Attends 𝓔 P) (hI : ∀ s w, P s w → I s w) (h : P s w)
    (hsk : 0 ≤ s.sk) (buf : Mem) (off rlen : Nat) : (vcFrameRecvTcp buf off rlen).wp 𝓔 I
      (fun r s' w' => AfterRead P s off buf r.2 s' w') s w := by
  simp only [vcFrameRecvTcp, Act.wp_bind]
  refine hP.wp_request hI h fun (r : RecvRet) w₁ w₂ hp hr => ?_
  have hp₁ := hP.wire (e := .recv off rlen) trivial hp hsk hr
  have hstore := r.store_below (Nat.le_refl off) buf
  have hdone : AfterRead P s off buf (r.store buf off) s w₂ := ⟨⟨s.ssl, rfl, rfl⟩, hp₁, hstore⟩
  simp only [Act.wp_ite, Act.wp_pure]
  split
  · exact hdone
  split
  · exact hdone
  split
  · have hafter (r' : RecvRet) {w' : 𝓔.World} (hp' : P s w') : AfterRead P s off buf
        (r'.store (r.store buf off) (off + r.ret.toNat)) s w' :=
      ⟨⟨s.ssl, rfl, rfl⟩, hp', hstore.trans (r'.store_below (Nat.le_add_right _ _) _)⟩
    simp only [recvSecondChance, Act.wp_bind, Act.wp_ite, Act.wp_pure]
    refine hP.wp_mild hI (e := .selRd) trivial hp₁ fun ready w₃ hp₃ => ?_
    split
    · refine hP.wp_request hI hp₃ fun (r' : RecvRet) w₄ w₅ hp₄ hr' => ?_
      have hp₅ := hP.wire (e := .recv _ _) trivial hp₄ hsk hr'
      split
      · exact hafter r' hp₅
      · exact hafter r' hp₅
    · split
      · exact hafter .eof hp₃
      · exact hafter .eof hp₃
  · exact hdone

theorem wp_vcFrameRecvSsl (hP : Attends 𝓔 P) (hI : ∀ s w, P s w → I s w) (h : P s w)
    (hne : s.stk ≠ []) (hsk : 0 ≤ s.sk) (buf : Mem) (off rlen : Nat) : (vcFrameRecvSsl buf off rlen).wp 𝓔 I
      (fun r s' w' => AfterRead P s off buf r.2 s' w') s w := by
  have hsome {x : Option SslInfo} (f : SslInfo → SslInfo) : (x.map f).isSome = x.isSome := by simp
  -- both failures are reported the same way
  have hreport {s' : VcAttr} {w' : 𝓔.World} {buf' : Mem} (h' : AfterRead P s off buf buf' s' w') :
      (do sslErrStr
          stkLog
          pure (SSL_OPS_FAIL, buf') : M (Int × Mem)).wp 𝓔 I
        (fun r s' w' => AfterRead P s off buf r.2 s' w') s' w' := by
    obtain ⟨⟨x, hx, rfl⟩, hp', hbelow⟩ := h'
    simp only [Act.wp_bind, Act.wp_pure]
    refine hP.wp_mild hI (e := .sslErrStr) hsk hp' fun _ w₂ hp₂ => ?_
    exact Act.wp_of_done (stkLog_done hne) ⟨⟨x, hx, rfl⟩, hp₂, hbelow⟩
  simp only [vcFrameRecvSsl, Act.wp_bind]
  refine hP.wp_request hI h fun (r : SslRead) w₁ w₂ hp hr => ?_
  have hp₁ := hP.ssl (hP.wire (e := .sslRecv off rlen) trivial hp hsk hr) _
    (hsome (noteRecv r.event))
  have hstore := r.store_below (Nat.le_refl off) buf
  simp only [setRecv, wp_modifyAttr, Act.wp_ite, Act.wp_pure]
  have hdone : AfterRead P s off buf (r.store buf off)
      { s with ssl := s.ssl.map (noteRecv r.event) } w₂ :=
    ⟨⟨_, hsome _, rfl⟩, hp₁, hstore⟩
  split
  · exact hdone
  split
  · exact hdone
  split
  · simp only [Act.wp_bind, wp_modifyAttr, Act.wp_ite, Act.wp_pure]
    refine hP.wp_request hI hp₁ fun (r' : SslRead) w₃ w₄ hp₃ hr' => ?_
    have hp₄ := hP.ssl (hP.wire (e := .sslRecvSimple _ _) trivial hp₃ hsk hr') _
      (hsome (noteRecv r'.event))
    have hafter : AfterRead P s off buf (r'.store (r.store buf off) (off + r.ret.toNat))
        { s with ssl := (s.ssl.map (noteRecv r.event)).map (noteRecv r'.event) } w₄ :=
      ⟨⟨_, by simp, rfl⟩, hp₄, hstore.trans (r'.store_below (Nat.le_add_right _ _) _)⟩
    split
    · exact hafter
    · simpa only [Act.wp_bind, Act.wp_pure] using hreport hafter
  · exact hreport hdone

theorem wp_recvHeader (hP : Attends 𝓔 P) (hI : ∀ s w, P s w → I s w) (h : P s w)
    (hne : s.stk ≠ []) (hsk : 0 ≤ s.sk) (buf : Mem) : (recvHeader buf).wp 𝓔 I
      (fun r s' w' => AfterRead P s 0 buf r.2 s' w' ∧ ∀ len, r.1 ≠ some (.frame len)) s w := by
  simp only [recvHeader, Act.wp_bind, wp_getAttr, Act.wp_ite, Act.wp_pure]
  split
  · refine Act.wp_mono (wp_vcFrameRecvSsl hP hI h hne hsk buf 0 HDR_LEN) fun r s' w' hr => ?_
    split
    · exact ⟨hr, by simp⟩
    split
    · exact ⟨hr, by simp⟩
    · exact ⟨hr, by simp⟩
  · refine Act.wp_mono (wp_vcFrameRecvTcp hP hI h hsk buf 0 HDR_LEN) fun r s' w' hr => ?_
    split
    · exact ⟨hr, by simp⟩
    · exact ⟨hr, by simp⟩

theorem wp_recvPayload (hP : Attends 𝓔 P) (hI : ∀ s w, P s w → I s w) (h : P s w)
    (hne : s.stk ≠ []) (hsk : 0 ≤ s.sk) (buf : Mem) (packetLen : Nat) : (recvPayload buf packetLen).wp 𝓔 I
      (fun r s' w' => AfterRead P s HDR_LEN buf r.2 s' w' ∧
        (r.1 = .reset ∨ r.1 = .frame (HDR_LEN + packetLen) ∧ HDR_LEN + packetLen ≤ RBUF_SIZE))
      s w := by
  simp only [recvPayload, Act.wp_bind, wp_getAttr, Act.wp_ite, Act.wp_pure]
  split
  · exact ⟨⟨⟨s.ssl, rfl, rfl⟩, h, fun _ _ => rfl⟩, Or.inl trivial⟩
  · rename_i hfit
    have hfits : HDR_LEN + packetLen ≤ RBUF_SIZE := by
      simp only [RBUF_SIZE, HDR_LEN] at hfit ⊢
      omega
    split
    · refine Act.wp_mono (wp_vcFrameRecvSsl hP hI h hne hsk buf HDR_LEN packetLen) fun r s' w' hr => ?_
      split
      · exact ⟨hr, Or.inl trivial⟩
      · exact ⟨hr, Or.inr ⟨trivial, hfits⟩⟩
    · refine Act.wp_mono (wp_vcFrameRecvTcp hP hI h hsk buf HDR_LEN packetLen) fun r s' w' hr => ?_
      split
      · exact ⟨hr, Or.inl trivial⟩
      · exact ⟨hr, Or.inr ⟨trivial, hfits⟩⟩

/-! ## The rule -/

/-- After the header: the payload, and the current state has the frame. -/
theorem came_frame {I J B : VcAttr → 𝓔.World → Prop} {H : Mem → Nat → VcAttr → 𝓔.World → Prop}
    {st : St} {top : List St} (hP : Attends 𝓔 P) (hPB : ∀ s w, P s w → B s w)
    (hBI : ∀ s w, B s w → I s w) (buf : Mem)
    (hhand : ∀ {s w w' buf'}, Up st [] s → P s w → hdrCmd buf' = hdrCmd buf →
      𝓔.answers w (.hand (buf'.slice 0 (HDR_LEN + hdrLen buf'))) () w' →
      HDR_LEN + hdrLen buf' ≤ RBUF_SIZE → H buf' (HDR_LEN + hdrLen buf') s w')
    {s : VcAttr} {w : 𝓔.World} (h : Up st top s) (hp : P s w) :
    (recvBody buf).wp 𝓔 I (Came I J B H st top) s w := by
  have hPI (s w) (hp : P s w) : I s w := hBI s w (hPB s w hp)
  have hgive {s : VcAttr} {w : 𝓔.World} {buf' : Mem} {len : Nat} (h : Up st top s) (hp : P s w)
      (hcmd : hdrCmd buf' = hdrCmd buf) (hlen : len = HDR_LEN + hdrLen buf')
      (hfits : len ≤ RBUF_SIZE) :
      Came I J B H st top (.frame len, buf') s w := by
    subst hlen
    have hp' := hP.base hp [.netdown, st] (by rw [h.2.1]; rfl)
    refine ⟨Nat.le_add_right _ _, hfits, h, hP.wp_request hPI hp' fun _ w₁ w₂ hp₁ hr => ?_⟩
    exact ⟨h.push, hhand h.push hp₁ hcmd hr hfits⟩
  simp only [recvBody, Act.wp_ite, Act.wp_pure]
  split
  · refine Act.wp_mono (wp_recvPayload hP hPI hp h.raised.ne_nil h.2.2.1 buf (hdrLen buf)) ?_
    rintro ⟨outcome, buf'⟩ _ w' ⟨⟨⟨x, hx, rfl⟩, hp', hbelow⟩, hout⟩
    rcases hout with hout | ⟨hout, hfits⟩
    · cases hout
      exact ⟨h.raised, hPB _ _ hp'⟩
    · cases hout
      exact hgive h hp' hbelow.hdrCmd (by rw [hbelow.hdrLen]) hfits
  · rename_i hzero
    exact hgive h hp rfl (by omega) (by decide)

/-- **The rule.** -/
theorem came_of_attends {I J B F : VcAttr → 𝓔.World → Prop}
    {H : Mem → Nat → VcAttr → 𝓔.World → Prop} {st : St} {top : List St}
    (hJ : Attends 𝓔 J) (hF : Attends 𝓔 F) (hJB : ∀ s w, J s w → B s w)
    (hBI : ∀ s w, B s w → I s w)
    (hupd : ∀ {s w}, Up st top s → J s w → vcBufUpdateTx.wp 𝓔 I
      (fun _ s' w' => (∃ tx, s' = { s with tx := tx }) ∧ J s' w' ∧ F s' w') s w)
    (hhand : ∀ {s w w' buf}, Up st [] s → J s w →
      (hdrCmd buf = VCOM_CMD_DATAREADY → F s w) →
      𝓔.answers w (.hand (buf.slice 0 (HDR_LEN + hdrLen buf))) () w' →
      HDR_LEN + hdrLen buf ≤ RBUF_SIZE → H buf (HDR_LEN + hdrLen buf) s w')
    (h : Up st top s) (hj : J s w) (buf : Mem) :
    (vcRecvFrame buf).wp 𝓔 I (Came I J B H st top) s w := by
  simp only [vcRecvFrame, Act.wp_bind]
  refine Act.wp_mono (wp_recvHeader hJ (fun s w hj => hBI s w (hJB s w hj)) hj h.raised.ne_nil
    h.2.2.1 buf) ?_
  rintro ⟨early, buf₁⟩ _ w₁ ⟨⟨⟨x, hx, rfl⟩, hj₁, _⟩, hnot⟩
  have h₁ : Up st top { s with ssl := x } := h
  cases early with
  | some outcome =>
      cases outcome with
      | select => exact ⟨h₁, hj₁⟩
      | reset => exact ⟨h₁.raised, hJB _ _ hj₁⟩
      | frame len => exact absurd rfl (hnot len)
  | none =>
      simp only [Act.wp_bind, Act.wp_ite]
      split
      · rename_i hdata
        refine Act.wp_mono (hupd h₁ hj₁) ?_
        rintro _ _ w₂ ⟨⟨tx, rfl⟩, hj₂, hf₂⟩
        exact came_frame (J := J) (hJ.and hF) (fun _ _ hp => hJB _ _ hp.1) hBI buf₁
          (fun h hp _ hr hfits => hhand h hp.1 (fun _ => hp.2) hr hfits)
          (s := { s with ssl := x, tx := tx }) h₁ ⟨hj₂, hf₂⟩
      · rename_i hother
        exact came_frame (J := J) hJ hJB hBI buf₁
          (fun h hp hcmd hr hfits => hhand h hp (fun hd => absurd (hcmd.symm.trans hd) hother) hr hfits)
          h₁ hj₁

/-- The rule for what looks neither at the stack nor at the TLS object. -/
theorem came_of_waits {I J B F : VcAttr → 𝓔.World → Prop}
    {H : Mem → Nat → VcAttr → 𝓔.World → Prop} {st : St} {top : List St}
    (hJ : Waits 𝓔 J) (hF : Waits 𝓔 F) (hJB : ∀ s w, J s w → B s w)
    (hBI : ∀ s w, B s w → I s w)
    (hupd : ∀ {s w}, Up st top s → J s w → vcBufUpdateTx.wp 𝓔 I
      (fun _ s' w' => (∃ tx, s' = { s with tx := tx }) ∧ J s' w' ∧ F s' w') s w)
    (hhand : ∀ {s w w' buf}, Up st [] s → J s w →
      (hdrCmd buf = VCOM_CMD_DATAREADY → F s w) →
      𝓔.answers w (.hand (buf.slice 0 (HDR_LEN + hdrLen buf))) () w' →
      HDR_LEN + hdrLen buf ≤ RBUF_SIZE → H buf (HDR_LEN + hdrLen buf) s w')
    (h : Up st top s) (hj : J s w) (buf : Mem) :
    (vcRecvFrame buf).wp 𝓔 I (Came I J B H st top) s w :=
  came_of_attends hJ.attends hF.attends hJB hBI hupd hhand h hj buf

end

end AdvVcom
