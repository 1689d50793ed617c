/-
# `AdvVcom.Daemon.Stream` — the receiver stays aligned with the stream

The peer sends some bytes on each connection.  The environment `streaming` lets every
read return any number of them from 1 to what was asked for, nothing yet, or an error,
and keeps three records: the bytes read so far, the frames handed to the current state
so far, and where every read was allowed to store.

**Proved here**, over every run,

    the frames handed on are the first ones of the stream, cut into frames
    between two rounds of a connected daemon no byte is left over
    no read may store behind the buffer                       (`frames_aligned`)
-/
import AdvVcom.Lib.Frames
import AdvVcom.Daemon.Stack

namespace AdvVcom

open Lib Lib.Frames

/-! ## Bytes of a read -/

def RecvRet.bytes : RecvRet → List UInt8
  | .data bs => bs
  | .eof | .err => []

def SslRead.bytes : SslRead → List UInt8
  | .data bs => bs
  | .want _ | .fail => []

theorem RecvRet.store_eq (r : RecvRet) (buf : Mem) (off : Nat) :
    r.store buf off = buf.blit off r.bytes := by
  cases r with
  | data bs => rfl
  | eof => exact (Mem.blit_nil buf off).symm
  | err => exact (Mem.blit_nil buf off).symm

theorem SslRead.store_eq (r : SslRead) (buf : Mem) (off : Nat) :
    r.store buf off = buf.blit off r.bytes := by
  cases r with
  | data bs => rfl
  | want write => exact (Mem.blit_nil buf off).symm
  | fail => exact (Mem.blit_nil buf off).symm

/-- A read of at most `len` bytes that succeeds returns between 1 and `len`. -/
def RecvRet.Fits (len : Nat) : RecvRet → Prop
  | .data bs => 1 ≤ bs.length ∧ bs.length ≤ len
  | .eof | .err => True

def SslRead.Fits (len : Nat) : SslRead → Prop
  | .data bs => 1 ≤ bs.length ∧ bs.length ≤ len
  | .want _ | .fail => True

/-- A positive code is the number of bytes. -/
theorem RecvRet.ret_pos {r : RecvRet} (h : 0 < r.ret) : r.ret = r.bytes.length := by
  cases r with
  | data bs => rfl
  | eof => exact absurd h (by decide)
  | err => exact absurd h (by decide)

theorem SslRead.ret_pos {r : SslRead} (h : 0 < r.ret) : r.ret = r.bytes.length := by
  cases r with
  | data bs => rfl
  | want write =>
      have hneg : (0 : Int) < -2 := h
      omega
  | fail => exact absurd h (by decide)

/-- A TLS read that has to wait has read nothing. -/
theorem SslRead.ret_select {r : SslRead} (h : r.ret = SSL_OPS_SELECT) : r.bytes = [] := by
  cases r with
  | data bs =>
      have hlen : (bs.length : Int) = -2 := h
      omega
  | want write => rfl
  | fail => rfl

/-! ## The environment -/

/-- A connection as the receiver sees it. -/
structure Stream where
  rest : List UInt8
  consumed : List UInt8
  handed : List (List UInt8)
  reads : List (Nat × Nat)

/-- Everything the peer sends on the connection. -/
def Stream.sent (w : Stream) : List UInt8 := w.consumed ++ w.rest

/-- A read at `off` of at most `len` bytes took `bs`. -/
def Stream.Reads (w : Stream) (off len : Nat) (bs : List UInt8) (w' : Stream) : Prop :=
  w.rest = bs ++ w'.rest ∧ w'.consumed = w.consumed ++ bs ∧ w'.handed = w.handed ∧
    w'.reads = w.reads ++ [(off, len)]

/-- A new connection has a new stream, of which nothing has been read. -/
def streamingAnswers (w : Stream) : (e : Req) → e.Rep → Stream → Prop
  | .recv off len, (r : RecvRet), w' => r.Fits len ∧ w.Reads off len r.bytes w'
  | .sslRecv off len, (r : SslRead), w' => r.Fits len ∧ w.Reads off len r.bytes w'
  | .sslRecvSimple off len, (r : SslRead), w' => r.Fits len ∧ w.Reads off len r.bytes w'
  | .hand frame, _, w' => w' = { w with handed := w.handed ++ [frame] }
  | .connect, (r : Int), w' =>
      if 0 ≤ r then w'.consumed = [] ∧ w'.handed = [] ∧ w'.reads = w.reads else w' = w
  | .attrPtr, r, w' => w' = w ∧ ∀ v : PortInfo, r = some v → v.isOpen = 0 ∨ v.isOpen = 1
  | _, _, w' => w' = w

abbrev streaming : Env VcSig VcAttr where
  World := Stream
  answers := streamingAnswers
  drift := fun _ _ _ => False

/-! ## The invariant -/

/-- The number of bytes behind a header. -/
def bodyLen (hdr : List UInt8) : Nat := hdrLen fun i => hdr.getD i 0

/-- The frames of a stream. -/
abbrev frames (bs : List UInt8) : List (List UInt8) := cut HDR_LEN bodyLen bs

/-- Every read so far stays inside the buffer. -/
def Stream.Bounded (w : Stream) : Prop := ∀ r ∈ w.reads, r.1 + r.2 ≤ RBUF_SIZE

/-- Whole frames have been handed on, one behind the other, and perhaps the beginning of
the next one has been read. -/
structure Stream.Aligned (w : Stream) : Prop where
  bounded : w.Bounded
  isFrame : ∀ f ∈ w.handed, IsFrame HDR_LEN bodyLen f
  begun : ∃ part, w.consumed = w.handed.flatten ++ part

/-- On a connection nothing is left over. -/
def Whole (s : VcAttr) (w : Stream) : Prop :=
  w.Aligned ∧ (0 ≤ s.sk → w.consumed = w.handed.flatten)

theorem Stream.Aligned.handed_first {w : Stream} (h : w.Aligned) : w.handed <+: frames w.sent := by
  obtain ⟨part, hpart⟩ := h.begun
  refine ⟨frames (part ++ w.rest), ?_⟩
  rw [Stream.sent, hpart, List.append_assoc]
  exact (cut_flatten (by decide) h.isFrame _).symm

/-- From `w` to `w'` the bytes `bs` were read, inside the buffer. -/
structure Took (w w' : Stream) (bs : List UInt8) : Prop where
  rest : w.rest = bs ++ w'.rest
  consumed : w'.consumed = w.consumed ++ bs
  handed : w'.handed = w.handed
  bounded : w.Bounded → w'.Bounded

theorem Took.refl (w : Stream) : Took w w [] := ⟨rfl, by simp, rfl, id⟩

theorem Took.trans {w w' w'' : Stream} {bs cs : List UInt8} (h : Took w w' bs) (h' : Took w' w'' cs) :
    Took w w'' (bs ++ cs) where
  rest := by rw [h.rest, h'.rest, List.append_assoc]
  consumed := by rw [h'.consumed, h.consumed, List.append_assoc]
  handed := h'.handed.trans h.handed
  bounded := fun hw => h'.bounded (h.bounded hw)

theorem Stream.Reads.took {w w' : Stream} {off len : Nat} {bs : List UInt8}
    (h : w.Reads off len bs w') (hoff : off + len ≤ RBUF_SIZE) : Took w w' bs := by
  obtain ⟨hrest, hconsumed, hhanded, hreads⟩ := h
  refine ⟨hrest, hconsumed, hhanded, fun hw r hr => ?_⟩
  rw [hreads] at hr
  rcases List.mem_append.mp hr with hr | hr
  · exact hw r hr
  · rw [List.mem_singleton.mp hr]
    exact hoff

theorem Took.aligned {w w' : Stream} {bs : List UInt8} (h : Took w w' bs) (hw : w.Aligned) :
    w'.Aligned := by
  obtain ⟨part, hpart⟩ := hw.begun
  refine ⟨h.bounded hw.bounded, by rw [h.handed]; exact hw.isFrame, part ++ bs, ?_⟩
  rw [h.consumed, h.handed, hpart, List.append_assoc]

/-! ## One read with a second chance -/

/-- A go at `rlen` bytes: with a code that is not negative they are all there. -/
def WentFor (w : Stream) (buf : Mem) (off rlen : Nat) (r : Int × Mem) (w' : Stream) : Prop :=
  ∃ bs, Took w w' bs ∧ (0 ≤ r.1 → bs.length = rlen ∧ r.2 = buf.blit off bs)

section
variable {s : VcAttr} {w : Stream} {buf : Mem} {off rlen : Nat}

theorem wp_still {I : VcAttr → Stream → Prop} {e : Req} {Q : e.Rep → VcAttr → Stream → Prop}
    (hI : I s w) (hQ : ∀ r w', streamingAnswers w e r w' → Q r s w') :
    (Act.request (S := VcSig) e : M e.Rep).wp streaming I Q s w :=
  Act.wp_request_still (fun _ _ h => h) hI hQ

theorem WentFor.failed {w' : Stream} {bs : List UInt8} {buf' : Mem} {ret : Int} (h : Took w w' bs)
    (hret : ret < 0) : WentFor w buf off rlen (ret, buf') w' :=
  ⟨bs, h, fun hpos => absurd hpos (Int.not_le.mpr hret)⟩

/-- The second part of a frame behind the first. -/
theorem WentFor.second {w₁ w₂ : Stream} {bs cs : List UInt8} (h₁ : Took w w₁ bs) (h₂ : Took w₁ w₂ cs)
    {ret : Int} (hlen : bs.length + cs.length = rlen) :
    WentFor w buf off rlen (ret, (buf.blit off bs).blit (off + bs.length) cs) w₂ := by
  refine ⟨bs ++ cs, h₁.trans h₂, fun _ => ⟨?_, Mem.blit_blit buf off bs cs⟩⟩
  rw [List.length_append]
  exact hlen

theorem wp_vcFrameRecvTcp_went (hw : w.Aligned) (hoff : off + rlen ≤ RBUF_SIZE) :
    (vcFrameRecvTcp buf off rlen).wp streaming (fun _ w => w.Aligned)
      (fun r s' w' => s' = s ∧ WentFor w buf off rlen r w') s w := by
  simp only [vcFrameRecvTcp, Act.wp_bind]
  refine wp_still hw fun (r : RecvRet) w₁ hr => ?_
  obtain ⟨hfits, hreads⟩ := hr
  have htook := hreads.took hoff
  simp only [RecvRet.store_eq, Act.wp_ite, Act.wp_pure]
  split
  · exact ⟨trivial, .failed htook (by decide)⟩
  rename_i hpos
  have hret := r.ret_pos (Int.not_le.mp hpos)
  split
  · rename_i hall
    exact ⟨trivial, r.bytes, htook, fun _ => ⟨by omega, rfl⟩⟩
  rename_i hshort
  rw [hret, Int.toNat_natCast]
  split
  · rename_i hlt
    simp only [recvSecondChance, Act.wp_bind, Act.wp_ite, Act.wp_pure]
    refine wp_still (htook.aligned hw) fun ready w₂ hr => ?_
    obtain rfl : w₂ = w₁ := hr
    split
    · refine wp_still (htook.aligned hw) fun (r' : RecvRet) w₃ hr' => ?_
      have htook' := hr'.2.took (by omega)
      split
      · rename_i hsum
        have hret' := r'.ret_pos (by omega)
        exact ⟨rfl, .second htook htook' (by omega)⟩
      · exact ⟨rfl, .failed (htook.trans htook') (by decide)⟩
    · have hzero : (RecvRet.eof).ret = 0 := rfl
      rw [if_neg (by omega)]
      exact ⟨rfl, .failed htook (by decide)⟩
  · exact ⟨trivial, .failed htook (by decide)⟩

theorem wp_vcFrameRecvSsl_went (hw : w.Aligned) (hne : s.stk ≠ []) (hoff : off + rlen ≤ RBUF_SIZE) :
    (vcFrameRecvSsl buf off rlen).wp streaming (fun _ w => w.Aligned)
      (fun r s' w' => (∃ x, x.isSome = s.ssl.isSome ∧ s' = { s with ssl := x }) ∧
        WentFor w buf off rlen r w' ∧ (r.1 = SSL_OPS_SELECT → Took w w' [])) s w := by
  have hsome {x : Option SslInfo} (f : SslInfo → SslInfo) : (x.map f).isSome = x.isSome := by simp
  -- both failures are reported the same way
  have hreport {x : Option SslInfo} (hx : x.isSome = s.ssl.isSome) {w' : Stream} {bs : List UInt8}
      {buf' : Mem} (htook : Took w w' bs) :
      (do sslErrStr
          stkLog
          pure (SSL_OPS_FAIL, buf') : M (Int × Mem)).wp streaming (fun _ w => w.Aligned)
        (fun r s' w' => (∃ x, x.isSome = s.ssl.isSome ∧ s' = { s with ssl := x }) ∧
          WentFor w buf off rlen r w' ∧ (r.1 = SSL_OPS_SELECT → Took w w' []))
        { s with ssl := x } w' := by
    simp only [Act.wp_bind, Act.wp_pure]
    refine wp_still (htook.aligned hw) fun _ w₂ hr => ?_
    obtain rfl : w₂ = w' := hr
    refine Act.wp_of_done (stkLog_done hne) ⟨⟨x, hx, rfl⟩, .failed htook (by decide), fun h => ?_⟩
    exact absurd h (by decide)
  simp only [vcFrameRecvSsl, Act.wp_bind]
  refine wp_still hw fun (r : SslRead) w₁ hr => ?_
  obtain ⟨hfits, hreads⟩ := hr
  have htook := hreads.took hoff
  have hx := hsome (x := s.ssl) (noteRecv r.event)
  simp only [setRecv, wp_modifyAttr, SslRead.store_eq, Act.wp_bind, Act.wp_ite, Act.wp_pure]
  split
  · rename_i hselect
    have hnone := SslRead.ret_select hselect
    rw [hnone] at htook
    exact ⟨⟨_, hx, rfl⟩, .failed htook (by rw [hselect]; decide), fun _ => htook⟩
  split
  · rename_i hall
    have hret := r.ret_pos hall.1
    refine ⟨⟨_, hx, rfl⟩, ⟨r.bytes, htook, fun _ => ⟨by omega, rfl⟩⟩, fun h => ?_⟩
    simp only [SSL_OPS_SELECT] at h
    omega
  split
  · rename_i hlt
    have hret := r.ret_pos hlt.1
    rw [hret, Int.toNat_natCast]
    refine wp_still (htook.aligned hw) fun (r' : SslRead) w₂ hr' => ?_
    have htook' := hr'.2.took (by omega)
    have hx' := (hsome (noteRecv r'.event)).trans hx
    split
    · rename_i hsum
      have hret' := r'.ret_pos (by omega)
      refine ⟨⟨_, hx', rfl⟩, .second htook htook' (by omega), fun h => ?_⟩
      simp only [SSL_OPS_SELECT] at h
      omega
    · simpa only [Act.wp_bind, Act.wp_pure] using hreport hx' (htook.trans htook')
  · simpa only [Act.wp_bind, Act.wp_pure] using hreport hx htook

/-! ## One frame -/

theorem hdrLen_blit {bs : List UInt8} (h : bs.length = HDR_LEN) (buf : Mem) :
    hdrLen (buf.blit 0 bs) = bodyLen bs := by
  have hbyte (i : Nat) (hi : i < HDR_LEN) : buf.blit 0 bs i = bs.getD i 0 := by
    simp [Mem.blit, List.getElem?_eq_getElem (h ▸ hi)]
  unfold bodyLen hdrLen
  exact Mem.be16_congr fun i _ hi => hbyte i (by simp only [HDR_LEN]; omega)

theorem isFrame_append {hdr body : List UInt8} (hhdr : hdr.length = HDR_LEN)
    (hbody : body.length = bodyLen hdr) : IsFrame HDR_LEN bodyLen (hdr ++ body) := by
  have htake : (hdr ++ body).take HDR_LEN = hdr := by rw [← hhdr, List.take_left]
  rw [IsFrame, htake, List.length_append, hhdr, hbody]
  exact ⟨Nat.le_add_right _ _, rfl⟩

/-- How the header comes. -/
def HeaderRead (s : VcAttr) (w : Stream) (buf : Mem) (r : Option Outcome × Mem) (s' : VcAttr)
    (w' : Stream) : Prop :=
  (∃ x, x.isSome = s.ssl.isSome ∧ s' = { s with ssl := x }) ∧
    match r.1 with
    | none => ∃ bs, bs.length = HDR_LEN ∧ Took w w' bs ∧ r.2 = buf.blit 0 bs
    | some .select => Took w w' []
    | some .reset => ∃ bs, Took w w' bs
    | some (.frame _) => False

theorem wp_recvHeader_read (hw : w.Aligned) (hne : s.stk ≠ []) :
    (recvHeader buf).wp streaming (fun _ w => w.Aligned) (HeaderRead s w buf) s w := by
  have hoff : 0 + HDR_LEN ≤ RBUF_SIZE := by decide
  simp only [recvHeader, Act.wp_bind, wp_getAttr, Act.wp_ite, Act.wp_pure]
  split
  · refine Act.wp_mono (wp_vcFrameRecvSsl_went hw hne hoff) ?_
    rintro ⟨ret, buf'⟩ s' w' ⟨hs, ⟨bs, htook, hall⟩, hselect⟩
    dsimp only
    split
    · rename_i hret
      exact ⟨hs, hselect hret⟩
    split
    · exact ⟨hs, bs, htook⟩
    · rename_i hpos
      obtain ⟨hlen, hbuf⟩ := hall (Int.le_of_lt (Int.not_le.mp hpos))
      exact ⟨hs, bs, hlen, htook, hbuf⟩
  · refine Act.wp_mono (wp_vcFrameRecvTcp_went hw hoff) ?_
    rintro ⟨ret, buf'⟩ s' w' ⟨rfl, bs, htook, hall⟩
    dsimp only
    split
    · exact ⟨⟨_, rfl, rfl⟩, bs, htook⟩
    · rename_i hpos
      obtain ⟨hlen, hbuf⟩ := hall (Int.not_lt.mp hpos)
      exact ⟨⟨_, rfl, rfl⟩, bs, hlen, htook, hbuf⟩

/-- How a frame comes. -/
def Fetched (s : VcAttr) (w : Stream) (r : Outcome × Mem) (s' : VcAttr) (w' : Stream) : Prop :=
  (∃ x tx, s' = { s with ssl := x, tx := tx }) ∧
    match r.1 with
    | .select => Took w w' []
    | .reset => ∃ bs, Took w w' bs
    | .frame len => HDR_LEN ≤ len ∧ len ≤ RBUF_SIZE ∧ ∃ bs, Took w w' bs ∧
        IsFrame HDR_LEN bodyLen bs ∧ bs.length = len ∧ r.2.slice 0 len = bs

/-- What follows a header that has been read. -/
theorem wp_recvBody_fetched {w₁ : Stream} {bs : List UInt8} (hw : w.Aligned) (hne : s.stk ≠ [])
    (hlen : bs.length = HDR_LEN) (htook : Took w w₁ bs) :
    (recvBody (buf.blit 0 bs)).wp streaming (fun _ w => w.Aligned) (Fetched s w) s w₁ := by
  have hbody := hdrLen_blit hlen buf
  -- header and payload lie behind each other in the buffer and in the stream
  have hwhole {cs : List UInt8} {w₂ : Stream} (x : Option SslInfo) (hcs : cs.length = bodyLen bs)
      (hmax : cs.length ≤ RBUF_SIZE - HDR_LEN) (htook' : Took w₁ w₂ cs) :
      Fetched s w (.frame (HDR_LEN + cs.length), (buf.blit 0 bs).blit HDR_LEN cs)
        { s with ssl := x } w₂ := by
    have hsum : HDR_LEN + cs.length = (bs ++ cs).length := by rw [List.length_append, hlen]
    have hbuf : (buf.blit 0 bs).blit HDR_LEN cs = buf.blit 0 (bs ++ cs) := by
      rw [← Mem.blit_blit, hlen, Nat.zero_add]
    refine ⟨⟨x, s.tx, rfl⟩, Nat.le_add_right _ _, ?_, bs ++ cs, htook.trans htook',
      isFrame_append hlen hcs, hsum.symm, ?_⟩
    · simp only [HDR_LEN, RBUF_SIZE] at hmax ⊢
      omega
    · rw [hbuf, hsum]
      exact Mem.slice_blit_self buf 0 (bs ++ cs)
  simp only [recvBody, hbody]
  split
  · simp only [recvPayload, Act.wp_bind, wp_getAttr, Act.wp_ite, Act.wp_pure]
    split
    · exact ⟨⟨s.ssl, s.tx, rfl⟩, bs, htook⟩
    rename_i hpos hmax
    have hoff : HDR_LEN + bodyLen bs ≤ RBUF_SIZE := by
      simp only [HDR_LEN, RBUF_SIZE] at hmax ⊢
      omega
    split
    · refine Act.wp_mono (wp_vcFrameRecvSsl_went (htook.aligned hw) hne hoff) ?_
      rintro ⟨ret, buf'⟩ _ w₂ ⟨⟨x, hx, rfl⟩, ⟨cs, htook', hall⟩, -⟩
      dsimp only
      split
      · exact ⟨⟨x, s.tx, rfl⟩, bs ++ cs, htook.trans htook'⟩
      · rename_i hret
        obtain ⟨hcs, rfl⟩ := hall (Int.le_of_lt (Int.not_le.mp hret))
        rw [← hcs]
        exact hwhole x hcs (by omega) htook'
    · refine Act.wp_mono (wp_vcFrameRecvTcp_went (htook.aligned hw) hoff) ?_
      rintro ⟨ret, buf'⟩ _ w₂ ⟨rfl, cs, htook', hall⟩
      dsimp only
      split
      · exact ⟨⟨_, _, rfl⟩, bs ++ cs, htook.trans htook'⟩
      · rename_i hret
        obtain ⟨hcs, rfl⟩ := hall (Int.not_lt.mp hret)
        rw [← hcs]
        exact hwhole _ hcs (by omega) htook'
  · rename_i hzero
    have hnone : (0 : Nat) = bodyLen bs := by omega
    have hdone := @hwhole [] w₁ s.ssl hnone (Nat.zero_le _) (Took.refl w₁)
    rw [Mem.blit_nil] at hdone
    exact hdone

/-- The refresh of the TX snapshot is not seen by the peer. -/
theorem wp_vcBufUpdateTx_still (hw : w.Aligned) : vcBufUpdateTx.wp streaming (fun _ w => w.Aligned)
    (fun _ s' w' => (∃ tx, s' = { s with tx := tx }) ∧ w' = w) s w := by
  refine Act.Always.wp (𝓔 := streaming) vcBufUpdateTx_always (fun w' => w' = w) rfl
    (fun _ _ _ _ _ _ hd => hd.elim) ?_ ?_
  · rintro _ _ _ _ rfl
    exact hw
  · rintro _ e r _ w' ⟨he, _⟩ rfl hr
    cases e with
    | ioctl | copyTx | readRx => exact hr
    | _ => exact he.elim

/-- **One receive attempt**: nothing, an exception, or one whole frame. -/
theorem wp_vcRecvFrame_fetched (hw : w.Aligned) (hne : s.stk ≠ []) :
    (vcRecvFrame buf).wp streaming (fun _ w => w.Aligned) (Fetched s w) s w := by
  simp only [vcRecvFrame, Act.wp_bind]
  refine Act.wp_mono (wp_recvHeader_read hw hne) ?_
  rintro ⟨out, buf'⟩ _ w₁ ⟨⟨x, hx, rfl⟩, hread⟩
  match out with
  | some .select => exact ⟨⟨x, s.tx, rfl⟩, hread⟩
  | some .reset => exact ⟨⟨x, s.tx, rfl⟩, hread⟩
  | some (.frame _) => exact hread.elim
  | none =>
      obtain ⟨bs, hlen, htook, rfl⟩ := hread
      have hbody {tx : RingBuf} : (recvBody (buf.blit 0 bs)).wp streaming (fun _ w => w.Aligned)
          (Fetched s w) { s with ssl := x, tx := tx } w₁ := by
        refine Act.wp_mono (wp_recvBody_fetched hw (by exact hne) hlen htook) ?_
        rintro r _ w₂ ⟨⟨x', tx', rfl⟩, hr⟩
        exact ⟨⟨x', tx', rfl⟩, hr⟩
      simp only [Act.wp_ite, Act.wp_bind]
      split
      · refine Act.wp_mono (wp_vcBufUpdateTx_still (htook.aligned hw)) ?_
        rintro _ _ _ ⟨⟨tx, rfl⟩, rfl⟩
        exact hbody
      · exact hbody

end

/-! ## Whole runs -/

theorem Whole.of_eq {s s' : VcAttr} {w : Stream} (h : Whole s w) (hsk : s'.sk = s.sk) : Whole s' w :=
  ⟨h.1, fun hsk' => h.2 (by omega)⟩

/-- What the data path asks for is not seen by the receiver. -/
theorem streaming_still {w w' : Stream} {e : Req} {r : e.Rep}
    (he : e.Quiet ∨ e.OfData ∨ e.Talk Pkt.Tame) (hr : streamingAnswers w e r w') : w' = w := by
  cases e with
  | recv | sslRecv | sslRecvSimple | hand | connect =>
      rcases he with he | (he | he | he | he) | he
      · exact he.elim
      · exact he.elim
      · cases he
      · exact he.elim
      · exact he.elim
      · exact he.elim
  | attrPtr => exact hr.1
  | _ => exact hr

theorem streaming_aloof : Aloof streaming Whole (fun _ w => w.Aligned) where
  only := fun h hsk _ _ => h.of_eq hsk
  weak := fun h _ => h.1
  drift := fun h => h.elim
  quiet := by
    intro s w w' e r he hr h
    rw [streaming_still (he.imp_right Or.inl) hr]
    exact h
  only_weak := fun h _ => h
  drift_weak := fun h => h.elim
  quiet_weak := by
    intro s w w' e r he hr h
    rw [streaming_still (Or.inl he) hr]
    exact h
  view := by
    intro s w w' v hr h
    obtain ⟨rfl, hlegal⟩ := hr
    exact ⟨hlegal v rfl, h⟩

/-- A sending request is not seen either. -/
theorem streaming_sends {w w' : Stream} {ps : List Pkt} {ok : Bool}
    (h : Sends streaming w ps ok w') : w' = w := by
  rcases h with h | ⟨r, h, -⟩
  · exact h
  · exact h

theorem whole_received {s : VcAttr} {w : Stream} {st : St} {top : List St} (buf : Mem)
    (h : Up st top s) (hj : Whole s w) : (vcRecvFrame buf).wp streaming (fun _ w => w.Aligned)
      (Came (fun _ w => w.Aligned) Whole (fun _ w => w.Aligned) (fun _ _ => Whole) st top) s w := by
  refine Act.wp_mono (wp_vcRecvFrame_fetched hj.1 h.raised.ne_nil) ?_
  rintro ⟨out, buf'⟩ _ w₁ ⟨⟨x, tx, rfl⟩, hfetched⟩
  have hup : Up st top { s with ssl := x, tx := tx } := h
  match out with
  | .select =>
      have htook : Took w w₁ [] := hfetched
      refine ⟨hup, htook.aligned hj.1, fun hsk => ?_⟩
      rw [htook.consumed, htook.handed, List.append_nil]
      exact hj.2 hsk
  | .reset =>
      obtain ⟨bs, htook⟩ := hfetched
      exact ⟨hup.raised, htook.aligned hj.1⟩
  | .frame len =>
      obtain ⟨hlo, hhi, bs, htook, hframe, hlen, hslice⟩ := hfetched
      have halign := htook.aligned hj.1
      refine ⟨hlo, hhi, hup, wp_still halign fun _ w₂ hr => ?_⟩
      obtain rfl : w₂ = { w₁ with handed := w₁.handed ++ [buf'.slice 0 len] } := hr
      have hconsumed : w₁.consumed = (w₁.handed ++ [bs]).flatten := by
        rw [htook.consumed, htook.handed, hj.2 h.2.2.1, List.flatten_append, List.flatten_singleton]
      refine ⟨hup.push, ⟨halign.bounded, ?_, [], ?_⟩, fun _ => ?_⟩
      · intro f hf
        rw [hslice] at hf
        rcases List.mem_append.mp hf with hf | hf
        · exact halign.isFrame f hf
        · rw [List.mem_singleton.mp hf]
          exact hframe
      · rw [hslice, List.append_nil]
        exact hconsumed
      · rw [hslice]
        exact hconsumed

theorem streaming_keeps : Keeps streaming (fun _ w => w.Aligned) Whole (fun s w => Whole s w)
    (fun _ w => w.Aligned) (fun _ _ => Whole) := by
  have htame {s : VcAttr} {w w' : Stream} {e : Req} {r : e.Rep} (he : e.Talk Pkt.Tame)
      (hr : streamingAnswers w e r w') (h : Whole s w) : Whole s w' := by
    rw [streaming_still (Or.inr (Or.inr he)) hr]
    exact h
  have hsteady {s s' : VcAttr} {w : Stream} (hs : Steady s s') (h : Whole s w) : Whole s' w :=
    h.of_eq (by rw [hs.1])
  refine streaming_aloof.keeps streaming_aloof.stable (fun _ _ h => h.1) ?_ ?_ ?_ ?_ ?_ ?_ ?_ ?_
    (fun buf h hj => ⟨whole_received buf h hj⟩)
  · intro s w w' hb hr
    obtain rfl : w' = w := hr
    exact ⟨hb, fun hsk => absurd hsk (by simp [VcAttr.hung])⟩
  · intro s w w' r _ hj hr hneg
    have hr : if 0 ≤ r then _ else w' = w := hr
    rw [if_neg (Int.not_le.mpr hneg)] at hr
    rw [hr]
    exact hj
  · intro s w w' r _ hj hr hpos
    have hr : if 0 ≤ r then w'.consumed = [] ∧ w'.handed = [] ∧ w'.reads = w.reads else w' = w := hr
    rw [if_pos hpos] at hr
    obtain ⟨hconsumed, hhanded, hreads⟩ := hr
    refine ⟨⟨?_, by simp [hhanded], [], by simp [hhanded, hconsumed]⟩, fun _ => ?_⟩
    · rw [Stream.Bounded, hreads]
      exact hj.1.bounded
    · simp [hhanded, hconsumed]
  · intro st s w w' _ hj hs
    rw [streaming_sends hs]
    exact hj.of_eq rfl
  · intro s w w' ps hb hs
    rw [streaming_sends hs]
    exact hb
  · intro s w w' p _ hj _ hs
    rw [streaming_sends hs]
    exact hj
  · intro st s w h hj
    exact streaming_aloof.tuned (f := id) htame hsteady (syncAll_steady h.raised.ne_nil) h hj
  · intro st s w h hj
    exact streaming_aloof.tuned (f := (· != some false)) htame hsteady
      (ioctlSend_steady h.raised.ne_nil) h hj

/-- No connection yet. -/
def Stream.none : Stream := ⟨[], [], [], []⟩

/-- **The receiver stays aligned.**  In every configuration of every run the frames handed
on are the first frames of what the peer sends on the connection, and no read may store
behind the buffer.  Between two rounds of a connected daemon everything read has been
handed on, so the next read starts at the next frame.  An attempt that has to wait has
read nothing. -/
theorem frames_aligned {s₀ : VcAttr} (hfresh : Fresh s₀) (buf : Mem)
    {p : Proc VcSig VcAttr (Option LoopState)} {w : Stream}
    (hreach : streaming.Reach iteration (mainStart buf s₀) Stream.none p w) :
    w.handed <+: frames w.sent ∧ (∀ r ∈ w.reads, r.1 + r.2 ≤ RBUF_SIZE) ∧
    (∀ ls s, p = .done ls s → 0 ≤ s.sk →
      w.consumed = w.handed.flatten ∧ frames w.sent = w.handed ++ frames w.rest) ∧
    ∀ buf s w, s.stk ≠ [] → w.Aligned → (vcRecvFrame buf).wp streaming (fun _ w => w.Aligned)
      (fun r _ w' => r.1 = .select → w'.consumed = w.consumed ∧ w'.rest = w.rest) s w := by
  have hstart : Whole s₀.hung Stream.none :=
    ⟨⟨by simp [Stream.Bounded, Stream.none], by simp [Stream.none], [], rfl⟩, fun _ => rfl⟩
  have hwp := streaming_keeps.run (streaming_aloof.ready hfresh hstart) hreach
  have halign : w.Aligned := by
    cases p with
    | done ls s => exact hwp.2.1
    | fault x => exact hwp.elim
    | pause s e k => exact hwp.pause
  refine ⟨halign.handed_first, halign.bounded, ?_, ?_⟩
  · rintro ls s rfl hsk
    have hconsumed := hwp.2.2 hsk
    refine ⟨hconsumed, ?_⟩
    rw [Stream.sent, hconsumed]
    exact cut_flatten (by decide) halign.isFrame w.rest
  · intro buf s w hne hw
    refine Act.wp_mono (wp_vcRecvFrame_fetched hw hne) ?_
    rintro ⟨out, buf'⟩ s' w' ⟨-, hfetched⟩ hselect
    obtain rfl : out = .select := hselect
    have htook : Took w w' [] := hfetched
    exact ⟨by rw [htook.consumed, List.append_nil], htook.rest.symm⟩

/-- A peer that sends an answer to CLOSE and the beginning of another frame. -/
def peerReplies (w : Stream) : (e : Req) → Option (e.Rep × Stream)
  | .connect =>
      some ((3 : Int), ⟨List.replicate 9 0 ++ [2] ++ List.replicate 15 0, [], [], w.reads⟩)
  | .recv off len =>
      if 1 ≤ (w.rest.take len).length then
        some (RecvRet.data (w.rest.take len), { w with
          rest := w.rest.drop len
          consumed := w.consumed ++ w.rest.take len
          reads := w.reads ++ [(off, len)] })
      else Option.none
  | .hand f => some ((), { w with handed := w.handed ++ [f] })
  | .select _ _ => some (⟨1, ⟨false, false, false, true, false⟩, 1⟩, w)
  | e => (openReplies () e).map fun r => (r.1, w)

theorem peerReplies_legal {w : Stream} {e : Req} {r : e.Rep} {w' : Stream}
    (h : peerReplies w e = some (r, w')) : streaming.answers w e r w' := by
  cases e with
  | connect => cases h; exact ⟨rfl, rfl, rfl⟩
  | recv off len =>
      simp only [peerReplies] at h
      split at h
      · rename_i hpos
        cases h
        exact ⟨⟨hpos, List.length_take_le _ _⟩, (List.take_append_drop len w.rest).symm, rfl, rfl, rfl⟩
      · cases h
  | hand f => cases h; rfl
  | attrPtr =>
      cases h
      refine ⟨rfl, fun v hv => ?_⟩
      cases hv
      exact Or.inr rfl
  | ioctl | fdcheck | send | select => cases h; rfl
  | _ => cases h

theorem peerRun_handed :
    (((mainStart (fun _ => 0) freshAttr).bind (rounds iteration 1)).exec peerReplies
      Stream.none).map (fun r => (r.2.1.sk, r.2.2.handed.length)) = some (3, 1) := by
  decide +kernel

theorem frames_aligned_one : Fresh freshAttr ∧ ∃ ls s w,
    streaming.Reach iteration (mainStart (fun _ => 0) freshAttr) Stream.none (.done ls s) w ∧
      w.handed.length = 1 ∧ w.consumed = w.handed.flatten := by
  have hfresh : Fresh freshAttr := ⟨rfl, rfl, Or.inl rfl⟩
  obtain ⟨⟨ls, s, w⟩, hrun, hend⟩ := Option.map_eq_some_iff.mp peerRun_handed
  have hreach := Env.Reach.rounds (𝓔 := streaming) peerReplies_legal 1 .start hrun
  obtain ⟨hsk, hhanded⟩ : s.sk = 3 ∧ w.handed.length = 1 := Prod.mk.inj hend
  have hwhole := (frames_aligned hfresh _ hreach).2.2.1 ls s rfl (by omega)
  exact ⟨hfresh, ls, s, w, hreach, hhanded, hwhole.1⟩

end AdvVcom
