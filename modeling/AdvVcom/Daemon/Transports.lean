/-
# `AdvVcom.Daemon.Transports` — the two receive paths compared

In clear the socket blocks, over TLS it does not.  Both are given the same delivery:
every header and every payload comes in one or two pieces, the second within the time
both paths allow it; how long the first is waited for is open.  `repeated` makes one
receive attempt after the other, as main does: an attempt that has to wait for a header
is made again when something has come.

The header is waited for by both, the payload only in clear: over TLS a payload that is
not there when the header has been read is an error.

**Proved here**, for every delivery,

    in clear every frame is received
    over TLS the same frames are received  ⟺  no payload is waited for
                                                     (`transports_agree_iff`)
-/
import AdvVcom.Daemon.Stream

namespace AdvVcom

open Lib Lib.Frames

/-! ## Deliveries -/

/-- Bytes that come together, and how long they are waited for, in µs. -/
structure Piece where
  wait : Nat
  bytes : List UInt8
  deriving DecidableEq

/-- The time `recv_second_chance` allows. -/
def TCP_WINDOW : Nat := 10000

/-- The time `ssl_recv_simple` is given. -/
def SSL_WINDOW : Nat := 500000

/-- A header or a payload in one or two pieces; the second within both windows. -/
structure Arrival where
  first : Piece
  second : Option Piece
  first_ne : first.bytes ≠ []
  second_ne : ∀ q, second = some q → q.bytes ≠ []
  second_soon : ∀ q, second = some q → 1 ≤ q.wait ∧ q.wait ≤ TCP_WINDOW

def Arrival.pieces (a : Arrival) : List Piece := a.first :: a.second.toList

def Arrival.bytes (a : Arrival) : List UInt8 := (a.pieces.map Piece.bytes).flatten

/-- A frame on its way. -/
structure Delivery where
  header : Arrival
  payload : Option Arrival
  header_len : header.bytes.length = HDR_LEN
  payload_len : (payload.elim [] Arrival.bytes).length = bodyLen header.bytes
  payload_max : bodyLen header.bytes ≤ RBUF_SIZE - HDR_LEN

def Delivery.pieces (d : Delivery) : List Piece :=
  d.header.pieces ++ d.payload.elim [] Arrival.pieces

def Delivery.frame (d : Delivery) : List UInt8 := d.header.bytes ++ d.payload.elim [] Arrival.bytes

/-- The payload, if there is one, has come when the header has been read. -/
def Delivery.Prompt (d : Delivery) : Prop := ∀ a, d.payload = some a → a.first.wait = 0

/-! ## The two sockets -/

/-- The first `len` bytes of a piece, and what is still to come. -/
def Piece.take (p : Piece) (len : Nat) (w : List Piece) : List UInt8 × List Piece :=
  (p.bytes.take len, if p.bytes.length ≤ len then w else ⟨0, p.bytes.drop len⟩ :: w)

/-- A blocking socket: `recv` waits as long as it takes.  Ioctls succeed. -/
def tcpReply : List Piece → (e : Req) → Option (e.Rep × List Piece)
  | p :: w, .recv _ len => some (RecvRet.data (p.take len w).1, (p.take len w).2)
  | p :: w, .selRd =>
      if p.wait ≤ TCP_WINDOW then some (true, ⟨0, p.bytes⟩ :: w)
      else some (false, ⟨p.wait - TCP_WINDOW, p.bytes⟩ :: w)
  | w, .ioctl _ _ => some (some (0 : Int), w)
  | _, _ => none

/-- TLS on a non-blocking socket: a direct read takes what is there. -/
def tlsReply : List Piece → (e : Req) → Option (e.Rep × List Piece)
  | p :: w, .sslRecv _ len =>
      if p.wait = 0 then some (SslRead.data (p.take len w).1, (p.take len w).2)
      else some (SslRead.want false, p :: w)
  | p :: w, .sslRecvSimple _ len =>
      if p.wait ≤ SSL_WINDOW then some (SslRead.data (p.take len w).1, (p.take len w).2)
      else some (SslRead.want false, ⟨p.wait - SSL_WINDOW, p.bytes⟩ :: w)
  | w, .sslErrStr => some ((), w)
  | w, .ioctl _ _ => some (some (0 : Int), w)
  | _, _ => none

/-- `select` in main: the next piece has come. -/
def arrive : List Piece → List Piece
  | [] => []
  | p :: w => ⟨0, p.bytes⟩ :: w

/-- `n` receive attempts, or fewer if nothing more comes: the frames, and whether the
connection was reset (or blocked) on the way. -/
def repeated (reply : List Piece → (e : Req) → Option (e.Rep × List Piece)) :
    Nat → VcAttr → Mem → List Piece → List (List UInt8) × Bool
  | 0, _, _, _ => ([], false)
  | _, _, _, [] => ([], false)
  | n + 1, s, buf, w =>
      match (vcRecvFrame buf s).exec reply w with
      | some ((.frame len, buf'), s', w') =>
          let r := repeated reply n s' buf' w'
          (buf'.slice 0 len :: r.1, r.2)
      | some ((.select, buf'), s', w') => repeated reply n s' buf' (arrive w')
      | some ((.reset, _), _, _) => ([], true)
      | none => ([], true)

/-! ## One header or payload -/

section
variable {s : VcAttr} {buf : Mem} {off rlen : Nat} {w : List Piece} {p : Piece}

theorem Piece.take_whole (h : p.bytes.length ≤ rlen) : p.take rlen w = (p.bytes, w) := by
  rw [Piece.take, if_pos h, List.take_of_length_le h]

theorem modifyAttr_bind {α : Type} (g : VcAttr → VcAttr) (f : Unit → M α) :
    (modifyAttr g >>= f) s = f () (g s) := rfl

/-- A piece that is the whole of what is asked for. -/
theorem exec_tcp_one (hne : p.bytes ≠ []) (hlen : p.bytes.length = rlen) :
    (vcFrameRecvTcp buf off rlen s).exec tcpReply (p :: w) =
      some (((rlen : Int), buf.blit off p.bytes), s, w) := by
  have hpos := List.length_pos_iff.mpr hne
  have hrecv : tcpReply (p :: w) (.recv off rlen) = some (RecvRet.data p.bytes, w) := by
    simp only [tcpReply, Piece.take_whole hlen.le]
    rfl
  have hret : (RecvRet.data p.bytes).ret = rlen := congrArg Nat.cast hlen
  refine (Act.exec_request hrecv).trans ?_
  dsimp only
  rw [if_neg (show ¬ (RecvRet.data p.bytes).ret ≤ 0 by omega), if_pos hret, hret]
  rfl

/-- Two pieces, the second within the window. -/
theorem exec_tcp_two {q : Piece} (hp : p.bytes ≠ []) (hq : q.bytes ≠ []) (hsoon : q.wait ≤ TCP_WINDOW)
    (hlen : p.bytes.length + q.bytes.length = rlen) :
    (vcFrameRecvTcp buf off rlen s).exec tcpReply (p :: q :: w) =
      some (((rlen : Int), buf.blit off (p.bytes ++ q.bytes)), s, w) := by
  have hp' := List.length_pos_iff.mpr hp
  have hq' := List.length_pos_iff.mpr hq
  have hrecv : tcpReply (p :: q :: w) (.recv off rlen) = some (RecvRet.data p.bytes, q :: w) := by
    simp only [tcpReply, Piece.take_whole (show p.bytes.length ≤ rlen by omega)]
    rfl
  have hready : tcpReply (q :: w) .selRd = some (true, ⟨0, q.bytes⟩ :: w) := by
    simp only [tcpReply, if_pos hsoon]
    rfl
  have hrecv' : tcpReply (⟨0, q.bytes⟩ :: w) (.recv (off + p.bytes.length) (rlen - p.bytes.length)) =
      some (RecvRet.data q.bytes, w) := by
    simp only [tcpReply, Piece.take_whole (p := ⟨0, q.bytes⟩)
      (show q.bytes.length ≤ rlen - p.bytes.length by omega)]
    rfl
  have hret : (RecvRet.data p.bytes).ret = p.bytes.length := rfl
  have hret' : (RecvRet.data q.bytes).ret = q.bytes.length := rfl
  refine (Act.exec_request hrecv).trans ?_
  dsimp only
  rw [hret, if_neg (show ¬ (p.bytes.length : Int) ≤ 0 by omega),
    if_neg (show ¬ (p.bytes.length : Int) = rlen by omega),
    if_pos (show (p.bytes.length : Int) < rlen by omega), Int.toNat_natCast]
  have hsecond : (recvSecondChance (off + p.bytes.length) (rlen - p.bytes.length) s).exec tcpReply
      (q :: w) = some (RecvRet.data q.bytes, s, w) := by
    refine (Act.exec_request hready).trans ?_
    rw [if_pos rfl]
    exact Act.exec_request (f := pure) hrecv'
  refine (Act.exec_bind hsecond).trans ?_
  rw [hret', if_pos (by omega)]
  show some (((p.bytes.length : Int) + q.bytes.length, _), s, w) = _
  rw [← Mem.blit_blit]
  congr 3
  omega

/-- What is not there is not waited for. -/
theorem exec_tls_wait {x : SslInfo} (hwait : p.wait ≠ 0) :
    ∃ x', (vcFrameRecvSsl buf off rlen { s with ssl := some x }).exec tlsReply (p :: w) =
      some ((SSL_OPS_SELECT, buf), { s with ssl := some x' }, p :: w) := by
  have hrecv : tlsReply (p :: w) (.sslRecv off rlen) = some (SslRead.want false, p :: w) := by
    simp only [tlsReply, if_neg hwait]
    rfl
  exact ⟨noteRecv (SslRead.want false).event x, (Act.exec_request hrecv).trans rfl⟩

theorem exec_tls_one {x : SslInfo} (hwait : p.wait = 0) (hne : p.bytes ≠ [])
    (hlen : p.bytes.length = rlen) :
    ∃ x', (vcFrameRecvSsl buf off rlen { s with ssl := some x }).exec tlsReply (p :: w) =
      some (((rlen : Int), buf.blit off p.bytes), { s with ssl := some x' }, w) := by
  have hpos := List.length_pos_iff.mpr hne
  have hrecv : tlsReply (p :: w) (.sslRecv off rlen) = some (SslRead.data p.bytes, w) := by
    simp only [tlsReply, if_pos hwait, Piece.take_whole hlen.le]
    rfl
  have hret : (SslRead.data p.bytes).ret = rlen := congrArg Nat.cast hlen
  refine ⟨noteRecv (SslRead.data p.bytes).event x, (Act.exec_request hrecv).trans ?_⟩
  rw [setRecv, modifyAttr_bind]
  dsimp only
  rw [hret, if_neg (by simp only [SSL_OPS_SELECT]; omega), if_pos ⟨by omega, rfl⟩]
  rfl

theorem exec_tls_two {x : SslInfo} {q : Piece} (hwait : p.wait = 0) (hp : p.bytes ≠ [])
    (hq : q.bytes ≠ []) (hsoon : q.wait ≤ SSL_WINDOW)
    (hlen : p.bytes.length + q.bytes.length = rlen) :
    ∃ x', (vcFrameRecvSsl buf off rlen { s with ssl := some x }).exec tlsReply (p :: q :: w) =
      some (((rlen : Int), buf.blit off (p.bytes ++ q.bytes)), { s with ssl := some x' }, w) := by
  have hp' := List.length_pos_iff.mpr hp
  have hq' := List.length_pos_iff.mpr hq
  have hrecv : tlsReply (p :: q :: w) (.sslRecv off rlen) =
      some (SslRead.data p.bytes, q :: w) := by
    simp only [tlsReply, if_pos hwait, Piece.take_whole (show p.bytes.length ≤ rlen by omega)]
    rfl
  have hrecv' : tlsReply (q :: w)
      (.sslRecvSimple (off + p.bytes.length) (rlen - p.bytes.length)) =
        some (SslRead.data q.bytes, w) := by
    simp only [tlsReply, if_pos hsoon, Piece.take_whole (p := q)
      (show q.bytes.length ≤ rlen - p.bytes.length by omega)]
    rfl
  have hret : (SslRead.data p.bytes).ret = p.bytes.length := rfl
  have hret' : (SslRead.data q.bytes).ret = q.bytes.length := rfl
  refine ⟨noteRecv (SslRead.data q.bytes).event (noteRecv (SslRead.data p.bytes).event x),
    (Act.exec_request hrecv).trans ?_⟩
  rw [setRecv, modifyAttr_bind]
  dsimp only
  rw [hret, if_neg (by simp only [SSL_OPS_SELECT]; omega),
    if_neg (show ¬ (0 < (p.bytes.length : Int) ∧ (p.bytes.length : Int) = rlen) by omega),
    if_pos (show 0 < (p.bytes.length : Int) ∧ (p.bytes.length : Int) < rlen by omega),
    Int.toNat_natCast]
  refine (Act.exec_request hrecv').trans ?_
  rw [setRecv, modifyAttr_bind]
  dsimp only
  rw [hret', if_pos (by omega)]
  show some (((p.bytes.length : Int) + q.bytes.length, _), _, w) = _
  rw [← Mem.blit_blit]
  congr 3
  omega

/-! In one or two pieces: -/

theorem Arrival.bytes_eq (a : Arrival) : a.bytes = a.first.bytes ++ a.second.elim [] Piece.bytes := by
  cases h : a.second with
  | none => simp [Arrival.bytes, Arrival.pieces, h]
  | some q => simp [Arrival.bytes, Arrival.pieces, h]

theorem exec_tcp_arrival (a : Arrival) (hlen : a.bytes.length = rlen) :
    (vcFrameRecvTcp buf off rlen s).exec tcpReply (a.pieces ++ w) =
      some (((rlen : Int), buf.blit off a.bytes), s, w) := by
  rw [a.bytes_eq] at hlen ⊢
  obtain ⟨p, second, hp, hq, hsoon⟩ := a
  cases second with
  | none =>
      have hbytes : p.bytes ++ [] = p.bytes := List.append_nil _
      simp only [Option.elim_none, hbytes] at hlen ⊢
      exact exec_tcp_one hp hlen
  | some q =>
      simp only [Option.elim_some, List.length_append] at hlen ⊢
      exact exec_tcp_two hp (hq q rfl) (hsoon q rfl).2 hlen

theorem exec_tls_arrival {x : SslInfo} (a : Arrival) (hwait : a.first.wait = 0)
    (hlen : a.bytes.length = rlen) :
    ∃ x', (vcFrameRecvSsl buf off rlen { s with ssl := some x }).exec tlsReply (a.pieces ++ w) =
      some (((rlen : Int), buf.blit off a.bytes), { s with ssl := some x' }, w) := by
  rw [a.bytes_eq] at hlen ⊢
  obtain ⟨p, second, hp, hq, hsoon⟩ := a
  cases second with
  | none =>
      have hbytes : p.bytes ++ [] = p.bytes := List.append_nil _
      simp only [Option.elim_none, hbytes] at hlen ⊢
      exact exec_tls_one hwait hp hlen
  | some q =>
      have hwindow : TCP_WINDOW ≤ SSL_WINDOW := by decide
      simp only [Option.elim_some, List.length_append] at hlen ⊢
      exact exec_tls_two hwait hp (hq q rfl) ((hsoon q rfl).2.trans hwindow) hlen

end

/-! ## One frame -/

section
variable {reply : List Piece → (e : Req) → Option (e.Rep × List Piece)} {s s₁ : VcAttr} {buf : Mem}
  {w w₁ : List Piece}

/-- A socket that answers ioctls, whatever else it does. -/
def AnswersIoctl (reply : List Piece → (e : Req) → Option (e.Rep × List Piece)) : Prop :=
  ∀ w c arg, reply w (.ioctl c arg) = some (some (0 : Int), w)

theorem tcpReply_ioctl : AnswersIoctl tcpReply := by
  intro w c arg
  cases w with
  | nil => rfl
  | cons p w => rfl

theorem tlsReply_ioctl : AnswersIoctl tlsReply := by
  intro w c arg
  cases w with
  | nil => rfl
  | cons p w => rfl

/-- Header, refresh of the snapshot for DATAREADY, and the rest. -/
theorem exec_vcRecvFrame (hioctl : AnswersIoctl reply) {hdr : List UInt8} {r : Outcome × Mem}
    {P : VcAttr → List Piece → Prop}
    (hheader : (recvHeader buf s).exec reply w = some ((none, buf.blit 0 hdr), s₁, w₁))
    (hbody : ∀ tx, ∃ s₂ w₂, (recvBody (buf.blit 0 hdr) { s₁ with tx := tx }).exec reply w₁ =
      some (r, s₂, w₂) ∧ P s₂ w₂) :
    ∃ s₂ w₂, (vcRecvFrame buf s).exec reply w = some (r, s₂, w₂) ∧ P s₂ w₂ := by
  have hframe : (vcRecvFrame buf s).exec reply w =
      ((if hdrCmd (buf.blit 0 hdr) = VCOM_CMD_DATAREADY then do
          vcBufUpdateTx
          recvBody (buf.blit 0 hdr)
        else recvBody (buf.blit 0 hdr) : M (Outcome × Mem)) s₁).exec reply w₁ :=
    Act.exec_bind hheader
  split at hframe
  · have hupdate : (vcBufUpdateTx s₁).exec reply w₁ =
        some ((), { s₁ with tx := { s₁.tx with head := 0, tail := 0 } }, w₁) := by
      refine (Act.exec_request (hioctl w₁ .gTxHead 0)).trans ?_
      exact (Act.exec_request (hioctl w₁ .gTxTail 0)).trans rfl
    obtain ⟨s₂, w₂, hrun, hP⟩ := hbody { s₁.tx with head := 0, tail := 0 }
    exact ⟨s₂, w₂, (hframe.trans (Act.exec_bind hupdate)).trans hrun, hP⟩
  · obtain ⟨s₂, w₂, hrun, hP⟩ := hbody s₁.tx
    exact ⟨s₂, w₂, hframe.trans hrun, hP⟩

end

/-- The frame as it comes out of the buffer. -/
theorem Delivery.slice_frame (d : Delivery) (buf : Mem) :
    (buf.blit 0 d.frame).slice 0 (HDR_LEN + bodyLen d.header.bytes) = d.frame := by
  have hlen : d.frame.length = HDR_LEN + bodyLen d.header.bytes := by
    rw [Delivery.frame, List.length_append, d.header_len, d.payload_len]
  rw [← hlen]
  exact Mem.slice_blit_self buf 0 d.frame

theorem Arrival.bytes_pos (a : Arrival) : 0 < a.bytes.length := by
  have hfirst := List.length_pos_iff.mpr a.first_ne
  rw [a.bytes_eq, List.length_append]
  omega

/-- Without a payload the frame is complete. -/
theorem recvBody_none {d : Delivery} (hpay : d.payload = none) (buf : Mem) (s : VcAttr) :
    recvBody (buf.blit 0 d.header.bytes) s =
      .done (.frame (HDR_LEN + bodyLen d.header.bytes), buf.blit 0 d.frame) s := by
  have hlen := d.payload_len
  rw [hpay] at hlen
  have hzero : bodyLen d.header.bytes = 0 := hlen.symm
  have hframe : d.frame = d.header.bytes := by
    rw [Delivery.frame, hpay]
    exact List.append_nil _
  rw [recvBody, hdrLen_blit d.header_len, hzero, hframe]
  rfl

/-- With one it is read next. -/
theorem recvBody_some {d : Delivery} {a : Arrival} (hpay : d.payload = some a) (buf : Mem) :
    a.bytes.length = bodyLen d.header.bytes ∧
    buf.blit 0 d.frame = (buf.blit 0 d.header.bytes).blit HDR_LEN a.bytes ∧
    recvBody (buf.blit 0 d.header.bytes) =
      (do let a ← getAttr
          if a.ssl.isSome then
            let (ret, buf) ← vcFrameRecvSsl (buf.blit 0 d.header.bytes) HDR_LEN
              (bodyLen d.header.bytes)
            if ret ≤ 0 then pure (.reset, buf)
            else pure (.frame (HDR_LEN + bodyLen d.header.bytes), buf)
          else
            let (ret, buf) ← vcFrameRecvTcp (buf.blit 0 d.header.bytes) HDR_LEN
              (bodyLen d.header.bytes)
            if ret < 0 then pure (.reset, buf)
            else pure (.frame (HDR_LEN + bodyLen d.header.bytes), buf)) := by
  have hmax := d.payload_max
  have hlen : a.bytes.length = bodyLen d.header.bytes := by
    have := d.payload_len
    rw [hpay] at this
    exact this
  have hpos := a.bytes_pos
  refine ⟨hlen, ?_, ?_⟩
  · rw [Delivery.frame, hpay, ← Mem.blit_blit, d.header_len, Nat.zero_add]
    rfl
  · rw [recvBody, hdrLen_blit d.header_len]
    dsimp only
    rw [if_pos (by omega), recvPayload, if_neg (by omega)]

/-- In clear a frame is received, however long its parts are waited for. -/
theorem exec_tcp_frame (d : Delivery) (s : VcAttr) (buf : Mem) (w : List Piece) :
    ∃ s₂ w₂, (vcRecvFrame buf { s with ssl := none }).exec tcpReply (d.pieces ++ w) =
      some ((.frame (HDR_LEN + bodyLen d.header.bytes), buf.blit 0 d.frame), s₂, w₂) ∧
      s₂ = { s₂ with ssl := none } ∧ w₂ = w := by
  have hheader : (recvHeader buf { s with ssl := none }).exec tcpReply (d.pieces ++ w) =
      some ((none, buf.blit 0 d.header.bytes), { s with ssl := none },
        d.payload.elim [] Arrival.pieces ++ w) := by
    rw [Delivery.pieces, List.append_assoc]
    refine (Act.exec_bind (exec_tcp_arrival d.header d.header_len)).trans ?_
    dsimp only
    rw [if_neg (by simp only [HDR_LEN]; omega)]
    rfl
  refine exec_vcRecvFrame tcpReply_ioctl hheader fun tx => ?_
  refine ⟨{ s with ssl := none, tx := tx }, w, ?_, rfl, rfl⟩
  cases hpay : d.payload with
  | none =>
      rw [recvBody_none hpay]
      rfl
  | some a =>
      obtain ⟨hlen, hframe, hbody⟩ := recvBody_some hpay buf
      rw [hbody, hframe]
      refine (Act.exec_bind (exec_tcp_arrival a hlen)).trans ?_
      dsimp only
      rw [if_neg (by omega)]
      rfl

/-- Over TLS an attempt does not wait for the header. -/
theorem exec_tls_select {d : Delivery} (hwait : d.header.first.wait ≠ 0) (s : VcAttr) (x : SslInfo)
    (buf : Mem) (w : List Piece) :
    ∃ x', (vcRecvFrame buf { s with ssl := some x }).exec tlsReply (d.pieces ++ w) =
      some ((.select, buf), { s with ssl := some x' }, d.pieces ++ w) := by
  have hread : ∃ x', (vcFrameRecvSsl buf 0 HDR_LEN { s with ssl := some x }).exec tlsReply
      (d.pieces ++ w) = some ((SSL_OPS_SELECT, buf), { s with ssl := some x' }, d.pieces ++ w) :=
    exec_tls_wait hwait
  obtain ⟨x', hread⟩ := hread
  have hheader : (recvHeader buf { s with ssl := some x }).exec tlsReply (d.pieces ++ w) =
      some ((some .select, buf), { s with ssl := some x' }, d.pieces ++ w) :=
    (Act.exec_bind hread).trans rfl
  exact ⟨x', (Act.exec_bind hheader).trans rfl⟩

/-- A header that is there is read. -/
theorem exec_tls_header {d : Delivery} (hwait : d.header.first.wait = 0) (s : VcAttr) (x : SslInfo)
    (buf : Mem) (w : List Piece) :
    ∃ x', (recvHeader buf { s with ssl := some x }).exec tlsReply (d.pieces ++ w) =
      some ((none, buf.blit 0 d.header.bytes), { s with ssl := some x' },
        d.payload.elim [] Arrival.pieces ++ w) := by
  rw [Delivery.pieces, List.append_assoc]
  obtain ⟨x', hread⟩ := exec_tls_arrival (s := s) (x := x) d.header hwait d.header_len
  refine ⟨x', (Act.exec_bind hread).trans ?_⟩
  dsimp only
  rw [if_neg (by simp only [HDR_LEN, SSL_OPS_SELECT]; omega),
    if_neg (by simp only [HDR_LEN]; omega)]
  rfl

/-- With its payload there too, the frame is received. -/
theorem exec_tls_frame {d : Delivery} (hwait : d.header.first.wait = 0) (hprompt : d.Prompt)
    (s : VcAttr) (x : SslInfo) (buf : Mem) (w : List Piece) :
    ∃ s₂ w₂, (vcRecvFrame buf { s with ssl := some x }).exec tlsReply (d.pieces ++ w) =
      some ((.frame (HDR_LEN + bodyLen d.header.bytes), buf.blit 0 d.frame), s₂, w₂) ∧
      (∃ x', s₂ = { s₂ with ssl := some x' }) ∧ w₂ = w := by
  obtain ⟨x₁, hheader⟩ := exec_tls_header hwait s x buf w
  refine exec_vcRecvFrame tlsReply_ioctl hheader fun tx => ?_
  cases hpay : d.payload with
  | none =>
      rw [recvBody_none hpay]
      exact ⟨_, _, rfl, ⟨x₁, rfl⟩, rfl⟩
  | some a =>
      obtain ⟨hlen, hframe, hbody⟩ := recvBody_some hpay buf
      rw [hbody, hframe]
      obtain ⟨x₂, hread⟩ := exec_tls_arrival (s := { s with tx := tx }) (x := x₁) a (hprompt a hpay) hlen
      refine ⟨{ s with ssl := some x₂, tx := tx }, w, (Act.exec_bind hread).trans ?_, ⟨x₂, rfl⟩, rfl⟩
      have hpos := a.bytes_pos
      dsimp only
      rw [if_neg (by omega)]
      rfl

/-- With its payload late, the connection is reset. -/
theorem exec_tls_late {d : Delivery} {a : Arrival} (hwait : d.header.first.wait = 0)
    (hpay : d.payload = some a) (hlate : a.first.wait ≠ 0) (s : VcAttr) (x : SslInfo) (buf : Mem)
    (w : List Piece) : ∃ buf' s₂ w₂, (vcRecvFrame buf { s with ssl := some x }).exec tlsReply
      (d.pieces ++ w) = some ((.reset, buf'), s₂, w₂) := by
  obtain ⟨x₁, hheader⟩ := exec_tls_header hwait s x buf w
  obtain ⟨hlen, hframe, hbody⟩ := recvBody_some hpay buf
  rw [hpay] at hheader
  have hreset : ∀ tx, ∃ s₂ w₂, (recvBody (buf.blit 0 d.header.bytes)
      { s with ssl := some x₁, tx := tx }).exec tlsReply (a.pieces ++ w) =
        some ((.reset, buf.blit 0 d.header.bytes), s₂, w₂) ∧ True := by
    intro tx
    rw [hbody]
    have hread : ∃ x', (vcFrameRecvSsl (buf.blit 0 d.header.bytes) HDR_LEN (bodyLen d.header.bytes)
        { s with ssl := some x₁, tx := tx }).exec tlsReply (a.pieces ++ w) =
          some ((SSL_OPS_SELECT, buf.blit 0 d.header.bytes), { s with ssl := some x', tx := tx },
            a.pieces ++ w) :=
      exec_tls_wait (s := { s with tx := tx }) hlate
    obtain ⟨x₂, hread⟩ := hread
    exact ⟨_, _, (Act.exec_bind hread).trans rfl, trivial⟩
  obtain ⟨s₂, w₂, hrun, -⟩ := exec_vcRecvFrame tlsReply_ioctl hheader hreset
  exact ⟨_, s₂, w₂, hrun⟩

/-! ## Repeated attempts -/

/-- The pieces of frame after frame. -/
def allPieces (ds : List Delivery) : List Piece := (ds.map Delivery.pieces).flatten

/-- The same delivery when its header has come. -/
def Delivery.arrived (d : Delivery) : Delivery :=
  { d with header := { d.header with first := ⟨0, d.header.first.bytes⟩ } }

section
variable {reply : List Piece → (e : Req) → Option (e.Rep × List Piece)} {n : Nat} {s s' : VcAttr}
  {buf buf' : Mem} {w w' : List Piece} (d : Delivery)

theorem repeated_frame {len : Nat}
    (h : (vcRecvFrame buf s).exec reply (d.pieces ++ w) = some ((.frame len, buf'), s', w')) :
    repeated reply (n + 1) s buf (d.pieces ++ w) =
      (buf'.slice 0 len :: (repeated reply n s' buf' w').1, (repeated reply n s' buf' w').2) := by
  show (match (vcRecvFrame buf s).exec reply (d.pieces ++ w) with
    | some ((.frame len, buf'), s', w') => _
    | some ((.select, buf'), s', w') => _
    | some ((.reset, _), _, _) => _
    | none => _ : List (List UInt8) × Bool) = _
  rw [h]

theorem repeated_select
    (h : (vcRecvFrame buf s).exec reply (d.pieces ++ w) = some ((.select, buf'), s', w')) :
    repeated reply (n + 1) s buf (d.pieces ++ w) = repeated reply n s' buf' (arrive w') := by
  show (match (vcRecvFrame buf s).exec reply (d.pieces ++ w) with
    | some ((.frame len, buf'), s', w') => _
    | some ((.select, buf'), s', w') => _
    | some ((.reset, _), _, _) => _
    | none => _ : List (List UInt8) × Bool) = _
  rw [h]

theorem repeated_reset
    (h : (vcRecvFrame buf s).exec reply (d.pieces ++ w) = some ((.reset, buf'), s', w')) :
    repeated reply (n + 1) s buf (d.pieces ++ w) = ([], true) := by
  show (match (vcRecvFrame buf s).exec reply (d.pieces ++ w) with
    | some ((.frame len, buf'), s', w') => _
    | some ((.select, buf'), s', w') => _
    | some ((.reset, _), _, _) => _
    | none => _ : List (List UInt8) × Bool) = _
  rw [h]

theorem repeated_nil : repeated reply n s buf [] = ([], false) := by
  cases n with
  | zero => rfl
  | succ n => rfl

end

/-- In clear one attempt for each frame is enough. -/
theorem repeated_tcp (ds : List Delivery) : ∀ {n : Nat} (s : VcAttr) (buf : Mem), ds.length ≤ n →
    repeated tcpReply n { s with ssl := none } buf (allPieces ds) = (ds.map Delivery.frame, false) := by
  induction ds with
  | nil =>
      intro n s buf _
      exact repeated_nil
  | cons d ds ih =>
      intro n s buf hn
      rw [List.length_cons] at hn
      obtain ⟨n, rfl⟩ := Nat.exists_eq_succ_of_ne_zero (show n ≠ 0 by omega)
      obtain ⟨s₂, _, hrun, hs₂, rfl⟩ := exec_tcp_frame d s buf (allPieces ds)
      have hrest := ih s₂ (buf.blit 0 d.frame) (show ds.length ≤ n by omega)
      rw [← hs₂] at hrest
      refine (repeated_frame d hrun).trans ?_
      rw [hrest, d.slice_frame]
      rfl

/-- Over TLS two attempts for each frame are enough, but a late payload ends it. -/
theorem repeated_tls (ds : List Delivery) : ∀ {n : Nat} (s : VcAttr) (x : SslInfo) (buf : Mem),
    2 * ds.length ≤ n →
    ((∀ d ∈ ds, d.Prompt) → repeated tlsReply n { s with ssl := some x } buf (allPieces ds) =
      (ds.map Delivery.frame, false)) ∧
    ((∃ d ∈ ds, ¬ d.Prompt) →
      (repeated tlsReply n { s with ssl := some x } buf (allPieces ds)).2 = true) := by
  induction ds with
  | nil =>
      intro n s x buf _
      refine ⟨fun _ => repeated_nil, ?_⟩
      rintro ⟨d, hd, -⟩
      simp at hd
  | cons d ds ih =>
      -- the attempt in which the header is there
      have hthere (d : Delivery) (hwait : d.header.first.wait = 0) {n : Nat} (s : VcAttr) (x : SslInfo)
          (buf : Mem) (hn : 2 * ds.length ≤ n) :
          ((∀ d' ∈ d :: ds, d'.Prompt) → repeated tlsReply (n + 1) { s with ssl := some x } buf
            (d.pieces ++ allPieces ds) = (d.frame :: ds.map Delivery.frame, false)) ∧
          ((∃ d' ∈ d :: ds, ¬ d'.Prompt) → (repeated tlsReply (n + 1) { s with ssl := some x } buf
            (d.pieces ++ allPieces ds)).2 = true) := by
        by_cases hprompt : d.Prompt
        · obtain ⟨s₂, _, hrun, ⟨x₂, hs₂⟩, rfl⟩ := exec_tls_frame hwait hprompt s x buf (allPieces ds)
          have hrest := ih s₂ x₂ (buf.blit 0 d.frame) hn
          rw [← hs₂] at hrest
          rw [repeated_frame d hrun, d.slice_frame]
          refine ⟨fun hall => ?_, ?_⟩
          · rw [hrest.1 fun d' hd' => hall d' (by simp [hd'])]
          · rintro ⟨d', hd', hlate⟩
            refine hrest.2 ⟨d', ?_, hlate⟩
            exact (List.mem_cons.mp hd').resolve_left (by rintro rfl; exact hlate hprompt)
        · have hlate : ∃ a, d.payload = some a ∧ a.first.wait ≠ 0 := by
            simpa only [Delivery.Prompt, not_forall, exists_prop] using hprompt
          obtain ⟨a, hpay, hlate⟩ := hlate
          obtain ⟨buf', s₂, w₂, hrun⟩ := exec_tls_late hwait hpay hlate s x buf (allPieces ds)
          rw [repeated_reset d hrun]
          exact ⟨fun hall => absurd (hall d (by simp)) hprompt, fun _ => rfl⟩
      intro n s x buf hn
      rw [List.length_cons] at hn
      obtain ⟨n, rfl⟩ := Nat.exists_eq_add_of_le' (show 2 ≤ n by omega)
      by_cases hwait : d.header.first.wait = 0
      · exact hthere d hwait s x buf (show 2 * ds.length ≤ n + 1 by omega)
      · obtain ⟨x₁, hrun⟩ := exec_tls_select hwait s x buf (allPieces ds)
        have hnext := hthere d.arrived rfl s x₁ buf (show 2 * ds.length ≤ n by omega)
        have hstep : repeated tlsReply (n + 2) { s with ssl := some x } buf (allPieces (d :: ds)) =
            repeated tlsReply (n + 1) { s with ssl := some x₁ } buf
              (d.arrived.pieces ++ allPieces ds) :=
          repeated_select d hrun
        rw [hstep]
        refine ⟨fun hall => hnext.1 ?_, ?_⟩
        · intro d' hd'
          rcases List.mem_cons.mp hd' with rfl | hd'
          · exact hall d (by simp)
          · exact hall d' (by simp [hd'])
        · rintro ⟨d', hd', hlate⟩
          refine hnext.2 ?_
          rcases List.mem_cons.mp hd' with rfl | hd'
          · exact ⟨d'.arrived, by simp, hlate⟩
          · exact ⟨d', by simp [hd'], hlate⟩

/-- **The two receive paths agree exactly on prompt payloads.** -/
theorem transports_agree_iff (ds : List Delivery) (n : Nat) (s s' : VcAttr) (x : SslInfo)
    (buf buf' : Mem) :
    repeated tcpReply (2 * ds.length + n) { s with ssl := none } buf (allPieces ds) =
      (ds.map Delivery.frame, false) ∧
    (repeated tlsReply (2 * ds.length + n) { s' with ssl := some x } buf' (allPieces ds) =
        repeated tcpReply (2 * ds.length + n) { s with ssl := none } buf (allPieces ds) ↔
      ∀ d ∈ ds, d.Prompt) := by
  have htcp := repeated_tcp ds (n := 2 * ds.length + n) s buf (by omega)
  obtain ⟨hall, hlate⟩ := repeated_tls ds (n := 2 * ds.length + n) s' x buf' (by omega)
  refine ⟨htcp, fun hagree => ?_, fun hprompt => by rw [htcp, hall hprompt]⟩
  by_contra hnot
  have hreset := hlate (by simpa only [not_forall, exists_prop] using hnot)
  rw [hagree, htcp] at hreset
  cases hreset

/-- One frame with one byte behind its header, which comes 1 µs later. -/
def lateDelivery : Delivery where
  header := ⟨⟨0, List.replicate 11 0 ++ [1] ++ List.replicate 8 0⟩, none, by decide, by simp, by simp⟩
  payload := some ⟨⟨1, [7]⟩, none, by decide, by simp, by simp⟩
  header_len := by decide
  payload_len := by decide
  payload_max := by decide

/-- In clear the frame is received, over TLS the connection is reset. -/
theorem late_payload_resets :
    repeated tcpReply 2 { freshAttr with sk := 3, stk := [.netdown, .netup] } (fun _ => 0)
      (allPieces [lateDelivery]) = ([lateDelivery.frame], false) ∧
    repeated tlsReply 2 { freshAttr with sk := 3, stk := [.netdown, .netup],
                                         ssl := some ⟨3, ⟨true, false⟩, ⟨false, false⟩, ⟨false, false⟩⟩ }
      (fun _ => 0) (allPieces [lateDelivery]) = ([], true) := by
  constructor
  · decide +kernel
  · decide +kernel

end AdvVcom
