/-
# `AdvVcom.Daemon.SslSelect` — the TLS helpers and the requests they stand for

`ssl_select.c` has, for each of `connect`, `send` and `recv`, a call that tries once
(`ssl_…_direct`) and one that tries again until a time limit (`ssl_…_simple`): OpenSSL says
what it wants of the socket, `select` waits for it, and the operation is repeated.  In
`Port` each of them is a single request.  Here they are written out over the calls they
make,

    `ssl`        `SSL_connect`, `SSL_write` or `SSL_read`: the value, and the buffer after it
    `getError`   `SSL_get_error`
    `select`     with the time left in µs; Linux writes back what is left of it
    `trying`     no call at all: the attempts that are looked at are used up.  The loop of
                 the source has no bound, so what holds for every number of attempts holds
                 for it
    `returns`    no call at all: it marks the return of a helper

and put into the daemon in the place of the requests (`Lib.Lower`).  OpenSSL and `select`
are a machine `Tls` of which nothing is known but that `select` uses up its time limit by
the time it waits.

**Proved here.**

    every run of the daemon with the helpers written out is a run of the daemon that makes
    requests, in any environment; a helper leaves the wait flags as the daemon's next
    statement sets them, and waits no longer than its limit     (`ssl_helpers_refine`)
    where OpenSSL wants one direction of the socket and only the other one is ready, a
    helper keeps its limit if no other operation waits for that one, and otherwise never
    returns                                                     (`ssl_limit_kept`)
    both happens: in the handshake after a packet that could not be written, and with a
    packet for a device that sends and does not read            (`ssl_limit_kept_not`)
-/
import AdvVcom.Lib.Lower
import AdvVcom.Daemon.TlsLife

namespace AdvVcom

open Lib

/-! ## Calls -/

/-- The operations for which `GEN_SSL_ACTION_…` is used. -/
inductive SslAct where
  | connect
  | send (ps : List Pkt)
  | recv (off len : Nat)
  deriving DecidableEq, Repr

/-- What `SSL_get_error` returns, as far as it makes a difference. -/
inductive SslErr where
  | wantRead | wantWrite | zeroReturn | syscall | other
  deriving DecidableEq, Repr

inductive LowReq where
  | plain (e : Req)
  | ssl (a : SslAct)
  | getError
  | select (fds : FdSets) (tv : Nat)
  | trying
  | returns (e : Req) (r : e.Rep)

def LowReq.Rep : LowReq → Type
  | .plain e => e.Rep
  | .ssl _ => Int × Mem
  | .getError => SslErr
  | .select _ _ => Int × Nat
  | .trying => Empty
  | .returns _ _ => Unit

abbrev LowSig : Sig := ⟨LowReq, LowReq.Rep, Fault⟩

abbrev Low := Act LowSig VcAttr

namespace Low

def plain (e : Req) : Low e.Rep := Act.request (S := LowSig) (.plain e)
def ssl (a : SslAct) : Low (Int × Mem) := Act.request (S := LowSig) (.ssl a)
def getError : Low SslErr := Act.request (S := LowSig) .getError
def select (fds : FdSets) (tv : Nat) : Low (Int × Nat) := Act.request (S := LowSig) (.select fds tv)
def trying : Low Empty := Act.request (S := LowSig) .trying
def returns (e : Req) (r : e.Rep) : Low Unit := Act.request (S := LowSig) (.returns e r)

end Low

/-! ## The helpers -/

/-- `SUCCESS_COND`. -/
def SslAct.success : SslAct → Int → Bool
  | .connect, ret => ret == 1
  | .send _, ret | .recv _ _, ret => decide (0 < ret)

/-- `info->ACTION`. -/
def SslAct.event : SslAct → SslInfo → WaitEvent
  | .connect, i => i.connect
  | .send _, i => i.send
  | .recv _ _, i => i.recv

def SslAct.setEvent (ev : WaitEvent) : SslAct → SslInfo → SslInfo
  | .connect, i => { i with connect := ev }
  | .send _, i => { i with send := ev }
  | .recv _ _, i => { i with recv := ev }

/-- `info->ACTION` becomes `ev`. -/
def SslAct.waits (a : SslAct) (ev : WaitEvent) (s : VcAttr) : VcAttr :=
  { s with ssl := s.ssl.map (a.setEvent ev) }

/-- `_do_ssl_update_wait_event`, for an event that has just been cleared. -/
def sslUpdateWaitEvent (a : SslAct) : SslErr → Low Int
  | .wantRead => do
      Act.modify (a.waits ⟨true, false⟩)
      pure SSL_OPS_SELECT
  | .wantWrite => do
      Act.modify (a.waits ⟨false, true⟩)
      pure SSL_OPS_SELECT
  | .zeroReturn | .syscall | .other => pure SSL_OPS_FAIL

/-- `ssl_ACTION_direct`. -/
def sslDirect (a : SslAct) : Low (Int × Mem) := do
  Act.modify (a.waits ⟨false, false⟩)
  let (ret, buf) ← Low.ssl a
  if a.success ret then pure (ret, buf)
  else
    let err ← Low.getError
    let ret ← sslUpdateWaitEvent a err
    pure (ret, buf)

def noFds : FdSets := ⟨false, false, false, false, false⟩

/-- `ssl_set_fds` on empty sets. -/
def sslFds (s : VcAttr) : FdSets :=
  match s.ssl with
  | some i => sslSetFds i noFds
  | none => noFds

/-- `ssl_ACTION_simple_tv`, for at most `n` attempts. -/
def sslSimpleTv (a : SslAct) : Nat → Nat → Low (Int × Mem)
  | 0, _ => do
      let never ← Low.trying
      never.elim
  | n + 1, tv => do
      let (ret, buf) ← sslDirect a
      if a.success ret then pure (ret, buf)
      else if ret = SSL_OPS_FAIL then pure (ret, buf)
      else
        let s ← Act.get
        let (sel, tv) ← Low.select (sslFds s) tv
        if 0 < sel then sslSimpleTv a n tv else pure (ret, buf)

/-- `struct timeval` for `to_ms`, in µs. -/
def timeval (toMs : Nat) : Nat := toMs / 1000 * 1000000 + toMs % 1000 * 1000

/-- `ssl_ACTION_simple`. -/
def sslSimple (a : SslAct) (n toMs : Nat) : Low (Int × Mem) := sslSimpleTv a n (timeval toMs)

/-! ## The requests they stand for -/

/-- Whether the operation still waits to write. -/
def SslAct.wantsWrite (a : SslAct) (s : VcAttr) : Bool := s.ssl.any fun i => (a.event i).write

/-- What the caller makes of the value: it compares it with `good`. -/
def sslRet (a : SslAct) (good : Nat) (ret : Int) (s : VcAttr) : SslRet :=
  if ret = good then .ok
  else if ret = SSL_OPS_SELECT then .want (a.wantsWrite s)
  else .fail

def sslRead (a : SslAct) (ret : Int) (buf : Mem) (s : VcAttr) : SslRead :=
  if 0 < ret then .data (buf.slice 0 ret.toNat)
  else if ret = SSL_OPS_SELECT then .want (a.wantsWrite s)
  else .fail

/-- `plen`, as the packers return it when there is room. -/
def packedLen (ps : List Pkt) : Nat := ps.foldr (fun p n => (p.plen 65536).toNat + n) 0

/-- The time limit of a request, in ms. -/
def Req.limit : Req → Nat
  | .sslConnect | .sslSend _ => 1000
  | .sslRecvSimple _ _ => 500
  | _ => 0

/-- Call a helper and see what its value is taken for. -/
def replyBy (e : Req) (helper : Low (Int × Mem)) (take : Int → Mem → VcAttr → e.Rep) :
    Low e.Rep := do
  let (ret, buf) ← helper
  let s ← Act.get
  let r := take ret buf s
  Low.returns e r
  pure r

/-- How the daemon's requests are carried out, with at most `n` attempts for each helper. -/
def carryOut (n : Nat) : (e : Req) → Low e.Rep
  | .sslConnect =>
      replyBy .sslConnect (sslSimple .connect n Req.sslConnect.limit)
        fun ret _ => sslRet .connect 1 ret
  | .sslSend ps =>
      replyBy (.sslSend ps) (sslSimple (.send ps) n (Req.sslSend ps).limit)
        fun ret _ => sslRet (.send ps) (packedLen ps) ret
  | .sslRecv off len =>
      replyBy (.sslRecv off len) (sslDirect (.recv off len)) (sslRead (.recv off len))
  | .sslRecvSimple off len =>
      replyBy (.sslRecvSimple off len)
        (sslSimple (.recv off len) n (Req.sslRecvSimple off len).limit) (sslRead (.recv off len))
  | e => Low.plain e

/-- The helpers add no way to die. -/
def sameFault : VcSig.Fault → LowSig.Fault := id

/-- A process of the daemon with the helpers written out. -/
abbrev lowered {α : Type} (n : Nat) : Proc VcSig VcAttr α → Proc LowSig VcAttr α :=
  Proc.lower (carryOut n) sameFault

/-- The daemon's statement after a request: it writes down what the helper has done to the
wait flags. -/
def afterReply : (e : Req) → e.Rep → M Unit
  | .sslConnect, (r : SslRet) => setConnect r.event
  | .sslSend _, (r : SslRet) => setSend r.event
  | .sslRecv _ _, (r : SslRead) | .sslRecvSimple _ _, (r : SslRead) => setRecv r.event
  | _, _ => pure ()

/-! ## OpenSSL and `select` -/

structure Tls where
  State : Type
  ssl : State → SslAct → Int × Mem → State → Prop
  getError : State → SslErr → State → Prop
  select : State → FdSets → Nat → Int × Nat → State → Prop
  moves : State → State → Prop
  /-- Time spent in `select` so far. -/
  waited : State → Nat
  waited_ssl : ∀ {t a r t'}, ssl t a r t' → waited t' = waited t
  waited_getError : ∀ {t r t'}, getError t r t' → waited t' = waited t
  waited_moves : ∀ {t t'}, moves t t' → waited t' = waited t
  waited_select : ∀ {t fds tv r t'}, select t fds tv r t' → waited t' + r.2 = waited t + tv

/-- The calls inside a helper leave the world of the requests alone. -/
abbrev overTls (𝓔 : Env VcSig VcAttr) (T : Tls) : Env LowSig VcAttr where
  World := 𝓔.World × T.State
  answers := fun w e r w' => match e, r with
    | .plain e, r => 𝓔.answers w.1 e r w'.1 ∧ w'.2 = w.2
    | .ssl a, r => w'.1 = w.1 ∧ T.ssl w.2 a r w'.2
    | .getError, r => w'.1 = w.1 ∧ T.getError w.2 r w'.2
    | .select fds tv, r => w'.1 = w.1 ∧ T.select w.2 fds tv r w'.2
    | .trying, r => r.elim
    | .returns e r, _ => 𝓔.answers w.1 e r w'.1 ∧ w'.2 = w.2
  drift := fun s w w' =>
    𝓔.drift s w.1 w'.1 ∧ w'.2 = w.2 ∨ w'.1 = w.1 ∧ T.moves w.2 w'.2

/-! ## One helper -/

/-- The value of an attempt, and what it leaves to wait for. -/
inductive SslAct.Result (a : SslAct) : Int → WaitEvent → Prop
  | success {ret : Int} : a.success ret = true → SslAct.Result a ret ⟨false, false⟩
  | fail : SslAct.Result a SSL_OPS_FAIL ⟨false, false⟩
  | wants (write : Bool) : SslAct.Result a SSL_OPS_SELECT ⟨!write, write⟩

@[simp] theorem SslAct.setEvent_setEvent (a : SslAct) (ev ev' : WaitEvent) (i : SslInfo) :
    a.setEvent ev (a.setEvent ev' i) = a.setEvent ev i := by
  cases a <;> rfl

@[simp] theorem SslAct.event_setEvent (a : SslAct) (ev : WaitEvent) (i : SslInfo) :
    a.event (a.setEvent ev i) = ev := by
  cases a <;> rfl

@[simp] theorem SslAct.waits_waits (a : SslAct) (ev ev' : WaitEvent) (s : VcAttr) :
    a.waits ev (a.waits ev' s) = a.waits ev s := by
  cases hs : s.ssl <;> simp [SslAct.waits, hs]

/-- Nothing else tells the two apart. -/
theorem SslAct.eq_of_waits {a : SslAct} {ev : WaitEvent} {s s₁ : VcAttr}
    (h : a.waits ev s₁ = a.waits ev s) : s₁ = { s with ssl := s₁.ssl } := by
  simp only [SslAct.waits, VcAttr.mk.injEq] at h
  obtain ⟨hsk, hpend, -, hport, htid, hdev, hstk, heki, hview, htx, hrx⟩ := h
  cases s₁
  simp only at hsk hpend hport htid hdev hstk heki hview htx hrx
  rw [hsk, hpend, hport, htid, hdev, hstk, heki, hview, htx, hrx]

section
variable {𝓔 : Env VcSig VcAttr} {T : Tls}

/-- Since the request was made in `c` nothing but drift has happened, and with `left` still
to wait the limit `m` is not passed. -/
def Amid (𝓔 : Env VcSig VcAttr) (T : Tls) (s : VcAttr) (c : 𝓔.World) (m left : Nat)
    (w : 𝓔.World × T.State) : Prop :=
  𝓔.Drifts s c w.1 ∧ T.waited w.2 + left ≤ m

variable {s s₁ : VcAttr} {c : 𝓔.World} {m left : Nat} {w w' : 𝓔.World × T.State}

theorem Amid.over (h : Amid 𝓔 T s c m left w) : Amid 𝓔 T s c m 0 w := ⟨h.1, by have := h.2; omega⟩

/-- A call that leaves the world of the requests alone. -/
theorem Amid.call {left' : Nat} (h : Amid 𝓔 T s c m left w) (hw : w'.1 = w.1)
    (ht : T.waited w'.2 + left' = T.waited w.2 + left) : Amid 𝓔 T s c m left' w' :=
  ⟨hw ▸ h.1, by rw [ht]; exact h.2⟩

variable (hblind : ∀ {s : VcAttr} {x : Option SslInfo} {w w' : 𝓔.World},
  𝓔.drift { s with ssl := x } w w' → 𝓔.drift s w w')
  {I : VcAttr → (overTls 𝓔 T).World → Prop} (hI : ∀ x w, Amid 𝓔 T s c m 0 w → I { s with ssl := x } w)

include hblind in
theorem Amid.drift {x : Option SslInfo} (h : Amid 𝓔 T s c m left w)
    (hd : (overTls 𝓔 T).drift { s with ssl := x } w w') : Amid 𝓔 T s c m left w' := by
  rcases hd with ⟨hd, ht⟩ | ⟨hw, ht⟩
  · exact ⟨h.1.tail (hblind hd), by rw [ht]; exact h.2⟩
  · exact h.call hw (by rw [T.waited_moves ht])

include hblind hI

/-- A call inside a helper. -/
theorem wp_low {e : LowReq} {Q : e.Rep → VcAttr → 𝓔.World × T.State → Prop} {x : Option SslInfo}
    (h : Amid 𝓔 T s c m left w)
    (hQ : ∀ r w w', Amid 𝓔 T s c m left w → (overTls 𝓔 T).answers w e r w' →
      Q r { s with ssl := x } w') :
    (Act.request (S := LowSig) e : Low e.Rep).wp (overTls 𝓔 T) I Q { s with ssl := x } w :=
  Act.wp_request_of (Amid 𝓔 T s c m left) h (fun _ _ h hd => h.drift hblind hd)
    (fun _ h => hI x _ h.over) fun w r w' h hr => hQ r w w' h hr

theorem wp_sslDirect (a : SslAct) (hs : ∀ ev, a.waits ev s₁ = a.waits ev s)
    (h : Amid 𝓔 T s c m left w) :
    (sslDirect a).wp (overTls 𝓔 T) I (fun r s' w' => ∃ ev, s' = a.waits ev s ∧
      a.Result r.1 ev ∧ Amid 𝓔 T s c m left w') s₁ w := by
  simp only [sslDirect, Act.wp_bind, Act.wp_modify, hs]
  refine wp_low hblind hI h fun (r : Int × Mem) w w' h hr => ?_
  have h' : Amid 𝓔 T s c m left w' := h.call hr.1 (by rw [T.waited_ssl hr.2])
  rw [Act.wp_ite]
  split
  next hok => exact ⟨_, rfl, .success hok, h'⟩
  next =>
    rw [Act.wp_bind]
    refine wp_low hblind hI h' fun (err : SslErr) w w' h hr => ?_
    have h' : Amid 𝓔 T s c m left w' := h.call hr.1 (by rw [T.waited_getError hr.2])
    cases err with
    | wantRead => exact ⟨_, a.waits_waits _ _ s, .wants false, h'⟩
    | wantWrite => exact ⟨_, a.waits_waits _ _ s, .wants true, h'⟩
    | zeroReturn | syscall | other => exact ⟨_, rfl, .fail, h'⟩

/-- Whatever the attempts come to, the last one counts. -/
theorem wp_sslSimpleTv (a : SslAct) (n : Nat) (hs : ∀ ev, a.waits ev s₁ = a.waits ev s)
    (h : Amid 𝓔 T s c m left w) :
    (sslSimpleTv a n left).wp (overTls 𝓔 T) I (fun r s' w' => ∃ ev, s' = a.waits ev s ∧
      a.Result r.1 ev ∧ Amid 𝓔 T s c m 0 w') s₁ w := by
  induction n generalizing s₁ left w with
  | zero =>
      rw [SslAct.eq_of_waits (hs ⟨false, false⟩)]
      simp only [sslSimpleTv, Act.wp_bind]
      refine wp_low hblind hI h fun (r : Empty) _ _ _ _ => r.elim
  | succ n ih =>
      simp only [sslSimpleTv, Act.wp_bind]
      refine Act.wp_mono (wp_sslDirect hblind hI a hs h) ?_
      rintro ⟨ret, buf⟩ _ w₁ ⟨ev, rfl, hres, h₁⟩
      simp only [Act.wp_ite]
      split
      next => exact ⟨ev, rfl, hres, h₁.over⟩
      split
      next => exact ⟨ev, rfl, hres, h₁.over⟩
      simp only [Act.wp_bind, Act.wp_get]
      refine wp_low hblind hI h₁ fun (r : Int × Nat) w₂ w₃ h₂ hr => ?_
      have h₃ : Amid 𝓔 T s c m r.2 w₃ := h₂.call hr.1 (T.waited_select hr.2)
      rw [Act.wp_ite]
      split
      next => exact ih (fun ev' => a.waits_waits ev' ev s) h₃
      next => exact ⟨ev, rfl, hres, h₃.over⟩

/-- The mark at the end. -/
theorem wp_returns {e : Req} {r : e.Rep} {Q : Unit → VcAttr → 𝓔.World × T.State → Prop}
    {x : Option SslInfo} (h : Amid 𝓔 T s c m 0 w)
    (hQ : ∀ w', (∃ c', 𝓔.Drifts s c c' ∧ 𝓔.answers c' e r w'.1) → T.waited w'.2 ≤ m →
      Q () { s with ssl := x } w') :
    (Low.returns e r).wp (overTls 𝓔 T) I Q { s with ssl := x } w := by
  refine wp_low hblind hI h fun (_ : Unit) w w' h hr => ?_
  exact hQ w' ⟨w.1, h.1, hr.1⟩ (by rw [hr.2]; exact h.2)

end

/-! ## All requests -/

theorem SslAct.pos_of_success {a : SslAct} {ret : Int} (h : a.success ret = true) : 0 < ret := by
  cases a with
  | connect =>
      rw [show ret = 1 from by simpa [SslAct.success] using h]
      decide
  | send | recv => exact of_decide_eq_true h

theorem SslAct.waits_wants (a : SslAct) (write : Bool) (s : VcAttr) :
    a.waits (SslRet.want (a.wantsWrite (a.waits ⟨!write, write⟩ s))).event s =
      a.waits ⟨!write, write⟩ s := by
  cases hs : s.ssl <;> simp [SslAct.waits, SslAct.wantsWrite, SslRet.event, hs]

/-- The flags agree with what the value is taken for. -/
theorem SslAct.Result.ret {a : SslAct} {ret : Int} {ev : WaitEvent} (good : Nat) (s : VcAttr)
    (h : a.Result ret ev) : a.waits (sslRet a good ret (a.waits ev s)).event s = a.waits ev s := by
  cases h with
  | success hok =>
      have hpos := SslAct.pos_of_success hok
      have hsel : ret ≠ SSL_OPS_SELECT := by
        simp only [SSL_OPS_SELECT]
        omega
      rw [sslRet, if_neg hsel]
      split <;> rfl
  | fail =>
      have hgood : SSL_OPS_FAIL ≠ good := by
        simp only [SSL_OPS_FAIL]
        omega
      rw [sslRet, if_neg hgood, if_neg (by decide)]
      rfl
  | wants write =>
      have hgood : SSL_OPS_SELECT ≠ good := by
        simp only [SSL_OPS_SELECT]
        omega
      rw [sslRet, if_neg hgood, if_pos rfl]
      exact a.waits_wants write s

theorem SslAct.Result.read {a : SslAct} {ret : Int} {ev : WaitEvent} (buf : Mem) (s : VcAttr)
    (h : a.Result ret ev) : a.waits (sslRead a ret buf (a.waits ev s)).event s = a.waits ev s := by
  cases h with
  | success hok =>
      rw [sslRead, if_pos (SslAct.pos_of_success hok)]
      rfl
  | fail =>
      rw [sslRead, if_neg (by decide), if_neg (by decide)]
      rfl
  | wants write =>
      rw [sslRead, if_neg (by decide), if_pos rfl]
      exact a.waits_wants write s

section
variable {𝓔 : Env VcSig VcAttr} {T : Tls}

/-- While a helper that was called in `w` with the variables `s` is under way. -/
def Busy (𝓔 : Env VcSig VcAttr) (T : Tls) (e : Req) (s : VcAttr) (w : 𝓔.World × T.State)
    (s' : VcAttr) (w' : 𝓔.World × T.State) : Prop :=
  (∃ x, s' = { s with ssl := x }) ∧ 𝓔.Drifts s w.1 w'.1 ∧
    T.waited w'.2 ≤ T.waited w.2 + timeval e.limit

/-- When it has returned `r`. -/
def Helped (𝓔 : Env VcSig VcAttr) (T : Tls) (e : Req) (s : VcAttr) (w : 𝓔.World × T.State)
    (r : e.Rep) (s' : VcAttr) (w' : 𝓔.World × T.State) : Prop :=
  afterReply e r s = .done () s' ∧ (∃ c, 𝓔.Drifts s w.1 c ∧ 𝓔.answers c e r w'.1) ∧
    T.waited w'.2 ≤ T.waited w.2 + timeval e.limit

variable {s s' : VcAttr} {w w' : 𝓔.World × T.State} {e : Req}

theorem Busy.start (𝓔 : Env VcSig VcAttr) (T : Tls) (s : VcAttr) (w : 𝓔.World × T.State) (m : Nat) :
    Amid 𝓔 T s w.1 (T.waited w.2 + m) m w := ⟨Relation.ReflTransGen.refl, Nat.le_refl _⟩

theorem Busy.of_amid (x : Option SslInfo) (w' : 𝓔.World × T.State)
    (h : Amid 𝓔 T s w.1 (T.waited w.2 + timeval e.limit) 0 w') :
    Busy 𝓔 T e s w { s with ssl := x } w' := ⟨⟨x, rfl⟩, h⟩

variable (hblind : ∀ {s : VcAttr} {x : Option SslInfo} {w w' : 𝓔.World},
  𝓔.drift { s with ssl := x } w w' → 𝓔.drift s w w')

include hblind

theorem wp_replyBy {helper : Low (Int × Mem)} {take : Int → Mem → VcAttr → e.Rep} (a : SslAct)
    (hhelper : helper.wp (overTls 𝓔 T) (Busy 𝓔 T e s w) (fun r s' w' => ∃ ev, s' = a.waits ev s ∧
      a.Result r.1 ev ∧ Amid 𝓔 T s w.1 (T.waited w.2 + timeval e.limit) 0 w') s w)
    (htake : ∀ ret buf ev, a.Result ret ev →
      afterReply e (take ret buf (a.waits ev s)) s = .done () (a.waits ev s)) :
    (replyBy e helper take).wp (overTls 𝓔 T) (Busy 𝓔 T e s w) (Helped 𝓔 T e s w) s w := by
  simp only [replyBy, Act.wp_bind]
  refine Act.wp_mono hhelper ?_
  rintro ⟨ret, buf⟩ _ w₁ ⟨ev, rfl, hres, h₁⟩
  refine wp_returns hblind Busy.of_amid h₁ fun w₂ hans hwait => ⟨?_, hans, hwait⟩
  exact htake ret buf ev hres

/-- **Every request is carried out.** -/
theorem wp_carryOut (n : Nat) (e : Req) (s : VcAttr) (w : 𝓔.World × T.State) :
    (carryOut n e).wp (overTls 𝓔 T) (Busy 𝓔 T e s w) (Helped 𝓔 T e s w) s w := by
  have hstart := Busy.start 𝓔 T s w (timeval e.limit)
  have hsimple (a : SslAct) := wp_sslSimpleTv hblind (Busy.of_amid (e := e)) a n (fun _ => rfl) hstart
  cases e with
  | sslConnect =>
      exact wp_replyBy hblind .connect (hsimple .connect) fun ret _ ev hres =>
        congrArg (Proc.done ()) (hres.ret 1 s)
  | sslSend ps =>
      exact wp_replyBy hblind (.send ps) (hsimple (.send ps))
        fun ret _ ev hres => congrArg (Proc.done ()) (hres.ret (packedLen ps) s)
  | sslRecv off len =>
      refine wp_replyBy hblind (.recv off len) ?_ fun ret buf ev hres =>
        congrArg (Proc.done ()) (hres.read buf s)
      exact wp_sslDirect hblind Busy.of_amid (.recv off len) (fun _ => rfl) hstart.over
  | sslRecvSimple off len =>
      exact wp_replyBy hblind (.recv off len) (hsimple (.recv off len))
        fun ret buf ev hres => congrArg (Proc.done ()) (hres.read buf s)
  | _ =>
      refine wp_low hblind Busy.of_amid hstart.over fun r w₁ w₂ h₁ hr => ?_
      exact ⟨rfl, ⟨w₁.1, h₁.1, hr.1⟩, by rw [hr.2]; exact h₁.2⟩

theorem carryOut_serves (n : Nat) : Env.Serves 𝓔 (overTls 𝓔 T) Prod.fst (carryOut n) := by
  intro e s w
  exact (wp_carryOut hblind n e s w).weaken (fun _ _ h => h.2.1) fun _ _ _ h => h.2.1

/-- **The helpers may be taken for single requests.** -/
theorem ssl_helpers_refine (n : Nat) (buf : Mem) (s₀ : VcAttr) :
    (∀ {p : Proc LowSig VcAttr (Option LoopState)} {w₀ w : 𝓔.World × T.State},
      (overTls 𝓔 T).Reach (fun ls s => lowered n (iteration ls s)) (lowered n (mainStart buf s₀))
        w₀ p w →
      ∃ p', 𝓔.Reach iteration (mainStart buf s₀) w₀.1 p' w.1 ∧
        Proc.Alike sameFault p' p) ∧
    ∀ e s w, (carryOut n e).wp (overTls 𝓔 T) (Busy 𝓔 T e s w) (Helped 𝓔 T e s w) s w := by
  refine ⟨fun h => h.raise (carryOut_serves hblind n) ?_, wp_carryOut hblind n⟩
  rintro s w w' (⟨hd, -⟩ | ⟨hw, -⟩)
  · exact Relation.ReflTransGen.single hd
  · rw [hw]
    exact Relation.ReflTransGen.refl

end

/-! ## When the time limit is kept

`select` is given what *all* operations wait for, and the flags of an operation stay as its
last call left them, on whatever connection that was. -/

def FdSets.asks (fds : FdSets) (write : Bool) : Bool := if write then fds.skW else fds.skR

/-- OpenSSL wants one direction of the socket, and only the other one is ready.  When
`select` has something to report, how long it takes is not known. -/
def stalled (write : Bool) : Tls where
  State := Nat
  ssl := fun t _ r t' => r.1 = -1 ∧ t' = t
  getError := fun t r t' => r = (if write then .wantWrite else .wantRead) ∧ t' = t
  select := fun t fds tv r t' => t' + r.2 = t + tv ∧
    if fds.asks (!write) then 0 < r.1 else r = (0, 0)
  moves := fun _ _ => False
  waited := id
  waited_ssl := fun h => h.2
  waited_getError := fun h => h.2
  waited_moves := fun h => h.elim
  waited_select := fun h => h.1

/-- The same, answering at once. -/
def stalledReply (write : Bool) (t : Nat) : (e : LowReq) → Option (e.Rep × Nat)
  | .ssl _ => some ((-1, fun _ => 0), t)
  | .getError => some (if write then .wantWrite else .wantRead, t)
  | .select fds tv => if fds.asks (!write) then some ((1, tv), t) else some ((0, 0), t + tv)
  | _ => none

theorem SslAct.not_success {a : SslAct} {ret : Int} (h : ret < 0) : ¬ a.success ret = true :=
  fun hok => absurd (SslAct.pos_of_success hok) (by omega)

/-- Another operation waits for this direction. -/
def SslAct.othersAsk (a : SslAct) (i : SslInfo) (write : Bool) : Bool :=
  (sslSetFds (a.setEvent ⟨false, false⟩ i) noFds).asks write

section
variable {𝓔 : Env VcSig VcAttr} {write : Bool} {s s₁ : VcAttr} {i : SslInfo}
  {w : 𝓔.World × (stalled write).State}

theorem wp_stalled {e : LowReq} {Q : e.Rep → VcAttr → 𝓔.World × Nat → Prop}
    (hQ : ∀ r w₁ w', w₁.2 = w.2 → (overTls 𝓔 (stalled write)).answers w₁ e r w' → Q r s w') :
    (Act.request (S := LowSig) e : Low e.Rep).wp (overTls 𝓔 (stalled write)) (fun _ _ => True)
      Q s w := by
  refine Act.wp_request_of (fun w₁ => w₁.2 = w.2) rfl ?_ (fun _ _ => trivial) fun w r w' h hr =>
    hQ r w w' h hr
  rintro w₁ w₂ h (⟨-, ht⟩ | ⟨-, hm⟩)
  · exact ht.trans h
  · exact hm.elim

/-- An attempt comes to nothing. -/
theorem wp_sslDirect_stalled {a : SslAct} (hs : ∀ ev, a.waits ev s₁ = a.waits ev s) :
    (sslDirect a).wp (overTls 𝓔 (stalled write)) (fun _ _ => True)
      (fun r s' w' => r.1 = SSL_OPS_SELECT ∧ s' = a.waits ⟨!write, write⟩ s ∧ w'.2 = w.2) s₁ w := by
  simp only [sslDirect, Act.wp_bind, Act.wp_modify, hs]
  refine wp_stalled fun (r : Int × Mem) w₁ w₂ h₁ hr => ?_
  have hret : r.1 = -1 := hr.2.1
  rw [hret, Act.wp_ite, if_neg (SslAct.not_success (by decide)), Act.wp_bind]
  refine wp_stalled fun (err : SslErr) w₃ w₄ h₃ hr' => ?_
  have hw : w₄.2 = w.2 := hr'.2.2.trans (h₃.trans (hr.2.2.trans h₁))
  have herr : err = if write then .wantWrite else .wantRead := hr'.2.1
  cases write with
  | false =>
      rw [herr]
      exact ⟨rfl, a.waits_waits _ _ s, hw⟩
  | true =>
      rw [herr]
      exact ⟨rfl, a.waits_waits _ _ s, hw⟩

theorem asks_sslFds (a : SslAct) (write : Bool) (hs : s.ssl = some i) :
    (sslFds (a.waits ⟨!write, write⟩ s)).asks (!write) = a.othersAsk i (!write) := by
  cases a <;> cases write <;>
    simp [sslFds, SslAct.waits, hs, SslAct.othersAsk, sslSetFds, SslAct.setEvent, FdSets.asks]

/-- `select` comes back for the others, again and again. -/
theorem wp_sslSimpleTv_stalled {a : SslAct} (hs : s.ssl = some i)
    (hask : a.othersAsk i (!write) = true) (n tv : Nat) (hs₁ : ∀ ev, a.waits ev s₁ = a.waits ev s) :
    (sslSimpleTv a n tv).wp (overTls 𝓔 (stalled write)) (fun _ _ => True) (fun _ _ _ => False)
      s₁ w := by
  induction n generalizing tv s₁ w with
  | zero =>
      simp only [sslSimpleTv, Act.wp_bind]
      exact wp_stalled fun (r : Empty) _ _ _ _ => r.elim
  | succ n ih =>
      simp only [sslSimpleTv, Act.wp_bind]
      refine Act.wp_mono (wp_sslDirect_stalled hs₁) ?_
      rintro ⟨ret, buf⟩ _ w₁ ⟨rfl, rfl, -⟩
      rw [Act.wp_ite, if_neg (SslAct.not_success (show SSL_OPS_SELECT < 0 by decide)), Act.wp_ite,
        if_neg (show SSL_OPS_SELECT ≠ SSL_OPS_FAIL by decide), Act.wp_bind, Act.wp_get, Act.wp_bind]
      refine wp_stalled fun (r : Int × Nat) w₂ w₃ _ hr => ?_
      have hsel : 0 < r.1 := by
        have h := hr.2.2
        rw [asks_sslFds a write hs, hask, if_pos rfl] at h
        exact h
      rw [Act.wp_ite, if_pos hsel]
      exact ih _ fun ev => a.waits_waits ev _ s

theorem exec_sslDirect_stalled (a : SslAct) (write : Bool) (s : VcAttr) (t : Nat) :
    (sslDirect a s).exec (stalledReply write) t =
      some ((SSL_OPS_SELECT, fun _ => 0), a.waits ⟨!write, write⟩ s, t) := by
  have hret : ¬ a.success (-1) = true := SslAct.not_success (by decide)
  unfold sslDirect
  refine (Act.exec_bind rfl).trans ((Act.exec_request rfl).trans ?_)
  simp only [if_neg hret]
  refine (Act.exec_request rfl).trans ?_
  rw [← a.waits_waits ⟨!write, write⟩ ⟨false, false⟩ s]
  cases write <;> rfl

theorem exec_sslSimpleTv_stalled {a : SslAct} (hs : s.ssl = some i)
    (hask : a.othersAsk i (!write) = false) (n tv t : Nat) :
    (sslSimpleTv a (n + 1) tv s).exec (stalledReply write) t =
      some ((SSL_OPS_SELECT, fun _ => 0), a.waits ⟨!write, write⟩ s, t + tv) := by
  have hfds := (asks_sslFds a write hs).trans hask
  have hret : ¬ a.success SSL_OPS_SELECT = true := SslAct.not_success (by decide)
  have hsel : stalledReply write t (.select (sslFds (a.waits ⟨!write, write⟩ s)) tv) =
      some ((0, 0), t + tv) := by
    rw [stalledReply, hfds]
    rfl
  rw [sslSimpleTv, Act.exec_bind (exec_sslDirect_stalled a write s t)]
  simp only [if_neg hret]
  rw [if_neg (by decide)]
  refine (Act.exec_bind rfl).trans ((Act.exec_request hsel).trans ?_)
  rfl

end

/-- **When the time limit is kept.**  OpenSSL wants one direction of the socket, and only
the other one is ready.  If no other operation waits for that one, a helper returns after
the first attempt, when its time is up; otherwise it never does. -/
theorem ssl_limit_kept (𝓔 : Env VcSig VcAttr) (a : SslAct) (write : Bool) (s : VcAttr)
    (i : SslInfo) (toMs : Nat) :
    if a.othersAsk i (!write) then
      ∀ n w, (sslSimple a n toMs).wp (overTls 𝓔 (stalled write)) (fun _ _ => True)
        (fun _ _ _ => False) { s with ssl := some i } w
    else
      ∀ n t, (sslSimple a (n + 1) toMs { s with ssl := some i }).exec (stalledReply write) t =
        some ((SSL_OPS_SELECT, fun _ => 0), a.waits ⟨!write, write⟩ { s with ssl := some i },
          t + timeval toMs) := by
  split
  next hask =>
    intro n w
    exact wp_sslSimpleTv_stalled rfl hask n _ fun _ => rfl
  next hask =>
    intro n t
    exact exec_sslSimpleTv_stalled rfl (Bool.eq_false_iff.mpr hask) n _ t

/-! ## Where the daemon gets to -/

/-- TLS answers from a device that takes a packet or not. -/
def takesReply (took : Bool) (ret : Int) (w : TlsLog) : (e : Req) → Option (e.Rep × TlsLog)
  | .sslSend ps => some (if took then SslRet.ok else SslRet.want true, w.note (.sslSend ps))
  | .select fds zero => some (⟨ret, noFds, 1⟩, w.next (.select fds zero))
  | e => readReply (.want false) w e

theorem takesReply_legal {took : Bool} {ret : Int} {w : TlsLog} {e : Req} {r : e.Rep} {w' : TlsLog}
    (h : takesReply took ret w e = some (r, w')) : tlsWorld.answers w e r w' := by
  cases e with
  | sslSend | select =>
      cases h
      rfl
  | _ => exact readReply_legal (.want false) h

def isHandshake : Req → Bool
  | .sslConnect => true
  | _ => false

def isTlsSend : Req → Bool
  | .sslSend _ => true
  | _ => false

/-- One round with the device taking packets or not, and the next one up to a request of
`stop`, with `select` returning `ret`. -/
def roundAndStop (took : Bool) (ret : Int) (stop : Req → Bool) : Option (VcAttr × TlsLog) :=
  match ((mainStart (fun _ => 0) freshTls).bind (rounds iteration 1)).exec (takesReply took 1)
    noCalls with
  | some (some ls, s, w) => (iteration ls s).runTo stop (takesReply took ret) w
  | _ => none

theorem roundAndStop_reach {took : Bool} {ret : Int} {stop : Req → Bool} {s : VcAttr} {w : TlsLog}
    (h : roundAndStop took ret stop = some (s, w)) : ∃ e k, stop e = true ∧
      tlsWorld.Reach iteration (mainStart (fun _ => 0) freshTls) noCalls (.pause s e k) w := by
  unfold roundAndStop at h
  split at h
  next ls s₁ w₁ hrun =>
    have hround := Env.Reach.rounds (𝓔 := tlsWorld) takesReply_legal 1 .start hrun
    exact (hround.step .again).runTo takesReply_legal h
  next => cases h

/-- After a packet that could not be written. -/
theorem handshake_stale : (roundAndStop false 1 isHandshake).map (fun r => r.1.ssl) =
    some (some ⟨3, ⟨false, false⟩, ⟨false, true⟩, ⟨false, false⟩⟩) := by
  decide +kernel

/-- When main has looked for a frame. -/
theorem send_stale : (roundAndStop true 0 isTlsSend).map (fun r => r.1.ssl) =
    some (some ⟨3, ⟨true, false⟩, ⟨false, false⟩, ⟨false, false⟩⟩) := by
  decide +kernel

/-- A handshake that waits for a device to answer, and a packet that waits for a device that
sends and does not read. -/
theorem ssl_limit_kept_not :
    (∃ s k w, tlsWorld.Reach iteration (mainStart (fun _ => 0) freshTls) noCalls
        (.pause s Req.sslConnect k) w ∧
      ∀ n w', (sslSimple .connect n 1000).wp (overTls tlsWorld (stalled false)) (fun _ _ => True)
        (fun _ _ _ => False) s w') ∧
    ∃ s ps k w, tlsWorld.Reach iteration (mainStart (fun _ => 0) freshTls) noCalls
        (.pause s (Req.sslSend ps) k) w ∧
      ∀ n w', (sslSimple (.send ps) n 1000).wp (overTls tlsWorld (stalled true)) (fun _ _ => True)
        (fun _ _ _ => False) s w' := by
  constructor
  · obtain ⟨⟨s, w⟩, hrun, hssl⟩ := Option.map_eq_some_iff.mp handshake_stale
    obtain ⟨e, k, he, hreach⟩ := roundAndStop_reach hrun
    have hlimit := ssl_limit_kept tlsWorld .connect false s
      ⟨3, ⟨false, false⟩, ⟨false, true⟩, ⟨false, false⟩⟩ 1000
    cases e with
    | sslConnect =>
        rw [← hssl] at hlimit
        exact ⟨s, k, w, hreach, hlimit⟩
    | _ => cases he
  · obtain ⟨⟨s, w⟩, hrun, hssl⟩ := Option.map_eq_some_iff.mp send_stale
    obtain ⟨e, k, he, hreach⟩ := roundAndStop_reach hrun
    cases e with
    | sslSend ps =>
        have hlimit := ssl_limit_kept tlsWorld (.send ps) true s
          ⟨3, ⟨true, false⟩, ⟨false, false⟩, ⟨false, false⟩⟩ 1000
        rw [← hssl] at hlimit
        exact ⟨s, ps, k, w, hreach, hlimit⟩
    | _ => cases he

/-- The calls of the helpers, when the device says nothing from the start. -/
def unansweredReply (w : TlsLog × Nat) : (e : LowReq) → Option (e.Rep × (TlsLog × Nat))
  | .plain e => (takesReply true 1 w.1 e).map fun r => (r.1, r.2, w.2)
  | .returns .sslConnect _ => some ((), w.1.note .sslConnect, w.2)
  | .returns _ _ => none
  | e => (stalledReply false w.2 e).map fun r => (r.1, w.1, r.2)

theorem unansweredReply_legal {w : TlsLog × Nat} {e : LowReq} {r : e.Rep} {w' : TlsLog × Nat}
    (h : unansweredReply w e = some (r, w')) :
    (overTls tlsWorld (stalled false)).answers w e r w' := by
  cases e with
  | plain e =>
      obtain ⟨⟨r', w₁⟩, hr, heq⟩ := Option.map_eq_some_iff.mp h
      cases heq
      exact ⟨takesReply_legal hr, rfl⟩
  | ssl a =>
      cases h
      exact ⟨rfl, rfl, rfl⟩
  | getError =>
      cases h
      exact ⟨rfl, rfl, rfl⟩
  | select fds tv =>
      obtain ⟨⟨r', t⟩, hr, heq⟩ := Option.map_eq_some_iff.mp h
      cases heq
      rw [stalledReply] at hr
      split at hr
      next hask =>
        cases hr
        exact ⟨rfl, rfl, by rw [if_pos hask]; exact Int.one_pos⟩
      next hask =>
        cases hr
        exact ⟨rfl, rfl, by rw [if_neg hask]⟩
  | trying => cases h
  | returns e r' =>
      cases e with
      | sslConnect =>
          cases h
          exact ⟨rfl, rfl⟩
      | _ => cases h

/-- The first round, with the handshake written out. -/
def unansweredRun : Option (Option LoopState × VcAttr × TlsLog × Nat) :=
  ((lowered 1 (mainStart (fun _ => 0) freshTls)).bind
    (rounds (fun ls s => lowered 1 (iteration ls s)) 1)).exec unansweredReply (noCalls, 0)

theorem unansweredRun_waits : unansweredRun.map (fun r => r.2.2.2) = some 1000000 := by
  decide +kernel

theorem ssl_helpers_refine_unanswered : ∃ p w, (overTls tlsWorld (stalled false)).Reach
      (fun ls s => lowered 1 (iteration ls s)) (lowered 1 (mainStart (fun _ => 0) freshTls))
      (noCalls, (0 : Nat)) p w ∧ w.2 = (1000000 : Nat) ∧
    ∃ p', tlsWorld.Reach iteration (mainStart (fun _ => 0) freshTls) noCalls p' w.1 ∧
      Proc.Alike sameFault p' p := by
  obtain ⟨⟨ls, s, w⟩, hrun, hwait⟩ := Option.map_eq_some_iff.mp unansweredRun_waits
  have hreach := Env.Reach.rounds (𝓔 := overTls tlsWorld (stalled false)) unansweredReply_legal 1
    .start hrun
  exact ⟨_, w, hreach, hwait, (ssl_helpers_refine (fun hd => hd) 1 _ freshTls).1 hreach⟩

end AdvVcom
