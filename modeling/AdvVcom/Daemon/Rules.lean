/-
# `AdvVcom.Daemon.Rules` — reasoning about the daemon's code

How the daemon's building blocks run: the stack and the calls through the current
state as equations, requests and sends as rules for the weakest precondition and for
`Always`.  A handler's proof applies them in the order of its lines.

A *quiet* request is one whose answer tells nothing that matters outside the
handler (`fdcheck`, the TLS set-up, `select`, …); an assertion that no drift and no
quiet answer breaks, and that looks neither at the stack nor at what TLS waits for,
is `Stable`; one that keeps an eye on the TLS object or on the connected state `Lasts`.
-/
import AdvVcom.Daemon.Main

namespace AdvVcom

open Lib

/-! ## The stack -/

section
variable {s : VcAttr} {st : St}

theorem stkPush_done (h : s.stk.length < STACK_MAX) :
    stkPush st s = .done () { s with stk := s.stk ++ [st] } := by
  have hfull : ¬ s.stk.length ≥ STACK_MAX := Nat.not_le.mpr h
  show (if s.stk.length ≥ STACK_MAX then die .stackFull
    else modifyAttr fun a => { a with stk := a.stk ++ [st] } : M Unit) s = _
  rw [if_neg hfull]
  rfl

/-- The three operations that fault only on an empty stack. -/
theorem onStack_done {g : List St → List St} (h : s.stk ≠ []) :
    (do let a ← getAttr
        if a.stk.isEmpty then die .stackEmpty
        else modifyAttr fun a => { a with stk := g a.stk } : M Unit) s
      = .done () { s with stk := g s.stk } := by
  show (if s.stk.isEmpty then die .stackEmpty
    else modifyAttr fun a => { a with stk := g a.stk } : M Unit) s = _
  rw [if_neg (by simpa using h)]
  rfl

theorem stkPop_done (h : s.stk ≠ []) : stkPop s = .done () { s with stk := s.stk.dropLast } :=
  onStack_done h

theorem stkExcp_done (h : s.stk ≠ []) : stkExcp s = .done () { s with stk := s.stk.take 1 } :=
  onStack_done h

theorem stkRpls_done (h : s.stk ≠ []) :
    stkRpls st s = .done () { s with stk := s.stk.dropLast ++ [st] } :=
  onStack_done (g := fun l => l.dropLast ++ [st]) h

theorem stkCurnt_done (h : s.stk.getLast? = some st) : stkCurnt s = .done st s := by
  simp only [stkCurnt, getAttr, Act.bind_apply, Act.get, Proc.bind, h]
  rfl

theorem retCurnt_done (h : s.stk ≠ []) : retCurnt s = .done () s := by
  show (stkCurnt s).bind _ = _
  rw [stkCurnt_done (List.getLast?_eq_some_getLast h)]
  rfl

theorem stkLog_done (h : s.stk ≠ []) : stkLog s = .done () s := retCurnt_done h

/-! ## Calls through the current state -/

theorem call_apply {n : Nat} {op : Op} {handler : M Unit} (hst : s.stk.getLast? = some st)
    (hop : vcOps (call n) st op = some handler) : call (n + 1) op s = handler s := by
  rw [call, Act.bind_apply, stkCurnt_done hst]
  simp only [Proc.bind, hop]

theorem tryCall_apply {op : Op} {handler : M Unit} (hst : s.stk.getLast? = some st)
    (hop : vcOps (call CALL_DEPTH) st op = some handler) : tryCall op s = handler s := by
  rw [tryCall, Act.bind_apply, stkCurnt_done hst]
  simp only [Proc.bind, hop]

theorem tryCall_none {op : Op} (hst : s.stk.getLast? = some st)
    (hop : vcOps (call CALL_DEPTH) st op = none) : tryCall op s = .done () s := by
  rw [tryCall, Act.bind_apply, stkCurnt_done hst]
  simp only [Proc.bind, hop]
  rfl

/-- An exception ends in Net Down's `init` on the bottom of the stack. -/
theorem excpInit_apply {n : Nat} {rest : List St} (h : s.stk = .netdown :: rest) :
    excpInit (call (n + 1)) s = vcNetdownInit { s with stk := [.netdown] } := by
  show (stkExcp s).bind _ = _
  rw [stkExcp_done (by simp [h]), h]
  exact call_apply rfl rfl

end

/-! ## Requests -/

/-- A request whose answer does not matter beyond the handler that makes it. -/
def Req.Quiet : Req → Prop
  | .fdcheck | .selRd | .sslNew | .sslSetFd | .sslConnect | .sslErrStr | .sslPending
  | .sslShutdown | .sslFree | .select _ _ => True
  | .ioctl c _ => c = .sInter ∨ c = .sMCtrl
  | _ => False

section
variable {𝓔 : Env VcSig VcAttr} {I : VcAttr → 𝓔.World → Prop}

@[simp] theorem wp_getAttr (Q : VcAttr → VcAttr → 𝓔.World → Prop) (s : VcAttr) (w : 𝓔.World) :
    getAttr.wp 𝓔 I Q s w ↔ Q s s w := Iff.rfl

@[simp] theorem wp_modifyAttr (g : VcAttr → VcAttr) (Q : Unit → VcAttr → 𝓔.World → Prop)
    (s : VcAttr) (w : 𝓔.World) : (modifyAttr g).wp 𝓔 I Q s w ↔ Q () (g s) w := Iff.rfl

@[simp] theorem wp_tidNext (Q : Unit → VcAttr → 𝓔.World → Prop) (s : VcAttr) (w : 𝓔.World) :
    tidNext.wp 𝓔 I Q s w ↔ Q () { s with tid := s.tid + 1 } w := Iff.rfl

/-- An assertion that survives drift and quiet requests and looks neither at the
stack nor at what TLS waits for. -/
structure Stable (𝓔 : Env VcSig VcAttr) (P : VcAttr → 𝓔.World → Prop) : Prop where
  drift : ∀ {s w w'}, P s w → 𝓔.drift s w w' → P s w'
  quiet : ∀ {s w w'} {e : Req} {r : e.Rep}, e.Quiet → P s w → 𝓔.answers w e r w' → P s w'
  ssl : ∀ {s w}, P s w → ∀ x, x.isSome = s.ssl.isSome → P { s with ssl := x } w
  stk : ∀ {s w}, P s w → ∀ l, P { s with stk := l } w

theorem Stable.wp_request {P : VcAttr → 𝓔.World → Prop} (hP : Stable 𝓔 P)
    (hI : ∀ s w, P s w → I s w) {e : Req} {Q : e.Rep → VcAttr → 𝓔.World → Prop} {s : VcAttr}
    {w : 𝓔.World} (h : P s w) (hQ : ∀ r w w', P s w → 𝓔.answers w e r w' → Q r s w') :
    (Act.request (S := VcSig) e : M e.Rep).wp 𝓔 I Q s w :=
  Act.wp_request_of (P s) h (fun _ _ hp hd => hP.drift hp hd) (fun w hp => hI s w hp)
    fun w r w' hp hr => hQ r w w' hp hr

theorem Stable.wp_quiet {P : VcAttr → 𝓔.World → Prop} (hP : Stable 𝓔 P)
    (hI : ∀ s w, P s w → I s w) {e : Req} (he : e.Quiet)
    {Q : e.Rep → VcAttr → 𝓔.World → Prop} {s : VcAttr} {w : 𝓔.World} (h : P s w)
    (hQ : ∀ r w', P s w' → Q r s w') :
    (Act.request (S := VcSig) e : M e.Rep).wp 𝓔 I Q s w :=
  hP.wp_request hI h fun r _ w' hp hr => hQ r w' (hP.quiet he hp hr)

/-! ## With the socket and the connected state in view

Some assertions do look at the TLS object, which is there as long as the socket is, or at
which of the two connected states is in force, the one at position 1 of the stack. -/

/-- A quiet request that neither makes nor frees the TLS object, with a socket if it is a
call on that object.  The test before a send is not among them, a failed one is a failed
send, and neither are main's own requests around the wait for the next event. -/
def Req.Mild (s : VcAttr) : Req → Prop
  | .selRd => True
  | .sslSetFd | .sslConnect | .sslErrStr | .sslShutdown => 0 ≤ s.sk
  | .ioctl c _ => c = .sMCtrl
  | _ => False

theorem Req.Mild.quiet {s : VcAttr} {e : Req} (h : e.Mild s) : e.Quiet := by
  cases e with
  | ioctl => exact Or.inr h
  | selRd | sslSetFd | sslConnect | sslErrStr | sslShutdown => trivial
  | _ => exact absurd h id

/-- An assertion that survives drift and does not look at what TLS waits for. -/
structure Holds (𝓔 : Env VcSig VcAttr) (P : VcAttr → 𝓔.World → Prop) : Prop where
  drift : ∀ {s w w'}, P s w → 𝓔.drift s w w' → P s w'
  ssl : ∀ {s w}, P s w → ∀ x, x.isSome = s.ssl.isSome → P { s with ssl := x } w

/-- And it survives mild requests and does not look at the stack, position 1 apart. -/
structure Lasts (𝓔 : Env VcSig VcAttr) (P : VcAttr → 𝓔.World → Prop) : Prop extends Holds 𝓔 P where
  mild : ∀ {s w w'} {e : Req} {r : e.Rep}, e.Mild s → P s w → 𝓔.answers w e r w' → P s w'
  ready : ∀ {s w w'}, P s w → 𝓔.answers w .fdcheck true w' → P s w'
  base : ∀ {s w}, P s w → ∀ l, l[1]? = s.stk[1]? → P { s with stk := l } w

theorem Stable.lasts {P : VcAttr → 𝓔.World → Prop} (h : Stable 𝓔 P) : Lasts 𝓔 P where
  drift := h.drift
  mild := fun he hp hr => h.quiet he.quiet hp hr
  ready := fun hp hr => h.quiet (e := .fdcheck) trivial hp hr
  ssl := h.ssl
  base := fun hp l _ => h.stk hp l

theorem Holds.wp_request {P : VcAttr → 𝓔.World → Prop} (hP : Holds 𝓔 P)
    (hI : ∀ s w, P s w → I s w) {e : Req} {Q : e.Rep → VcAttr → 𝓔.World → Prop} {s : VcAttr}
    {w : 𝓔.World} (h : P s w) (hQ : ∀ r w w', P s w → 𝓔.answers w e r w' → Q r s w') :
    (Act.request (S := VcSig) e : M e.Rep).wp 𝓔 I Q s w :=
  Act.wp_request_of (P s) h (fun _ _ hp hd => hP.drift hp hd) (fun w hp => hI s w hp)
    fun w r w' hp hr => hQ r w w' hp hr

theorem Lasts.wp_mild {P : VcAttr → 𝓔.World → Prop} (hP : Lasts 𝓔 P)
    (hI : ∀ s w, P s w → I s w) {e : Req} {Q : e.Rep → VcAttr → 𝓔.World → Prop} {s : VcAttr}
    {w : 𝓔.World} (he : e.Mild s) (h : P s w) (hQ : ∀ r w', P s w' → Q r s w') :
    (Act.request (S := VcSig) e : M e.Rep).wp 𝓔 I Q s w :=
  hP.wp_request hI h fun r _ w' hp hr => hQ r w' (hP.mild he hp hr)

/-! ## Sends -/

/-- The packets `ps` went out (`ok`), or the attempt failed, in clear or over TLS. -/
def Sends (𝓔 : Env VcSig VcAttr) (w : 𝓔.World) (ps : List Pkt) (ok : Bool) (w' : 𝓔.World) : Prop :=
  𝓔.answers w (Req.send ps) ok w' ∨
    ∃ r : SslRet, 𝓔.answers w (Req.sslSend ps) r w' ∧ ok = decide (r = .ok)

/-- A send is tried from `P`, and `R` is what is left if it does not go through. -/
structure Yields (𝓔 : Env VcSig VcAttr) (P R : VcAttr → 𝓔.World → Prop) : Prop where
  lasts : Lasts 𝓔 P
  after : Lasts 𝓔 R
  weak : ∀ s w, P s w → R s w
  unready : ∀ {s w w'}, P s w → 0 ≤ s.sk → 𝓔.answers w .fdcheck false w' → R s w'

theorem Stable.yields {P R : VcAttr → 𝓔.World → Prop} (hP : Stable 𝓔 P) (hR : Stable 𝓔 R)
    (hPR : ∀ s w, P s w → R s w) : Yields 𝓔 P R where
  lasts := hP.lasts
  after := hR.lasts
  weak := hPR
  unready := fun hp _ hr => hPR _ _ (hP.quiet (e := .fdcheck) trivial hp hr)

/-- `vc_check_send`: from `P` a success leads to `Q true`; after a failure only `R`
is known, which has to last while the error is reported. -/
theorem wp_vcCheckSend_of {P R : VcAttr → 𝓔.World → Prop} (hP : Lasts 𝓔 P) (hR : Lasts 𝓔 R)
    (hPI : ∀ s w, P s w → I s w) (hRI : ∀ s w, R s w → I s w)
    {ps : List Pkt} {Q : Bool → VcAttr → 𝓔.World → Prop} {s : VcAttr} {w : 𝓔.World}
    (hne : s.stk ≠ []) (hsk : 0 ≤ s.sk) (h : P s w)
    (hsent : ∀ w w' x, x.isSome = s.ssl.isSome → P s w → Sends 𝓔 w ps true w' →
      Q true { s with ssl := x } w')
    (hfail : ∀ w w', P s w → Sends 𝓔 w ps false w' → R s w')
    (hunready : ∀ w w', P s w → 𝓔.answers w .fdcheck false w' → R s w')
    (hQ : ∀ w x, R { s with ssl := x } w → Q false { s with ssl := x } w) :
    (vcCheckSend ps).wp 𝓔 I Q s w := by
  have hsome (f : SslInfo → SslInfo) : (s.ssl.map f).isSome = s.ssl.isSome := by simp
  simp only [vcCheckSend, Act.wp_bind, wp_getAttr, Act.wp_ite]
  split
  · -- TLS: one request, then what it waits for, then the report of an error
    refine hP.wp_request hPI h fun r w₁ w₂ hp hr => ?_
    simp only [setSend, wp_modifyAttr]
    split
    · rename_i hok
      exact hsent w₁ w₂ _ (hsome _) hp (Or.inr ⟨r, hr, by simp [hok]⟩)
    · rename_i hok
      have hbad := hfail w₁ w₂ hp (Or.inr ⟨r, hr, by simp [hok]⟩)
      refine hR.wp_mild hRI (e := .sslErrStr) hsk (hR.ssl hbad _ (hsome _)) fun _ w₃ hr₃ => ?_
      exact Act.wp_of_done (stkLog_done hne) (hQ w₃ _ hr₃)
  · -- TCP: a test, then the send
    refine hP.wp_request hPI h fun (ready : Bool) w₀ w₁ hp₀ hr => ?_
    simp only [Act.wp_pure]
    cases ready with
    | true =>
        refine hP.wp_request hPI (hP.ready hp₀ hr) fun ok w₂ w₃ hp₂ hs => ?_
        cases ok with
        | true => exact hsent w₂ w₃ s.ssl rfl hp₂ (Or.inl hs)
        | false => exact hQ w₃ s.ssl (hfail w₂ w₃ hp₂ (Or.inl hs))
    | false => exact hQ w₁ s.ssl (hunready w₀ w₁ hp₀ hr)

theorem wp_vcCheckSend {P R : VcAttr → 𝓔.World → Prop} (hPR : Yields 𝓔 P R)
    (hRI : ∀ s w, R s w → I s w)
    {ps : List Pkt} {Q : Bool → VcAttr → 𝓔.World → Prop} {s : VcAttr} {w : 𝓔.World}
    (hne : s.stk ≠ []) (hsk : 0 ≤ s.sk) (h : P s w)
    (hsent : ∀ w w' x, x.isSome = s.ssl.isSome → P s w → Sends 𝓔 w ps true w' →
      Q true { s with ssl := x } w')
    (hfail : ∀ w w', P s w → Sends 𝓔 w ps false w' → R s w')
    (hQ : ∀ w x, R { s with ssl := x } w → Q false { s with ssl := x } w) :
    (vcCheckSend ps).wp 𝓔 I Q s w :=
  wp_vcCheckSend_of hPR.lasts hPR.after (fun s w hp => hRI s w (hPR.weak s w hp)) hRI hne hsk h
    hsent hfail (fun _ _ hp hr => hPR.unready hp hsk hr) hQ

/-- A packet that fits its buffer is packed, and the rest is the send. -/
theorem wp_packSend {p : Pkt} {buflen : Int} {Q : Bool → VcAttr → 𝓔.World → Prop} {s : VcAttr}
    {w : 𝓔.World} (hlen : 0 < p.plen buflen) (h : (vcCheckSend [p]).wp 𝓔 I Q s w) :
    (packSend p buflen).wp 𝓔 I Q s w := by
  unfold packSend
  rw [if_neg (by omega)]
  exact h

theorem wp_sendNext {p : UInt32 → Pkt} {Q : Bool → VcAttr → 𝓔.World → Prop} {s : VcAttr}
    {w : 𝓔.World} (hlen : 0 < (p s.tid).plen 1024)
    (h : (vcCheckSend [p s.tid]).wp 𝓔 I (fun ok s w =>
      Q ok (if ok then { s with tid := s.tid + 1 } else s) w) s w) :
    (sendNext p).wp 𝓔 I Q s w := by
  simp only [sendNext, Act.wp_bind, wp_getAttr]
  refine wp_packSend hlen (Act.wp_mono h fun ok s' w' hq => ?_)
  cases ok with
  | true => exact hq
  | false => exact hq

end

/-! ## Whatever the replies -/

section
variable {A : VcAttr → VcSig.Req → Prop} {s : VcAttr}

@[simp] theorem always_getAttr (Q : VcAttr → VcAttr → Prop) :
    getAttr.Always A Q s ↔ Q s s := Iff.rfl

@[simp] theorem always_modifyAttr (g : VcAttr → VcAttr) (Q : Unit → VcAttr → Prop) :
    (modifyAttr g).Always A Q s ↔ Q () (g s) := Iff.rfl

@[simp] theorem always_tidNext (Q : Unit → VcAttr → Prop) :
    tidNext.Always A Q s ↔ Q () { s with tid := s.tid + 1 } := Iff.rfl

/-- Quiet, or a send of packets that `K` allows. -/
def Req.Talk (K : Pkt → Prop) : Req → Prop
  | .send ps | .sslSend ps => ∀ p ∈ ps, K p
  | e => e.Quiet

theorem Req.Talk.cases {K : Pkt → Prop} {e : Req} (h : e.Talk K) :
    (∃ ps, (e = .send ps ∨ e = .sslSend ps) ∧ ∀ p ∈ ps, K p) ∨ e.Quiet := by
  cases e with
  | send ps => exact Or.inl ⟨ps, Or.inl rfl, h⟩
  | sslSend ps => exact Or.inl ⟨ps, Or.inr rfl, h⟩
  | _ => exact Or.inr h

theorem always_vcCheckSend {K : Pkt → Prop} {ps : List Pkt} {Q : Bool → VcAttr → Prop}
    (hK : ∀ p ∈ ps, K p) (hne : s.stk ≠ [])
    (hA : ∀ x e, x.isSome = s.ssl.isSome → e.Talk K → A { s with ssl := x } e)
    (hQ : ∀ ok x, x.isSome = s.ssl.isSome → Q ok { s with ssl := x }) :
    (vcCheckSend ps).Always A Q s := by
  have hsome (f : SslInfo → SslInfo) : (s.ssl.map f).isSome = s.ssl.isSome := by simp
  simp only [vcCheckSend, Act.always_bind, always_getAttr, Act.always_ite, Act.always_pure]
  split
  · refine Act.always_request (hA s.ssl (.sslSend ps) rfl hK) fun r => ?_
    simp only [setSend, always_modifyAttr]
    split
    · exact hQ true _ (hsome _)
    · refine Act.always_request (hA _ .sslErrStr (hsome _) trivial) fun _ => ?_
      exact Act.always_of_done (stkLog_done hne) (hQ false _ (hsome _))
  · refine Act.always_request (hA s.ssl .fdcheck rfl trivial) fun ready => ?_
    split
    · exact Act.always_request (hA s.ssl (.send ps) rfl hK) fun ok => hQ ok s.ssl rfl
    · exact hQ false s.ssl rfl

theorem always_packSend {p : Pkt} {buflen : Int} {Q : Bool → VcAttr → Prop}
    (hlen : 0 < p.plen buflen) (h : (vcCheckSend [p]).Always A Q s) :
    (packSend p buflen).Always A Q s := by
  unfold packSend
  rw [if_neg (by omega)]
  exact h

theorem always_sendNext {K : Pkt → Prop} {p : UInt32 → Pkt} {Q : Bool → VcAttr → Prop}
    (hlen : ∀ tid, 0 < (p tid).plen 1024) (hK : ∀ tid, K (p tid)) (hne : s.stk ≠ [])
    (hA : ∀ x e, x.isSome = s.ssl.isSome → e.Talk K → A { s with ssl := x } e)
    (hQ : ∀ ok x t, Q ok { s with ssl := x, tid := t }) : (sendNext p).Always A Q s := by
  simp only [sendNext, Act.always_bind, always_getAttr]
  refine always_packSend (hlen s.tid) (always_vcCheckSend (by simpa using hK s.tid) hne hA ?_)
  intro ok x _
  cases ok with
  | true => exact hQ true x (s.tid + 1)
  | false => exact hQ false x s.tid

end

/-! ## The lengths of the daemon's packets -/

@[simp] theorem plen_open (tid : UInt32) (dev : UInt16) (port : UInt32) :
    (Pkt.open tid dev port).plen 1024 = 20 := rfl

@[simp] theorem plen_close (tid : UInt32) : (Pkt.close tid).plen 1024 = 20 := rfl

@[simp] theorem plen_qfsize (tid : UInt32) (fsize : Int) : (Pkt.qfsize tid fsize).plen 1024 = 20 := rfl

@[simp] theorem plen_purge (tid pflags : UInt32) : (Pkt.purge tid pflags).plen 1024 = 24 := rfl

@[simp] theorem plen_sbaud (tid baud : UInt32) : (Pkt.sbaud tid baud).plen 1024 = 24 := rfl

@[simp] theorem plen_setlctl (tid : UInt32) (pair dbit sbit : UInt8) :
    (Pkt.setlctl tid pair dbit sbit).plen 1024 = 23 := rfl

@[simp] theorem plen_hflow (tid chflow flowrep : UInt32) :
    (Pkt.hflow tid chflow flowrep).plen 1024 = 36 := rfl

@[simp] theorem plen_setwmask (tid mask : UInt32) : (Pkt.setwmask tid mask).plen 1024 = 24 := rfl

@[simp] theorem plen_param (tid subcmd : UInt32) : (Pkt.param tid subcmd).plen 1024 = 20 := rfl

@[simp] theorem plen_param_exact (tid subcmd : UInt32) :
    (Pkt.param tid subcmd).plen (vcPackSize .param) = 20 := rfl

end AdvVcom
