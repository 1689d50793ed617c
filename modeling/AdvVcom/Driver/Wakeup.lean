/-
# `AdvVcom.Driver.Wakeup` — who wakes the daemon

The daemon sleeps in `select`.  The kernel's side of that is a loop: register on the wait
queues (`poll_wait`), ask `adv_proc_poll`, sleep if there is nothing to report and nobody
has woken us in the meantime, and ask again when woken.  `adv_proc_poll` looks at the rings
and the attributes under three locks, one after the other, and the tty's side may change
anything in between.  It changes something under a lock, drops it, and only then wakes.

So between a change and the wake-up that goes with it the tty's side *owes* a wake-up:

    under a lock, in                    wake-up owed
    `adv_uart_startup`                  attr, TX and RX, one for each lock it takes
    `adv_uart_shutdown`, `set_mctrl`,
    `set_termios`, `throttle`           attr
    `adv_uart_start_tx`                 RX
    `adv_uart_recv_chars`               TX, if the tty took anything
    `adv_uart_unthrottle`               none, but it goes on to `adv_uart_recv_chars`
    `adv_uart_stop_tx`, `stop_rx`       none

Any number of threads may be between their locks and their wake-ups.  Memory is taken to be
sequentially consistent: `waitqueue_active` has no barrier of its own, and none is modelled.

**Proved here**, for every interleaving:

    a daemon that is asleep, and that nobody is about to wake, is waiting for nothing that
    `adv_proc_poll` would report, except for one case: it waits for TX to be empty, TX was
    empty, and `adv_uart_unthrottle` has lifted the throttle that hid it  (`no_lost_wakeup`)
    that case occurs                                             (`no_lost_wakeup_but_one`)
-/
import AdvVcom.Driver.Range

namespace AdvVcom

variable {β : Type}

/-! ## `adv_uart_recv_chars`, with its counter -/

/-- `count` after the loop of `adv_uart_recv_chars`. -/
def recvCount : Nat → List Nat → Int → Vcom β → Int
  | 0, _, count, _ => count
  | maxRetry + 1, accept, count, v =>
      if count > 0 then
        let ret := int32 (ttyInsert (accept.headD 0) (getRbLlength v.tx.toRingBuf))
        if ret > 0 then
          recvCount maxRetry accept.tail (int32 (count - ret)) { v with tx := moveRbHead v.tx ret }
        else count
      else count

/-- `count != rx_l`: something has gone to the tty. -/
def recvWakes (accept : List Nat) (v : Vcom β) : Bool :=
  v.tx.enabled && recvCount 3 accept (getRbLength v.tx.toRingBuf) v != getRbLength v.tx.toRingBuf

theorem int32_sub_lt {count ret : Int} (hcount : 0 < count) (hret : 0 < ret) (hle : ret < 2 ^ 31) :
    int32 (count - ret) < count := by
  rw [int32, Int.bmod_def]
  split <;> omega

theorem int32_lt (x : Int) : int32 x < 2 ^ 31 := by
  rw [int32, Int.bmod_def]
  split <;> omega

theorem recvCount_le (maxRetry : Nat) (accept : List Nat) (count : Int) (v : Vcom β) :
    recvCount maxRetry accept count v ≤ count := by
  induction maxRetry generalizing accept count v with
  | zero => exact Int.le_refl _
  | succ maxRetry ih =>
      simp only [recvCount]
      split
      next hcount =>
        split
        next hret =>
          exact Int.le_trans (ih _ _ _) (Int.le_of_lt (int32_sub_lt hcount hret (int32_lt _)))
        next => exact Int.le_refl _
      next => exact Int.le_refl _

/-- Nothing counted, nothing moved. -/
theorem recvLoop_of_count {maxRetry : Nat} {accept : List Nat} {count : Int} {v : Vcom β}
    (h : recvCount maxRetry accept count v = count) :
    (recvLoop maxRetry accept count v).tx = v.tx := by
  cases maxRetry with
  | zero => rfl
  | succ maxRetry =>
      simp only [recvCount] at h
      simp only [recvLoop]
      split at h
      next hcount =>
        rw [if_pos hcount]
        split at h
        next hret =>
          have hlt := int32_sub_lt hcount hret (int32_lt _)
          exact absurd (Int.le_trans (Int.le_of_eq h.symm) (recvCount_le _ _ _ _)) (Int.not_le.mpr hlt)
        next hret => rw [if_neg hret]
      next hcount => rw [if_neg hcount]

theorem recvCharsLocked_tx {accept : List Nat} {v : Vcom β} (h : recvWakes accept v = false) :
    (recvCharsLocked accept v).tx = v.tx := by
  unfold recvCharsLocked
  unfold recvWakes at h
  split
  next hon =>
    rw [hon, Bool.true_and] at h
    exact recvLoop_of_count (by simpa using h)
  next => rfl

theorem recvLoop_rest (maxRetry : Nat) (accept : List Nat) (count : Int) (v : Vcom β) :
    (recvLoop maxRetry accept count v).rx = v.rx ∧
      (recvLoop maxRetry accept count v).attr = v.attr := by
  induction maxRetry generalizing accept count v with
  | zero => exact ⟨rfl, rfl⟩
  | succ maxRetry ih =>
      simp only [recvLoop]
      split
      next =>
        split
        next => exact ih _ _ _
        next => exact ⟨rfl, rfl⟩
      next => exact ⟨rfl, rfl⟩

theorem recvCharsLocked_rest (accept : List Nat) (v : Vcom β) :
    (recvCharsLocked accept v).rx = v.rx ∧ (recvCharsLocked accept v).attr = v.attr := by
  unfold recvCharsLocked
  split
  · exact recvLoop_rest 3 accept _ v
  · exact ⟨rfl, rfl⟩

/-! ## The tty's side, one lock at a time -/

/-- The wait queues of the port. -/
inductive Queue where
  | tx | rx | attr
  deriving DecidableEq, Repr

/-- What a function of the uart layer does under one lock. -/
inductive Part (β : Type) where
  /-- `adv_uart_startup`: the attributes, and then the two rings. -/
  | startupAttr
  | startupTx
  | startupRx
  | shutdown
  | setMctrl (rts dtr : Bool)
  | setTermios (t : Termios)
  | throttle
  /-- `adv_uart_unthrottle` before it calls `adv_uart_recv_chars`. -/
  | unthrottle
  | recvLocked (accept : List Nat)
  | startTx
  | stopTx
  | stopRx
  /-- The tty layer writes to its fifo, or flushes it. -/
  | ttyFifo (fifo : Kfifo β)

def Part.run : Part β → Vcom β → Vcom β
  | .startupAttr, v =>
      { v with attr := { v.attr with attr := { v.attr.attr with isOpen := 1 }, throttled := false } }
  | .startupTx, v => { v with tx := { v.tx with enabled := true } }
  | .startupRx, v => { v with rx := { v.rx with enabled := true } }
  | .shutdown, v => advUartShutdown v
  | .setMctrl rts dtr, v => advUartSetMctrl rts dtr v
  | .setTermios t, v => advUartSetTermios t v
  | .throttle, v => advUartThrottle v
  | .unthrottle, v => { v with attr := { v.attr with throttled := false } }
  | .recvLocked accept, v => recvCharsLocked accept v
  | .startTx, v => advUartStartTx v
  | .stopTx, v => advUartStopTx v
  | .stopRx, v => advUartStopRx v
  | .ttyFifo fifo, v => { v with fifo := fifo }

/-- The wake-ups that follow. -/
def Part.wakes : Part β → Vcom β → List Queue
  | .startupAttr, _ | .shutdown, _ | .setMctrl _ _, _ | .setTermios _, _ | .throttle, _ => [.attr]
  | .startupTx, _ => [.tx]
  | .startupRx, _ | .startTx, _ => [.rx]
  | .recvLocked accept, v => if recvWakes accept v then [.tx] else []
  | .unthrottle, _ | .stopTx, _ | .stopRx, _ | .ttyFifo _, _ => []

/-- The functions are their parts. -/
theorem startup_parts (v : Vcom β) :
    advUartStartup v = Part.startupRx.run (Part.startupTx.run (Part.startupAttr.run v)) := rfl

theorem unthrottle_parts (accept : List Nat) (v : Vcom β) :
    advUartUnthrottle accept v = (Part.recvLocked accept).run (Part.unthrottle.run v) := rfl

/-! ## What is looked at

`adv_proc_poll` looks at RX, at TX, and at the attributes, each under its lock. -/

def Vcom.rxWaits (v : Vcom β) : Bool := v.rx.enabled && !isRbEmpty v.rx.toRingBuf

def Vcom.txFree (v : Vcom β) : Bool := v.tx.enabled && isRbEmpty v.tx.toRingBuf

/-- A part that gives something to report owes a wake-up, or it is `unthrottle`. -/
structure Part.Announces (p : Part β) (v : Vcom β) : Prop where
  rx : (p.run v).rxWaits = true → v.rxWaits = true ∨ p.wakes v ≠ []
  tx : (p.run v).txFree = true → v.txFree = true ∨ p.wakes v ≠ []
  attr : (advProcPoll (p.run v)).pollpri = true → (advProcPoll v).pollpri = true ∨ p.wakes v ≠ []
  throttle : (p.run v).attr.throttled = false →
    v.attr.throttled = false ∨ p.wakes v ≠ [] ∨ p = .unthrottle

theorem recvLocked_announces (accept : List Nat) (v : Vcom β) :
    (Part.recvLocked accept).Announces v := by
  obtain ⟨hrx, hattr⟩ := recvCharsLocked_rest accept v
  refine ⟨fun h => Or.inl ?_, fun h => ?_, fun h => Or.inl ?_, fun h => Or.inl ?_⟩
  · simpa only [Part.run, Vcom.rxWaits, hrx] using h
  · by_cases hw : recvWakes accept v = true
    · exact Or.inr (by simp [Part.wakes, hw])
    · have htx := recvCharsLocked_tx (Bool.eq_false_iff.mpr hw)
      exact Or.inl (by simpa only [Part.run, Vcom.txFree, htx] using h)
  · simpa only [Part.run, advProcPoll, hattr] using h
  · simpa only [Part.run, hattr] using h

theorem Part.Announces.of_wakes {p : Part β} {v : Vcom β} (h : p.wakes v ≠ []) : p.Announces v :=
  ⟨fun _ => Or.inr h, fun _ => Or.inr h, fun _ => Or.inr h, fun _ => Or.inr (Or.inl h)⟩

theorem Part.announces (p : Part β) (v : Vcom β) : p.Announces v := by
  cases p with
  | recvLocked accept => exact recvLocked_announces accept v
  | unthrottle => exact ⟨Or.inl, Or.inl, Or.inl, fun _ => Or.inr (Or.inr rfl)⟩
  | stopTx => exact ⟨(fun h => by cases h), Or.inl, Or.inl, Or.inl⟩
  | stopRx => exact ⟨Or.inl, (fun h => by cases h), Or.inl, Or.inl⟩
  | ttyFifo => exact ⟨Or.inl, Or.inl, Or.inl, Or.inl⟩
  | _ => exact .of_wakes (List.cons_ne_nil _ _)

/-! ## The daemon in `select` -/

/-- Where the daemon is, with what `adv_proc_poll` has found so far. -/
inductive Phase where
  /-- Not in `select`. -/
  | away
  /-- On the wait queues, and about to look at this part of the port. -/
  | atRx
  | atTx (pollin : Bool)
  | atAttr (pollin pollout : Bool)
  /-- There was nothing to report: asleep, unless it has been woken since. -/
  | parked
  deriving DecidableEq, Repr

structure Bed (β : Type) where
  v : Vcom β
  phase : Phase
  /-- What the daemon waits for. -/
  wanted : PollMask
  /-- `pwq->triggered`: it has been woken since it last began to look. -/
  triggered : Bool
  /-- The wake-ups that threads on the tty's side are on their way to. -/
  owed : List Queue
  /-- `unthrottle` found TX empty while the daemon was parked. -/
  missed : Bool

/-- Nothing asked for is there. -/
def PollMask.none (wanted m : PollMask) : Bool :=
  !(wanted.pollin && m.pollin) && !(wanted.pollout && m.pollout) && !(wanted.pollpri && m.pollpri)

/-- The end of `adv_proc_poll`, and what `select` makes of it. -/
def Bed.lookAttr (b : Bed β) (pollin pollout : Bool) : Bed β :=
  let m : PollMask := ⟨pollin, pollout && !b.v.attr.throttled, (advProcPoll b.v).pollpri⟩
  { b with phase := if b.wanted.none m then .parked else .away }

/-- A part of a function on the tty's side. -/
def Bed.tty (b : Bed β) (p : Part β) : Bed β where
  v := p.run b.v
  phase := b.phase
  wanted := b.wanted
  triggered := b.triggered
  owed := b.owed ++ p.wakes b.v
  missed := b.missed || (match p with
    | .unthrottle => b.phase = .parked && b.v.txFree
    | _ => false)

inductive Bed.Step : Bed β → Bed β → Prop
  /-- The daemon's own calls, between two `select`s. -/
  | own (b : Bed β) (c : Call β) : b.phase = .away → Bed.Step b { b with v := c.run b.v }
  | enter (b : Bed β) (wanted : PollMask) : b.phase = .away →
      Bed.Step b { b with phase := .atRx, wanted := wanted, triggered := false, missed := false }
  | lookRx (b : Bed β) : b.phase = .atRx → Bed.Step b { b with phase := .atTx b.v.rxWaits }
  | lookTx (b : Bed β) (pollin : Bool) : b.phase = .atTx pollin →
      Bed.Step b { b with phase := .atAttr pollin b.v.txFree }
  | lookAttr (b : Bed β) (pollin pollout : Bool) : b.phase = .atAttr pollin pollout →
      Bed.Step b (b.lookAttr pollin pollout)
  /-- Woken: look again. -/
  | again (b : Bed β) : b.phase = .parked → b.triggered = true →
      Bed.Step b { b with phase := .atRx, triggered := false, missed := false }
  /-- The time is up, or another descriptor has something. -/
  | leave (b : Bed β) : b.phase = .parked → Bed.Step b { b with phase := .away }
  | tty (b : Bed β) (p : Part β) : Bed.Step b (b.tty p)
  /-- `wake_up_interruptible`, which finds the daemon on its queue or nobody. -/
  | wake (b : Bed β) (q : Queue) (l l' : List Queue) : b.owed = l ++ q :: l' →
      Bed.Step b { b with owed := l ++ l', triggered := b.triggered || b.phase != .away }

/-! ## No wake-up is lost, but one -/

/-- It will look again. -/
def Bed.Stirred (b : Bed β) : Prop := b.triggered = true ∨ b.owed ≠ []

/-- Since it looked, nothing has come up that it will not look at again. -/
def Bed.Attentive (b : Bed β) : Prop :=
  match b.phase with
  | .away | .atRx => True
  | .atTx pollin => b.v.rxWaits = true → pollin = true ∨ b.Stirred
  | .atAttr pollin pollout => (b.v.rxWaits = true → pollin = true ∨ b.Stirred) ∧
      (b.v.txFree = true → pollout = true ∨ b.Stirred)
  | .parked => (b.wanted.pollin = true → b.v.rxWaits = true → b.Stirred) ∧
      (b.wanted.pollout = true → b.v.txFree = true → b.v.attr.throttled = false →
        b.Stirred ∨ b.missed = true) ∧
      (b.wanted.pollpri = true → (advProcPoll b.v).pollpri = true → b.Stirred)

theorem PollMask.none_iff (wanted m : PollMask) : wanted.none m = true ↔
    (wanted.pollin = true → m.pollin = false) ∧ (wanted.pollout = true → m.pollout = false) ∧
      (wanted.pollpri = true → m.pollpri = false) := by
  simp [PollMask.none, and_assoc, imp_iff_not_or]

theorem Bed.Attentive.lookAttr {b : Bed β} {pollin pollout : Bool} (h : b.Attentive)
    (hb : b.phase = .atAttr pollin pollout) : (b.lookAttr pollin pollout).Attentive := by
  rw [Bed.Attentive, hb] at h
  obtain ⟨hrx, htx⟩ := h
  simp only [Bed.lookAttr]
  split
  next hnone =>
    obtain ⟨hin, hout, hpri⟩ := (PollMask.none_iff _ _).mp hnone
    refine ⟨fun hw hwaits => ?_, fun hw hfree hthr => Or.inl ?_, fun hw hp => ?_⟩
    · refine (hrx hwaits).resolve_left fun hyes => ?_
      rw [hyes] at hin
      cases hin hw
    · refine (htx hfree).resolve_left fun hyes => ?_
      have hno : (pollout && !b.v.attr.throttled) = false := hout hw
      rw [hyes, hthr] at hno
      cases hno
    · rw [hp] at hpri
      cases hpri hw
  next => trivial

theorem Bed.Attentive.of_away {b : Bed β} (h : b.phase = .away) : b.Attentive := by
  rw [Bed.Attentive, h]
  trivial

/-- Whoever will look again has missed nothing. -/
theorem Bed.Stirred.attentive {b : Bed β} (h : b.Stirred) : b.Attentive := by
  unfold Bed.Attentive
  cases b.phase with
  | away | atRx => trivial
  | atTx pollin => exact fun _ => Or.inr h
  | atAttr pollin pollout => exact ⟨fun _ => Or.inr h, fun _ => Or.inr h⟩
  | parked => exact ⟨fun _ _ => h, fun _ _ _ => Or.inl h, fun _ _ => h⟩

theorem Bed.Stirred.tty {b : Bed β} (h : b.Stirred) (p : Part β) : (b.tty p).Stirred := by
  rcases h with h | h
  · exact Or.inl h
  · exact Or.inr (by simp [Bed.tty, h])

/-- What the tty's side brings up it owes a wake-up for. -/
theorem Bed.Attentive.tty {b : Bed β} (h : b.Attentive) (p : Part β) : (b.tty p).Attentive := by
  by_cases hwakes : p.wakes b.v ≠ []
  · have hstirred : (b.tty p).Stirred := Or.inr (by simp [Bed.tty, hwakes])
    exact hstirred.attentive
  -- without a wake-up, what there is to report was there before
  have hann := p.announces b.v
  have hrx : (b.tty p).v.rxWaits = true → b.v.rxWaits = true :=
    fun hnow => (hann.rx hnow).resolve_right hwakes
  have htx : (b.tty p).v.txFree = true → b.v.txFree = true :=
    fun hnow => (hann.tx hnow).resolve_right hwakes
  unfold Bed.Attentive at h ⊢
  rw [show (b.tty p).phase = b.phase from rfl]
  cases hb : b.phase with
  | away | atRx => trivial
  | atTx pollin =>
      rw [hb] at h
      exact fun hnow => (h (hrx hnow)).imp id fun hs => hs.tty p
  | atAttr pollin pollout =>
      rw [hb] at h
      exact ⟨fun hnow => (h.1 (hrx hnow)).imp id fun hs => hs.tty p,
        fun hnow => (h.2 (htx hnow)).imp id fun hs => hs.tty p⟩
  | parked =>
      rw [hb] at h
      obtain ⟨hin, hout, hpri⟩ := h
      refine ⟨fun hw hnow => (hin hw (hrx hnow)).tty p, fun hw hnow hthr => ?_,
        fun hw hnow => (hpri hw ((hann.attr hnow).resolve_right hwakes)).tty p⟩
      rcases hann.throttle hthr with hbefore | hyes | rfl
      · exact (hout hw (htx hnow) hbefore).imp (fun hs => hs.tty p) fun hm => by simp [Bed.tty, hm]
      · exact absurd hyes hwakes
      · exact Or.inr (by simp [Bed.tty, hb, htx hnow])

/-- A wake-up finds the daemon on its queue, or nobody. -/
theorem Bed.Attentive.of_wake (b : Bed β) (l : List Queue) :
    Bed.Attentive { b with owed := l, triggered := b.triggered || b.phase != .away } := by
  by_cases hb : b.phase = .away
  · exact .of_away hb
  · exact Bed.Stirred.attentive (Or.inl (by simp [hb]))

theorem Bed.Attentive.step {b b' : Bed β} (h : b.Attentive) (hstep : Bed.Step b b') :
    b'.Attentive := by
  cases hstep with
  | own c hb => exact .of_away hb
  | enter wanted _ => trivial
  | lookRx hb => exact fun hrx => Or.inl hrx
  | lookTx pollin hb =>
      rw [Bed.Attentive, hb] at h
      exact ⟨h, fun htx => Or.inl htx⟩
  | lookAttr pollin pollout hb => exact h.lookAttr hb
  | again _ _ => trivial
  | leave _ => trivial
  | tty p => exact h.tty p
  | wake q l l' howed => exact .of_wake b (l ++ l')

theorem Bed.Attentive.run {b₀ b : Bed β} (h : b₀.Attentive)
    (hrun : Relation.ReflTransGen Bed.Step b₀ b) : b.Attentive := by
  induction hrun with
  | refl => exact h
  | tail _ hstep ih => exact ih.step hstep

/-- A daemon that sleeps, and that nobody is about to wake, has nothing to wake up for, but
for a throttle that was lifted while it slept. -/
theorem no_lost_wakeup {b₀ b : Bed β} (h₀ : b₀.phase = .away)
    (hrun : Relation.ReflTransGen Bed.Step b₀ b) (hparked : b.phase = .parked)
    (hasleep : ¬ b.Stirred) :
    (b.wanted.pollin = true → (advProcPoll b.v).pollin = false) ∧
      (b.wanted.pollpri = true → (advProcPoll b.v).pollpri = false) ∧
      (b.wanted.pollout = true → (advProcPoll b.v).pollout = true → b.missed = true) := by
  have hatt := (Bed.Attentive.of_away h₀).run hrun
  rw [Bed.Attentive, hparked] at hatt
  obtain ⟨hin, hout, hpri⟩ := hatt
  refine ⟨fun hw => ?_, fun hw => ?_, fun hw hpoll => ?_⟩
  · exact Bool.eq_false_iff.mpr fun hyes => hasleep (hin hw hyes)
  · exact Bool.eq_false_iff.mpr fun hyes => hasleep (hpri hw hyes)
  · obtain ⟨hfree, hthr⟩ : b.v.txFree = true ∧ b.v.attr.throttled = false := by
      simpa [advProcPoll, Vcom.txFree] using hpoll
    exact (hout hw hfree hthr).resolve_left hasleep

/-- A port that has been opened, read by the daemon, and throttled. -/
def throttledPort : Vcom UInt8 :=
  advUartThrottle ((Call.ioctl [] Ioc.gAttrPtr.word (ownInt 0)).run (advUartStartup freshPort))

/-- The daemon, about to wait for everything. -/
def atThrottled : Bed UInt8 where
  v := throttledPort
  phase := .away
  wanted := ⟨true, true, true⟩
  triggered := false
  owed := []
  missed := false

/-- It is parked, and then the throttle is lifted; the tty finds TX empty. -/
def leftAsleep : Bed UInt8 :=
  (({ atThrottled with phase := .parked }).tty .unthrottle).tty (.recvLocked [])

theorem leftAsleep_run : Relation.ReflTransGen Bed.Step atThrottled leftAsleep := by
  have hparked : (Bed.lookAttr { atThrottled with phase := .atAttr false true } false true) =
      { atThrottled with phase := .parked } := by
    have hnone : atThrottled.wanted.none
        ⟨false, true && !atThrottled.v.attr.throttled, (advProcPoll atThrottled.v).pollpri⟩ = true := by
      decide
    simp only [Bed.lookAttr]
    rw [if_pos hnone]
  have henter : Bed.Step atThrottled { atThrottled with phase := .atRx } :=
    .enter atThrottled ⟨true, true, true⟩ rfl
  have hrx : Bed.Step { atThrottled with phase := .atRx }
      { atThrottled with phase := .atTx false } := .lookRx _ rfl
  have htx : Bed.Step { atThrottled with phase := .atTx false }
      { atThrottled with phase := .atAttr false true } := .lookTx _ false rfl
  have hattr : Bed.Step { atThrottled with phase := .atAttr false true }
      { atThrottled with phase := .parked } := hparked ▸ .lookAttr _ false true rfl
  exact ((((Relation.ReflTransGen.single henter).tail hrx).tail htx).tail hattr).tail
    (.tty _ .unthrottle) |>.tail (.tty _ (.recvLocked []))

/-- **The one that is lost**: `adv_proc_poll` would report POLLOUT, and nobody says so. -/
theorem no_lost_wakeup_but_one :
    leftAsleep.phase = .parked ∧ ¬ leftAsleep.Stirred ∧
      (advProcPoll leftAsleep.v).pollout = true ∧ leftAsleep.missed = true := by
  have hasleep : ¬ leftAsleep.Stirred := by
    rintro (h | h)
    · cases h
    · exact h (by decide)
  have hpoll : (advProcPoll leftAsleep.v).pollout = true := by decide
  exact ⟨rfl, hasleep, hpoll,
    (no_lost_wakeup rfl leftAsleep_run rfl hasleep).2.2 rfl hpoll⟩

end AdvVcom
