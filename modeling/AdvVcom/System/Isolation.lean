/-
# `AdvVcom.System.Isolation` — what one session leaves to the next

A session lasts from `adv_uart_startup` to `adv_uart_shutdown`.  The daemon learns of
both through a snapshot of the attributes that it takes when it likes, and nothing but
the daemon ever clears a ring.

**Proved here.**

    a session that begins before the daemon has seen the end of the last one
    inherits its bytes                                        (`old_byte_written`)
    sessions stay apart in every run in which each startup finds both rings empty
    and the daemon not about to close an old session           (`sessions_apart`)
-/
import AdvVcom.System.Runs

namespace AdvVcom

open Lib Lib.Ring

/-! ## A quick close and open -/

/-- A device that takes every packet, and a proc file with something to read. -/
def readyNet : (e : Req) → Option e.Rep
  | .select _ _ => some ⟨1, ⟨true, false, false, false, false⟩, 1⟩
  | e => silentNet e

/-- A byte is written and the tty is closed, all between two looks of the daemon. -/
theorem reach_left {C : VcAttr → Sys → Prop} {p p₀ : Proc VcSig VcAttr (Option LoopState)} {s : VcAttr}
    {w w₀ : Sys} (h : (systemWith C).Reach iteration p₀ w₀ p w) (hshow : p.state? = some s) (b : UInt8) :
    (systemWith C).Reach iteration p₀ w₀ p ((w.typed b).tty .shutdown) :=
  reach_tty (reach_typed h hshow b) hshow trivial fun hc => by cases hc

/-- The first round: the tty is open, and the daemon connects. -/
def connectedRun : Option (Option LoopState × VcAttr × Sys) :=
  ((mainStart (fun _ => 0) freshAttr).bind (rounds iteration 1)).exec (sysReply readyNet)
    (idleSys.tty .startup)

/-- The byte was written in the first session; two rounds after the second startup it has
been sent. -/
theorem reopenedRun_events :
    (connectedRun.bind fun r => ((Proc.done r.1 r.2.1).bind (rounds iteration 2)).exec
      (sysReply readyNet) (((r.2.2.typed 65).tty .shutdown).tty .startup)).map
        (fun r => (r.2.2.v.inSession, r.2.2.ses.count, r.2.2.ses.events)) =
      some (true, 2, [.wrote true [⟨65, 1, true⟩]]) := by
  decide +kernel

/-- A connected daemon that misses a close and the open after it sends the byte the old
session left in the ring to the device, in the new session. -/
theorem old_byte_written : ∃ ls s w,
    system.Reach iteration (mainStart (fun _ => 0) freshAttr) idleSys (.done ls s) w ∧
      w.v.inSession = true ∧ w.ses.count = 2 ∧
      (.wrote true [⟨65, 1, true⟩] : Event) ∈ w.ses.events ∧
      ¬ (.wrote true [⟨65, 1, true⟩] : Event).Isolated := by
  have hstart : system.Reach iteration (mainStart (fun _ => 0) freshAttr) idleSys
    (mainStart (fun _ => 0) freshAttr) idleSys := .start
  obtain ⟨⟨ls', s', w'⟩, hall, hout⟩ := Option.map_eq_some_iff.mp reopenedRun_events
  obtain ⟨⟨ls, s, w⟩, hfirst, hlater⟩ := Option.bind_eq_some_iff.mp hall
  have hopened := reach_tty (c := .startup) hstart rfl trivial fun _ => trivial
  have hconnected := Env.Reach.rounds (𝓔 := system) sysReply_legal 1 hopened hfirst
  have hreopened := reach_tty (c := .startup) (reach_left hconnected rfl 65) rfl trivial fun _ => trivial
  have hreach := Env.Reach.rounds (𝓔 := system) sysReply_legal 2 hreopened hlater
  simp only [Prod.mk.injEq] at hout
  obtain ⟨hin, hcount, hevents⟩ := hout
  refine ⟨ls', s', w', hreach, hin, hcount, ?_, fun h => ?_⟩
  · rw [hevents]
    exact List.mem_singleton_self _
  · exact absurd (h rfl ⟨65, 1, true⟩ (List.mem_singleton_self _)) (by decide)

/-! ## Sessions on empty rings -/

/-- **Sessions stay apart.**  In every run in which each `adv_uart_startup` finds both rings
empty and the daemon not between seeing a close and handling it: no byte that was in a
ring when a session ended goes into the tty or to the device in a later session, and no
close discards a byte of a session that began after it. -/
theorem sessions_apart {mctrl : UInt32} {page : Int → Cell} {fifo : Kfifo Cell} {buf : Mem} {s₀ s : VcAttr} {w : Sys}
    (hs : Fresh s₀) {p : Proc VcSig VcAttr (Option LoopState)}
    (hreach : (systemWith CanStart).Reach iteration (mainStart buf s₀) (Sys.init mctrl page fifo) p w)
    (hshow : p.state? = some s) : ∀ e ∈ w.ses.events, e.Isolated :=
  ((system_run hs hreach hshow).apart fun _ _ h => h).events

/-- The daemon gets to see changes of the attributes, too. -/
def noticeNet : (e : Req) → Option e.Rep
  | .select _ _ => some ⟨1, ⟨true, false, true, false, false⟩, 1⟩
  | .close => some ()
  | e => silentNet e

/-- After the close come two rounds: in the first one the daemon sees it, in the second
one it handles it. -/
def closedRun : Option (Option LoopState × VcAttr × Sys) :=
  connectedRun.bind fun r => ((Proc.done r.1 r.2.1).bind (rounds iteration 2)).exec
    (sysReply noticeNet) ((r.2.2.typed 65).tty .shutdown)

/-- The rings are empty then, and nothing is left to close. -/
theorem closedRun_canStart : closedRun.map (fun r => (r.2.2.ses.count, r.2.2.v.inSession,
    r.2.2.v.rx.content, r.2.2.v.tx.content, r.2.1.eki.isOpen)) = some (1, false, [], [], 0) := by
  decide +kernel

/-- The tty is opened again and another byte is written to it.  The daemon connects in the
second round from there, and the WRITE goes out. -/
theorem secondRun_events :
    (closedRun.bind fun r => ((Proc.done r.1 r.2.1).bind (rounds iteration 2)).exec
      (sysReply noticeNet) ((r.2.2.tty .startup).typed 66)).map
        (fun r => (r.2.2.ses.count, r.2.2.ses.events)) =
      some (2, [.discarded 1 [⟨65, 1, true⟩], .wrote true [⟨66, 2, false⟩]]) := by
  decide +kernel

/-- A run of two sessions: the close of the first one is handled before the second begins,
the byte left in the ring is discarded, and the byte of the second session is sent. -/
theorem sessions_apart_two : Fresh freshAttr ∧ CanStart freshAttr idleSys ∧
    (∃ ls s w, (systemWith CanStart).Reach iteration (mainStart (fun _ => 0) freshAttr) idleSys
      (.done ls s) w ∧ w.ses.count = 1 ∧ w.v.inSession = false ∧ CanStart s w) ∧ ∃ ls s w,
    (systemWith CanStart).Reach iteration (mainStart (fun _ => 0) freshAttr) idleSys (.done ls s) w ∧
      w.ses.count = 2 ∧
      w.ses.events = [.discarded 1 [⟨65, 1, true⟩], .wrote true [⟨66, 2, false⟩]] ∧
      ∀ e ∈ w.ses.events, e.Isolated := by
  have hfresh : Fresh freshAttr := ⟨rfl, rfl, Or.inl rfl⟩
  have hfirst : CanStart freshAttr idleSys := ⟨content_self, content_self, by decide⟩
  have hstart : (systemWith CanStart).Reach iteration (mainStart (fun _ => 0) freshAttr) idleSys
    (mainStart (fun _ => 0) freshAttr) idleSys := .start
  obtain ⟨⟨ls₂, s₂, w₂⟩, hall, hout⟩ := Option.map_eq_some_iff.mp secondRun_events
  obtain ⟨⟨ls₁, s₁, w₁⟩, hclosed, hsecond⟩ := Option.bind_eq_some_iff.mp hall
  obtain ⟨⟨ls, s, w⟩, hconnected, hhandled⟩ := Option.bind_eq_some_iff.mp hclosed
  have hopened := reach_tty (c := .startup) hstart rfl trivial fun _ => hfirst
  have hreach := Env.Reach.rounds (𝓔 := systemWith CanStart) sysReply_legal 1 hopened hconnected
  have hreach₁ := Env.Reach.rounds (𝓔 := systemWith CanStart) sysReply_legal 2 (reach_left hreach rfl 65)
    hhandled
  have hrings := closedRun_canStart
  simp only [hclosed, Option.map_some, Option.some.injEq, Prod.mk.injEq] at hrings
  obtain ⟨hone, hshut, hrx, htx, hclosing⟩ := hrings
  have hagain : CanStart s₁ w₁ := ⟨hrx, htx, fun h => by omega⟩
  have hreopened := reach_tty (c := .startup) hreach₁ rfl trivial fun _ => hagain
  have hreach₂ := Env.Reach.rounds (𝓔 := systemWith CanStart) sysReply_legal 2
    (reach_typed hreopened rfl 66) hsecond
  obtain ⟨hcount, hevents⟩ := Prod.mk.injEq .. ▸ hout
  exact ⟨hfresh, hfirst, ⟨ls₁, s₁, w₁, hreach₁, hone, hshut, hagain⟩, ls₂, s₂, w₂, hreach₂,
    hcount, hevents, sessions_apart hfresh hreach₂ rfl⟩

end AdvVcom
