/-
# `AdvVcom.Daemon.Stack` — the shape of the state stack

The environment is the most hostile one that plays by the rules of system calls:
every request may be answered by anything, except that `is_open` of an attribute view
is 0 or 1, as the driver writes it.  Nothing is assumed about frames, about `select`,
or about which calls fail.

**Proved here.**

    between two rounds the stack, the socket and `eki` fit together, and
    the daemon never dies                                      (`stack_shape`)

Dying covers a push on a full stack, a pop or a look at an empty one, a call of an
operation the current state does not have, the two `exit`s of Sync, and calls nested
deeper than `CALL_DEPTH`.
-/
import AdvVcom.Daemon.Aloof

namespace AdvVcom

open Lib

/-- `is_open` of a view is 0 or 1; nothing is required of other replies. -/
def Req.LegalRep : (e : Req) → e.Rep → Prop
  | .attrPtr, r => ∀ v : PortInfo, r = some v → v.isOpen = 0 ∨ v.isOpen = 1
  | _, _ => True

/-- Any reply at any time. -/
def anyReplies : Env VcSig VcAttr where
  World := Unit
  answers := fun _ e r _ => Req.LegalRep e r
  drift := fun _ _ _ => False

/-- How the stack, the socket and `eki` fit together between two rounds. -/
def StackFits (s : VcAttr) : Prop :=
  (s.stk = [.netdown] ∨ s.stk = [.netdown, .netup] ∨ s.stk = [.netdown, .pause] ∨
    s.stk = [.netdown, .netup, .idle] ∨ s.stk = [.netdown, .pause, .idle]) ∧
  (0 ≤ s.sk ↔ 2 ≤ s.stk.length) ∧
  (2 ≤ s.stk.length ↔ s.eki.isOpen = 1) ∧
  (s.stk = [.netdown] → s.tid = 0 ∧ s.xmitPending = 0 ∧ s.eki = ekiReset)

theorem Down.fits {s : VcAttr} (h : Down s) : StackFits s := by
  obtain ⟨hstk, hsk, htid, hpend, heki, _⟩ := h
  refine ⟨Or.inl hstk, ?_, ?_, fun _ => ⟨htid, hpend, heki⟩⟩
  · simp [hstk, hsk]
  · simp [hstk, heki, ekiReset, PortInfo.zero]

theorem Up.fits {s : VcAttr} {st : St} {top : List St} (h : Up st top s)
    (htop : top = [] ∨ top = [.idle]) : StackFits s := by
  obtain ⟨hst, hstk, hsk, heki, _⟩ := h
  refine ⟨?_, ?_, ?_, ?_⟩
  · rcases htop with rfl | rfl
    · rcases hst with rfl | rfl
      · exact Or.inr (Or.inl hstk)
      · exact Or.inr (Or.inr (Or.inl hstk))
    · rcases hst with rfl | rfl
      · exact Or.inr (Or.inr (Or.inr (Or.inl hstk)))
      · exact Or.inr (Or.inr (Or.inr (Or.inr hstk)))
  · simp [hstk, hsk]
  · simp [hstk, heki]
  · intro hdown
    rw [hstk] at hdown
    cases hdown

theorem Calm.fits {s : VcAttr} (h : Calm s) : StackFits s := by
  rcases h with h | ⟨st, h | h⟩
  · exact h.fits
  · exact h.fits (Or.inl rfl)
  · exact h.fits (Or.inr rfl)

/-! ## Nothing to keep -/

theorem anyReplies_aloof : Aloof anyReplies (fun _ _ => True) (fun _ _ => True) where
  only := fun _ _ _ _ => trivial
  weak := fun _ _ => trivial
  drift := fun _ _ => trivial
  quiet := fun _ _ _ => trivial
  only_weak := fun _ _ => trivial
  drift_weak := fun _ _ => trivial
  quiet_weak := fun _ _ _ => trivial
  view := fun h _ => ⟨h _ rfl, trivial⟩

theorem anyReplies_keeps : Keeps anyReplies (fun _ _ => True) (fun _ _ => True)
    (fun _ _ => True) (fun _ _ => True) (fun _ _ _ _ => True) := by
  refine anyReplies_aloof.keeps anyReplies_aloof.stable (fun _ _ _ => trivial)
    (fun _ _ => trivial) (fun _ _ _ _ => trivial) (fun _ _ _ _ => trivial) (fun _ _ _ => trivial)
    (fun _ _ => trivial) (fun _ _ _ _ => trivial) ?_ ?_ ?_
  · intro st s w h hj
    exact anyReplies_aloof.tuned (f := id) (fun _ _ _ => trivial) (fun _ _ => trivial)
      (syncAll_steady h.raised.ne_nil) h hj
  · intro st s w h hj
    exact anyReplies_aloof.tuned (f := (· != some false)) (fun _ _ _ => trivial) (fun _ _ => trivial)
      (ioctlSend_steady h.raised.ne_nil) h hj
  · intro st top s w buf h hj
    exact anyReplies_aloof.received (fun _ _ _ => trivial) (fun _ _ => trivial) buf h hj

/-- **The shape of the stack.**  In every run of main, whatever the replies: the daemon
never dies, and between two rounds the stack, the socket and `eki` fit together. -/
theorem stack_shape {s₀ : VcAttr} (hfresh : Fresh s₀) (buf : Mem)
    {p : Proc VcSig VcAttr (Option LoopState)}
    (hreach : anyReplies.Reach iteration (mainStart buf s₀) () p ()) :
    (∀ f, p ≠ .fault f) ∧ ∀ ls s, p = .done ls s → StackFits s := by
  have hwp := anyReplies_keeps.run (anyReplies_aloof.ready hfresh trivial) hreach
  constructor
  · rintro f rfl
    exact hwp
  · rintro ls s rfl
    exact hwp.1.fits

/-- A device that takes every packet, a tty that is open, and nothing to wait for. -/
def openReplies : Unit → (e : Req) → Option (e.Rep × Unit)
  | _, .ioctl _ _ => some (some (0 : Int), ())
  | _, .attrPtr => some (some { PortInfo.zero with isOpen := 1, baud := 9600, byte := 8 }, ())
  | _, .connect => some ((3 : Int), ())
  | _, .fdcheck => some (true, ())
  | _, .send _ => some (true, ())
  | _, .select _ _ => some (⟨1, ⟨false, false, false, false, false⟩, 1⟩, ())
  | _, _ => none

/-- Main's variables at the start, without TLS. -/
def freshAttr : VcAttr :=
  { sk := -1, xmitPending := 0, ssl := none, port := 1, tid := 0, devid := 0, stk := [],
    eki := .zero, view := .zero, tx := ⟨0, 0, 0, 0⟩, rx := ⟨0, 0, 0, 0⟩ }

theorem openReplies_legal {w : Unit} {e : Req} {r : e.Rep} {w' : Unit}
    (h : openReplies w e = some (r, w')) : anyReplies.answers w e r w' := by
  cases e with
  | attrPtr =>
      cases h
      intro v hv
      cases hv
      exact Or.inr rfl
  | _ => trivial

/-- One round after the start the daemon is connected. -/
theorem openRun_stk :
    (((mainStart (fun _ => 0) freshAttr).bind (rounds iteration 1)).exec openReplies ()).map
      (fun r => r.2.1.stk) = some [.netdown, .netup] := by
  decide +kernel

theorem stack_shape_connected : Fresh freshAttr ∧ ∃ ls s,
    anyReplies.Reach iteration (mainStart (fun _ => 0) freshAttr) () (.done ls s) () ∧
      s.stk = [.netdown, .netup] ∧ StackFits s := by
  have hfresh : Fresh freshAttr := ⟨rfl, rfl, Or.inl rfl⟩
  obtain ⟨⟨ls, s, w⟩, hrun, hstk⟩ := Option.map_eq_some_iff.mp openRun_stk
  have hreach := Env.Reach.rounds (𝓔 := anyReplies) openReplies_legal 1 .start hrun
  exact ⟨hfresh, ls, s, hreach, hstk, (stack_shape hfresh _ hreach).2 ls s rfl⟩

end AdvVcom
