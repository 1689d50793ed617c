/-
# `AdvVcom.Lib.Snprintf` — texts printed piece by piece

A text is printed by calls of `snprintf`, each at the place in the buffer where the one
before it would have ended, and each with the room that would be left there.  The room is
an `int`: once the text is longer than the buffer it is negative, and for `snprintf`, which
takes a `size_t`, it is then larger than any text.

A call gets the place (`none` is no buffer) and the room, and gives the length and what it
wrote where.  An `int` that would overflow is a fault.

**Proved here.**

    a row of calls prints the pieces of each of them        (`prints_walk`)
    no write leaves the buffer exactly if the last piece
    begins in it or at its end                              (`inBounds_iff`)
    with room for it all, the text comes to stand there     (`write_chunks`)
-/
import AdvVcom.Lib.Bytes
import Mathlib.Algebra.Ring.Int.Defs
import Mathlib.Data.List.Forall2

namespace Lib.Snprintf

def INT_MAX : Int := 2 ^ 31 - 1

inductive Fault
  | overflow | null
  deriving DecidableEq, Repr

structure Printed where
  ret : Int
  writes : List (Nat × List UInt8)
  deriving DecidableEq

abbrev Print := Option Nat → Int → Except Fault Printed

/-- The value of an `int` expression. -/
def int (x : Int) : Except Fault Int :=
  if -INT_MAX - 1 ≤ x ∧ x ≤ INT_MAX then .ok x else .error .overflow

/-- What is written of a piece, with the room converted to `size_t`. -/
def chunk (off : Nat) (room : Int) (text : List UInt8) : List (Nat × List UInt8) :=
  let size := (room % 2 ^ 64).toNat
  if size = 0 then [] else [(off, text.take (size - 1) ++ [0])]

/-- `snprintf` with a text already put together.  Its length has to be an `int`. -/
def snprintf (text : List UInt8) : Print := fun out room => do
  let ret ← int text.length
  .ok ⟨ret, match out with
    | none => []
    | some off => chunk off room text⟩

/-- A length that is not positive counts for nothing. -/
def counted (call : Print) : Print := fun out room => do
  let r ← call out room
  .ok { r with ret := if r.ret ≤ 0 then 0 else r.ret }

/-- `retlen += call(&out[retlen], outlen - retlen)` for one call after the other. -/
def walkFrom (out : Option Nat) (outlen : Int) : List Print → Printed → Except Fault Printed
  | [], acc => .ok acc
  | call :: calls, acc => do
      let room ← int (outlen - acc.ret)
      let r ← call (out.map (· + acc.ret.toNat)) room
      let ret ← int (acc.ret + r.ret)
      walkFrom out outlen calls ⟨ret, acc.writes ++ r.writes⟩

def walk (calls : List Print) : Print := fun out outlen => walkFrom out outlen calls ⟨0, []⟩

/-! ## The pieces of a text -/

/-- What is written of the pieces `ps` from `off` on. -/
def chunks : Nat → Int → List (List UInt8) → List (Nat × List UInt8)
  | _, _, [] => []
  | off, room, p :: ps => chunk off room p ++ chunks (off + p.length) (room - p.length) ps

def written (out : Option Nat) (room : Int) (ps : List (List UInt8)) : List (Nat × List UInt8) :=
  match out with
  | none => []
  | some off => chunks off room ps

/-- The call prints the pieces `ps`, unless a number in it overflows, and returns nothing
but their length. -/
structure Prints (call : Print) (ps : List (List UInt8)) : Prop where
  fits : ∀ out room, (ps.flatten.length : Int) ≤ INT_MAX → -INT_MAX ≤ room - ps.flatten.length →
    room ≤ INT_MAX → call out room = .ok ⟨ps.flatten.length, written out room ps⟩
  exact : ∀ out room r, call out room = .ok r →
    r.ret = ps.flatten.length ∧ r.ret ≤ INT_MAX

theorem int_ok {x : Int} (hlo : -INT_MAX ≤ x) (hhi : x ≤ INT_MAX) : int x = .ok x :=
  if_pos ⟨by omega, hhi⟩

theorem eq_of_int {x y : Int} (h : int x = .ok y) : y = x ∧ y ≤ INT_MAX := by
  unfold int at h
  split at h
  · rename_i hx
    cases h
    exact ⟨rfl, hx.2⟩
  · cases h

theorem bind_eq_ok {α β : Type} {x : Except Fault α} {f : α → Except Fault β} {b : β}
    (h : x >>= f = .ok b) : ∃ a, x = .ok a ∧ f a = .ok b := by
  cases x with
  | error e => cases h
  | ok a => exact ⟨a, rfl, h⟩

theorem ok_bind {α β : Type} (a : α) (f : α → Except Fault β) : Except.ok a >>= f = f a := rfl

theorem chunks_append (off : Nat) (room : Int) (ps qs : List (List UInt8)) :
    chunks off room (ps ++ qs) =
      chunks off room ps ++ chunks (off + ps.flatten.length) (room - ps.flatten.length) qs := by
  induction ps generalizing off room with
  | nil => simp [chunks]
  | cons p ps ih =>
      rw [List.cons_append, chunks, ih, chunks, List.append_assoc, List.flatten_cons,
        List.length_append, Nat.add_assoc, Int.natCast_add, Int.sub_sub]

theorem written_append (out : Option Nat) (room : Int) (ps qs : List (List UInt8)) :
    written out room (ps ++ qs) =
      written out room ps ++
        written (out.map (· + ps.flatten.length)) (room - ps.flatten.length) qs := by
  cases out with
  | none => rfl
  | some off => exact chunks_append off room ps qs

theorem prints_snprintf (text : List UInt8) : Prints (snprintf text) [text] := by
  refine ⟨fun out room hlen hroom hmax => ?_, fun out room r h => ?_⟩
  · rw [List.flatten_singleton] at hlen ⊢
    have hint : int text.length = .ok (text.length : Int) := int_ok (by unfold INT_MAX; omega) hlen
    unfold snprintf
    rw [hint]
    cases out with
    | none => rfl
    | some off =>
        refine congrArg (fun ws => Except.ok (Printed.mk text.length ws)) ?_
        exact (List.append_nil _).symm
  · obtain ⟨ret, hret, hr⟩ := bind_eq_ok h
    cases hr
    rw [List.flatten_singleton]
    exact eq_of_int hret

theorem Prints.counted {call : Print} {ps : List (List UInt8)} (h : Prints call ps) :
    Prints (counted call) ps := by
  have hpos : (if (ps.flatten.length : Int) ≤ 0 then 0 else (ps.flatten.length : Int)) =
      ps.flatten.length := by
    split <;> omega
  refine ⟨fun out room hlen hroom hmax => ?_, fun out room r hr => ?_⟩
  · rw [Snprintf.counted, h.fits out room hlen hroom hmax]
    exact congrArg (fun n => Except.ok (Printed.mk n (written out room ps))) hpos
  · obtain ⟨r', hcall, heq⟩ := bind_eq_ok hr
    obtain ⟨hret, hmax⟩ := h.exact _ _ _ hcall
    cases heq
    rw [hret] at hmax
    simp only [hret, hpos]
    exact ⟨trivial, hmax⟩

/-- One call of a row, with no overflow. -/
theorem walkFrom_cons {call : Print} {out : Option Nat} {outlen : Int} {n : Nat} {r : Printed}
    (hroom : int (outlen - n) = .ok (outlen - n))
    (hcall : call (out.map (· + n)) (outlen - n) = .ok r)
    (hret : int (n + r.ret) = .ok (n + r.ret)) (calls : List Print) (ws : List (Nat × List UInt8)) :
    walkFrom out outlen (call :: calls) ⟨n, ws⟩ =
      walkFrom out outlen calls ⟨n + r.ret, ws ++ r.writes⟩ := by
  rw [walkFrom]
  simp only [hroom, Int.toNat_natCast]
  change (call (out.map (· + n)) (outlen - n) >>= _) = _
  rw [hcall]
  change (int (n + r.ret) >>= _) = _
  rw [hret]
  rfl

theorem walkFrom_prints {calls : List Print} {pss : List (List (List UInt8))}
    (h : List.Forall₂ Prints calls pss) (out : Option Nat) (outlen : Int) (n : Nat)
    (ws : List (Nat × List UInt8)) (hlen : (n : Int) + pss.flatten.flatten.length ≤ INT_MAX)
    (hroom : -INT_MAX ≤ outlen - (n + pss.flatten.flatten.length)) (hmax : outlen ≤ INT_MAX) :
    walkFrom out outlen calls ⟨n, ws⟩ =
      .ok ⟨n + pss.flatten.flatten.length,
        ws ++ written (out.map (· + n)) (outlen - n) pss.flatten⟩ := by
  induction h generalizing n ws with
  | nil =>
      cases out with
      | none => simp [walkFrom, written]
      | some off => simp [walkFrom, written, chunks]
  | @cons call ps calls pss hcall hrest ih =>
      simp only [List.flatten_cons, List.flatten_append, List.length_append, Int.natCast_add]
        at hlen hroom ⊢
      have hprint := hcall.fits (out.map (· + n)) (outlen - n) (by omega) (by omega) (by omega)
      rw [walkFrom_cons (int_ok (by omega) (by omega)) hprint
        (int_ok (by simp only [INT_MAX]; omega) (by simp only; omega))]
      have hih := ih (n + ps.flatten.length)
        (ws ++ written (out.map (· + n)) (outlen - n) ps) (by omega) (by omega)
      rw [Int.natCast_add] at hih
      have hout : out.map (· + (n + ps.flatten.length)) =
          (out.map (· + n)).map (· + ps.flatten.length) := by
        cases out with
        | none => rfl
        | some off => simp [Nat.add_assoc]
      refine hih.trans ?_
      rw [written_append, List.append_assoc, Int.add_assoc, hout, ← Int.sub_sub]

theorem walkFrom_exact {calls : List Print} {pss : List (List (List UInt8))}
    (h : List.Forall₂ Prints calls pss) {out : Option Nat} {outlen : Int} {acc r : Printed}
    (hacc : acc.ret ≤ INT_MAX) (hr : walkFrom out outlen calls acc = .ok r) :
    r.ret = acc.ret + pss.flatten.flatten.length ∧ r.ret ≤ INT_MAX := by
  induction h generalizing acc with
  | nil =>
      cases hr
      exact ⟨by simp, hacc⟩
  | @cons call ps calls pss hcall hrest ih =>
      obtain ⟨room, -, hr⟩ := bind_eq_ok hr
      obtain ⟨r', hr', hr⟩ := bind_eq_ok hr
      obtain ⟨ret, hret, hr⟩ := bind_eq_ok hr
      obtain ⟨heq, hmax⟩ := eq_of_int hret
      obtain ⟨hfinal, hle⟩ := ih hmax hr
      rw [(hcall.exact _ _ _ hr').1] at heq
      refine ⟨hfinal.trans ?_, hle⟩
      simp only [heq, List.flatten_cons, List.flatten_append, List.length_append]
      omega

/-- The calls print the pieces `ps` between them. -/
def PrintsAll (calls : List Print) (ps : List (List UInt8)) : Prop :=
  ∃ pss, List.Forall₂ Prints calls pss ∧ pss.flatten = ps

theorem PrintsAll.nil : PrintsAll [] [] := ⟨[], .nil, rfl⟩

theorem PrintsAll.cons {call : Print} {calls : List Print} {ps qs : List (List UInt8)}
    (h : Prints call ps) : PrintsAll calls qs → PrintsAll (call :: calls) (ps ++ qs) := by
  rintro ⟨qss, hcalls, rfl⟩
  exact ⟨ps :: qss, .cons h hcalls, rfl⟩

theorem PrintsAll.append {calls calls' : List Print} {ps qs : List (List UInt8)} :
    PrintsAll calls ps → PrintsAll calls' qs → PrintsAll (calls ++ calls') (ps ++ qs) := by
  rintro ⟨pss, hcalls, rfl⟩ ⟨qss, hcalls', rfl⟩
  exact ⟨pss ++ qss, List.rel_append hcalls hcalls', List.flatten_append⟩

theorem PrintsAll.one {call : Print} {ps : List (List UInt8)} (h : Prints call ps) :
    PrintsAll [call] ps := by
  have hone := PrintsAll.cons h .nil
  rwa [List.append_nil] at hone

theorem PrintsAll.replicate {call : Print} {p : List UInt8} (h : Prints call [p]) (n : Nat) :
    PrintsAll (List.replicate n call) (List.replicate n p) := by
  induction n with
  | zero => exact .nil
  | succ n ih => exact .cons h ih

/-- A row of calls prints the pieces of each of them. -/
theorem prints_walk {calls : List Print} {ps : List (List UInt8)} :
    PrintsAll calls ps → Prints (walk calls) ps := by
  rintro ⟨pss, h, rfl⟩
  refine ⟨fun out room hlen hroom hmax => ?_, fun out room r hr => ?_⟩
  · have hwalk := walkFrom_prints h out room 0 [] (by omega) (by omega) hmax
    rw [walk]
    refine hwalk.trans ?_
    cases out <;> simp
  · have hexact := walkFrom_exact h (by decide) hr
    rwa [Int.zero_add] at hexact

theorem prints_nothing : Prints (fun _ _ => .ok ⟨0, []⟩) [] := by
  refine ⟨fun out room hlen hroom hmax => ?_, fun out room r hr => ?_⟩
  · cases out <;> rfl
  · cases hr
    exact ⟨rfl, by decide⟩

/-- Without a buffer the room does not matter. -/
theorem Prints.unless_null {call : Print} {ps : List (List UInt8)} (h : Prints call ps) :
    Prints (fun out room => call out (if out = none then 0 else room)) ps := by
  refine ⟨fun out room hlen hroom hmax => ?_, fun out room r hr => h.exact _ _ _ hr⟩
  cases out with
  | none => exact h.fits none 0 hlen (by omega) (by decide)
  | some off => exact h.fits (some off) room hlen hroom hmax

/-! ## What is written -/

/-- Nothing is written at `n` or beyond. -/
def InBounds (n : Int) (ws : List (Nat × List UInt8)) : Prop :=
  ∀ w ∈ ws, ((w.1 + w.2.length : Nat) : Int) ≤ n

theorem inBounds_append {n : Int} {ws vs : List (Nat × List UInt8)} :
    InBounds n (ws ++ vs) ↔ InBounds n ws ∧ InBounds n vs :=
  List.forall_mem_append

section
variable {n : Int} {off : Nat}

theorem chunk_inBounds_iff (hn : 0 ≤ n) (hmax : n ≤ INT_MAX) {p : List UInt8}
    (hoff : ((off + p.length : Nat) : Int) ≤ INT_MAX) :
    InBounds n (chunk off (n - off) p) ↔ (off : Int) ≤ n := by
  unfold INT_MAX at hmax hoff
  simp only [chunk]
  rcases Int.lt_trichotomy off n with hlt | heq | hgt
  · have hsize : ((n - off) % 2 ^ 64).toNat = (n - off).toNat := by
      rw [Int.emod_eq_of_lt (by omega) (by omega)]
    rw [hsize, if_neg (by omega)]
    refine iff_of_true (List.forall_mem_singleton.mpr ?_) (Int.le_of_lt hlt)
    simp only [List.length_append, List.length_take, List.length_singleton]
    omega
  · have hsize : ((n - off) % 2 ^ 64).toNat = 0 := by
      rw [heq, Int.sub_self]
      rfl
    rw [if_pos hsize]
    exact iff_of_true (fun w hw => nomatch hw) (Int.le_of_eq heq)
  · -- the room is negative, and a large `size_t`
    have hsize : ((n - off) % 2 ^ 64).toNat ≠ 0 := by omega
    rw [if_neg hsize]
    refine iff_of_false (fun h => ?_) (Int.not_le.mpr hgt)
    have hle := List.forall_mem_singleton.mp h
    simp only [List.length_append, List.length_singleton] at hle
    omega

/-- The writes stay in a buffer of `n` bytes exactly if every piece begins in it or at its
end, and for that the last one is enough. -/
theorem inBounds_iff (hn : 0 ≤ n) (hmax : n ≤ INT_MAX) {ps : List (List UInt8)}
    (hoff : ((off + ps.flatten.length : Nat) : Int) ≤ INT_MAX) :
    InBounds n (chunks off (n - off) ps) ↔
      ps = [] ∨ ((off + ps.dropLast.flatten.length : Nat) : Int) ≤ n := by
  induction ps generalizing off with
  | nil => simp [chunks, InBounds]
  | cons p ps ih =>
      rw [List.flatten_cons, List.length_append] at hoff
      have hrest := @ih (off + p.length) (by omega)
      rw [Int.natCast_add, ← Int.sub_sub] at hrest
      rw [chunks, inBounds_append, chunk_inBounds_iff hn hmax (by omega), hrest]
      cases ps with
      | nil => simp
      | cons q qs =>
          simp only [List.dropLast_cons_cons, List.flatten_cons, List.length_append, List.cons_ne_nil,
            false_or]
          omega

end

theorem chunk_eq {room : Int} {p : List UInt8} (hroom : (p.length : Int) < room)
    (hmax : room ≤ INT_MAX) (off : Nat) : chunk off room p = [(off, p ++ [0])] := by
  unfold INT_MAX at hmax
  have hsize : (room % 2 ^ 64).toNat = room.toNat := by
    rw [Int.emod_eq_of_lt (by omega) (by omega)]
  simp only [chunk, hsize]
  rw [if_neg (by omega), List.take_of_length_le (by omega)]

/-- With room for it all, the text comes to stand in the buffer, and a zero behind it. -/
theorem write_chunks {ps : List (List UInt8)} (hne : ps ≠ []) {room : Int}
    (hroom : (ps.flatten.length : Int) < room) (hmax : room ≤ INT_MAX) (m : Mem) (off : Nat) :
    m.write (chunks off room ps) = m.blit off (ps.flatten ++ [0]) := by
  induction ps generalizing m off room with
  | nil => exact absurd rfl hne
  | cons p ps ih =>
      rw [List.flatten_cons, List.length_append] at hroom
      rw [chunks, chunk_eq (by omega) hmax, List.flatten_cons]
      cases ps with
      | nil => simp [chunks, Mem.write]
      | cons q qs =>
          refine (ih (List.cons_ne_nil q qs) (by omega) (by omega) (m.blit off (p ++ [0]))
            (off + p.length)).trans ?_
          -- the zero behind the piece gives way to the next one
          have hzero : [(0 : UInt8)].length ≤ ((q :: qs).flatten ++ [0]).length := by
            rw [List.length_append]
            exact Nat.le_add_left _ _
          rw [← Mem.blit_blit m off p [0], Mem.blit_over _ _ hzero, Mem.blit_blit,
            List.append_assoc]

end Lib.Snprintf
